import FastPath.Heap.Allocation

/-!
Property storage. The storage of an object is a field. As a dictionary it is a row of items, each
with a key, a value and attributes, and an item is free while its key is the hole; dense storage
is indexed by small integers. A dictionary without a free item moves to a field of twice the size.
-/

namespace FastPath

/-- Where an object keeps a property. -/
inductive Slot where
  | dense (index : Nat)
  | item (index : Nat)
  deriving DecidableEq, Inhabited

/-- The offset of a slot of a field. -/
def slotOffset (index : Nat) : Nat := Layout.Field.data + index * Layout.word

/-- The offset of one part of a dictionary item. -/
def itemOffset (item part : Nat) : Nat := slotOffset (item * Layout.Item.words + part)

namespace Slot

def index : Slot → Nat
  | dense i | item i => i

def valueOffset : Slot → Nat
  | dense i => slotOffset i
  | item i => itemOffset i Layout.Item.value

end Slot

namespace Heap

/-- The storage of an object, if it has one. -/
def storage? (h : Heap) (obj : Word) : Except HeapError (Option Word) := do
  if h.isObjectLike obj then
    let storage ← h.load obj Layout.Object.storage
    return if h.kind? storage == some .field then some storage else none
  else return none

/-- The length of a storage field. A negative length counts as zero. -/
def fieldLength (h : Heap) (storage : Word) : Except HeapError Nat :=
  return (← h.loadInt storage Layout.Field.length).toNat

def isDense (h : Heap) (obj : Word) : Except HeapError Bool :=
  h.loadFlag obj Layout.Object.flags Layout.Object.dense

/-- The first of `count` items from `item` on that has the key. -/
def findItem (h : Heap) (storage key : Word) :
    (count item : Nat) → Except HeapError (Option Nat)
  | 0, _ => return none
  | count + 1, item => do
    if (← h.load storage (itemOffset item Layout.Item.key)) = key then return some item
    else findItem h storage key count (item + 1)

/-- The own slot of a property. -/
def ownSlot (h : Heap) (obj key : Word) : Except HeapError (Option Slot) := do
  match ← h.storage? obj with
  | none => return none
  | some storage =>
    let slots ← h.fieldLength storage
    if ← h.isDense obj then
      return match key.int? with
        | some (.ofNat i) => if i < slots then some (.dense i) else none
        | _ => none
    else return (← h.findItem storage key (slots / Layout.Item.words) 0).map .item

/-- The value in a slot of an object. -/
def loadSlot (h : Heap) (obj : Word) (s : Slot) : Except HeapError Word := do
  h.load (← h.load obj Layout.Object.storage) s.valueOffset

def storeSlot (obj : Word) (s : Slot) (value : Word) : HeapM Unit := do
  let storage ← query fun h => h.load obj Layout.Object.storage
  store storage s.valueOffset value

/-- Copies `count` slots from one field to another, from `index` on. -/
def copySlots (source target : Word) : (count index : Nat) → HeapM Unit
  | 0, _ => pure ()
  | count + 1, index => do
    let w ← query fun h => h.load source (slotOffset index)
    store target (slotOffset index) w
    copySlots source target count (index + 1)

/-- Gives an object a storage with room for twice as many items, and copies the items there. -/
def enlarge (obj : Word) (old : Option Word) (items : Nat) : HeapM Word := do
  let room := max (items * 2) Layout.Object.items
  let storage ← allocateField (room * Layout.Item.words)
  match old with
  | some old => copySlots old storage (items * Layout.Item.words) 0
  | none => pure ()
  store obj Layout.Object.storage storage
  return storage

/-- Claims a free item for a new key, growing the storage if there is none. Dense storage has no
room for keys outside its bounds. -/
def claimItem? (obj key : Word) : HeapM (Option Slot) := do
  if ← query fun h => h.isDense obj then return none
  let storage ← match ← query fun h => h.storage? obj with
    | some storage => pure storage
    | none => enlarge obj none 0
  let items := (← query fun h => h.fieldLength storage) / Layout.Item.words
  let (storage, item) ← match ← query fun h => h.findItem storage .hole items 0 with
    | some item => pure (storage, item)
    | none => do pure (← enlarge obj (some storage) items, items)
  store storage (itemOffset item Layout.Item.key) key
  store storage (itemOffset item Layout.Item.attributes) (.int Layout.Pair.data)
  return some (.item item)

/-- Frees a slot. -/
def clearSlot (obj : Word) (s : Slot) : HeapM Unit := do
  let storage ← query fun h => h.load obj Layout.Object.storage
  match s with
  | .dense _ => store storage s.valueOffset .hole
  | .item i =>
    store storage (itemOffset i Layout.Item.key) .hole
    store storage (itemOffset i Layout.Item.value) .hole
    store storage (itemOffset i Layout.Item.attributes) .hole

/-- What a property read comes to. -/
inductive Found where
  | value (w : Word)
  | getter (callee : Word)
  deriving DecidableEq

/-- Prototypes that a lookup visits before it gives up. -/
def hopLimit : Nat := 1024

/-- Looks a property up in the first `hops` holders of a prototype chain. Holes, missing getters
and missing properties read as `undefined`. -/
def findFrom (h : Heap) (key : Word) : (hops : Nat) → (holder : Word) → Except HeapError Found
  | 0, _ => return .value .undefined
  | hops + 1, holder => do
    if holder.isInt || holder.isNullish then return .value .undefined
    match ← h.ownSlot holder key with
    | some s =>
      let w ← h.loadSlot holder s
      if h.isPair w then
        let getter ← h.load w Layout.Pair.getter
        return if getter = .hole then .value .undefined else .getter getter
      else return .value (if w = .hole then .undefined else w)
    | none => findFrom h key hops (← h.load (← h.mapOf holder) Layout.Map.proto)

def find (h : Heap) (obj key : Word) : Except HeapError Found := h.findFrom key hopLimit obj

/-- The accessor pair that stands in the way of writing `value` to a slot. A pair is written as
it is, and so replaces another. -/
def pairIn? (h : Heap) (obj : Word) (s : Slot) (value : Word) : Except HeapError (Option Word) := do
  if h.isPair value then return none
  let current ← h.loadSlot obj s
  return if h.isPair current then some current else none

/-- Whether a value counts as true: integers unless zero, atoms unless empty, `true`, and every
entity that is not a singleton. -/
def isTruthy (h : Heap) (w : Word) : Except HeapError Bool :=
  match w.int? with
  | some n => return n != 0
  | none =>
    if w.isNullish then return false
    else match h.kind? w with
      | some .boolean => return (← h.loadInt w Layout.Boolean.value) != 0
      | some .atom => return (h.atomName? w).any fun name => !name.isEmpty
      | _ => return true

end Heap

end FastPath

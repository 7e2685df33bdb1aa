import FastPath.Proofs.Heap.Memory
import FastPath.Property.Storage

/-! Objects that have their storage in a field of their own. On them every lookup succeeds, and
what it finds is said by the words of the field alone. -/

namespace FastPath

/-- The slot of the field that holds the value. -/
def Slot.position : Slot → Nat
  | .dense i => i
  | .item i => i * Layout.Item.words + Layout.Item.value

theorem Slot.valueOffset_eq (s : Slot) : s.valueOffset = slotOffset s.position := by
  cases s <;> rfl

theorem slotOffset_eq (j : Nat) : slotOffset j = 8 * (j + 2) := by
  simp only [slotOffset, Layout.Field.data, Layout.word]
  omega

namespace Heap

def storageOf (h : Heap) (o : Word) : Word := h.word (o.toNat + Layout.Object.storage)

def slots (h : Heap) (o : Word) : Nat :=
  ((h.word ((h.storageOf o).toNat + Layout.Field.length)).int?.getD 0).toNat

def slotAddress (h : Heap) (o : Word) (j : Nat) : Nat := (h.storageOf o).toNat + slotOffset j

def slotWord (h : Heap) (o : Word) (j : Nat) : Word := h.word (h.slotAddress o j)

def items (h : Heap) (o : Word) : Nat := h.slots o / Layout.Item.words

def key (h : Heap) (o : Word) (i : Nat) : Word :=
  h.slotWord o (i * Layout.Item.words + Layout.Item.key)

def value (h : Heap) (o : Word) (i : Nat) : Word := h.slotWord o (Slot.item i).position

/-- Whether a bit of `mask` is set among the flags of an object. -/
def flagged (h : Heap) (o : Word) (mask : Int) : Bool :=
  Bits.overlap ((h.word (o.toNat + Layout.Object.flags)).int?.getD 0) mask

/-- An object with its flags, whatever it has for a storage. -/
structure Bare (h : Heap) (o : Word) : Prop where
  object : h.Spans o 3
  kind : h.isObjectLike o = true
  flags : ∃ n, (h.word (o.toNat + Layout.Object.flags)).int? = some n

structure Backed (h : Heap) (o : Word) : Prop where
  object : h.Spans o 3
  kind : h.isObjectLike o = true
  flags : ∃ n, (h.word (o.toNat + Layout.Object.flags)).int? = some n
  field : h.kind? (h.storageOf o) = some .field
  length : (h.word ((h.storageOf o).toNat + Layout.Field.length)).int? = some (h.slots o : Int)
  storage : h.Spans (h.storageOf o) (h.slots o + 2)
  apart : o.toNat + 24 ≤ (h.storageOf o).toNat ∨
    (h.storageOf o).toNat + 8 * (h.slots o + 2) ≤ o.toNat

/-- The first item of the dictionary that has the key. -/
def itemOf (h : Heap) (o key : Word) : Option Nat :=
  (List.range (h.items o)).find? fun i => h.key o i == key

/-- Where the object keeps a property. -/
def own (h : Heap) (o key : Word) : Option Slot :=
  if h.flagged o Layout.Object.dense then
    match key.int? with
    | some (.ofNat i) => if i < h.slots o then some (.dense i) else none
    | _ => none
  else (h.itemOf o key).map .item

variable {h h' : Heap} {o k v : Word} {i j : Nat} {s : Slot}

theorem itemOf_some : h.itemOf o k = some i ↔
    i < h.items o ∧ h.key o i = k ∧ ∀ j < i, h.key o j ≠ k := by
  simp only [itemOf, List.find?_range_eq_some, beq_iff_eq, List.mem_range, Bool.not_eq_true',
    beq_eq_false_iff_ne]
  tauto

theorem itemOf_none : h.itemOf o k = none ↔ ∀ i < h.items o, h.key o i ≠ k := by
  simp [itemOf]

theorem item_position (bound : i < h.items o) : (Slot.item i).position < h.slots o ∧
    i * Layout.Item.words + Layout.Item.key < h.slots o ∧
    i * Layout.Item.words + Layout.Item.attributes < h.slots o := by
  simp only [items, Slot.position, Layout.Item.words, Layout.Item.value, Layout.Item.key,
    Layout.Item.attributes] at bound ⊢
  omega

theorem own_position (found : h.own o k = some s) : s.position < h.slots o := by
  unfold own at found
  split at found
  · split at found
    · split at found
      · cases found
        assumption
      · cases found
    · cases found
  · obtain ⟨i, place, rfl⟩ := Option.map_eq_some_iff.mp found
    exact (item_position (itemOf_some.mp place).1).1

theorem Bare.loadFlag (sound : h.Sound) (bare : h.Bare o) (mask : Int) :
    h.loadFlag o Layout.Object.flags mask = .ok (h.flagged o mask) := by
  obtain ⟨n, flags⟩ := bare.flags
  have loaded := bare.object.load (d := Layout.Object.flags) sound rfl (by decide)
  rw [Heap.loadFlag, loadInt, loaded, flagged]
  simp only [bind, Except.bind, flags]
  rfl

/-- Without a storage an object has no property. -/
theorem ownSlot_none (none : h.storage? o = .ok none) : h.ownSlot o k = .ok .none := by
  rw [ownSlot, none]
  rfl

theorem Backed.bare (backed : h.Backed o) : h.Bare o := ⟨backed.object, backed.kind, backed.flags⟩

/-- What a dictionary has is found by its items alone. -/
theorem own_eq (dictionary : h.flagged o Layout.Object.dense = false) (k : Word) :
    h.own o k = (h.itemOf o k).map .item := by
  rw [own, if_neg (by rw [dictionary]; exact Bool.false_ne_true)]

/-- Only dictionaries keep properties in items. -/
theorem own_item : h.own o k = some (.item i) ↔
    h.flagged o Layout.Object.dense = false ∧ h.itemOf o k = some i := by
  unfold own
  cases h.flagged o Layout.Object.dense with
  | false => simp
  | true =>
    simp only [if_true, Bool.true_eq_false, false_and, iff_false]
    split
    · split
      · simp
      · simp
    · simp

theorem item_of_own (found : h.own o k = some (.item i)) : i < h.items o ∧ h.key o i = k := by
  obtain ⟨bound, key, _⟩ := itemOf_some.mp (own_item.mp found).2
  exact ⟨bound, key⟩

namespace Backed

variable (sound : h.Sound) (backed : h.Backed o)

include sound backed

theorem load_storage : h.load o Layout.Object.storage = .ok (h.storageOf o) :=
  backed.object.load sound rfl (by decide)

theorem loadFlag (mask : Int) :
    h.loadFlag o Layout.Object.flags mask = .ok (h.flagged o mask) :=
  backed.bare.loadFlag sound mask

theorem storage? : h.storage? o = .ok (some (h.storageOf o)) := by
  rw [Heap.storage?, backed.kind, backed.load_storage sound]
  simp only [bind, Except.bind, backed.field]
  rfl

theorem fieldLength : h.fieldLength (h.storageOf o) = .ok (h.slots o) := by
  have loaded := backed.storage.load (d := Layout.Field.length) sound rfl
    (by simp only [Layout.Field.length]; omega)
  rw [Heap.fieldLength, loadInt, loaded]
  simp only [bind, Except.bind, backed.length]
  rfl

theorem load_slot (bound : j < h.slots o) :
    h.load (h.storageOf o) (slotOffset j) = .ok (h.slotWord o j) :=
  backed.storage.load sound (by rw [slotOffset_eq]; omega) (by rw [slotOffset_eq]; omega)

theorem store_slot (bound : j < h.slots o) :
    store (h.storageOf o) (slotOffset j) v h = .ok () (h.put (h.slotAddress o j) v) :=
  backed.storage.store sound (by rw [slotOffset_eq]; omega) (by rw [slotOffset_eq]; omega)

theorem findItem (count start : Nat) (bound : start + count ≤ h.items o) :
    h.findItem (h.storageOf o) k count start =
      .ok ((List.range' start count).find? fun i => h.key o i == k) := by
  induction count generalizing start with
  | zero => rfl
  | succ count ih =>
    have loaded := backed.load_slot sound (item_position (i := start) (h := h) (o := o)
      (by omega)).2.1
    have rest := ih (start + 1) (by omega)
    rw [Heap.findItem, itemOffset, loaded, List.range'_succ, List.find?_cons, rest]
    change (if h.key o start = k then _ else _) = _
    by_cases found : h.key o start = k
    · simp only [found, beq_self_eq_true, if_true]
      rfl
    · simp only [found, if_false, beq_eq_false_iff_ne.mpr found]

theorem ownSlot : h.ownSlot o k = .ok (h.own o k) := by
  have dense : h.isDense o = .ok (h.flagged o Layout.Object.dense) := backed.loadFlag sound _
  have found : h.findItem (h.storageOf o) k (h.slots o / Layout.Item.words) 0 =
      .ok ((List.range' 0 (h.items o)).find? fun i => h.key o i == k) :=
    backed.findItem sound _ 0 (Nat.le_of_eq (Nat.zero_add _))
  rw [Heap.ownSlot, backed.storage? sound]
  simp only [bind, Except.bind, backed.fieldLength sound, dense]
  unfold own
  split
  · rfl
  · rw [found, itemOf, List.range_eq_range']
    rfl

theorem loadSlot (bound : s.position < h.slots o) :
    h.loadSlot o s = .ok (h.slotWord o s.position) := by
  rw [Heap.loadSlot, backed.load_storage sound, Slot.valueOffset_eq]
  exact backed.load_slot sound bound

theorem storeSlot (bound : s.position < h.slots o) :
    storeSlot o s v h = .ok () (h.put (h.slotAddress o s.position) v) := by
  rw [Heap.storeSlot, estate_bind_of_ok (query_ok (backed.load_storage sound)), Slot.valueOffset_eq]
  exact backed.store_slot sound bound

end Backed

end Heap

end FastPath

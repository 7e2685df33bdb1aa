import FastPath.Heap.Error
import FastPath.Heap.Region
import FastPath.Kind
import FastPath.Arith

/-!
The heap: the words of its region, the cursor that hands them out, and the names interned so far.
Addresses are byte offsets into the region. The word at address zero is never handed out, so a
zero word never points to an entity. Nine canonical maps and five singletons stand at the start of
every heap, one after the other, so their addresses are fixed.
-/

namespace FastPath

structure Heap where
  words : Array Word
  region : Region
  /-- Interned names with their entities; the position of a name is its number. -/
  atoms : List (String × Word)
  deriving Inhabited

/-- Actions on a heap. A failed action keeps what was written before it failed. -/
abbrev HeapM := EStateM HeapError Heap

/-- The canonical map of the kind. -/
def Kind.canonicalMap (k : Kind) : Word := .pointer (8 + 40 * k.index)

namespace Word

def undefined : Word := pointer 368

def null : Word := pointer 384

/-- Marks a slot that holds nothing. -/
def hole : Word := pointer 400

def boolean (b : Bool) : Word := pointer (if b then 416 else 432)

/-- `undefined`, `null` and the hole have no properties. -/
def isNullish (w : Word) : Bool := w == undefined || w == null || w == hole

end Word

namespace Heap

def capacity (h : Heap) : Nat := 8 * h.words.size

/-- Bytes handed out so far, the unused first word included. -/
def used (h : Heap) : Nat := h.region.cursor

/-- Whether a word of the region starts at the address. -/
def hasWord (h : Heap) (address : Nat) : Bool :=
  8 ≤ address && address % 8 == 0 && address + 8 ≤ h.capacity

/-- The word at an absolute address. -/
def read (h : Heap) (address : Nat) : Except HeapError Word :=
  if h.hasWord address then .ok (h.words.getD (address / 8) default)
  else .error (.outOfBounds address)

/-- The address of the entity that `w` points to. -/
def addressOf (w : Word) : Except HeapError Nat :=
  match w.address? with
  | none => .error (.notPointer w)
  | some 0 => .error (.outOfBounds 0)
  | some a => .ok a

/-- The sum of address arithmetic, which has to fit into 64 bits. -/
def unsigned (sum : Nat) : Except HeapError Nat :=
  if sum < 0x10000000000000000 then .ok sum else .error (.overflow sum)

/-- The word `offset` bytes into the entity at `base`. -/
def load (h : Heap) (base : Word) (offset : Nat) : Except HeapError Word := do
  h.read (← unsigned ((← addressOf base) + offset))

def loadInt (h : Heap) (base : Word) (offset : Nat) : Except HeapError Int := do
  let w ← h.load base offset
  match w.int? with
  | some n => .ok n
  | none => .error (.notInt w)

/-- Whether the small integer `offset` bytes into `base` has a bit of `mask` set. -/
def loadFlag (h : Heap) (base : Word) (offset : Nat) (mask : Int) : Except HeapError Bool := do
  return Bits.overlap (← h.loadInt base offset) mask

/-- Reads `count` words that stand one after the other, up to the first that cannot be read. The
words read so far come in reverse. -/
def readWords (f : Nat → Except HeapError Word) :
    (count offset : Nat) → (done : List Word) → Except HeapError (List Word)
  | 0, _, done => return done.reverse
  | count + 1, offset, done => do readWords f count (offset + 8) ((← f offset) :: done)

/-- The words that start in `[start, stop)`. -/
def readRange (h : Heap) (start stop : Nat) : Except HeapError (List Word) :=
  readWords h.read ((stop - start + 7) / 8) start []

/-- The first `count` words of an entity. -/
def loadWords (h : Heap) (base : Word) (count : Nat) : Except HeapError (List Word) :=
  readWords (h.load base) count 0 []

/-- Lifts a reading to an action. -/
def query (f : Heap → Except HeapError α) : HeapM α := fun h =>
  match f h with
  | .ok a => .ok a h
  | .error e => .error e h

def write (address : Nat) (w : Word) : HeapM Unit := fun h =>
  if h.hasWord address then .ok () { h with words := h.words.setIfInBounds (address / 8) w }
  else .error (.outOfBounds address) h

def store (base : Word) (offset : Nat) (w : Word) : HeapM Unit := do
  write (← query fun _ => do unsigned ((← addressOf base) + offset)) w

/-- Writes `w` to `count` words from the address on. -/
def fillWords (w : Word) : (count address : Nat) → HeapM Unit
  | 0, _ => pure ()
  | count + 1, address => do
    write address w
    fillWords w count (address + 8)

/-- Writes `w` to every word that starts in `[start, stop)`. -/
def fill (start stop : Nat) (w : Word) : HeapM Unit :=
  fillWords w ((stop - start + 7) / 8) start

/-- The map of the entity `w` points to. -/
def mapOf (h : Heap) (w : Word) : Except HeapError Word := h.load w Layout.map

/-- The kind of the entity `w` points to, or none where no map can be read. A map that is not
canonical is the instance map of some function and describes plain objects. -/
def kind? (h : Heap) (w : Word) : Option Kind :=
  match h.mapOf w with
  | .error _ => none
  | .ok m => some ((Kind.all.find? (fun k => k.canonicalMap == m)).getD .object)

/-- Whether the map of the entity has a bit of `mask` among its flags. -/
def mapFlag (h : Heap) (w : Word) (mask : Int) : Except HeapError Bool := do
  h.loadFlag (← h.mapOf w) Layout.Map.flags mask

def isObjectLike (h : Heap) (w : Word) : Bool := (h.kind? w).any Kind.objectLike

def isPair (h : Heap) (w : Word) : Bool := h.kind? w == some .accessPair

/-- The name of an interned atom. -/
def atomName? (h : Heap) (w : Word) : Option String :=
  if h.kind? w == some .atom then
    match h.loadInt w Layout.Atom.id with
    | .ok (.ofNat id) => (h.atoms[id]?).map Prod.fst
    | _ => none
  else none

def describe (h : Heap) : String :=
  "Heap \x7b used: " ++ toString h.used ++ ", capacity: " ++ toString h.capacity ++ ", atoms: " ++
    toString h.atoms.length ++ " \x7d"

end Heap

end FastPath

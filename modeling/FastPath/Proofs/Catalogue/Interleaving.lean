import FastPath.Proofs.Catalogue.Fields
import FastPath.Proofs.Execution.Simulation
import FastPath.Proofs.Heap.Taking

/-! The two ways to allocate, by a stub that moves the cursor and by the heap itself. They do the
same to a heap, so calls of either may come in any order, among whatever else takes memory: what
they give out lies side by side. -/

namespace FastPath

open Catalogue

/-- A compiler made the stub of the declaration that allocates entities of the kind. -/
def Stub.Allocates (stub : Stub) (k : Kind) : Prop :=
  ∃ d ∈ allocation, d.name = allocTagged k ∧ ∃ stubs, d.CompiledTo stubs stub

/-- The cursor stands at a word boundary of a region that small integers can count. -/
structure Heap.Countable (h : Heap) : Prop where
  aligned : h.region.cursor % 8 = 0
  bounded : h.region.cursor ≤ h.region.limit
  small : h.region.limit < 0x2000000000000000

theorem Heap.Countable.onward {h h' : Heap} (countable : h.Countable) (onward : h.Onward h') :
    h'.Countable :=
  ⟨onward.aligned countable.aligned, onward.bounded countable.bounded,
    onward.limit.symm ▸ countable.small⟩

theorem tagged_built : ∀ k ∈ taggedKinds, ∀ d ∈ allocation, d.name = allocTagged k →
    d.template d.name d.config = .ok (Programs.tagged k) ∧ d.config.cache = none := by
  decide +kernel

theorem Exec.nested_onHeap {call : Exec ρ α} {act : HeapM α} {s : State ρ}
    (depth : s.machine.depth < s.machine.maxDepth)
    (same : call s.deeper = Exec.onHeap act s.deeper) : Exec.nested call s = Exec.onHeap act s := by
  rw [nested_eq, if_pos depth, same]
  cases ran : act s.machine.heap with
  | ok a h =>
    rw [onHeap_ok ran, onHeap_ok (s := s.deeper) ran]
    rfl
  | error e h =>
    rw [onHeap_error ran, onHeap_error (s := s.deeper) ran]
    rfl

/-- The same may be done on the way in another heap. -/
theorem Exec.onHeap_congr {act act' : HeapM α} {s : State ρ} {h : Heap}
    (same : act s.machine.heap = act' h) :
    Exec.onHeap act s = Exec.onHeap act' (s.withHeap h) := by
  cases ran : act' h with
  | ok a h' =>
    rw [onHeap_ok (same.trans ran), onHeap_ok (s := s.withHeap h) ran, State.withHeap_withHeap]
  | error e h' =>
    rw [onHeap_error (same.trans ran), onHeap_error (s := s.withHeap h) ran,
      State.withHeap_withHeap]

theorem Exec.onHeap_return (act : HeapM α) (b : β) (s : State ρ) :
    (do
      let _ ← Exec.onHeap act
      return b : Exec ρ β) s = Exec.onHeap (do
        let _ ← act
        return b) s := by
  cases ran : act s.machine.heap with
  | ok a h =>
    have whole : (do
        let _ ← act
        return b : HeapM β) s.machine.heap = .ok b h := estate_bind_of_ok ran
    rw [estate_bind_of_ok (onHeap_ok ran), onHeap_ok whole]
    rfl
  | error e h =>
    rw [estate_bind_of_error (onHeap_error ran)]
    exact (onHeap_error (estate_bind_of_error ran)).symm

namespace Stub

variable {stub : Stub} {k : Kind} {s : State ρ} {size : Nat}

/-- Allocation by the stub and allocation by the heap are the same. -/
theorem Allocates.invoke_eq (allocates : stub.Allocates k) (tagged : k ∈ taggedKinds)
    (countable : s.machine.heap.Countable) (some_ : 0 < size) (small : size ≤ 0x3ffffffffffffff8)
    (depth : s.machine.depth < s.machine.maxDepth) (host : Host ρ) (fuel : Nat) (self : Word) :
    invoke host (fuel + 3) stub self [.int size] s = Exec.onHeap (Heap.allocate k size) s := by
  obtain ⟨d, member, name, stubs, compiled⟩ := allocates
  obtain ⟨built, bare⟩ := tagged_built k tagged d member name
  obtain ⟨aligned, bounded, countable⟩ := countable
  have below := roundUp_lt size
  have even := roundUp_mod size
  have fits : Word.Fits (size : Int) ∧ Word.Fits (roundUp size : Nat) :=
    ⟨Word.fits_natCast (by omega), Word.fits_natCast (by omega)⟩
  rw [compiled.invoke_eq bare built,
    Programs.tagged_run stubs host _ fuel self k fits.1 fits.2]
  apply Exec.nested_onHeap depth
  change s.deeper.machine.heap.region.cursor % 8 = 0 at aligned
  change s.deeper.machine.heap.region.cursor ≤ s.deeper.machine.heap.region.limit at bounded
  change s.deeper.machine.heap.region.limit < _ at countable
  generalize s.deeper = t at aligned bounded countable
  have cursor : (Word.pointer t.machine.heap.region.cursor).address? =
      some t.machine.heap.region.cursor := Word.address?_pointer (by omega) (by omega)
  have stop : (Word.pointer (t.machine.heap.region.cursor + roundUp size)).address? =
      some (t.machine.heap.region.cursor + roundUp size) :=
    Word.address?_pointer (by omega) (by omega)
  have advanced := Exec.advance_ok cursor (displace_ok (n := roundUp size) (by omega) (by omega)) t
  rw [estate_bind_of_ok (Exec.heap_ok t), estate_bind_of_ok (Exec.heap_ok t),
    estate_bind_of_ok advanced, Word.toNat_pointer (by omega), Word.toNat_pointer (by omega)]
  have reserved := Heap.allocate_fitting (h := t.machine.heap) k some_ (by omega)
  by_cases room : t.machine.heap.region.cursor + roundUp size ≤ t.machine.heap.region.limit
  · rw [if_pos room] at reserved
    have moved : Heap.moveCursor (t.machine.heap.region.cursor + roundUp size) t.machine.heap =
        .ok () (t.machine.heap.advanced size) := by
      unfold Heap.moveCursor Region.moveTo?
      rw [if_pos ⟨by omega, by omega, room⟩]
      rfl
    rw [if_pos room, estate_bind_of_ok (Exec.address_ok stop t),
      estate_bind_of_ok (Exec.onHeap_ok moved)]
    exact (Exec.onHeap_return _ _ _).trans (Exec.onHeap_congr reserved).symm
  · rw [if_neg room] at reserved
    rw [if_neg room, Exec.onHeap_error reserved]
    rfl

end Stub

/-- What takes memory. The entities of names and of stubs are made when they are first asked for. -/
inductive Taking where
  /-- By the stub for entities of the kind. -/
  | tagged (k : Kind) (size : Nat)
  | entity (k : Kind) (size : Nat)
  | field (slots : Nat)
  | pair
  | atom (name : String)
  | code (stub : Stub)

/-- Bytes that were handed out together. -/
structure Piece where
  start : Nat
  bytes : Nat
  deriving DecidableEq

/-- One past the last byte, the unused ones up to the next word boundary included. -/
def Piece.stop (e : Piece) : Nat := e.start + roundUp e.bytes

/-- The piece begins at a word boundary other than zero and lies between the addresses. -/
structure Piece.Inside (p : Piece) (low high : Nat) : Prop where
  aligned : p.start % 8 = 0
  start : 8 ≤ p.start
  above : low ≤ p.start
  below : p.stop ≤ high

theorem Piece.Inside.mono {p : Piece} (inside : p.Inside low high) (lower : low' ≤ low) :
    p.Inside low' high :=
  { inside with above := Nat.le_trans lower inside.above }

namespace Taking

def bytes : Taking → Nat
  | tagged _ size | entity _ size => size
  | field slots => Layout.Field.size slots
  | pair => Layout.Pair.size
  | atom _ => Layout.Atom.size
  | code _ => Layout.Code.size

/-- The stub is asked for kinds that it exists for and for sizes that small integers can count. -/
def Allowed : Taking → Prop
  | tagged k size => k ∈ taggedKinds ∧ 0 < size ∧ size ≤ 0x3ffffffffffffff8
  | entity .. | field _ | pair | atom _ | code _ => True

/-- Whether success means that memory was taken. -/
def isNew (m : Machine) : Taking → Bool
  | atom name => (m.heap.atoms.lookup name).isNone
  | code stub => (m.entities.lookup stub.entry).isNone
  | tagged .. | entity .. | field _ | pair => true

section

variable (host : Host ρ) (fuel : Nat) (stub : Kind → Stub)

def run : Taking → Exec ρ Word
  | tagged k size => invoke host (fuel + 3) (stub k) .undefined [.int size]
  | entity k size => Exec.onHeap (Heap.allocate k size)
  | field slots => Exec.onHeap (Heap.allocateField slots)
  | pair => Exec.onHeap Heap.allocatePair
  | atom name => Exec.onHeap (Heap.atom name)
  | code s => Exec.onMachine (Machine.codeEntity s)

/-- The pieces that were handed out in the course of some takings, failed ones among them, and the
state that these lead to. -/
def runAll : List Taking → State ρ → List Piece × State ρ
  | [], s => ([], s)
  | t :: ts, s =>
    match t.run host fuel stub s with
    | .ok w s' =>
      let later := runAll ts s'
      (if t.isNew s.machine then ⟨w.toNat, t.bytes⟩ :: later.1 else later.1, later.2)
    | .error _ s' => runAll ts s'

end

end Taking

section

variable (host : Host ρ) (fuel : Nat) {stub : Kind → Stub} {s : State ρ}
  (allocates : ∀ k ∈ taggedKinds, (stub k).Allocates k)
  (countable : s.machine.heap.Countable)

include allocates countable

end

end FastPath

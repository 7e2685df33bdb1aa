import FastPath.Proofs.Catalogue.Programs
import FastPath.Proofs.Heap.Typing

/-! The stubs that only hand out memory do what the heap does by itself: they give the same address
and leave the same heap, or fail and change nothing. -/

namespace FastPath

open Catalogue

/-- A call either does what an action of the heap does, or fails and changes nothing. -/
def Performs (call : Exec ρ α) (act : HeapM α) (s : State ρ) : Prop :=
  Yields call s (fun a t => ∃ h, act s.machine.heap = .ok a h ∧ t = s.withHeap h) fun _ t => t = s

namespace Exec

theorem address_ok {w : Word} {a : Nat} (read : w.address? = some a) (s : State ρ) :
    address w s = .ok a s := by
  rw [address, read]
  rfl

theorem int_ok {w : Word} {n : Int} (read : w.int? = some n) (s : State ρ) :
    int w s = .ok n s := by
  rw [int, read]
  rfl

theorem advance_ok {w : Word} {a b : Nat} {n : Int} (read : w.address? = some a)
    (moved : displace a n = .ok b) (s : State ρ) : advance w n s = .ok (.pointer b) s := by
  rw [advance, estate_bind_of_ok (address_ok read s), estate_bind_of_ok (query_ok moved)]
  rfl

theorem advance_error {w : Word} {a : Nat} {n : Int} (read : w.address? = some a)
    (failed : displace a n = .error e) (s : State ρ) :
    advance w n s = .error (.trap (.ofHeapError e)) s := by
  rw [advance, estate_bind_of_ok (address_ok read s), estate_bind_of_error (query_error failed)]

theorem fill_ok {v w : Word} {a b : Nat} (read : v.address? = some a) (read' : w.address? = some b)
    {u : Word} {s : State ρ} {h : Heap} (filled : Heap.fill a b u s.machine.heap = .ok () h) :
    fill v w u s = .ok () (s.withHeap h) := by
  rw [fill, estate_bind_of_ok (address_ok read s), estate_bind_of_ok (address_ok read' s),
    onHeap_ok filled]

end Exec

theorem displace_ok {a n : Nat} (even : (a + n) % 2 = 0) (small : a + n < 0x8000000000000000) :
    displace a n = .ok (a + n) := by
  unfold displace
  rw [if_pos ⟨by omega, by omega, by omega, by omega⟩]
  exact congrArg Except.ok (by omega)

theorem displace_error {a n : Nat} (big : 0x8000000000000000 ≤ a + n) :
    displace a n = .error (.outOfBounds a) := by
  unfold displace
  rw [if_neg (by omega)]

namespace Library

variable {stubs : String → Stub} (library : Library stubs)

include library

/-- A call of a stub of the library runs its graph. -/
theorem invoke_graph (g : Graph) (name : String) (named : g.stub = name) (host : Host ρ)
    (fuel : Nat) (self : Word) (args : List Word) (known : g ∈ Programs.graphs := by decide) :
    invoke host (fuel + 1) (stubs name) self args =
      Exec.nested ((g.linked stubs).run host (invoke host fuel) fuel self args) := by
  obtain ⟨d, member, same, built⟩ := Programs.built g known
  rw [← named, ← same]
  exact library.invoke_eq member built host fuel self args

variable {k : Kind} {s : State ρ} {size : Nat} (sound : s.machine.heap.Sound)

include sound

/-- The stub for the entities of a kind moves the cursor and stamps the word where it stood. Or it
traps and changes nothing: the call is too deep, there is no room for the bytes, or not even for
the stamp. -/
theorem allocTagged_stamps (tagged : k ∈ taggedKinds) (small : size < 0x3ffffffffffffff9)
    (host : Host ρ) (fuel : Nat) (self : Word) :
    Yields (invoke host (fuel + 3) (stubs (allocTagged k)) self [.int size]) s
      (fun w t => w = .pointer s.machine.heap.region.cursor ∧
        s.machine.heap.region.cursor + roundUp size ≤ s.machine.heap.region.limit ∧
        t = s.withHeap ((s.machine.heap.advanced size).put s.machine.heap.region.cursor
          k.canonicalMap))
      fun e t => (∃ trap, e = .trap trap) ∧ t = s ∧ (s.machine.maxDepth ≤ s.machine.depth ∨
        s.machine.heap.region.limit < s.machine.heap.region.cursor + roundUp size ∨
        s.machine.heap.capacity < s.machine.heap.region.cursor + 8) := by
  have known : Programs.tagged k ∈ Programs.graphs :=
    List.mem_append_right _ (List.mem_map_of_mem tagged)
  have above := le_roundUp size
  have below := roundUp_lt size
  have aligned := roundUp_mod size
  have fits : Word.Fits (size : Int) ∧ Word.Fits (roundUp size : Nat) :=
    ⟨Word.fits_natCast (by omega), Word.fits_natCast (by omega)⟩
  rw [library.invoke_graph (Programs.tagged k) (allocTagged k) rfl _ _ _ _ known,
    Programs.tagged_run stubs host _ fuel self k fits.1 fits.2]
  refine Yields.nested ?_ fun deep => ⟨⟨_, rfl⟩, rfl, .inl (Nat.le_of_not_lt deep)⟩
  have start := sound.start
  have even := sound.aligned
  have bounded := sound.bounded
  have backed := sound.backed
  have capacity := sound.small
  have cursor : (Word.pointer s.machine.heap.region.cursor).address? =
      some s.machine.heap.region.cursor := Word.address?_pointer (by omega) (by omega)
  apply Yields.step (Exec.heap_ok s.deeper)
  apply Yields.step (Exec.heap_ok s.deeper)
  rw [State.deeper_heap]
  by_cases huge : 0x8000000000000000 ≤ s.machine.heap.region.cursor + roundUp size
  · have far := Exec.advance_error cursor (displace_error huge) s.deeper
    exact .of_error (estate_bind_of_error far) ⟨⟨_, rfl⟩, rfl, .inr (.inl (by omega))⟩
  apply Yields.step (Exec.advance_ok cursor (displace_ok (by omega) (by omega)) s.deeper)
  rw [Word.toNat_pointer (by omega), Word.toNat_pointer (by omega)]
  by_cases room : s.machine.heap.region.cursor + roundUp size ≤ s.machine.heap.region.limit
  · rw [if_pos (by exact_mod_cast room)]
    have stop := Word.address?_pointer (a := s.machine.heap.region.cursor + roundUp size)
      (by omega) (by omega)
    have moved : Heap.moveCursor (s.machine.heap.region.cursor + roundUp size) s.machine.heap =
        .ok () (s.machine.heap.advanced size) := by
      unfold Heap.moveCursor Region.moveTo?
      rw [if_pos ⟨by omega, by omega, room⟩]
      rfl
    have stamp := Heap.store_pointer even start Layout.map
      (by simp only [Layout.map]; omega) k.canonicalMap (s.machine.heap.advanced size)
    apply Yields.step (Exec.address_ok stop s.deeper)
    apply Yields.step (Exec.onHeap_ok (s := s.deeper) moved)
    by_cases short : s.machine.heap.capacity < s.machine.heap.region.cursor + 8
    · -- without a word at the cursor none was taken
      have nothing : s.machine.heap.advanced size = s.machine.heap := by
        rw [Heap.advanced, (by omega : roundUp size = 0)]
        rfl
      have failed := stamp.trans (Heap.write_error short)
      refine .of_error (estate_bind_of_error (Exec.onHeap_error failed))
        ⟨⟨_, rfl⟩, ?_, .inr (.inr short)⟩
      rw [nothing]
      rfl
    · have inside : (s.machine.heap.advanced size).hasWord s.machine.heap.region.cursor = true :=
        Heap.hasWord_iff.mpr ⟨start, even, Nat.le_of_not_lt short⟩
      apply Yields.step (Exec.onHeap_ok (stamp.trans (Heap.write_eq inside)))
      exact .pure ⟨rfl, room, rfl⟩
  · rw [if_neg (by exact_mod_cast room)]
    exact .throw ⟨⟨_, rfl⟩, rfl, .inr (.inl (by omega))⟩

/-- A call that may be made and finds too few bytes asks for a collection, unless there are not even
addresses for the bytes. -/
theorem allocTagged_exhausts (tagged : k ∈ taggedKinds) (small : size < 0x3ffffffffffffff9)
    (depth : s.machine.depth < s.machine.maxDepth)
    (full : s.machine.heap.region.limit < s.machine.heap.region.cursor + roundUp size)
    (reach : s.machine.heap.region.cursor + roundUp size < 0x8000000000000000) (host : Host ρ)
    (fuel : Nat) (self : Word) :
    invoke host (fuel + 3) (stubs (allocTagged k)) self [.int size] s =
      .error (.trap (.unhandled .collection)) s := by
  have known : Programs.tagged k ∈ Programs.graphs :=
    List.mem_append_right _ (List.mem_map_of_mem tagged)
  have below := roundUp_lt size
  have aligned := roundUp_mod size
  have fits : Word.Fits (size : Int) ∧ Word.Fits (roundUp size : Nat) :=
    ⟨Word.fits_natCast (by omega), Word.fits_natCast (by omega)⟩
  have even := sound.aligned
  have bounded := sound.bounded
  have cursor : (Word.pointer s.machine.heap.region.cursor).address? =
      some s.machine.heap.region.cursor := Word.address?_pointer (by omega) (by omega)
  have moved := Exec.advance_ok cursor (displace_ok (n := roundUp size) (by omega) reach) s.deeper
  rw [library.invoke_graph (Programs.tagged k) (allocTagged k) rfl _ _ _ _ known,
    Programs.tagged_run stubs host _ fuel self k fits.1 fits.2, Exec.nested_eq, if_pos depth,
    estate_bind_of_ok (Exec.heap_ok s.deeper), estate_bind_of_ok (Exec.heap_ok s.deeper),
    State.deeper_heap, estate_bind_of_ok moved, Word.toNat_pointer (by omega),
    Word.toNat_pointer (by omega), if_neg (by exact_mod_cast Nat.not_le_of_lt full)]
  rfl

/-- There is no other reason for a call that may be made to fail. -/
theorem allocTagged_fails (tagged : k ∈ taggedKinds) (some_ : 0 < size)
    (small : size < 0x3ffffffffffffff9) (host : Host ρ) (fuel : Nat) (self : Word) :
    Yields (invoke host (fuel + 3) (stubs (allocTagged k)) self [.int size]) s (fun _ _ => True)
      fun e _ => s.machine.depth < s.machine.maxDepth →
        s.machine.heap.region.cursor + roundUp size < 0x8000000000000000 →
        e = .trap (.unhandled .collection) := by
  have above := le_roundUp size
  have whole := roundUp_mod size
  have backed := sound.backed
  have stamps := library.allocTagged_stamps sound tagged small host fuel self
  cases ran : invoke host (fuel + 3) (stubs (allocTagged k)) self [.int size] s with
  | ok w t => exact .of_ok ran trivial
  | error e t =>
    refine .of_error ran fun depth reach => ?_
    obtain ⟨_, _, reason⟩ := stamps.error ran
    have full : s.machine.heap.region.limit < s.machine.heap.region.cursor + roundUp size := by
      omega
    cases ran.symm.trans (library.allocTagged_exhausts sound tagged small depth full reach host
      fuel self)
    rfl

/-- Allocation by the stub and allocation by the heap are the same. -/
theorem allocTagged_performs (tagged : k ∈ taggedKinds) (some_ : 0 < size)
    (small : size < 0x3ffffffffffffff9) (host : Host ρ) (fuel : Nat) (self : Word) :
    Performs (invoke host (fuel + 3) (stubs (allocTagged k)) self [.int size])
      (Heap.allocate k size) s := by
  apply (library.allocTagged_stamps sound tagged small host fuel self).mono
  · rintro _ _ ⟨rfl, room, rfl⟩
    have allocated := Heap.allocate_eq k sound some_
    rw [if_neg (Nat.not_lt.mpr room)] at allocated
    exact ⟨_, allocated, rfl⟩
  · rintro _ _ ⟨_, rfl, _⟩
    rfl

/-- The stub for fields stamps as many words as its size makes, and lays them out as a field of
the length it was given. Or it traps: the call is too deep, or there is no room, perhaps not even
for the header. With room for the header nothing changes then. -/
theorem allocField_lays {n : Int} {count : Nat} (fits : Word.Fits n)
    (bytes : Word.carried (16 + 8 * n) = (8 * count : Nat)) (host : Host ρ) (fuel : Nat)
    (self : Word) :
    Yields (invoke host (fuel + 4) (stubs allocField) self [.int n]) s
      (fun w t => w = .pointer s.machine.heap.region.cursor ∧
        s.machine.heap.region.cursor + 8 * count ≤ s.machine.heap.region.limit ∧
        s.machine.heap.region.cursor + 16 ≤ s.machine.heap.capacity ∧
        ∃ h, Heap.lay s.machine.heap.region.cursor count (.int n)
          ((s.machine.heap.advanced (8 * count)).put s.machine.heap.region.cursor
            Kind.field.canonicalMap) = .ok () h ∧ t = s.withHeap h)
      fun e t => (∃ trap, e = .trap trap) ∧ (2 ≤ count → t = s) ∧
        (s.machine.maxDepth ≤ s.machine.depth + 1 ∨
          s.machine.heap.region.limit < s.machine.heap.region.cursor + 8 * count ∨
          s.machine.heap.capacity < s.machine.heap.region.cursor + 16) := by
  have range := Word.fits_carried (16 + 8 * n)
  rw [bytes] at range
  simp only [Word.Fits, Word.minInt, Word.maxInt] at range
  have size : Word.int (16 + 8 * n) = .int (8 * count : Nat) := by rw [← Word.int_carried, bytes]
  have whole : roundUp (8 * count) = 8 * count := roundUp_of_mod (by omega)
  rw [library.invoke_graph Programs.field allocField rfl,
    Programs.field_run stubs host _ (fuel + 2) self fits, size, bytes]
  refine Yields.nested ?_ fun deep => ⟨⟨_, rfl⟩, fun _ => rfl, .inl (by omega)⟩
  have start := sound.start
  have even := sound.aligned
  have backed := sound.backed
  have capacity := sound.small
  have stamps := library.allocTagged_stamps (k := .field) (s := s.deeper) sound (by decide)
    (by omega : 8 * count < 0x3ffffffffffffff9) host fuel .undefined
  rw [State.deeper_heap, whole] at stamps
  refine Yields.bind_mono (stamps.mono (fun _ _ made => made) ?_) ?_
  · rintro e _ ⟨traps, rfl, reason⟩
    refine ⟨traps, fun _ => rfl, ?_⟩
    obtain deep | full | short := reason
    · exact .inl deep
    · exact .inr (.inl full)
    · exact .inr (.inr (by omega))
  rintro _ _ ⟨rfl, room, rfl⟩
  let h := (s.machine.heap.advanced (8 * count)).put s.machine.heap.region.cursor
    Kind.field.canonicalMap
  have same : h.capacity = s.machine.heap.capacity := Heap.capacity_put
  by_cases short : s.machine.heap.capacity < s.machine.heap.region.cursor + 16
  · have length : Layout.Field.length = 8 := rfl
    have failed := (Heap.store_pointer even start Layout.Field.length (by omega) (.int n) h).trans
      (Heap.write_error (by omega))
    refine .of_error (estate_bind_of_error (Exec.onHeap_error failed))
      ⟨⟨_, rfl⟩, fun header => ?_, .inr (.inr short)⟩
    omega
  · obtain ⟨h', laid, _⟩ := Heap.lay_ok (h := h) (v := .int n) count even start (by omega)
      (by omega)
    obtain ⟨_, h₁, stored, filled⟩ := estate_bind_ok.mp laid
    have address {b : Nat} (inside : b ≤ s.machine.heap.capacity) (even : b % 2 = 0) :
        (Word.pointer b).address? = some b := Word.address?_pointer even (by omega)
    have data : Layout.Field.data = 16 := rfl
    apply Yields.step (Exec.onHeap_ok stored)
    apply Yields.step (Exec.advance_ok (address (by omega) (by omega))
      (displace_ok (by omega) (by omega)) _)
    apply Yields.step (Exec.advance_ok (address (by omega) (by omega))
      (displace_ok (by omega) (by omega)) _)
    apply Yields.step (Exec.fill_ok (address (by omega) (by omega)) (address (by omega) (by omega))
      filled)
    exact .pure ⟨rfl, room, Nat.le_of_not_lt short, h', laid, rfl⟩

/-- A field made by the stub and a field made by the heap are the same. -/
theorem allocField_performs {n : Nat} (few : n < 0x4000000000000) (host : Host ρ) (fuel : Nat)
    (self : Word) :
    Performs (invoke host (fuel + 4) (stubs allocField) self [.int n]) (Heap.allocateField n)
      s := by
  obtain ⟨fits, _, added⟩ := Programs.count_fits few 16 (by decide)
  have bytes : Word.carried (16 + 8 * (n : Int)) = (8 * (n + 2) : Nat) := by
    have kept : Word.carried (16 + 8 * (n : Int)) = 16 + 8 * n := Word.carried_of_fits added
    omega
  apply (library.allocField_lays sound fits bytes host fuel self).mono
  · rintro _ _ ⟨rfl, room, _, h, laid, rfl⟩
    have bytes : Layout.Field.size n = 8 * (n + 2) := by
      simp only [Layout.Field.size, Layout.Field.data, Layout.word]
      omega
    exact ⟨h, sound.allocateField (bytes ▸ room) laid, rfl⟩
  · rintro _ _ ⟨_, same, _⟩
    exact same (by omega)

end Library

end FastPath

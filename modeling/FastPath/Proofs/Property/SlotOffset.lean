import FastPath.Proofs.Property.SlotAgreement

/-! The slot stubs on slots of any size. On an object without accessors they address the word that
the offset over unbounded integers names, if there is one, and no other; a slot whose offset cannot
be worked out in small integers is left to the host or refused. -/

namespace FastPath

/-- The trap of an access to an address at which no word starts. -/
def Halt.invalidAccess (address : Nat) : Halt := .trap (.fatal (.heapAccess (.outOfBounds address)))

namespace Heap

variable {h : Heap} {w v : Word} {a p : Nat}

theorem read_outside (outside : h.hasWord p = false) : h.read p = .error (.outOfBounds p) := by
  rw [read, outside]
  rfl

theorem write_outside (outside : h.hasWord p = false) :
    write p v h = .error (.outOfBounds p) h := by
  rw [write, outside]
  rfl

/-- Overwriting one word leaves every other address as it reads. -/
theorem read_put (inside : h.hasWord p = true) (b : Nat) :
    (h.put p v).read b = if b = p then .ok v else h.read b := by
  have words (b : Nat) : (h.put p v).hasWord b = h.hasWord b := by
    rw [hasWord, hasWord, capacity_put]
  by_cases same : b = p
  · rw [if_pos same, same, read_eq (by rw [words, inside]), word_put_same inside]
  · rw [if_neg same]
    cases there : h.hasWord b with
    | false => rw [read_outside there, read_outside (by rw [words, there])]
    | true =>
      rw [read_eq there, read_eq (by rw [words, there]), word_put_other (hasWord_iff.mp inside).2.1
        (hasWord_iff.mp there).2.1 same]

end Heap

section

variable {op : PropertyOp} {stub : Stub} {o k w v st x : Word} {args : List Word} {n l : Int}
  {a fuel : Nat}

theorem exactOffset_fits {dense : Bool} (all : ∀ x ∈ offsetSteps dense l, Word.Fits x) :
    Word.Fits (exactOffset dense l) := by
  refine all _ ?_
  cases dense
  all_goals simp [offsetSteps, exactOffset]

section

variable (is : SlotStub op stub) (given : SlotArgs op o k w v args)

include is given

/-- A slot with an offset: the call is what the stub does in place. -/
theorem slot_call_placed {s : State ρ} (host : Host ρ) (self : Word) (act : Exec ρ Word)
    (flags : s.machine.heap.loadInt o Layout.Object.flags = .ok n)
    (data : Bits.overlap n Layout.Object.access = false) (slot : w.int? = some l)
    (all : ∀ x ∈ offsetSteps (Bits.overlap n Layout.Object.dense) l, Word.Fits x)
    (enough : 10 ≤ fuel)
    (last : ∀ f extra, SlotFrame op o k w v f →
      f.registers[0]? = some (.int (exactOffset (Bits.overlap n Layout.Object.dense) l)) →
      stub.body.runFrom host (invoke host fuel) (extra + 1) 8 f s.deeper = act s.deeper) :
    invoke host (fuel + 1) stub self args s = Exec.nested act s := by
  obtain ⟨x, loaded, int⟩ := Heap.loadInt_ok flags
  obtain ⟨m, f, few, ready, fit, _⟩ := slot_way host (invoke host fuel) self is given
    (t := s.deeper) loaded int data slot
  obtain ⟨path, place⟩ := fit all
  obtain ⟨extra, rest⟩ : ∃ extra, fuel = extra + 1 + m := ⟨fuel - 1 - m, by omega⟩
  have run : stub.body.run host (invoke host fuel) fuel self args s.deeper = act s.deeper := by
    rw [← last f extra ready place, ← path, ← rest]
    rfl
  rw [invoke_succ, Exec.nested_eq, Exec.nested_eq, run]

/-- A slot without an offset is refused, unless it is read. -/
theorem slot_call_refused {s : State ρ} (host : Host ρ) (self : Word) (other : op ≠ .load)
    (flags : s.machine.heap.loadInt o Layout.Object.flags = .ok n)
    (data : Bits.overlap n Layout.Object.access = false) (slot : w.int? = some l)
    (big : ¬ ∀ x ∈ offsetSteps (Bits.overlap n Layout.Object.dense) l, Word.Fits x)
    (enough : 10 ≤ fuel) :
    invoke host (fuel + 1) stub self args s = Exec.nested (Exec.fatal .unreachable) s := by
  obtain ⟨x, loaded, int⟩ := Heap.loadInt_ok flags
  obtain ⟨m, f, few, ready, _, path⟩ := slot_way host (invoke host fuel) self is given
    (t := s.deeper) loaded int data slot
  obtain ⟨extra, rest⟩ : ∃ extra, fuel = extra + 1 + m := ⟨fuel - 1 - m, by omega⟩
  have refused : stub.body.runFrom host (invoke host fuel) (extra + 1) 7 f s.deeper =
      .error (.trap (.fatal .unreachable)) s.deeper := by
    refine Body.runFrom_traps (is.found 7) (Body.insts_nil _ _) ?_ extra
    exact if_neg other
  have run : stub.body.run host (invoke host fuel) fuel self args s.deeper =
      .error (.trap (.fatal .unreachable)) s.deeper := by
    rw [← refused, ← path big, ← rest]
    rfl
  rw [invoke_succ, Exec.nested_eq, Exec.nested_eq, run]
  rfl

end

section

variable {s : State ρ} (host : Host ρ) (self : Word)
  (flags : s.machine.heap.loadInt o Layout.Object.flags = .ok n)
  (data : Bits.overlap n Layout.Object.access = false)
  (storage : s.machine.heap.load o Layout.Object.storage = .ok st) (slot : w.int? = some l)
  (enough : 10 ≤ fuel)

include flags data storage slot enough

section

variable (all : ∀ x ∈ offsetSteps (Bits.overlap n Layout.Object.dense) l, Word.Fits x)

include all

theorem load_call (is : SlotStub .load stub) (given : SlotArgs .load o k w v args) {d : Nat}
    (offset : exactOffset (Bits.overlap n Layout.Object.dense) l = d) :
    invoke host (fuel + 1) stub self args s = Exec.nested (Exec.query fun h => h.load st d) s := by
  refine slot_call_placed is given host self _ flags data slot all enough fun f extra ready place =>
    ?_
  exact (load_in_place (s := s.deeper) storage place (exactOffset_fits all) is ready).1 d offset

theorem store_call (is : SlotStub .store stub) (given : SlotArgs .store o k w v args) {d : Nat}
    (offset : exactOffset (Bits.overlap n Layout.Object.dense) l = d) :
    invoke host (fuel + 1) stub self args s =
      Exec.nested (do Exec.onHeap (Heap.store st d v); return .undefined) s := by
  refine slot_call_placed is given host self _ flags data slot all enough fun f extra ready place =>
    ?_
  exact (store_in_place (s := s.deeper) storage place (exactOffset_fits all) is ready).1 d offset

variable (depth : s.machine.depth < s.machine.maxDepth)

include depth

section

variable {d : Nat} (offset : exactOffset (Bits.overlap n Layout.Object.dense) l = d)
  (points : Heap.addressOf st = .ok a)
  (small : a + d < 0x10000000000000000)

include offset points small

/-- The word at the offset is read as it is. -/
theorem load_call_within (is : SlotStub .load stub) (given : SlotArgs .load o k w v args)
    (there : s.machine.heap.hasWord (a + d) = true) :
    invoke host (fuel + 1) stub self args s = .ok (s.machine.heap.word (a + d)) s := by
  have read := (Heap.load_eq points small).trans (Heap.read_eq there)
  rw [load_call host self flags data storage slot enough all is given offset]
  exact Exec.nested_ok depth (Exec.query_ok (s := s.deeper) read)

/-- The word at the offset is written, and no other. -/
theorem store_call_within (is : SlotStub .store stub) (given : SlotArgs .store o k w v args)
    (there : s.machine.heap.hasWord (a + d) = true) :
    invoke host (fuel + 1) stub self args s =
      .ok .undefined (s.withHeap (s.machine.heap.put (a + d) v)) := by
  have write := (Heap.store_eq points small).trans (Heap.write_eq (w := v) there)
  rw [store_call host self flags data storage slot enough all is given offset]
  refine Exec.nested_ok (t := s.deeper.withHeap _) depth ?_
  exact estate_bind_of_ok (Exec.onHeap_ok (s := s.deeper) write)

theorem load_call_beyond (is : SlotStub .load stub) (given : SlotArgs .load o k w v args)
    (outside : s.machine.heap.hasWord (a + d) = false) :
    invoke host (fuel + 1) stub self args s = .error (.invalidAccess (a + d)) s := by
  have read := (Heap.load_eq points small).trans (Heap.read_outside outside)
  rw [load_call host self flags data storage slot enough all is given offset]
  refine Exec.nested_error (t := s.deeper) depth ?_
  rw [Exec.query_error (s := s.deeper) (f := fun h => h.load st d) read]
  rfl

theorem store_call_beyond (is : SlotStub .store stub) (given : SlotArgs .store o k w v args)
    (outside : s.machine.heap.hasWord (a + d) = false) :
    invoke host (fuel + 1) stub self args s = .error (.invalidAccess (a + d)) s := by
  have write := (Heap.store_eq points small).trans (Heap.write_outside (v := v) outside)
  rw [store_call host self flags data storage slot enough all is given offset]
  refine Exec.nested_error (t := s.deeper) depth ?_
  exact estate_bind_of_error (Exec.onHeap_error (s := s.deeper) write)

end

variable (before : exactOffset (Bits.overlap n Layout.Object.dense) l < 0)

include before

/-- No word starts before the storage. -/
theorem load_call_before (is : SlotStub .load stub) (given : SlotArgs .load o k w v args) :
    invoke host (fuel + 1) stub self args s = .error (.invalidAccess 0) s := by
  rw [slot_call_placed is given host self (fun s => .error (.invalidAccess 0) s) flags data slot all
    enough fun f extra ready place =>
      (load_in_place (s := s.deeper) storage place (exactOffset_fits all) is ready).2 before]
  exact Exec.nested_error depth rfl

theorem store_call_before (is : SlotStub .store stub) (given : SlotArgs .store o k w v args) :
    invoke host (fuel + 1) stub self args s = .error (.invalidAccess 0) s := by
  rw [slot_call_placed is given host self (fun s => .error (.invalidAccess 0) s) flags data slot all
    enough fun f extra ready place =>
      (store_in_place (s := s.deeper) storage place (exactOffset_fits all) is ready).2 before]
  exact Exec.nested_error depth rfl

end

/-- No slot is deleted in place, whether it has an offset or not. -/
theorem delete_call (is : SlotStub .delete stub) (given : SlotArgs .delete o k w v args)
    (depth : s.machine.depth < s.machine.maxDepth) :
    invoke host (fuel + 1) stub self args s = .error (.trap (.fatal .unreachable)) s := by
  have refused : invoke host (fuel + 1) stub self args s =
      Exec.nested (Exec.fatal .unreachable) s := by
    by_cases all : ∀ x ∈ offsetSteps (Bits.overlap n Layout.Object.dense) l, Word.Fits x
    · exact slot_call_placed is given host self (Exec.fatal .unreachable) flags data slot all enough
        fun f extra ready place => delete_in_place (s := s.deeper) storage is ready
    · exact slot_call_refused is given host self (by decide) flags data slot all enough
  rw [refused]
  exact Exec.nested_error depth rfl

end

end

/-- A slot without an offset is read by the host. -/
theorem slot_call_deferred (self : Word) (is : SlotStub .load stub)
    (given : SlotArgs .load o k w v args) {s : State PropertyHost}
    (flags : s.machine.heap.loadInt o Layout.Object.flags = .ok n)
    (data : Bits.overlap n Layout.Object.access = false) (slot : w.int? = some l)
    (big : ¬ ∀ x ∈ offsetSteps (Bits.overlap n Layout.Object.dense) l, Word.Fits x)
    (enough : 10 ≤ fuel) : Defers .load o k v stub self args fuel s := by
  obtain ⟨x, loaded, int⟩ := Heap.loadInt_ok flags
  obtain ⟨m, f, few, ready, _, path⟩ := slot_way PropertyHost.serve (invoke PropertyHost.serve fuel)
    self is given (t := s.deeper) loaded int data slot
  have jump := Body.leads_of_goto (is.found 7)
    (Body.insts_nil PropertyHost.serve (invoke PropertyHost.serve fuel))
    (Body.leave_jump (f := f) (s := s.deeper) (is.found 9) rfl)
  exact .of_run (slot_host_run is ((path big).trans jump) ready (by omega))

/-- With call depth left, a slot of an object without accessors that has an offset is the word that
the offset over unbounded integers names: it is read as it is, written alone, and out of reach if no
word starts there. The end of the word has to be an address of 64 bits, in which the sum is formed.
A slot without an offset is read as the property is read, and refused otherwise. -/
theorem slot_offsets_exact {stubs : PropertyOp → Stub}
    (compiled : ∀ op : PropertyOp, op.Compiled (stubs op)) {s : State PropertyHost}
    (flags : s.machine.heap.loadInt o Layout.Object.flags = .ok n)
    (data : Bits.overlap n Layout.Object.access = false)
    (storage : s.machine.heap.load o Layout.Object.storage = .ok st)
    (points : Heap.addressOf st = .ok a) (slot : w.int? = some l) (enough : 10 ≤ fuel) :
    let dense := Bits.overlap n Layout.Object.dense
    let fits := ∀ x ∈ offsetSteps dense l, Word.Fits x
    (¬ s.machine.depth < s.machine.maxDepth → ∀ op host self args,
      invoke host (fuel + 1) (stubs op) self args s = .error (.trap (.fatal .callDepth)) s) ∧
    (s.machine.depth < s.machine.maxDepth →
      (fits → ∀ d : Nat, exactOffset dense l = d → a + d + 8 < 0x10000000000000000 →
        ∀ host self v rest,
        (s.machine.heap.hasWord (a + d) = true → ∃ x h,
          s.machine.heap.read (a + d) = .ok x ∧
          invoke host (fuel + 1) (stubs .load) self (o :: k :: w :: rest) s = .ok x s ∧
          invoke host (fuel + 1) (stubs .store) self (o :: k :: w :: v :: rest) s =
            .ok .undefined (s.withHeap h) ∧
          h.region = s.machine.heap.region ∧ h.atoms = s.machine.heap.atoms ∧
          ∀ b, h.read b = if b = a + d then .ok v else s.machine.heap.read b) ∧
        (s.machine.heap.hasWord (a + d) = false →
          invoke host (fuel + 1) (stubs .load) self (o :: k :: w :: rest) s =
            .error (.invalidAccess (a + d)) s ∧
          invoke host (fuel + 1) (stubs .store) self (o :: k :: w :: v :: rest) s =
            .error (.invalidAccess (a + d)) s)) ∧
      (fits → exactOffset dense l < 0 → ∀ host self v rest,
        invoke host (fuel + 1) (stubs .load) self (o :: k :: w :: rest) s =
          .error (.invalidAccess 0) s ∧
        invoke host (fuel + 1) (stubs .store) self (o :: k :: w :: v :: rest) s =
          .error (.invalidAccess 0) s) ∧
      (¬ fits → ∀ host self v rest,
        Defers .load o k v (stubs .load) self (o :: k :: w :: rest) fuel s ∧
        invoke host (fuel + 1) (stubs .store) self (o :: k :: w :: v :: rest) s =
          .error (.trap (.fatal .unreachable)) s) ∧
      ∀ host self rest, invoke host (fuel + 1) (stubs .delete) self (o :: k :: w :: rest) s =
        .error (.trap (.fatal .unreachable)) s) := by
  intro dense fits
  have stub (op : PropertyOp) := (compiled op).slotStub
  have loads (v : Word) (rest : List Word) : SlotArgs .load o k w v (o :: k :: w :: rest) :=
    ⟨rest, rfl, fun store => by cases store⟩
  have stores (v : Word) (rest : List Word) : SlotArgs .store o k w v (o :: k :: w :: v :: rest) :=
    ⟨v :: rest, rfl, fun _ => rfl⟩
  refine ⟨fun deep op host self args => ?_, fun depth => ⟨fun all d offset small host self v rest =>
    ?_, fun all before host self v rest => ?_, fun big host self v rest => ?_,
    fun host self rest => ?_⟩⟩
  · rw [invoke_succ, Exec.nested_eq, if_neg deep]
  · have small : a + d < 0x10000000000000000 := Nat.lt_of_le_of_lt (Nat.le_add_right _ 8) small
    constructor
    · intro there
      exact ⟨_, s.machine.heap.put (a + d) v, Heap.read_eq there,
        load_call_within host self flags data storage slot enough all depth offset points small
          (stub .load) (loads v rest) there,
        store_call_within host self flags data storage slot enough all depth offset points small
          (stub .store) (stores v rest) there, rfl, rfl, Heap.read_put there⟩
    · intro outside
      constructor
      · exact load_call_beyond host self flags data storage slot enough all depth offset points
          small (stub .load) (loads v rest) outside
      · exact store_call_beyond host self flags data storage slot enough all depth offset points
          small (stub .store) (stores v rest) outside
  · constructor
    · exact load_call_before host self flags data storage slot enough all depth before (stub .load)
        (loads v rest)
    · exact store_call_before host self flags data storage slot enough all depth before
        (stub .store) (stores v rest)
  · constructor
    · exact slot_call_deferred self (stub .load) (loads v rest) flags data slot big enough
    · rw [slot_call_refused (stub .store) (stores v rest) host self (by decide) flags data slot big
        enough]
      exact Exec.nested_error depth rfl
  · have deletes : SlotArgs .delete o k w .undefined (o :: k :: w :: rest) :=
      ⟨rest, rfl, fun store => by cases store⟩
    exact delete_call host self flags data storage slot enough (stub .delete) deletes depth

theorem guardedShelf_offsets :
    (∃ x h, guardedShelf.machine.heap.read 496 = .ok x ∧
      invoke .absent 11 PropertyOp.load.stub .undefined [.pointer 448, .int 2, .int 0]
        guardedShelf = .ok x guardedShelf ∧
      invoke .absent 11 PropertyOp.store.stub .undefined [.pointer 448, .int 2, .int 0, .int 5]
        guardedShelf = .ok .undefined (guardedShelf.withHeap h) ∧
      ∀ b, h.read b = if b = 496 then .ok (.int 5) else guardedShelf.machine.heap.read b) ∧
    invoke .absent 11 PropertyOp.store.stub .undefined [.pointer 448, .int 2, .int (-2), .int 5]
      guardedShelf = .error (.invalidAccess 0) guardedShelf ∧
    invoke .absent 11 PropertyOp.store.stub .undefined
      [.pointer 448, .int 2, .int 0x2000000000000000, .int 5] guardedShelf =
        .error (.trap (.fatal .unreachable)) guardedShelf := by
  have storage : guardedShelf.machine.heap.load (.pointer 448) Layout.Object.storage =
      .ok (.pointer 472) := by decide +kernel
  have exact {w : Word} {l : Int} (slot : w.int? = some l) :=
    slot_offsets_exact (k := .int 2) PropertyOp.stub_compiled (s := guardedShelf)
      (o := .pointer 448) (n := 0) (a := 472) (by decide +kernel) rfl
      storage (by decide) slot (Nat.le_refl 10)
  have depth : guardedShelf.machine.depth < guardedShelf.machine.maxDepth := by decide
  have zero := (exact (w := .int 0) (l := 0) (by decide)).2 depth
  have before := (exact (w := .int (-2)) (l := -2) (by decide)).2 depth
  have beyond := (exact (w := .int 0x2000000000000000) (l := 0x2000000000000000)
    (by decide)).2 depth
  refine ⟨?_, ?_, ?_⟩
  · obtain ⟨x, h, read, load, store, _, _, alone⟩ := (zero.1 (by decide +kernel) 24
      (by decide +kernel) (by decide) .absent .undefined (.int 5) []).1 (by decide +kernel)
    exact ⟨x, h, read, load, store, alone⟩
  · exact (before.2.1 (by decide +kernel) (by decide +kernel) .absent .undefined (.int 5) []).2
  · exact (beyond.2.2.1 (by decide +kernel) .absent .undefined (.int 5) []).2

/-- A dense object whose storage starts with the last word of the address space. -/
def farShelf : State PropertyHost :=
  let heap := (twoShelves.put 456 (.int Layout.Object.dense)).put 464 (.pointer 0xfffffffffffffff8)
  { machine := .ofHeap heap 8, host := {} }

/-- Without call depth not even a slot that is there is read. A slot beyond the addresses of 64 bits
ends the program. -/
theorem shelves_out_of_reach :
    (atShelves.machine.heap.loadInt (.pointer 448) Layout.Object.flags = .ok 0 ∧
      atShelves.machine.heap.load (.pointer 448) Layout.Object.storage = .ok (.pointer 472) ∧
      exactOffset false 0 = 24 ∧ atShelves.machine.heap.read 496 = .ok .hole ∧
      invoke .absent 10 PropertyOp.load.stub .undefined [.pointer 448, .int 2, .int 0] atShelves =
        .error (.trap (.fatal .callDepth)) atShelves) ∧
    (farShelf.machine.heap.loadInt (.pointer 448) Layout.Object.flags = .ok Layout.Object.dense ∧
      farShelf.machine.heap.load (.pointer 448) Layout.Object.storage =
        .ok (.pointer 0xfffffffffffffff8) ∧ exactOffset true 0 = 16 ∧
      ∃ e t, invoke .absent 11 PropertyOp.load.stub .undefined
          [.pointer 448, .int 2, .int 0] farShelf = .error e t ∧
        e = .trap (.fatal (.heapAccess (.overflow 0x10000000000000008)))) := by
  have deep : ¬ atShelves.machine.depth < atShelves.machine.maxDepth := by decide
  refine ⟨⟨?_, ?_, rfl, ?_, ?_⟩, ?_, ?_, rfl, ?_⟩
  · decide +kernel
  · decide +kernel
  · decide +kernel
  · rw [invoke_succ, Exec.nested_eq, if_neg deep]
  · decide +kernel
  · decide +kernel
  · exact Yields.fails (by decide +kernel)

end FastPath

import FastPath.Proofs.Catalogue.Chains
import FastPath.Proofs.Catalogue.Completion
import FastPath.Proofs.Catalogue.Initialisation

/-! Machines that allocations lead to. Whatever is allocated, and whether or not there is room for
it, functions can be made afterwards; and each function that is made is complete and apart from all
that there was before. -/

namespace FastPath

open Catalogue Heap

/-- What may be asked of the catalogue's allocations, with the Code entities and atoms that go into
them. -/
inductive Allocation where
  | tagged (k : Kind) (size : Word)
  | field (slots : Word)
  | object
  | pair
  | function (code outer : Word) (slots : Nat)
  | construct (argc fn : Word) (args : List Word)
  | codeRef (stub : Stub)
  | atom (name : String)

/-- The stub may run when `callee` is called with a new object at hand. -/
def Machine.MayRun (m : Machine) (callee : Word) (s : Stub) : Prop :=
  ∃ ws h, m.heap.Appends ws h ∧ Machine.target { m with heap := h } callee = .ok s

theorem Machine.MayRun.mem {m : Machine} {callee : Word} {s : Stub} (may : m.MayRun callee s) :
    s ∈ m.code := by
  obtain ⟨ws, h, _, target⟩ := may
  have member : s ∈ Machine.code { m with heap := h } := Machine.target_mem target
  exact member

namespace Allocation

def run (stubs : String → Stub) (fuel : Nat) : Allocation → Exec PropertyHost Word
  | tagged k size => invoke PropertyHost.serve fuel (stubs (allocTagged k)) .undefined [size]
  | field slots => invoke PropertyHost.serve fuel (stubs allocField) .undefined [slots]
  | object => invoke PropertyHost.serve fuel (stubs allocObject) .undefined []
  | pair => invoke PropertyHost.serve fuel (stubs allocAccessPair) .undefined []
  | function code outer slots =>
    invoke PropertyHost.serve fuel (stubs allocFn) .undefined [code, outer, .int slots]
  | construct argc fn args =>
    invoke PropertyHost.serve fuel (stubs new) .undefined (argc :: fn :: args)
  | codeRef stub => Exec.onMachine (Machine.codeEntity stub)
  | atom name => Exec.onHeap (Heap.atom name)

/-- Contexts are of a sensible size. Constructors return at once, or are accessors of `prototype`
for what it is worth. A stub with the entry point of such an accessor is that accessor. -/
def Allowed (stubs : String → Stub) (m : Machine) : Allocation → Prop
  | tagged k _ => k ∈ taggedKinds
  | function _ _ slots => slots < 0x4000000000000
  | construct _ fn _ => ∀ s, m.MayRun fn s → s.Idle ∨ ∃ x ∈ accessorNames, s = stubs x
  | codeRef stub => stub.Honest stubs
  | field _ | object | pair | atom _ => True

end Allocation

namespace State

/-- The state after an allocation, which may have changed it also if it failed. -/
def allocate (stubs : String → Stub) (fuel : Nat) (s : State PropertyHost) (a : Allocation) :
    State PropertyHost :=
  match a.run stubs fuel s with
  | .ok _ t | .error _ t => t

/-- The states that allocations lead to from a fresh heap. -/
inductive Built (stubs : String → Stub) (fuel : Nat) : State PropertyHost → Prop
  | start {size : Nat} {h : Heap} (created : Heap.create size = .ok h)
      (small : size < 0x7ffffffffffffff8) (maxDepth : Nat) :
      Built stubs fuel ⟨.ofHeap h maxDepth, {}⟩
  | allocate {s : State PropertyHost} (built : Built stubs fuel s) (a : Allocation)
      (allowed : a.Allowed stubs s.machine) : Built stubs fuel (s.allocate stubs fuel a)

end State

namespace Heap

/-- The heap `h'` is `h` with changes behind its cursor at most. -/
structure Behind (h h' : Heap) : Prop where
  sound : h'.Sound
  spares : Spares h h'
  atoms : h'.atoms = h.atoms

variable {h h' : Heap} {a : Nat} {v w : Word}

theorem Behind.refl (sound : h.Sound) : Behind h h := ⟨sound, .refl h, rfl⟩

theorem Behind.write (behind : Behind h h') (later : h.region.cursor ≤ a) :
    Yields (write a w) h' (fun _ h'' => Behind h h'') fun _ h'' => Behind h h'' := by
  by_cases inside : h'.hasWord a = true
  · refine .of_ok (write_eq inside) ⟨behind.sound.put,
      ⟨behind.spares.cursor, fun b part below => ?_⟩, behind.atoms⟩
    have aligned := (hasWord_iff.mp inside).2.1
    rw [word_put_other aligned part (by omega), behind.spares.words b part below]
  · refine .of_error (e := .outOfBounds a) ?_ behind
    rw [Heap.write, if_neg inside]

theorem Behind.store (behind : Behind h h') (sound : h.Sound) (offset : Nat) :
    Yields (store (.pointer h.region.cursor) offset w) h' (fun _ h'' => Behind h h'')
      fun _ h'' => Behind h h'' := by
  have limited := sound.limited
  have bounded := sound.bounded
  have address := addressOf_pointer sound.aligned sound.start (by omega)
  by_cases small : h.region.cursor + offset < 0x10000000000000000
  · exact Yields.congr (store_eq address small) (behind.write (Nat.le_add_right _ _))
  · exact .of_error (store_overflow address small) behind

theorem Behind.fillWords (behind : Behind h h') (later : h.region.cursor ≤ a) (n : Nat) :
    Yields (fillWords w n a) h' (fun _ h'' => Behind h h'') fun _ h'' => Behind h h'' := by
  induction n generalizing a h' with
  | zero => exact .pure behind
  | succ n ih =>
    exact (behind.write later).bind_mono fun _ h'' behind => ih behind (by omega)

end Heap

section

variable {stubs : String → Stub} (library : Library stubs) {s : State ρ} (host : Host ρ)
  (fuel : Nat) (self : Word)

/-- The state `t` is `s` with changes behind the cursor of its heap at most. -/
def State.Behind (s t : State ρ) : Prop :=
  ∃ h, t = s.withHeap h ∧ s.machine.heap.Behind h

theorem Machine.Ready.behind {t : State ρ} (ready : s.machine.Ready stubs 0 0)
    (behind : s.Behind t) : t.machine.Ready stubs 0 0 := by
  obtain ⟨h, rfl, sound, spares, atoms⟩ := behind
  exact ready.of_heap sound spares.cursor (atoms ▸ ready.key) fun c part below _ =>
    spares.words c part below

theorem State.Behind.shallower {t : State ρ} (behind : s.deeper.Behind t) :
    s.Behind t.shallower := by
  obtain ⟨h, rfl, behind⟩ := behind
  exact ⟨h, rfl, behind⟩

/-- What only reads can be left out. -/
theorem Exec.Reads.then {act : Exec ρ α} {next : α → Exec ρ β} {E : State ρ → Prop}
    {R : β → State ρ → Prop} (reads : act.Reads) (failed : E s)
    (rest : ∀ a, Yields (next a) s R fun _ t => E t) :
    Yields (act >>= next) s R fun _ t => E t := by
  refine ((reads.yields s).mono (fun _ _ same => same) ?_).bind_mono ?_
  · rintro _ _ rfl
    exact failed
  · rintro a _ rfl
    exact rest a

theorem Exec.address_reads (w : Word) : (Exec.address w : Exec ρ Nat).Reads := by
  unfold Exec.address
  cases w.address? with
  | some a => exact .pure a
  | none => exact .throw _

theorem Exec.advance_reads (base : Word) (n : Int) : (Exec.advance base n : Exec ρ Word).Reads :=
  .bind (address_reads base) fun _ => .bind (.query _) fun _ => .pure _

/-- An advance ends at an address that is as much further as was asked for, or fails. -/
theorem Exec.advance_moves {a d : Nat} {v : Word} (read : v.address? = some a) :
    Yields (Exec.advance v d) s (fun w t => t = s ∧ w.address? = some (a + d))
      fun _ t => t = s := by
  by_cases moved : (a + d) % 2 = 0 ∧ a + d < 0x8000000000000000
  · exact .of_ok (Exec.advance_ok read (displace_ok moved.1 moved.2) s)
      ⟨rfl, Word.address?_pointer moved.1 (by omega)⟩
  · have failed : displace a d = .error (.outOfBounds a) := by
      unfold displace
      rw [if_neg (by omega)]
    exact .of_error (Exec.advance_error read failed s) rfl

theorem Exec.onHeap_behind {act : HeapM α} {h : Heap}
    (done : Yields act h (fun _ h' => s.machine.heap.Behind h') fun _ h' =>
      s.machine.heap.Behind h') :
    Yields (Exec.onHeap act) (s.withHeap h) (fun _ t => s.Behind t) fun _ t => s.Behind t :=
  Yields.onHeap (done.mono (fun _ h' behind => ⟨h', rfl, behind⟩)
    fun _ h' behind => ⟨h', rfl, behind⟩)

include library

/-- Whatever the number of bytes is said to be, an entity comes behind the cursor if it comes at
all. -/
theorem Library.allocTagged_behind (sound : s.machine.heap.Sound) {k : Kind}
    (tagged : k ∈ taggedKinds) (size : Word) :
    Yields (invoke host (fuel + 3) (stubs (allocTagged k)) self [size]) s
      (fun w t => w = .pointer s.machine.heap.region.cursor ∧ s.Behind t) fun _ t => t = s := by
  by_cases sized : ∃ n : Nat, size.int? = some (n : Int) ∧ Word.Fits (roundUp n : Nat)
  · obtain ⟨n, read, fits⟩ := sized
    have above := le_roundUp n
    have whole := roundUp_mod n
    simp only [Word.Fits, Word.maxInt] at fits
    rw [Word.int_of_int? read]
    refine (library.allocTagged_stamps sound tagged (by omega) host fuel self).mono ?_
      fun _ _ failed => failed.2.1
    rintro w _ ⟨rfl, room, rfl⟩
    refine ⟨rfl, _, rfl, (sound.advanced room).put, ⟨Nat.le_add_right _ _, fun b part below => ?_⟩,
      rfl⟩
    rw [word_put_other sound.aligned part (by omega)]
    rfl
  · have known : Programs.tagged k ∈ Programs.graphs :=
      List.mem_append_right _ (List.mem_map_of_mem tagged)
    obtain ⟨t, refused⟩ := Programs.tagged_refuses stubs host (invoke host (fuel + 2)) (fuel + 1)
      self k (w := size) fun n read fits => sized ⟨n, read, fits⟩
    rw [library.invoke_graph (Programs.tagged k) (allocTagged k) rfl _ _ _ _ known, refused]
    exact Yields.nested (.throw rfl) fun _ => rfl

/-- So do fields. -/
theorem Library.allocField_behind (sound : s.machine.heap.Sound) (slots : Word) :
    Yields (invoke host (fuel + 4) (stubs allocField) self [slots]) s (fun _ t => s.Behind t)
      fun _ t => s.Behind t := by
  have same : s.Behind s := ⟨_, rfl, .refl sound⟩
  rw [library.invoke_graph Programs.field allocField rfl]
  refine Yields.nested ?_ fun _ => same
  cases count : slots.int? with
  | none =>
    rw [Programs.field_refuses stubs host _ _ self count]
    exact .throw same
  | some n =>
    obtain rfl := Word.int_of_int? count
    have fits : Word.Fits n := by
      rw [Option.some.inj (count.symm.trans (Word.int?_carried n))]
      exact Word.fits_carried n
    rw [Programs.field_run stubs host _ _ self fits]
    refine Yields.mono (Q := fun _ t => s.deeper.Behind t) (E := fun _ t => s.deeper.Behind t) ?_
      (fun _ _ behind => behind.shallower) fun _ _ behind => behind.shallower
    refine ((library.allocTagged_behind (s := s.deeper) host fuel .undefined sound (by decide)
      _).mono (fun _ _ made => made) ?_).bind_mono ?_
    · rintro _ _ rfl
      exact ⟨_, rfl, .refl sound⟩
    rintro _ _ ⟨rfl, h, rfl, behind⟩
    refine (Exec.onHeap_behind (s := s.deeper) (behind.store sound _)).bind_mono ?_
    intro _ t behind
    have cursor : (Word.pointer s.machine.heap.region.cursor).address? =
        some s.machine.heap.region.cursor := by
      obtain ⟨aligned, start, bounded, backed, small⟩ := sound
      exact Word.address?_pointer (by omega) (by omega)
    refine ((Exec.advance_moves cursor).mono (fun _ _ moved => moved) ?_).bind_mono ?_
    · rintro _ _ rfl
      exact behind
    rintro start _ ⟨rfl, data⟩
    refine (Exec.advance_reads _ _).then behind fun stop => ?_
    refine Yields.bind_mono (Q := fun _ t => s.deeper.Behind t) ?_ fun _ _ behind => .pure behind
    refine .step (Exec.address_ok data _) ?_
    refine (Exec.address_reads stop).then behind fun b => ?_
    obtain ⟨h, rfl, behind⟩ := behind
    exact Exec.onHeap_behind (s := s.deeper) (behind.fillWords (Nat.le_add_right _ _) _)

end

section

variable {stubs : String → Stub} (library : Library stubs)

namespace Library

include library

/-- Reading the instance map leaves everything as it was. -/
theorem getter_quiet (host : Host ρ) (fuel : Nat) (self : Word) (args : List Word) :
    (invoke host (fuel + 2) (stubs prototypeGetter) self args).Reads := by
  rw [library.invoke_graph Programs.readPrototype prototypeGetter rfl, Programs.readPrototype_run]
  exact .nested (.bind (.query _) fun _ => .query _)

variable {s t : State PropertyHost} {ws : List Word}

/-- What runs on a new object leaves a ready machine. -/
theorem constructor_ready (ready : s.machine.Ready stubs 0 0) (lays : s.Lays ws t)
    (long : 4 < ws.length) {ctor : Stub}
    (harmless : ctor.Idle ∨ ∃ x ∈ accessorNames, ctor = stubs x) (fuel : Nat) (args : List Word) :
    Yields (invoke PropertyHost.serve (fuel + 4) ctor (.pointer s.machine.heap.region.cursor) args)
      t (fun _ u => u.machine.Ready stubs 0 0) fun _ u => u.machine.Ready stubs 0 0 := by
  have same (act : Exec PropertyHost Word)
      (kept : Yields act t (fun _ u => u = t) fun _ u => u = t) :
      Yields act t (fun _ u => u.machine.Ready stubs 0 0) fun _ u => u.machine.Ready stubs 0 0 :=
    kept.mono (fun _ _ same => same ▸ ready.lays lays) fun _ _ same => same ▸ ready.lays lays
  rcases harmless with idle | ⟨x, accessor, rfl⟩
  · exact same _ ((idle.yields _ (fuel + 2) _ _ _).mono (fun _ _ met => met.2) fun _ _ met => met)
  simp only [accessorNames, List.mem_cons, List.not_mem_nil, or_false] at accessor
  rcases accessor with rfl | rfl
  · exact same _ ((library.getter_quiet _ (fuel + 2) _ _).yields _)
  · have builds := (Machine.Builds.start ready ws.length).lays lays
    exact (library.setter_puts fuel _ builds (j := 0) rfl (by simpa using long)
      (by simpa using long) args).mono (fun _ _ builds => builds.ready.closed)
      fun _ _ failed => failed

/-- Constructions leave a ready machine. -/
theorem new_ready (ready : s.machine.Ready stubs 0 0) {fn : Word}
    (harmless : ∀ ctor, s.machine.MayRun fn ctor → ctor.Idle ∨ ∃ x ∈ accessorNames, ctor = stubs x)
    (fuel : Nat) (self argc : Word) (args : List Word) :
    Yields (invoke PropertyHost.serve (fuel + 7) (stubs new) self (argc :: fn :: args)) s
      (fun _ t => t.machine.Ready stubs 0 0) fun _ t => t.machine.Ready stubs 0 0 := by
  rw [library.invoke_graph Programs.construction new rfl, Programs.construction_run]
  refine ready.nested ?_
  have start : s.deeper.machine.Ready stubs 0 0 := ready.at_depth _
  refine Yields.mono (Q := fun _ t => t.machine.Ready stubs 0 0)
    (E := fun _ t => t.machine.Ready stubs 0 0) ?_ (fun _ _ ready => ready.at_depth _)
    fun _ _ ready => ready
  refine (library.checkFunction_reads (fuel + 6) _ _).then start fun _ => ?_
  refine ((library.allocObject_puts (s := s.deeper) start.sound _ fuel .undefined).mono
    (fun _ _ made => made) ?_).bind_mono ?_
  · rintro _ t ⟨ws, lays⟩
    exact start.lays lays
  rintro _ t ⟨rfl, lays⟩
  refine (Exec.Reads.query _).then (start.lays lays) fun map => ?_
  refine lays.write (w := map) (j := 0) (d := 0) rfl (by simp) rfl fun t lays => ?_
  have ready' := start.lays lays
  cases argc.int? with
  | none => exact .throw ready'
  | some n =>
    cases n with
    | negSucc n => exact .throw ready'
    | ofNat n =>
      refine Yields.bind_mono (Q := fun _ t => t.machine.Ready stubs 0 0) ?_
        fun _ _ ready => .pure ready
      cases target : t.machine.target fn with
      | error e => exact .of_error (e := .trap e) (by rw [callValue_eq, target]) ready'
      | ok ctor =>
        let given := (List.range n).map fun i => args.getD i .undefined
        have called : callValue (invoke PropertyHost.serve (fuel + 6)) fn
            (.pointer s.machine.heap.region.cursor) given t = invoke PropertyHost.serve (fuel + 6)
              ctor (.pointer s.machine.heap.region.cursor) given t := by
          rw [callValue_eq, target]
        refine Yields.congr called ?_
        refine library.constructor_ready start lays (by simp) (harmless ctor ?_) (fuel + 2) _
        obtain ⟨h, rfl, appends, _⟩ := lays
        exact ⟨_, h, appends, target⟩

end Library

include library

/-- Whatever is allocated, and whether or not there is room for it, the machine is ready. -/
theorem Allocation.stays_ready {s : State PropertyHost} (ready : s.machine.Ready stubs 0 0)
    (a : Allocation) (allowed : a.Allowed stubs s.machine) (fuel : Nat) :
    Yields (a.run stubs (fuel + 8)) s (fun _ t => t.machine.Ready stubs 0 0)
      fun _ t => t.machine.Ready stubs 0 0 := by
  have sound := ready.sound
  cases a with
  | tagged k size =>
    refine (library.allocTagged_behind _ (fuel + 5) _ sound allowed size).mono ?_ ?_
    · rintro _ t ⟨_, behind⟩
      exact ready.behind behind
    · rintro _ _ rfl
      exact ready
  | field slots =>
    exact (library.allocField_behind _ (fuel + 4) _ sound slots).mono
      (fun _ _ behind => ready.behind behind) fun _ _ behind => ready.behind behind
  | object =>
    exact (library.allocObject_puts sound _ (fuel + 2) _).mono
      (fun _ _ made => ready.lays made.2) fun _ _ ⟨_, lays⟩ => ready.lays lays
  | pair =>
    exact (library.allocAccessPair_puts sound _ (fuel + 4) _).mono
      (fun _ _ made => ready.lays made.2) fun _ _ ⟨_, lays⟩ => ready.lays lays
  | function code outer slots =>
    refine (library.allocFn_puts fuel ready allowed _ code outer).mono ?_ fun _ _ ready => ready
    rintro _ t ⟨_, key, getter, setter, more, completes⟩
    exact completes.builds.ready.closed
  | construct argc fn args => exact library.new_ready ready allowed (fuel + 1) _ argc args
  | codeRef stub =>
    refine Yields.onMachine ((ready.codeEntity (Nat.zero_le _) allowed).mono ?_ ?_)
    · rintro w m ⟨ready, _⟩
      exact ready
    · rintro _ _ rfl
      exact ready
  | atom name =>
    exact Yields.onHeap ((ready.atom name).mono (fun _ _ made => made.1) fun _ _ ready => ready)

omit library in
theorem Machine.ofHeap_ready {h : Heap} {size : Nat} (created : Heap.create size = .ok h)
    (small : size < 0x7ffffffffffffff8) (maxDepth : Nat) :
    (Machine.ofHeap h maxDepth).Ready stubs 0 0 := by
  obtain ⟨sound, cursor, atoms, _⟩ := create_words created small
  refine ⟨sound, ?_, ?_, nofun, nofun, nofun⟩
  · rw [Machine.ofHeap, cursor]
    decide
  · rw [Machine.ofHeap, atoms]
    nofun

theorem State.Built.ready {fuel : Nat} {s : State PropertyHost}
    (built : s.Built stubs (fuel + 8)) : s.machine.Ready stubs 0 0 := by
  induction built with
  | start created small maxDepth => exact Machine.ofHeap_ready created small maxDepth
  | @allocate s _ a allowed ready =>
    have stays := a.stays_ready library ready allowed fuel
    unfold State.allocate
    cases ran : a.run stubs (fuel + 8) s with
    | ok w t => exact stays.ok ran
    | error e t => exact stays.error ran

/-- After whatever allocations, a function that is made is complete: it comes right behind all that
there was before and does not change it, it has its code, its outer value and as many undefined
slots as were asked for, and everything that belongs to it is new and apart. Reads of `prototype`
get the prototype of its instances. -/
theorem allocFn_builds_function {fuel : Nat} {s t : State PropertyHost}
    (built : s.Built stubs (fuel + 8)) {code outer f : Word} {n : Nat} (few : n < 0x4000000000000)
    (made : invoke PropertyHost.serve (fuel + 8) (stubs allocFn) .undefined
      [code, outer, .int n] s = .ok f t) :
    f = .pointer s.machine.heap.region.cursor ∧ ∃ key p,
      t.machine.Complete stubs s.machine.heap.region.cursor f code outer n key p ∧
      Property.get (invoke PropertyHost.serve (fuel + 8)) f key t = .ok p.proto t ∧
      ∀ a < s.machine.heap.region.cursor, t.machine.heap.read a = s.machine.heap.read a := by
  have ready := built.ready library
  have depth : s.machine.depth < s.machine.maxDepth := by
    by_contra deep
    rw [invoke_succ, Exec.nested_eq, if_neg deep] at made
    cases made
  obtain ⟨rfl, key, getter, setter, more, completes⟩ :=
    (library.allocFn_puts fuel ready few .undefined code outer).ok made
  have appends := completes.builds.appends
  refine ⟨rfl, key, _, completes.complete library, ?_, fun a below =>
    appends.spares.read appends.capacity below⟩
  refine completes.reads library ready.rooted ?_ _ (fuel + 6)
  rwa [completes.builds.depth, completes.builds.maxDepth]

end

/-- A stub that returns at once, and a constructor that runs it. -/
def founded (s : State PropertyHost) : State PropertyHost :=
  (s.allocate freshStubs 8 (.codeRef idler)).allocate freshStubs 8
    (.function (.pointer 448) .undefined 2)

/-- There are an object made by the constructor and a field of less than no slots, too. -/
def populous (s : State PropertyHost) : State PropertyHost :=
  ((founded s).allocate freshStubs 8 (.construct (.int 0) (.pointer 464) [])).allocate freshStubs 8
    (.field (.int (-1)))

theorem populous_built {s : State PropertyHost} (built : s.Built freshStubs 8)
    (honest : idler.Honest freshStubs)
    (harmless : ∀ c ∈ (founded s).machine.code,
      c.Idle ∨ ∃ x ∈ accessorNames, c.entry = (freshStubs x).entry) :
    (populous s).Built freshStubs 8 := by
  have made : (founded s).Built freshStubs 8 :=
    (built.allocate (.codeRef idler) honest).allocate (.function (.pointer 448) .undefined 2) <| by
      show 2 < 0x4000000000000
      decide
  refine (made.allocate (.construct (.int 0) (.pointer 464) []) ?_).allocate _ trivial
  intro ctor may
  rcases harmless ctor may.mem with idle | ⟨x, accessor, entry⟩
  · exact .inl idle
  · exact .inr ⟨x, accessor,
      (made.ready freshStubs_library).honest ctor may.mem x accessor entry⟩

theorem populous_builds : ∃ f t key p,
    (populous Client.fresh.state).Built freshStubs 8 ∧
    (populous Client.fresh.state).machine.heap.region.cursor = 1336 ∧
    invoke PropertyHost.serve 8 (freshStubs allocFn) .undefined
      [.pointer 448, .pointer 464, .int 1] (populous Client.fresh.state) = .ok f t ∧
    t.machine.Complete freshStubs 1336 f (.pointer 448) (.pointer 464) 1 key p := by
  have facts : (∀ x ∈ accessorNames, idler.entry ≠ (freshStubs x).entry) ∧
      (∀ c ∈ (founded Client.fresh.state).machine.code,
        c.Idle ∨ ∃ x ∈ accessorNames, c.entry = (freshStubs x).entry) ∧
      (populous Client.fresh.state).machine.heap.region.cursor = 1336 ∧
      (match invoke PropertyHost.serve 8 (freshStubs allocFn) .undefined
          [.pointer 448, .pointer 464, .int 1] (populous Client.fresh.state) with
        | .ok _ _ => true
        | .error _ _ => false) = true := by decide +kernel
  obtain ⟨honest, harmless, cursor, returned⟩ := facts
  have start : Client.fresh.state.Built freshStubs 8 := by
    obtain ⟨h, created, same⟩ := Client.fresh_start
    rw [same]
    exact .start created (by decide) 8
  have built := populous_built start (fun x accessor entry => absurd entry (honest x accessor))
    harmless
  split at returned
  next f t ran =>
    obtain ⟨_, key, p, complete, _⟩ :=
      allocFn_builds_function freshStubs_library built (by decide) ran
    rw [cursor] at complete
    exact ⟨f, t, key, p, built, cursor, ran, complete⟩
  next => cases returned

/-- A function that is made after another compiler's stub has got the Code entity that the setter
of `prototype` is taken for is not complete: its instances have no map. -/
theorem impostor_leaves_incomplete : ∃ code f s t,
    (Compiler.compileAll { id := 1 } (List.replicate 12
      ⟨{ stub := "idle", varCount := 0, blocks := [⟨[], [], .ret none⟩] }, {}, []⟩)).1[11]? =
        some impostor ∧
    (Allocation.codeRef impostor).run freshStubs 8 Client.fresh.state = .ok code s ∧
    invoke PropertyHost.serve 8 (freshStubs allocFn) .undefined [code, .undefined, .int 0] s =
      .ok f t ∧
    ¬ ∃ key p, t.machine.Complete freshStubs s.machine.heap.region.cursor f code .undefined 0 key
      p := by
  obtain ⟨code, s, asked, made⟩ : ∃ code s,
      (Allocation.codeRef impostor).run freshStubs 8 Client.fresh.state = .ok code s ∧
      Yields (invoke PropertyHost.serve 8 (freshStubs allocFn) .undefined
        [code, .undefined, .int 0]) s (fun f t =>
          t.machine.heap.load f Layout.Function.instanceMap = .ok (.pointer 0) ∧
          t.machine.heap.kind? (.pointer 0) ≠ some .map) fun _ _ => False :=
    Yields.returns (by decide +kernel)
  obtain ⟨f, t, made, instances, blank⟩ := made.returns
  refine ⟨code, f, s, t, impostor_compiled.1, asked, made, ?_⟩
  rintro ⟨key, p, complete⟩
  have map := complete.map
  rw [← Except.ok.inj (instances.symm.trans complete.instanceMap)] at map
  exact blank map

end FastPath

import FastPath.Proofs.Catalogue.Demands
import FastPath.Proofs.Catalogue.Equipment
import FastPath.Proofs.Execution.Bounds

/-! Clients that make entities and store values. Whatever they have done, with or without success,
the functions that they know are equipped, and what they have made stays except for what they
assign. -/

namespace FastPath

open Catalogue Heap

namespace Request

/-- Whether a request makes an entity or stores a value. Pairs are made for functions only. -/
def constructive : Request → Bool
  | object | function _ _ _ | construct _ _ _ | set _ _ _ | atom _ | codeRef _ => true
  | pair | get _ _ | delete _ _ | slot _ _ _ _ => false

/-- The request assigns the `prototype` of the function. -/
def Assigns (h : Heap) (f : Word) : Request → Prop
  | set o k _ => o = f ∧ h.atoms.lookup "prototype" = some k
  | _ => False

instance (h : Heap) (f : Word) : (r : Request) → Decidable (r.Assigns h f)
  | set _ _ _ => inferInstanceAs (Decidable (_ ∧ _))
  | object | pair | function _ _ _ | construct _ _ _ | get _ _ | delete _ _ | slot _ _ _ _
  | atom _ | codeRef _ => .isFalse id

end Request

/-! The bounds of the machine. -/

theorem Machine.Within.trans {m m' m'' : Machine} (first : m.Within 0 m')
    (second : m'.Within 0 m'') : m.Within 0 m'' :=
  ⟨first.toOnward.trans second.toOnward, second.inBounds, second.depth.trans first.depth,
    second.maxDepth.trans first.maxDepth⟩

/-- In lockstep with itself a request stays within the bounds. -/
theorem Request.mirrors (stubs : String → Stub) (fuel : Nat) (m : Machine) (r : Request) :
    Mirrors (Bounded m 0) (fun _ => False) (r.run stubs fuel) (r.run stubs fuel) := by
  have lockstep : Lockstep (Bounded m : Nat → State PropertyHost → _ → Prop) fun _ => False :=
    bounded_lockstep m
  have called (stub : Stub) (self : Word) (args : List Word) :
      Mirrors (Bounded m 0) (fun _ => False) (invoke PropertyHost.serve fuel stub self args)
        (invoke PropertyHost.serve fuel stub self args) :=
    lockstep.invoke (fun called => lockstep.serve (bounded_attended m _) called) fuel stub self args
  cases r with
  | object | pair | function | construct => exact called _ _ _
  | get o k => exact lockstep.get called o k
  | set o k v => exact lockstep.set called o k v
  | delete o k => exact lockstep.delete o k
  | slot id o k update => exact lockstep.slot (bounded_attended m 0) id o k update
  | atom name => exact lockstep.onHeap (atom_advances name)
  | codeRef stub =>
    exact lockstep.onMachine (Machine.blind_codeEntity stub) (Machine.advances_codeEntity stub)

theorem Request.keeps_bounds (stubs : String → Stub) (fuel : Nat) (r : Request)
    {s : State PropertyHost} (inBounds : s.machine.InBounds) :
    Yields (r.run stubs fuel) s (fun _ t => s.machine.Within 0 t.machine)
      fun _ t => s.machine.Within 0 t.machine :=
  ((r.mirrors stubs fuel s.machine).ends (.start inBounds)).2

/-! What requests do. -/

/-- What a request leaves of the machine. -/
structure Request.Progress (stubs : String → Stub) (New : Nat → Shape → Prop) (Γ : Inventory shared)
    (m : Machine) (Γ' : Inventory shared) (m' : Machine) (r : Request) : Prop extends
    Continues stubs true New Γ m.heap Γ' m' where
  honest : ∀ s ∈ m'.code, s.Honest stubs
  retains : Γ.Retains m.heap m'.heap
  maps : ∀ f slots, Γ f.toNat = some (.function slots) → ¬ r.Assigns m.heap f →
    m'.heap.word (f.toNat + 8 * 4) = m.heap.word (f.toNat + 8 * 4)

/-- The word is no function, or an equipped one. -/
def Inventory.Apt (Γ : Inventory shared) (h : Heap) (w : Word) : Prop :=
  Γ.Housed w true → ∃ key pair, Γ.Equips h w key pair

variable {stubs : String → Stub} {strict : Bool} {Γ Γ' : Inventory false} {s : State PropertyHost}
  {New : Nat → Shape → Prop}

theorem Inventory.Apt.of_shape {h : Heap} {w : Word} {x : Shape} (found : Γ w.toNat = some x)
    (other : x.kind ≠ .function) : Γ.Apt h w := by
  rintro ⟨slots, function⟩
  cases found.symm.trans function
  exact absurd rfl other

theorem Inventory.Apt.later {h h' : Heap} {w : Word} (apt : Γ.Apt h w) (value : Γ.Value w)
    (typed : Typed strict Γ h) (typed' : Typed strict Γ' h') (evolves : Evolves New Γ h Γ' h')
    (retains : Γ.Retains h h') : Γ'.Apt h' w := by
  rintro ⟨slots, function⟩
  rcases value with int | ⟨x, found, _⟩
  · rw [Word.isInt_aligned (typed'.inside function).2.1] at int
    cases int
  · cases (evolves.stays _ _ found).symm.trans function
    obtain ⟨key, pair, equips⟩ := apt ⟨slots, found⟩
    exact ⟨key, pair, equips.later typed ⟨slots, found⟩ evolves retains⟩

theorem Develops.progress {m m' : Machine} (develops : Develops stubs true New Γ m.heap Γ' m')
    (typed : Typed true Γ m.heap) (honest : ∀ s ∈ m'.code, s.Honest stubs) (r : Request) :
    r.Progress stubs New Γ m Γ' m' := by
  refine ⟨develops.continues, honest, typed.retains_spared develops.spares,
    fun f slots found _ => ?_⟩
  exact typed.spared_word develops.spares found (by simp only [Shape.words]; omega)

/-- However a request ends, all that it leaves is well; if it returns, then the result is known, and
if that is a function, it is equipped. -/
def Request.Progresses (stubs : String → Stub) (fuel : Nat) (Γ : Inventory false) (r : Request)
    (s : State PropertyHost) : Prop :=
  Yields (r.run stubs fuel) s
    (fun w t => ∃ Γ', r.Progress stubs Whole Γ s.machine Γ' t.machine ∧ Γ'.Known true w ∧
      Γ'.Apt t.machine.heap w)
    fun _ t => ∃ Γ', r.Progress stubs Anything Γ s.machine Γ' t.machine

/-- Requests that make something and write nothing else. -/
theorem Request.progresses_of_makes {fuel : Nat} {r : Request}
    {Q : Inventory false → Word → State PropertyHost → Prop} {R : Word → State PropertyHost → Prop}
    (typed : Typed true Γ s.machine.heap) (makes : Makes stubs true Γ (r.run stubs fuel) s Q)
    (known : Yields (r.run stubs fuel) s
      (fun w t => (∀ c ∈ t.machine.code, c.Honest stubs) ∧ R w t)
      fun _ t => ∀ c ∈ t.machine.code, c.Honest stubs)
    (result : ∀ Γ' w t, Furnished stubs true Γ' t.machine → Q Γ' w t → R w t →
      ∃ x, Γ' w.toNat = some x ∧ x.handled false = true ∧ x ≠ .pair ∧ Γ'.Apt t.machine.heap w) :
    r.Progresses stubs fuel Γ s := by
  refine (Yields.and makes known).mono ?_ ?_
  · rintro w t ⟨⟨Γ', develops, made⟩, honest, more⟩
    obtain ⟨x, found, handled, single, apt⟩ := result Γ' w t develops.furnished made more
    exact ⟨Γ', develops.progress typed honest r,
      Inventory.known_entity found handled fun _ => single, apt⟩
  · rintro e t ⟨⟨Γ', develops⟩, honest⟩
    exact ⟨Γ', develops.progress typed honest r⟩

section

variable (library : Library stubs) (furnished : Furnished stubs true Γ s.machine)
  (honest : ∀ c ∈ s.machine.code, c.Honest stubs) (fuel : Nat)

include library furnished honest

/-- Allocations leave ready machines. -/
theorem Allocation.stays_honest (a : Allocation) (allowed : a.Allowed stubs s.machine) :
    Yields (a.run stubs (fuel + 8)) s
      (fun _ (t : State PropertyHost) => (∀ c ∈ t.machine.code, c.Honest stubs) ∧ True)
      fun _ (t : State PropertyHost) => ∀ c ∈ t.machine.code, c.Honest stubs :=
  (a.stays_ready library (furnished.ready honest) allowed fuel).mono
    (fun _ _ ready => ⟨ready.honest, trivial⟩) fun _ _ ready => ready.honest

namespace Request

theorem object_progresses : object.Progresses stubs (fuel + 8) Γ s := by
  have place := furnished.typed.sound.toNat_cursor
  refine progresses_of_makes furnished.typed
    (library.allocObject_makes furnished PropertyHost.serve (fuel + 2) .undefined)
    (Allocation.stays_honest library furnished honest fuel .object trivial) ?_
  rintro Γ' _ t _ ⟨rfl, found⟩ _
  have found := (congrArg Γ' place).trans found
  exact ⟨_, found, rfl, by simp, .of_shape found (by decide)⟩

/-- A new function is equipped from the start. -/
theorem function_progresses {code outer : Word} {slots : Nat} (few : slots < 0x4000000000000)
    (callee : Γ.Callee code) (value : Γ.Value outer) :
    (function code outer slots).Progresses stubs (fuel + 8) Γ s := by
  have place := furnished.typed.sound.toNat_cursor
  have ready := furnished.ready honest
  refine progresses_of_makes furnished.typed (R := fun _ t => ∃ key getter setter more,
      s.machine.Completes stubs slots code outer key getter setter more t.machine)
    (library.allocFn_makes fuel .undefined furnished few callee value)
    ((library.allocFn_puts fuel ready few .undefined code outer).mono ?_
      fun _ _ ready => ready.honest) ?_
  · rintro _ t ⟨_, key, getter, setter, more, completes⟩
    exact ⟨completes.builds.ready.honest, key, getter, setter, more, completes⟩
  · rintro Γ' _ t furnished' ⟨rfl, found⟩ ⟨key, getter, setter, more, completes⟩
    have found := (congrArg Γ' place).trans found
    exact ⟨_, found, rfl, by simp, fun function =>
      ⟨key, completes.equips library furnished'.typed function⟩⟩

theorem construct_progresses {fn : Word} (value : Γ.Value fn) (argc : Word) (args : List Word) :
    (construct argc fn args).Progresses stubs (fuel + 8) Γ s := by
  have place := furnished.typed.sound.toNat_cursor
  have runs := library.new_runs furnished PropertyHost.serve (fuel + 1) .undefined value argc args
  refine progresses_of_makes furnished.typed (R := fun _ _ => True)
    (library.new_makes furnished PropertyHost.serve (fuel + 1) .undefined value argc args)
    (runs.mono ?_ ?_) ?_
  · rintro _ _ ⟨_, _, _, _, rfl, _⟩
    exact ⟨honest, trivial⟩
  · rintro _ _ ⟨_, _, rfl, _⟩
    exact honest
  · rintro Γ' _ t _ ⟨rfl, found⟩ _
    have found := (congrArg Γ' place).trans found
    exact ⟨_, found, rfl, by simp, .of_shape found (by decide)⟩

/-- What is stored replaces nothing that a function was equipped with. -/
theorem set_progresses {o k v : Word} (obj : Γ.Value o) (key : Γ.Value k) (data : Γ.Data v) :
    (set o k v).Progresses stubs (fuel + 8) Γ s := by
  have plain := furnished.typed.data_unpaired data
  have serves := library.set_serves furnished PropertyHost.serve (fuel + 4) obj key data.value
    (fun _ => data) fun _ => data
  have spares := library.set_spares furnished PropertyHost.serve (fuel + 4) (k := k) obj data plain
  refine (serves.and spares).mono ?_ ?_
  · rintro _ _ ⟨⟨Γ', continues_, rfl⟩, h, rfl, retains, maps⟩
    have root := continues_.furnished.typed.rooted.undefined
    refine ⟨Γ', ⟨continues_, honest, retains, fun f slots found other => ?_⟩,
      (continues_.furnished.typed.data_root (by simp [roots])).known, .of_shape root (by decide)⟩
    exact maps f slots found fun same named => other ⟨same.symm, named⟩
  · rintro _ _ ⟨⟨Γ', continues_⟩, rfl⟩
    exact ⟨Γ', continues_, honest, fun _ _ _ _ _ held _ => held, fun _ _ _ _ => rfl⟩

theorem codeRef_progresses {stub : Stub} (plays : Role.idle.Plays stubs stub) :
    (codeRef stub).Progresses stubs (fuel + 8) Γ s := by
  obtain ⟨idle, first, second⟩ := plays
  refine progresses_of_makes furnished.typed
    (furnished.codeEntity_makes library (r := .idle) ⟨idle, first, second⟩ (by simp))
    (Allocation.stays_honest library furnished honest fuel (.codeRef stub) ?_) ?_
  · intro x accessor same
    simp only [accessorNames, List.mem_cons, List.not_mem_nil, or_false] at accessor
    rcases accessor with rfl | rfl
    · exact absurd same first
    · exact absurd same second
  · rintro Γ' w t furnished' ⟨r, index, akin, found⟩ _
    exact ⟨_, found, furnished'.code_handled akin (fun _ => rfl) found, by simp,
      .of_shape found (by simp [Shape.kind])⟩

/-- A client that does nothing but make and store makes progress whatever it asks for. -/
theorem progresses (r : Request) (known : ∀ w ∈ r.words, Γ.Known true w)
    (constructive : r.constructive = true) (allowed : r.Allowed stubs true s.machine.heap) :
    r.Progresses stubs (fuel + 8) Γ s := by
  have suits := allowed.suits furnished.typed known
  cases r with
  | object => exact object_progresses library furnished honest fuel
  | function code outer slots =>
    exact function_progresses library furnished honest fuel suits.1 suits.2
      (known outer (by simp [words])).1
  | construct argc fn args =>
    exact construct_progresses library furnished honest fuel (known fn (by simp [words])).1 argc
      args
  | set o k v =>
    exact set_progresses library furnished honest fuel (known o (by simp [words])).1
      (known k (by simp [words])).1 ((known v (by simp [words])).2 rfl)
  | atom name =>
    refine progresses_of_makes furnished.typed (furnished.atom_makes name)
      (Allocation.stays_honest library furnished honest fuel (.atom name) trivial) ?_
    rintro Γ' w t _ ⟨found, _⟩ _
    exact ⟨_, found, rfl, by simp, .of_shape found (by decide)⟩
  | codeRef stub => exact codeRef_progresses library furnished honest fuel allowed
  | pair | get | delete | slot => cases constructive

end Request

end

namespace Client

/-- Where a client gets from a fresh heap by requests that make something, if all of them are met
or, unless `total`, also if some fail. Behind the region there are addresses left. -/
inductive Works (stubs : String → Stub) (total : Bool) (fuel : Nat) : Client → Prop
  | start {size : Nat} {h : Heap} (created : Heap.create size = .ok h)
      (small : size < 0x7fffffffffffff00) (maxDepth : Nat) :
      Works stubs total fuel (start h maxDepth)
  | ask {c : Client} (r : Request) (works : Works stubs total fuel c)
      (known : ∀ w ∈ r.words, c.Knows w) (allowed : r.Allowed stubs true c.state.machine.heap)
      (constructive : r.constructive = true)
      (met : total = true → (Demand.request r).met stubs fuel c.state = true) :
      Works stubs total fuel (c.ask stubs fuel r)

/-- Where a client gets from another state, without assigning the `prototype` of the function. -/
inductive Later (stubs : String → Stub) (fuel : Nat) (f : Word) (c : Client) : Client → Prop
  | refl : Later stubs fuel f c c
  | ask {d : Client} (r : Request) (later : Later stubs fuel f c d)
      (known : ∀ w ∈ r.words, d.Knows w) (allowed : r.Allowed stubs true d.state.machine.heap)
      (constructive : r.constructive = true) (other : ¬ r.Assigns d.state.machine.heap f) :
      Later stubs fuel f c (d.ask stubs fuel r)

/-- What holds of a client whatever it has done. -/
structure Stands (stubs : String → Stub) (total : Bool) (Γ : Inventory false) (c : Client) :
    Prop where
  furnished : Furnished stubs true Γ c.state.machine
  whole : total = true → ∀ a x, Γ a = some x → x.finished = true
  held : ∀ w ∈ c.hand, Γ.Known true w
  honest : ∀ s ∈ c.state.machine.code, s.Honest stubs
  apt : ∀ w ∈ c.hand, Γ.Apt c.state.machine.heap w
  inBounds : c.state.machine.InBounds
  room : c.state.machine.heap.region.limit + Layout.Map.size < 0x8000000000000000

/-- What stays from one state of a client to another. -/
structure Keeps (Γ : Inventory false) (c : Client) (Γ' : Inventory false) (d : Client) : Prop where
  evolves : Evolves Anything Γ c.state.machine.heap Γ' d.state.machine.heap
  within : c.state.machine.Within 0 d.state.machine
  hand : c.hand ⊆ d.hand

theorem Keeps.refl {c : Client} (stands : c.Stands stubs total Γ) : c.Keeps Γ Γ c :=
  ⟨.refl _ Γ _, .start stands.inBounds, List.Subset.refl _⟩

theorem Keeps.trans {c d e : Client} {Γ'' : Inventory false} (first : c.Keeps Γ Γ' d)
    (second : d.Keeps Γ' Γ'' e) : c.Keeps Γ Γ'' e :=
  ⟨first.evolves.trans second.evolves, first.within.trans second.within,
    List.Subset.trans first.hand second.hand⟩

variable {total : Bool}

theorem Stands.start {h : Heap} {size : Nat} (created : Heap.create size = .ok h)
    (small : size < 0x7fffffffffffff00) (maxDepth : Nat) :
    (start h maxDepth).Stands stubs total (rootInventory false) := by
  have furnished : Furnished stubs true (rootInventory false) _ :=
    start_furnished created (Nat.lt_trans small (by decide)) maxDepth
  have sound := furnished.typed.sound
  refine ⟨furnished, fun _ a x found => ?_, fun w root => (furnished.typed.data_root root).known,
    nofun, fun w root function => ?_, ⟨sound.aligned, sound.bounded, Nat.zero_le _⟩, ?_⟩
  · rcases rootShape_cases found with ⟨_, _, rfl⟩ | ⟨_, _, _, rfl⟩ | ⟨_, _, _, rfl⟩ <;> rfl
  · obtain ⟨slots, found⟩ := function
    rcases rootShape_cases found with ⟨_, _, same⟩ | ⟨_, _, _, same⟩ | ⟨_, _, _, same⟩ <;>
      cases same
  · obtain ⟨_, _, _, _, _, _, limit, _⟩ := create_widens created
    have near := roundUp_lt size
    change h.region.limit + Layout.Map.size < _
    rw [limit, Layout.Map.size]
    omega

theorem Stands.ask (library : Library stubs) {c : Client} (stands : c.Stands stubs total Γ)
    (fuel : Nat) (r : Request) (known : ∀ w ∈ r.words, Γ.Known true w)
    (allowed : r.Allowed stubs true c.state.machine.heap) (constructive : r.constructive = true)
    (met : total = true → (Demand.request r).met stubs (fuel + 8) c.state = true) :
    ∃ Γ', (c.ask stubs (fuel + 8) r).Stands stubs total Γ' ∧
      c.Keeps Γ Γ' (c.ask stubs (fuel + 8) r) ∧
      ∀ f slots, Γ f.toNat = some (.function slots) → ¬ r.Assigns c.state.machine.heap f →
        (c.ask stubs (fuel + 8) r).state.machine.heap.word (f.toNat + 8 * 4) =
          c.state.machine.heap.word (f.toNat + 8 * 4) := by
  obtain ⟨furnished, whole, held, honest, apt, inBounds, room⟩ := stands
  have typed := furnished.typed
  have progresses := r.progresses library furnished honest fuel known constructive allowed
  have bounds := r.keeps_bounds stubs (fuel + 8) inBounds
  have later {New : Nat → Shape → Prop} {Γ' : Inventory false} {m : Machine}
      (progress : r.Progress stubs New Γ c.state.machine Γ' m) (w : Word) (member : w ∈ c.hand) :
      Γ'.Known true w ∧ Γ'.Apt m.heap w :=
    ⟨(held w member).mono progress.evolves.stays.settles, (apt w member).later (held w member).1
      typed progress.furnished.typed progress.evolves progress.retains⟩
  unfold Client.ask
  cases ran : r.run stubs (fuel + 8) c.state with
  | ok w t =>
    obtain ⟨Γ', progress, known, apt'⟩ := progresses.ok ran
    have within := bounds.ok ran
    refine ⟨Γ', ⟨progress.furnished, fun same a x found => ?_,
      List.forall_mem_cons.mpr ⟨known, fun v member => (later progress v member).1⟩,
      progress.honest, List.forall_mem_cons.mpr ⟨apt', fun v member => (later progress v member).2⟩,
      within.inBounds, ?_⟩, ⟨progress.evolves.mono fun _ _ _ => trivial, within,
        List.subset_cons_self _ _⟩, progress.maps⟩
    · exact (progress.evolves.new found).elim (whole same a x) id
    · change t.machine.heap.region.limit + _ < _
      rw [within.heap.limit]
      exact room
  | error e t =>
    obtain ⟨Γ', progress⟩ := progresses.error ran
    have within := bounds.error ran
    refine ⟨Γ', ⟨progress.furnished, fun same => ?_, fun v member => (later progress v member).1,
      progress.honest, fun v member => (later progress v member).2, within.inBounds, ?_⟩,
      ⟨progress.evolves, within, List.Subset.refl _⟩, progress.maps⟩
    · have returned := met same
      rw [Demand.met, Demand.run, ran] at returned
      cases returned
    · change t.machine.heap.region.limit + _ < _
      rw [within.heap.limit]
      exact room

/-- Requests that a client may make one after the other. -/
theorem Works.asks {fuel : Nat} {c : Client} {rs : List Request} (works : c.Works stubs false fuel)
    (legal : c.Legal stubs true fuel rs) (constructive : ∀ r ∈ rs, r.constructive = true) :
    (c.asks stubs fuel rs).Works stubs false fuel := by
  induction rs generalizing c with
  | nil => exact works
  | cons r rs ih =>
    obtain ⟨known, allowed, legal⟩ := legal
    obtain ⟨first, rest⟩ := List.forall_mem_cons.mp constructive
    exact ih (works.ask r known allowed first nofun) legal rest

theorem fresh_works (stubs : String → Stub) (total : Bool) (fuel : Nat) :
    fresh.Works stubs total fuel := by
  obtain ⟨h, created, same⟩ := fresh_start
  rw [same]
  exact .start created (by decide) 8

theorem Works.stands (library : Library stubs) {fuel : Nat} {c : Client}
    (works : c.Works stubs total (fuel + 8)) : ∃ Γ, c.Stands stubs total Γ := by
  induction works with
  | start created small maxDepth => exact ⟨_, .start created small maxDepth⟩
  | ask r _ known allowed constructive met ih =>
    obtain ⟨Γ, stands⟩ := ih
    obtain ⟨Γ', stands', _⟩ := stands.ask library fuel r
      (fun w used => (known w used).known stands.held) allowed constructive met
    exact ⟨Γ', stands'⟩

/-- A client that may fail. -/
theorem Stands.loose {c : Client} (stands : c.Stands stubs total Γ) : c.Stands stubs false Γ :=
  { stands with whole := nofun }

/-- As long as its `prototype` is not assigned, a function has the same instance map. -/
theorem Later.stands (library : Library stubs) {fuel slots : Nat} {f : Word} {c d : Client}
    (stands : c.Stands stubs false Γ) (found : Γ f.toNat = some (.function slots))
    (later : c.Later stubs (fuel + 8) f d) : ∃ Γ', d.Stands stubs false Γ' ∧ c.Keeps Γ Γ' d ∧
      d.state.machine.heap.word (f.toNat + 8 * 4) =
        c.state.machine.heap.word (f.toNat + 8 * 4) := by
  induction later with
  | refl => exact ⟨Γ, stands, .refl stands, rfl⟩
  | ask r _ known allowed constructive other ih =>
    obtain ⟨Γ', stands', keeps, same⟩ := ih
    obtain ⟨Γ'', stands'', keeps', maps⟩ :=
      stands'.ask library fuel r (fun w used => (known w used).known stands'.held) allowed
        constructive nofun
    refine ⟨Γ'', stands'', keeps.trans keeps', ?_⟩
    rw [maps f slots (keeps.evolves.stays _ _ found) other, same]

end Client

end FastPath

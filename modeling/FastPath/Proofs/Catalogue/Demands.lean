import FastPath.Proofs.Catalogue.Requests

/-! Clients with a free hand. They may store accessor pairs wherever they like, ask for fields and
for the Code entities of stubs that do something, and are only kept from stubs with the entry point
of an accessor of `prototype`. All that they make functions of are stubs that return at once. -/

namespace FastPath

open Catalogue Heap

/-- What a client with a free hand may ask for. -/
inductive Demand where
  | request (r : Request)
  | field (slots : Nat)
  /-- The Code entity of an accessor of `prototype`. -/
  | accessor (setter : Bool)

namespace Demand

/-- The words that a demand mentions. -/
def words : Demand → List Word
  | request r => r.words
  | field _ | accessor _ => []

def run (stubs : String → Stub) (fuel : Nat) : Demand → Exec PropertyHost Word
  | request r => r.run stubs fuel
  | field slots => invoke PropertyHost.serve fuel (stubs allocField) .undefined [.int slots]
  | accessor setter => Exec.onMachine
      (Machine.codeEntity (stubs (if setter then prototypeSetter else prototypeGetter)))

/-- Whether a demand is met. -/
def met (stubs : String → Stub) (fuel : Nat) (d : Demand) (s : State PropertyHost) : Bool :=
  match d.run stubs fuel s with
  | .ok _ _ => true
  | .error _ _ => false

/-- Fields and contexts are of a sensible size, the stubs of functions return at once, and entry
points tell stubs from the accessors. -/
def Allowed (stubs : String → Stub) (m : Machine) : Demand → Prop
  | request (.function code _ slots) =>
    slots < 0x4000000000000 ∧ ∃ stub ∈ m.stub? code, stub.Idle
  | request (.codeRef stub) => stub.entry ≠ (stubs prototypeGetter).entry ∧
      stub.entry ≠ (stubs prototypeSetter).entry
  | field slots => slots < 0x4000000000000
  | request _ | accessor _ => True

instance (stubs : String → Stub) (m : Machine) : (d : Demand) → Decidable (d.Allowed stubs m)
  | request (.function code _ slots) => inferInstanceAs
      (Decidable (slots < 0x4000000000000 ∧ ∃ stub ∈ m.stub? code, stub.Idle))
  | request (.codeRef _) => inferInstanceAs (Decidable (_ ≠ _ ∧ _ ≠ _))
  | field slots => inferInstanceAs (Decidable (slots < 0x4000000000000))
  | request .object | request .pair | request (.construct _ _ _) | request (.get _ _)
  | request (.set _ _ _) | request (.delete _ _) | request (.slot _ _ _ _) | request (.atom _)
  | accessor _ => .isTrue trivial

end Demand

namespace Client

/-- The client after a demand, which may have changed the state also if it failed. -/
def get (stubs : String → Stub) (fuel : Nat) (c : Client) (d : Demand) : Client :=
  match d.run stubs fuel c.state with
  | .ok w s => { state := s, hand := w :: c.hand }
  | .error _ s => { c with state := s }

/-- Where a client with a free hand gets from a fresh heap, if all its demands are met or, unless
`total`, also if some fail. -/
inductive Attains (stubs : String → Stub) (total : Bool) (fuel : Nat) : Client → Prop
  | start {size : Nat} {h : Heap} (created : Heap.create size = .ok h)
      (small : size < 0x7ffffffffffffff8) (maxDepth : Nat) :
      Attains stubs total fuel (start h maxDepth)
  | get {c : Client} (d : Demand) (attains : Attains stubs total fuel c)
      (known : ∀ w ∈ d.words, c.Knows w) (allowed : d.Allowed stubs c.state.machine)
      (met : total = true → d.met stubs fuel c.state = true) :
      Attains stubs total fuel (c.get stubs fuel d)

/-- The client after several demands. -/
def gets (stubs : String → Stub) (fuel : Nat) (c : Client) (ds : List Demand) : Client :=
  ds.foldl (get stubs fuel) c

/-- A client may make the demands one after the other. -/
def Entitled (stubs : String → Stub) (total : Bool) (fuel : Nat) : Client → List Demand → Prop
  | _, [] => True
  | c, d :: ds => ((∀ w ∈ d.words, c.Knows w) ∧ d.Allowed stubs c.state.machine ∧
      (total = true → d.met stubs fuel c.state = true)) ∧
      (c.get stubs fuel d).Entitled stubs total fuel ds

instance decidableEntitled (stubs : String → Stub) (total : Bool) (fuel : Nat) :
    (c : Client) → (ds : List Demand) → Decidable (c.Entitled stubs total fuel ds)
  | _, [] => .isTrue trivial
  | c, _ :: ds =>
    @instDecidableAnd _ _ _ (decidableEntitled stubs total fuel (c.get stubs fuel _) ds)

theorem Attains.gets {stubs : String → Stub} {total : Bool} {fuel : Nat} {c : Client}
    {ds : List Demand} (attains : Attains stubs total fuel c)
    (entitled : c.Entitled stubs total fuel ds) :
    Attains stubs total fuel (c.gets stubs fuel ds) := by
  induction ds generalizing c with
  | nil => exact attains
  | cons d ds ih =>
    obtain ⟨⟨known, allowed, met⟩, entitled⟩ := entitled
    exact ih (attains.get d known allowed met) entitled

theorem fresh_attains (stubs : String → Stub) (total : Bool) (fuel : Nat) :
    fresh.Attains stubs total fuel := by
  obtain ⟨h, created, same⟩ := fresh_start
  rw [same]
  exact .start created (by decide) 8

end Client

/-- A stub that returns at once was compiled from a graph that does. -/
theorem Compiler.compile_idle {c c' : Compiler} {g : Graph} {stub : Stub}
    (compiled : c.compile g config deps = .ok (stub, c')) (idle : stub.Idle) :
    ∃ b, g.blocks[0]? = some b ∧ b.insts = [] := by
  obtain ⟨params, exit, entry, _⟩ := idle
  have blocks : List.Forall₂ (Block.Renamed (place g.stub deps)) g.blocks stub.blocks :=
    (compile_renamed compiled).blocks
  generalize g.blocks = bs, stub.blocks = bs' at entry blocks
  cases blocks with
  | nil => cases entry
  | cons first _ =>
    cases entry
    refine ⟨_, rfl, ?_⟩
    have insts := first.insts
    generalize Block.insts _ = is at insts
    cases insts
    rfl

variable {stubs : String → Stub} {total : Bool} {Γ : Inventory true}

theorem Library.accessor_busy (library : Library stubs) :
    ¬ (stubs prototypeGetter).Idle ∧ ¬ (stubs prototypeSetter).Idle := by
  have busy (g : Graph) (known : g ∈ Programs.graphs)
      (some_ : ∀ b, g.blocks[0]? = some b → b.insts ≠ []) : ¬ (stubs g.stub).Idle := by
    intro idle
    obtain ⟨d, member, same, built⟩ := Programs.built g known
    obtain ⟨g', c, c', deps, built', compiled, _⟩ := library.compiled d member
    cases built.symm.trans built'
    obtain ⟨b, found, bare⟩ := Compiler.compile_idle compiled (same ▸ idle)
    exact some_ b found bare
  constructor
  · exact busy Programs.readPrototype (by decide) (fun b found => by cases found; nofun)
  · exact busy Programs.writePrototype (by decide) (fun b found => by cases found; nofun)

namespace Demand

/-- What is allowed suits an inventory that shares everything. -/
theorem suits (library : Library stubs) {m : Machine} (furnished : Furnished stubs true Γ m)
    {r : Request} (known : ∀ w ∈ r.words, Γ.Known true w)
    (allowed : (request r).Allowed stubs m) : r.Suits stubs true Γ := by
  cases r with
  | pair => exact fun _ => rfl
  | function code outer slots =>
    obtain ⟨few, stub, held, idle⟩ := allowed
    refine ⟨few, ?_⟩
    rcases furnished.stub?_value (known code (by simp [Request.words])).1 with
      ⟨r, index, found⟩ | none_
    · obtain ⟨stub', held', plays⟩ := furnished.stub?_code found
      cases held.symm.trans held'
      refine .inr ⟨_, found, ?_, ?_⟩
      · cases r <;> rfl
      · cases r with
        | idle => rfl
        | getter => exact absurd (plays ▸ idle) library.accessor_busy.1
        | setter => exact absurd (plays ▸ idle) library.accessor_busy.2
        | other => exact absurd idle plays.1
    · cases held.symm.trans none_
  | set o k v => exact fun _ => (known v (by simp [Request.words])).2 rfl
  | codeRef stub =>
    by_cases idle : stub.Idle
    · exact ⟨.idle, ⟨idle, allowed⟩, fun same => by cases same⟩
    · exact ⟨.other, ⟨idle, allowed⟩, fun same => by cases same⟩
  | _ => trivial

/-- Whatever is demanded, the machine stays furnished. -/
theorem serves (library : Library stubs) {s : State PropertyHost}
    (furnished : Furnished stubs true Γ s.machine) (fuel : Nat) (d : Demand)
    (known : ∀ w ∈ d.words, Γ.Known true w) (allowed : d.Allowed stubs s.machine) :
    Serves stubs true Γ (d.run stubs (fuel + 8)) s fun Γ' w => Γ'.Known true w := by
  have place := furnished.typed.sound.toNat_cursor
  cases d with
  | request r =>
    exact r.serves library furnished fuel known (suits library furnished known allowed)
  | field slots =>
    refine (library.allocField_makes furnished PropertyHost.serve (fuel + 4) .undefined allowed
      false).mono ?_ ?_
    · rintro _ t ⟨rfl, _, develops⟩
      have found := (congrArg _ place).trans (Inventory.set_same (Γ := Γ) (x := .field slots false))
      exact ⟨_, develops.continues, Inventory.known_entity found rfl fun _ => nofun⟩
    · rintro _ _ rfl
      exact ⟨Γ, .refl furnished _⟩
  | accessor setter =>
    have serves {r : Role} {stub : Stub} (plays : r.Plays stubs stub) :
        Serves stubs true Γ (Exec.onMachine (Machine.codeEntity stub)) s
          fun Γ' w => Γ'.Known true w := by
      refine (furnished.codeEntity_makes library plays fun _ => rfl).serves ?_
      rintro Γ' w t _ ⟨r', index, _, found⟩
      exact Inventory.known_entity found (by cases r' <;> rfl) fun _ => nofun
    cases setter with
    | true => exact serves (r := .setter) rfl
    | false => exact serves (r := .getter) rfl

end Demand

/-- However a client got to where it is, the machine is furnished; and if all its demands were met,
then everything is complete. -/
theorem Client.Attains.furnished (library : Library stubs) {fuel : Nat} {c : Client}
    (attains : c.Attains stubs total (fuel + 8)) :
    ∃ Γ : Inventory true, Furnished stubs true Γ c.state.machine ∧
      (total = true → ∀ a x, Γ a = some x → x.finished = true) ∧
      ∀ w ∈ c.hand, Γ.Known true w := by
  induction attains with
  | start created small maxDepth =>
    have furnished : Furnished stubs true (rootInventory true) _ :=
      start_furnished created small maxDepth
    refine ⟨_, furnished, fun _ a x found => ?_, fun w root =>
      (furnished.typed.data_root root).known⟩
    rcases rootShape_cases found with ⟨_, _, rfl⟩ | ⟨_, _, _, rfl⟩ | ⟨_, _, _, rfl⟩ <;> rfl
  | @get c d _ known allowed met ih =>
    obtain ⟨Γ, furnished, whole, held⟩ := ih
    have serves := d.serves library furnished fuel (fun w used => (known w used).known held) allowed
    unfold Client.get
    cases ran : d.run stubs (fuel + 8) c.state with
    | ok w t =>
      obtain ⟨Γ', ⟨furnished', evolves⟩, new⟩ := serves.ok ran
      refine ⟨Γ', furnished', fun same a x found => ?_, List.forall_mem_cons.mpr ⟨new,
        fun v member => (held v member).mono evolves.stays.settles⟩⟩
      rcases evolves.new found with old | finished
      · exact whole same a x old
      · exact finished
    | error e t =>
      obtain ⟨Γ', ⟨furnished', evolves⟩⟩ := serves.error ran
      refine ⟨Γ', furnished', fun same => ?_, fun v member =>
        (held v member).mono evolves.stays.settles⟩
      have returned := met same
      rw [Demand.met, ran] at returned
      cases returned

end FastPath

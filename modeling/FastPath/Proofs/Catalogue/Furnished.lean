import FastPath.Proofs.Catalogue.Fields
import FastPath.Proofs.Execution.Simulation
import FastPath.Proofs.Property.Accesses

/-! Machines whose heap is typed and whose Code entities stand for the accessors of `prototype` or
for stubs that return at once. Making more entities keeps a machine furnished. -/

namespace FastPath

open Catalogue Heap

/-- Stubs that return at once. -/
def Stub.Idle (s : Stub) : Prop :=
  ∃ params exit, s.blocks[0]? = some ⟨params, [], .ret exit⟩ ∧
    ∀ v, exit = some v → v < s.varCount

theorem Stub.Idle.returns {stub : Stub} (idle : stub.Idle) (host : Host ρ) (fuel : Nat)
    (self : Word) (args : List Word) {s : State ρ} (depth : s.machine.depth < s.machine.maxDepth) :
    invoke host (fuel + 2) stub self args s = .ok .undefined s := by
  obtain ⟨params, exit, entry, known⟩ := idle
  rw [invoke_succ]
  refine Exec.nested_ok (t := s.deeper) depth ?_
  have found : stub.body.blocks[0]? = some ⟨params, [], .ret exit⟩ := entry
  refine (Body.runFrom_done found (Body.insts_nil host _) ?_).trans rfl
  cases exit with
  | none => rfl
  | some v =>
    refine Body.leave_ret ?_
    change (List.replicate stub.varCount Word.undefined)[v]? = _
    rw [List.getElem?_replicate, if_pos (known v rfl)]

/-- Which can be read off the entry block. -/
def Stub.idle (s : Stub) : Bool :=
  match (s.blocks[0]? : Option (Block Nat)) with
  | some ⟨_, [], .ret exit⟩ => exit.all fun v => decide (v < s.varCount)
  | _ => false

theorem Stub.idle_iff (s : Stub) : s.idle = true ↔ s.Idle := by
  unfold Stub.idle
  constructor
  · intro holds
    split at holds
    next params exit found =>
      refine ⟨params, exit, found, ?_⟩
      rintro v rfl
      exact of_decide_eq_true holds
    next => cases holds
  · rintro ⟨params, exit, found, known⟩
    rw [found]
    cases exit with
    | none => rfl
    | some v => exact decide_eq_true (known v rfl)

instance (s : Stub) : Decidable s.Idle := decidable_of_iff _ s.idle_iff

/-- What the stub behind a Code entity does. -/
def Role.Plays (stubs : String → Stub) : Role → Stub → Prop
  | .getter, s => s = stubs prototypeGetter
  | .setter, s => s = stubs prototypeSetter
  | .idle, s => s.Idle ∧ s.entry ≠ (stubs prototypeGetter).entry ∧
      s.entry ≠ (stubs prototypeSetter).entry
  | .other, s => ¬ s.Idle ∧ s.entry ≠ (stubs prototypeGetter).entry ∧
      s.entry ≠ (stubs prototypeSetter).entry

/-- The accessors have their entry points to themselves. -/
theorem Library.role_of_entry {stubs : String → Stub} (library : Library stubs) {r : Role}
    {s : Stub} (plays : r.Plays stubs s) :
    (s.entry = (stubs prototypeGetter).entry ↔ r = .getter) ∧
      (s.entry = (stubs prototypeSetter).entry ↔ r = .setter) := by
  cases r with
  | getter =>
    cases plays
    exact ⟨iff_of_true rfl rfl, iff_of_false library.accessors nofun⟩
  | setter =>
    cases plays
    exact ⟨iff_of_false library.accessors.symm nofun, iff_of_true rfl rfl⟩
  | idle | other => exact ⟨iff_of_false plays.2.1 nofun, iff_of_false plays.2.2 nofun⟩

/-- Roles that an entry point does not tell apart. -/
def Role.Akin (r r' : Role) : Prop := (r = .getter ↔ r' = .getter) ∧ (r = .setter ↔ r' = .setter)

theorem Role.Akin.refl (r : Role) : r.Akin r := ⟨Iff.rfl, Iff.rfl⟩

theorem Library.role_akin {stubs : String → Stub} (library : Library stubs) {r r' : Role}
    {s s' : Stub} (plays : r.Plays stubs s) (plays' : r'.Plays stubs s')
    (same : s.entry = s'.entry) : r.Akin r' := by
  obtain ⟨getter, setter⟩ := library.role_of_entry plays
  obtain ⟨getter', setter'⟩ := library.role_of_entry plays'
  rw [same] at getter setter
  exact ⟨getter.symm.trans getter', setter.symm.trans setter'⟩

/-- Every Code entity stands for a stub in its role, and so does every entry point that has got
one. -/
structure Furnished (stubs : String → Stub) (strict : Bool) (Γ : Inventory shared) (m : Machine) :
    Prop where
  typed : Typed strict Γ m.heap
  code : Γ a = some (.code r index) →
    index < 0x80000000 ∧ ∃ stub, m.code[index]? = some stub ∧ r.Plays stubs stub
  entities : m.entities.lookup entry = some w → ∃ r index stub, Γ w.toNat = some (.code r index) ∧
    m.code[index]? = some stub ∧ stub.entry = entry
  asked : Γ a = some (.code .other index) → shared = true

def Anything (_ : Nat) (_ : Shape) : Prop := True

def Whole (_ : Nat) (x : Shape) : Prop := x.finished = true

/-- Whole but for the entity at `a`, which is being filled in. -/
def WholeBut (a b : Nat) (x : Shape) : Prop := b = a ∨ x.finished = true

/-- The machine is furnished and spares what was in the heap `h`. -/
structure Develops (stubs : String → Stub) (strict : Bool) (New : Nat → Shape → Prop)
    (Γ : Inventory shared) (h : Heap) (Γ' : Inventory shared) (m : Machine) : Prop where
  furnished : Furnished stubs strict Γ' m
  evolves : Evolves New Γ h Γ' m.heap
  spares : Spares h m.heap

variable {stubs : String → Stub} {strict shared : Bool} {Γ Γ' Γ'' : Inventory shared}
  {m m' : Machine}
  {New New' : Nat → Shape → Prop}

namespace Furnished

theorem at_depth (furnished : Furnished stubs strict Γ m) (d : Nat) :
    Furnished stubs strict Γ { m with depth := d } :=
  ⟨furnished.typed, furnished.code, furnished.entities, furnished.asked⟩

/-- Another heap with no more Code entities. -/
theorem withHeap (furnished : Furnished stubs strict Γ m) (typed : Typed strict Γ' h')
    (stays : Γ.Settles Γ')
    (plain : ∀ a r index, Γ' a = some (.code r index) → Γ a = some (.code r index)) :
    Furnished stubs strict Γ' { m with heap := h' } := by
  refine ⟨typed, fun found => furnished.code (plain _ _ _ found), fun found => ?_,
    fun found => furnished.asked (plain _ _ _ found)⟩
  obtain ⟨r, index, stub, code, rest⟩ := furnished.entities found
  exact ⟨r, index, stub, stays _ _ code rfl, rest⟩

end Furnished

namespace Develops

theorem refl (furnished : Furnished stubs strict Γ m) (New : Nat → Shape → Prop) :
    Develops stubs strict New Γ m.heap Γ m :=
  ⟨furnished, .refl New Γ m.heap, .refl m.heap⟩

theorem trans {h : Heap} (first : Develops stubs strict New Γ h Γ' m)
    (second : Develops stubs strict New Γ' m.heap Γ'' m') :
    Develops stubs strict New Γ h Γ'' m' :=
  ⟨second.furnished, first.evolves.trans second.evolves, first.spares.trans second.spares⟩

theorem mono {h : Heap} (develops : Develops stubs strict New Γ h Γ' m)
    (weaker : ∀ a x, New a x → New' a x) : Develops stubs strict New' Γ h Γ' m :=
  ⟨develops.furnished, develops.evolves.mono weaker, develops.spares⟩

theorem anything {h : Heap} (develops : Develops stubs strict New Γ h Γ' m) :
    Develops stubs strict Anything Γ h Γ' m :=
  develops.mono fun _ _ _ => trivial

theorem at_depth {h : Heap} (develops : Develops stubs strict New Γ h Γ' m) (d : Nat) :
    Develops stubs strict New Γ h Γ' { m with depth := d } :=
  ⟨develops.furnished.at_depth d, develops.evolves, develops.spares⟩

theorem shallower {h h' : Heap} {s : State ρ}
    (develops : Develops stubs strict New Γ h Γ' (s.deeper.withHeap h').machine) :
    Develops stubs strict New Γ h Γ' { s.machine with heap := h' } :=
  develops.at_depth s.machine.depth

end Develops

section

variable {h : Heap} {a i n : Nat} {content : Nat → Content} {c : Content} {v w : Word} {x : Shape}
  (develops : Develops stubs strict (WholeBut a) Γ h Γ' m) (fresh : Γ a = none)
  (beyond : h.region.cursor ≤ a)

include develops fresh beyond

/-- A word of the entity that is being filled in is written. -/
theorem Develops.fill_in (draft : Γ' a = some (.draft n content)) (inside : i < n) (c : Content)
    (accepts : c.Accepts Γ' a w) :
    Develops stubs strict (WholeBut a) Γ h
      (Γ'.set a (.draft n (Function.update content i c)))
      { m with heap := m.heap.put (a + 8 * i) w } := by
  obtain ⟨furnished, evolves, spares⟩ := develops
  have typed := furnished.typed
  have aligned := (typed.inside draft).2.1
  refine ⟨furnished.withHeap (typed.fill_in draft inside c accepts)
    (Inventory.settles_set draft rfl) fun _ _ _ => Inventory.code_of_set rfl, ?_,
    spares.put (by omega) (by omega)⟩
  exact (evolves.put typed draft inside (.inl fresh)).set fresh (.inl rfl) fun _ _ _ new => new

/-- Words of the entity that is being filled in are written one after the other. -/
theorem Develops.fill_words (draft : Γ' a = some (.draft n content)) (count start : Nat)
    (inside : start + count ≤ n) (c : Content) (accepts : c.Accepts Γ' a w) :
    ∃ h', fillWords w count (a + 8 * start) m.heap = .ok () h' ∧
      Develops stubs strict (WholeBut a) Γ h
        (Γ'.set a (.draft n fun i => if start ≤ i ∧ i < start + count then c else content i))
        { m with heap := h' } := by
  induction count generalizing start content Γ' m with
  | zero =>
    have same : (fun i => if start ≤ i ∧ i < start + 0 then c else content i) = content := by
      funext i
      rw [if_neg (by omega)]
    refine ⟨m.heap, rfl, ?_⟩
    rwa [same, Inventory.set_known draft]
  | succ count ih =>
    have typed := develops.furnished.typed
    obtain ⟨_, aligned, _, fits⟩ := typed.inside draft
    simp only [Shape.words] at fits
    have bounded := typed.sound.bounded
    have backed := typed.sound.backed
    have low := typed.inside draft
    have first := write_eq (w := w)
      (hasWord_iff.mpr ⟨by omega, by omega, by omega⟩ : m.heap.hasWord (a + 8 * start) = true)
    have written := develops.fill_in fresh beyond draft (i := start) (by omega) c accepts
    obtain ⟨h', rest, done⟩ := ih written Inventory.set_same (start + 1) (by omega)
      (Inventory.accepts_mono accepts (Inventory.settles_set draft rfl))
    refine ⟨h', (estate_bind_of_ok first).trans rest, ?_⟩
    rw [Inventory.set_set] at done
    convert done using 3
    funext i
    by_cases here : i = start
    · rw [here, if_pos (by omega), if_neg (by omega), Function.update_self]
    · rw [Function.update_of_ne here]
      congr 1
      apply propext
      omega

omit beyond in
/-- The entity that was being filled in is complete. -/
theorem Develops.finish (draft : Γ' a = some (.draft n content)) (size : x.words = n)
    (agree : ∀ i < n, ∀ w, (content i).Accepts Γ' a w → (x.content i).Accepts Γ' a w)
    (plain : ∀ slots, x ≠ .field slots true)
    (flanked : x = .object → ∃ slots guarded, Γ' (a + 24) = some (.field slots guarded))
    (finished : x.finished = true) (other : x.isCode = false) :
    Develops stubs strict Whole Γ h (Γ'.set a x) m := by
  obtain ⟨furnished, evolves, spares⟩ := develops
  have typed := furnished.typed.finish draft size agree plain flanked
  refine ⟨furnished.withHeap typed (Inventory.settles_set draft rfl)
    fun _ _ _ => Inventory.code_of_set other, ?_, spares⟩
  exact evolves.set fresh finished fun _ _ apart new => new.resolve_left apart

end

/-- A word of an entity that was not there at first is replaced. -/
theorem Develops.put {h : Heap} {p i : Nat} {x : Shape} {w : Word}
    (develops : Develops stubs strict New Γ h Γ' m) (found : Γ' p = some x) (fresh : Γ p = none)
    (beyond : h.region.cursor ≤ p) (inside : i < x.words) (accepts : (x.content i).Accepts Γ' p w)
    (other : ∀ slots, x ≠ .field slots true) :
    Develops stubs strict New Γ h Γ' { m with heap := m.heap.put (p + 8 * i) w } := by
  obtain ⟨furnished, evolves, spares⟩ := develops
  have typed := furnished.typed
  have aligned := (typed.inside found).2.1
  refine ⟨furnished.withHeap (typed.put_plain found inside accepts other)
    (Inventory.Extends.refl Γ').settles fun _ _ _ found => found,
    evolves.put typed found inside (.inl fresh), spares.put (by omega) (by omega)⟩

/-- The action makes entities: if it succeeds, then all that is new is complete. -/
def Makes (stubs : String → Stub) (strict : Bool) (Γ : Inventory shared) (act : Exec ρ α)
    (s : State ρ) (Q : Inventory shared → α → State ρ → Prop) : Prop :=
  Yields act s
    (fun a t => ∃ Γ', Develops stubs strict Whole Γ s.machine.heap Γ' t.machine ∧ Q Γ' a t)
    fun _ t => ∃ Γ', Develops stubs strict Anything Γ s.machine.heap Γ' t.machine

/-- Calls are no deeper after they return. -/
theorem Develops.nested {h : Heap} {s : State ρ} {act : Exec ρ α} {Q : Inventory shared → α → Prop}
    (develops : Develops stubs strict New Γ h Γ' s.machine)
    (inside : Yields act s.deeper
      (fun a t => ∃ Δ, Develops stubs strict Whole Γ h Δ t.machine ∧ Q Δ a)
      fun _ t => ∃ Δ, Develops stubs strict Anything Γ h Δ t.machine) :
    Yields (Exec.nested act) s
      (fun a t => ∃ Δ, Develops stubs strict Whole Γ h Δ t.machine ∧ Q Δ a)
      fun _ t => ∃ Δ, Develops stubs strict Anything Γ h Δ t.machine := by
  refine Yields.nested (inside.mono ?_ ?_) fun _ => ⟨Γ', develops.anything⟩
  · rintro a t ⟨Δ, made, met⟩
    exact ⟨Δ, made.at_depth _, met⟩
  · rintro e t ⟨Δ, made⟩
    exact ⟨Δ, made.at_depth _⟩

/-- Making more goes on from what was made before. -/
theorem Develops.follow {h : Heap} {s : State ρ} {act : Exec ρ α} {next : α → Exec ρ β}
    {Q : Inventory shared → α → State ρ → Prop} {R : β → State ρ → Prop}
    (develops : Develops stubs strict New Γ h Γ' s.machine) (weaker : ∀ a x, Whole a x → New a x)
    (makes : Makes stubs strict Γ' act s Q)
    (rest : ∀ Δ a t, Develops stubs strict New Γ h Δ t.machine →
      Develops stubs strict Whole Γ' s.machine.heap Δ t.machine → Q Δ a t →
      Yields (next a) t R fun _ t => ∃ Γ', Develops stubs strict Anything Γ h Γ' t.machine) :
    Yields (act >>= next) s R
      fun _ t => ∃ Γ', Develops stubs strict Anything Γ h Γ' t.machine := by
  refine (Yields.mono makes (fun _ _ made => made) ?_).bind_mono ?_
  · rintro _ t ⟨Δ, more⟩
    exact ⟨Δ, develops.anything.trans more⟩
  · rintro a t ⟨Δ, more, met⟩
    exact rest Δ a t (develops.trans (more.mono weaker)) more met

namespace Furnished

variable (furnished : Furnished stubs strict Γ m)

include furnished

/-- A new Code entity at the cursor, for a stub that is added to the code table. -/
theorem enlist {stub : Stub} {w : Word} {r : Role} (plays : r.Plays stubs stub)
    (asked : r = .other → shared = true) (room : m.code.length < 0x80000000)
    (typed : Typed strict (Γ.set a (.code r m.code.length)) h) (fresh : Γ a = none)
    (place : w.toNat = a) :
    Furnished stubs strict (Γ.set a (.code r m.code.length))
      { m with
        heap := h
        code := m.code ++ [stub]
        entities := (stub.entry, w) :: m.entities } := by
  have stays : Γ.Extends (Γ.set a (.code r m.code.length)) := Inventory.extends_set fresh
  have kept {index : Nat} {stub' : Stub} (held : m.code[index]? = some stub') :
      (m.code ++ [stub])[index]? = some stub' := by
    obtain ⟨bound, _⟩ := List.getElem?_eq_some_iff.mp held
    rw [List.getElem?_append_left bound, held]
  have last : (m.code ++ [stub])[m.code.length]? = some stub := by simp
  refine ⟨typed, fun {b r' index} found => ?_, fun {entry v} found => ?_, fun {b index} found => ?_⟩
  · obtain ⟨_, ⟨⟩⟩ | ⟨_, old⟩ := Inventory.of_set found
    · exact ⟨room, stub, last, plays⟩
    · obtain ⟨small, stub', held, plays'⟩ := furnished.code old
      exact ⟨small, stub', kept held, plays'⟩
  · change ((stub.entry, w) :: m.entities).lookup entry = some v at found
    rw [List.lookup_cons] at found
    split at found
    next same =>
      cases found
      refine ⟨r, m.code.length, stub, ?_, last, (beq_iff_eq.mp same).symm⟩
      rw [place, Inventory.set_same]
    next =>
      obtain ⟨r', index, stub', code, held, same⟩ := furnished.entities found
      exact ⟨r', index, stub', stays _ _ code, kept held, same⟩
  · obtain ⟨_, ⟨⟩⟩ | ⟨_, old⟩ := Inventory.of_set found
    · exact asked rfl
    · exact furnished.asked old

/-- The Code entity of a stub in a role, or of an earlier one with the same entry point. -/
theorem codeEntity (library : Library stubs) {r : Role} {stub : Stub}
    (plays : r.Plays stubs stub) (asked : r = .other → shared = true) :
    Yields (Machine.codeEntity stub) m
      (fun w m' => ∃ Γ', Develops stubs strict Whole Γ m.heap Γ' m' ∧
        ∃ r' index, r'.Akin r ∧ Γ' w.toNat = some (.code r' index))
      fun _ m' => ∃ Γ', Develops stubs strict Anything Γ m.heap Γ' m' := by
  have typed := furnished.typed
  rw [Yields, Machine.codeEntity_eq]
  cases known : m.entities.lookup stub.entry with
  | some w =>
    obtain ⟨r', index, stub', code, held, entry⟩ := furnished.entities known
    obtain ⟨_, stub'', held', plays'⟩ := furnished.code code
    cases held.symm.trans held'
    exact ⟨Γ, .refl furnished _, r', index, library.role_akin plays' plays entry, code⟩
  | none =>
    by_cases room : m.code.length < 0x80000000
    · simp only [if_pos room]
      change Yields (Machine.newEntity stub m.code.length) m _ _
      have allocated := typed.allocate .code 1
      cases ran : Heap.allocate .code Layout.Code.size m.heap with
      | error e h =>
        obtain rfl := allocated.error ran
        exact .of_error (estate_bind_of_error (Machine.onHeap_error ran))
          ⟨Γ, .refl furnished _⟩
      | ok w h =>
        obtain ⟨rfl, grown, made⟩ := allocated.ok ran
        obtain ⟨stored, whole, spared, evolves⟩ := typed.fill_second
          (x := .code r m.code.length) (v := .int m.code.length) grown made rfl rfl rfl
          (fun _ same => by cases same) (fun same => by cases same)
        refine .step (Machine.onHeap_ok ran) (.step (Machine.onHeap_ok stored) (.of_ok rfl ?_))
        have furnished' := furnished.enlist plays asked room whole typed.fresh
          typed.sound.toNat_cursor
        exact ⟨_, ⟨furnished', evolves Whole rfl, spared⟩, r, m.code.length, .refl r,
          typed.at_cursor⟩
    · simp only [if_neg room]
      exact ⟨Γ, .refl furnished _⟩

/-- The stub behind a Code entity. -/
theorem stub?_code {w : Word} (found : Γ w.toNat = some (.code r index)) :
    ∃ stub, m.stub? w = some stub ∧ r.Plays stubs stub := by
  obtain ⟨room, stub, held, plays⟩ := furnished.code found
  have same : m.heap.word (w.toNat + 8 * 1) = .int index :=
    furnished.typed.holds found 1 Nat.one_lt_two
  have read : m.heap.loadInt w Layout.Code.index = .ok (index : Int) :=
    furnished.typed.loadInt_ok found Nat.one_lt_two (same ▸ Word.int?_natCast (by omega))
  refine ⟨stub, ?_, plays⟩
  rw [Machine.stub?, if_pos, read]
  · exact held
  · rw [furnished.typed.kind found rfl]
    rfl

/-- Only Code entities have a stub. -/
theorem stub?_value {w : Word} (value : Γ.Value w) :
    (∃ r index, Γ w.toNat = some (.code r index)) ∨ m.stub? w = none := by
  by_cases kind : m.heap.kind? w = some .code
  · left
    rcases value with int | ⟨x, found, handled⟩
    · rw [kind?_int int] at kind
      cases kind
    · rw [furnished.typed.kind found (Shape.finished_of_handled handled)] at kind
      cases x with
      | draft => cases handled
      | code r index => exact ⟨r, index, found⟩
      | _ => cases kind
  · right
    rw [Machine.stub?, if_neg (mt beq_iff_eq.mp kind)]

theorem target_code {w : Word} (found : Γ w.toNat = some (.code r index)) :
    ∃ stub, m.target w = .ok stub ∧ r.Plays stubs stub := by
  obtain ⟨stub, held, plays⟩ := furnished.stub?_code found
  have entity := Word.isInt_aligned (furnished.typed.inside found).2.1
  exact ⟨stub, Machine.target_entity entity held, plays⟩

/-- A function is called through its Code entity, if it has one. -/
theorem target_function {w : Word} {slots : Nat} (found : Γ w.toNat = some (.function slots)) :
    (∃ stub, m.target w = .ok stub ∧ stub.Idle) ∨ ∃ t, m.target w = .error t := by
  have typed := furnished.typed
  have entity := Word.isInt_aligned (typed.inside found).2.1
  have none_ : m.stub? w = none := by
    rcases furnished.stub?_value (.inr ⟨_, found, rfl⟩) with ⟨_, _, code⟩ | none_
    · cases found.symm.trans code
    · exact none_
  have inside : 3 < (Shape.function slots).words := Shape.lt_function_words (by decide)
  have loaded := typed.load found inside
  have code : Γ.Callee (m.heap.word (w.toNat + 8 * 3)) := typed.holds found 3 inside
  have callable : m.heap.mapFlag w Layout.Map.callable = .ok true := by
    obtain ⟨map, mapped, flags⟩ := typed.mapFlags found rfl
    have flags : m.heap.load map Layout.Map.flags = .ok (.int Layout.Map.callable) := flags
    have read : m.heap.loadInt map Layout.Map.flags = .ok Layout.Map.callable := by
      rw [loadInt, flags]
      simp only [bind, Except.bind, Word.int?_int (by decide : Word.Fits Layout.Map.callable)]
    rw [mapFlag, mapped]
    change m.heap.loadFlag map Layout.Map.flags Layout.Map.callable = _
    rw [loadFlag, read]
    rfl
  obtain ⟨runs, fails⟩ := Machine.target_callable entity none_ callable loaded
  cases held : m.stub? (m.heap.word (w.toNat + 8 * 3)) with
  | none => exact .inr ⟨_, fails held⟩
  | some stub =>
    refine .inl ⟨stub, runs stub held, ?_⟩
    rcases furnished.stub?_value code.value with ⟨r, index, entity⟩ | none_
    · obtain ⟨stub', held', plays⟩ := furnished.stub?_code entity
      cases held.symm.trans held'
      cases code.role (typed.inside entity).2.1 entity
      exact plays.1
    · cases held.symm.trans none_

end Furnished

/-- Calling a Code entity is calling a stub in its role. -/
theorem Furnished.callValue_code {s : State ρ} (furnished : Furnished stubs strict Γ s.machine)
    {w : Word} (found : Γ w.toNat = some (.code r index)) (calls : Invoke ρ) (self : Word)
    (args : List Word) : ∃ stub, r.Plays stubs stub ∧
      callValue calls w self args s = calls stub self args s := by
  obtain ⟨stub, target, plays⟩ := furnished.target_code found
  refine ⟨stub, plays, ?_⟩
  rw [callValue_eq, target]

theorem Furnished.codeEntity_makes {s : State ρ} (furnished : Furnished stubs strict Γ s.machine)
    (library : Library stubs) {r : Role} {stub : Stub} (plays : r.Plays stubs stub)
    (asked : r = .other → shared = true) :
    Makes stubs strict Γ (Exec.onMachine (Machine.codeEntity stub)) s
      fun Γ' w _ => ∃ r' index, r'.Akin r ∧ Γ' w.toNat = some (.code r' index) :=
  .onMachine (furnished.codeEntity library plays asked)

/-- An atom is an entity from when it is first asked for. -/
theorem Furnished.atom_makes {s : State ρ} (furnished : Furnished stubs strict Γ s.machine)
    (name : String) : Makes stubs strict Γ (Exec.onHeap (Heap.atom name)) s
      fun Γ' w t => Γ' w.toNat = some .atom ∧ t.machine.heap.atoms.lookup name = some w := by
  have kept {New : Nat → Shape → Prop} {Γ' : Inventory shared} {h : Heap}
      (evolves : Evolves New Γ s.machine.heap Γ' h) (spares : Spares s.machine.heap h)
      (typed : Typed strict Γ' h) (plain : ∀ a x, New a x → x.isCode = false) :
      Develops stubs strict New Γ s.machine.heap Γ' (s.withHeap h).machine := by
    refine ⟨furnished.withHeap typed evolves.stays.settles ?_, evolves, spares⟩
    intro a r index found
    exact (evolves.new found).resolve_right fun new => nomatch plain _ _ new
  refine Yields.onHeap ((furnished.typed.atom name).mono ?_ ?_)
  · rintro w h ⟨Γ', evolves, spares, typed, atom, known⟩
    exact ⟨Γ', (kept evolves spares typed fun _ _ new => new.1).mono fun _ _ new => new.2, atom,
      known⟩
  · rintro e h ⟨Γ', evolves, spares, typed⟩
    exact ⟨Γ', (kept evolves spares typed fun _ _ new => new).anything⟩

end FastPath

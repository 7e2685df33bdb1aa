import FastPath.Proofs.Registry.Resolution

/-! Resolution with nothing under construction: it ends, it succeeds exactly on the good names, and
a failure names a reachable reason. That it ends is said of the unbounded recursion, in which a
call at any depth is made by whatever the caller likes: with one level for each declaration the
calls beyond are never made. -/

namespace FastPath.Registry

/-- Resolution by `n` nested levels, with all calls beyond them made by `beyond`. -/
def resolveVia (beyond : String → RegistryM Stub) : Nat → String → RegistryM Stub
  | 0 => resolveWith beyond
  | n + 1 => resolveWith (resolveVia beyond n)

theorem resolveWithin_eq (n : Nat) :
    resolveWithin n = resolveVia (fun name => throw (.cyclic [name])) n := by
  induction n with
  | zero => rfl
  | succ n ih =>
    funext name
    rw [resolveWithin, ih, resolveVia]

variable {f f' beyond beyond' : String → RegistryM Stub} {name : String} {r : Registry}

theorem Trail.of_idle (idle : r.stack = []) (name : String) : r.Trail name := by
  refine ⟨?_, idle ▸ List.nodup_nil⟩
  rw [idle, List.nil_append]
  exact .singleton name

/-- Two recursions that agree on the calls made by the first resolve a name alike. -/
theorem resolveWith_congr
    (same : ∀ d dep r₁, Asks f name r d dep r₁ → f dep r₁ = f' dep r₁) :
    resolveWith f name r = resolveWith f' name r := by
  match found : r.find? name with
  | none | some { declaration := d, compiled := some s } =>
    rw [resolveWith_eq, resolveWith_eq, found]
  | some { declaration := d, compiled := none } =>
    by_cases busy : name ∈ r.stack
    · obtain ⟨m, chain, rest⟩ : ∃ m chain, r.stack.dropWhile (fun s => s != name) = m :: chain := by
        refine List.exists_cons_of_ne_nil fun empty => ?_
        simpa using List.dropWhile_eq_nil_iff.mp empty name busy
      rw [resolveWith_eq, resolveWith_eq, found, rest]
    · rw [resolveWith_idle found busy, resolveWith_idle found busy]
      simp only [settle_eq, underConstruction_eq, construct_eq]
      cases built : d.template d.name d.config with
      | error e => rfl
      | ok g =>
        have callees : resolveAll f g.callees (r.begun name d) =
            resolveAll f' g.callees (r.begun name d) := by
          refine estate_mapM_congr fun before dep after done t split met => ?_
          have call := same d dep t ⟨g, before, after, done, found, busy, built, split, met⟩
          change EStateM.bind _ _ _ = EStateM.bind _ _ _
          simp only [EStateM.bind, call]
        have start : (r.asked.opened name).logged (.built d.name) = r.begun name d := rfl
        simp only [start, callees]

/-- The calls that a level with no room for another name makes: none. -/
theorem Trail.no_room (trail : r.Trail name) (full : r.entries.length ≤ r.stack.length)
    (asks : Asks f name r d dep r₁) : False := by
  obtain ⟨_, _, _, _, pending, idle, _⟩ := asks
  exact absurd (trail.room pending idle) (Nat.not_lt.mpr full)

theorem Progress.room (p : Progress (r.begun name d) r₁)
    (room : r.entries.length ≤ n + 1 + r.stack.length) :
    r₁.entries.length ≤ n + r₁.stack.length := by
  have size : r₁.entries.length = r.entries.length := p.size
  have stack : r₁.stack = r.stack ++ [name] := p.stack
  rw [size, stack, List.length_append, List.length_singleton]
  omega

theorem resolveVia_outcome (trail : r.Trail name) (room : r.entries.length ≤ n + r.stack.length) :
    r.Outcome name (resolveVia beyond n name r) := by
  induction n generalizing name r with
  | zero =>
    refine Resolution.outcome trail (fun d dep r₁ asks => ?_) (resolveWith_resolution beyond name r)
    exact (trail.no_room (by simpa using room) asks).elim
  | succ n ih =>
    refine Resolution.outcome trail (fun d dep r₁ asks progress deeper => ?_)
      (resolveWith_resolution (resolveVia beyond n) name r)
    exact ih deeper (progress.room room)

/-- Neither the depth nor what happens beyond it can be told from the result. -/
theorem resolveVia_eq (trail : r.Trail name) (room : r.entries.length ≤ n + r.stack.length)
    (room' : r.entries.length ≤ n' + r.stack.length) :
    resolveVia beyond n name r = resolveVia beyond' n' name r := by
  induction n generalizing n' name r with
  | zero =>
    have full : r.entries.length ≤ r.stack.length := by simpa using room
    cases n' <;> exact resolveWith_congr fun d dep r₁ asks => (trail.no_room full asks).elim
  | succ n ih =>
    cases n' with
    | zero =>
      have full : r.entries.length ≤ r.stack.length := by simpa using room'
      exact resolveWith_congr fun d dep r₁ asks => (trail.no_room full asks).elim
    | succ n' =>
      refine resolveWith_congr fun d dep r₁ asks => ?_
      obtain ⟨g, before, after, done, pending, idle, built, split, first⟩ := asks
      obtain ⟨progress, _⟩ := resolveAll_progress trail
        (fun _ _ _ _ progress deeper => resolveVia_outcome deeper (progress.room room))
        pending idle built split first
      have edge : r.Needs name dep := ⟨d, g, pending, built, by simp [split]⟩
      exact ih (trail.deeper idle edge progress) (progress.room room) (progress.room room')

theorem resolve_eq (beyond : String → RegistryM Stub) (trail : r.Trail name)
    (room : r.entries.length ≤ n + r.stack.length) :
    resolve name r = resolveVia beyond n name r := by
  change resolveWithin r.entries.length name r = _
  rw [resolveWithin_eq]
  exact resolveVia_eq trail (Nat.le_add_right _ _) room

theorem resolve_outcome (trail : r.Trail name) : r.Outcome name (resolve name r) := by
  rw [resolve_eq resolve trail (Nat.le_add_right _ _)]
  exact resolveVia_outcome trail (Nat.le_add_right _ _)

/-- A name on a trail is resolved as the names that it needs are. -/
theorem resolve_unfold (trail : r.Trail name) : resolve name r = resolveWith resolve name r := by
  have room : r.entries.length ≤ r.entries.length + 1 + r.stack.length := by omega
  rw [resolve_eq resolve trail room]
  refine Eq.symm (resolveWith_congr fun d dep r₁ asks => ?_)
  obtain ⟨g, before, after, done, pending, idle, built, split, first⟩ := asks
  obtain ⟨progress, _⟩ := resolveAll_progress trail
    (fun _ _ _ _ _ deeper => resolve_outcome deeper) pending idle built split first
  have edge : r.Needs name dep := ⟨d, g, pending, built, by simp [split]⟩
  exact resolve_eq resolve (trail.deeper idle edge progress) (progress.room room)

theorem resolve_correct (name : String) (idle : r.stack = []) :
    (∀ beyond n, r.entries.length ≤ n → resolveVia beyond n name r = resolve name r) ∧
      resolve name r = resolveWith resolve name r ∧
      ((∃ s r', resolve name r = .ok s r') ↔ r.Good name) ∧
      (∀ s r', resolve name r = .ok s r' → Progress r r' ∧ r'.Compiled name s) ∧
      ∀ e r', resolve name r = .error e r' → Progress r r' ∧ r.Truthful name e := by
  have trail : r.Trail name := .of_idle idle name
  have outcome := resolve_outcome trail
  refine ⟨fun beyond n room => ?_, resolve_unfold trail, ⟨?_, fun good => ?_⟩, ?_, ?_⟩
  · exact (resolve_eq beyond trail (by omega)).symm
  · rintro ⟨s, r', done⟩
    rw [done] at outcome
    exact outcome.2.2
  · cases done : resolve name r with
    | ok s r' => exact ⟨s, r', rfl⟩
    | error e r' =>
      rw [done] at outcome
      exact absurd good outcome.2.not_good
  · intro s r' done
    rw [done] at outcome
    exact ⟨outcome.1, outcome.2.1⟩
  · intro e r' failed
    rw [failed] at outcome
    exact outcome

/-- A stub that calls others and returns what the last of them does. -/
def relay (name : String) (callees : List String) : Declaration where
  name
  template stub _ := .ok
    { stub
      blocks := [{
        params := []
        insts := callees.map fun callee => .define 0 (.callStub callee (.list []))
        exit := .ret (some 0) }]
      varCount := 1 }

def relays : Registry :=
  declareAll { compiler := { id := 0 } }
    [relay "even" ["odd"], relay "odd" ["leaf", "even"], relay "leaf" [], relay "top" ["leaf"]]

theorem relays_good : relays.stack = [] ∧ relays.Good "top" ∧ ¬ relays.Good "even" ∧
    ∃ r', resolve "even" relays = .error (.cyclic ["even", "odd", "even"]) r' ∧
      relays.Truthful "even" (.cyclic ["even", "odd", "even"]) := by
  obtain ⟨_, _, good, _, _⟩ := resolve_correct (r := relays) "top" rfl
  obtain ⟨_, _, bad, _, truthful⟩ := resolve_correct (r := relays) "even" rfl
  refine ⟨rfl, good.mp ⟨_, _, rfl⟩, fun even => ?_, _, rfl, (truthful _ _ rfl).2⟩
  obtain ⟨s, r', done⟩ := bad.mpr even
  cases done

end FastPath.Registry

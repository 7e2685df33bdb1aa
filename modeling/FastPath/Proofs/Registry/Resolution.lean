import FastPath.Proofs.Compilation
import FastPath.Proofs.Registry.Progress
import Mathlib.Data.List.TakeWhile

/-! Resolution of a name, for every dependency graph. `Resolution` lists all that one level of it
can come to; what it keeps is carried from the calls it makes to the call itself, and names on the
stack are declared and distinct, so the recursion never goes deeper than there are declarations. -/

namespace FastPath.Registry

abbrev Result := EStateM.Result RegistryError Registry Stub

def asked (r : Registry) : Registry :=
  { r with stats := { r.stats with resolutions := r.stats.resolutions + 1 } }

def served (r : Registry) : Registry :=
  { r with stats := { r.stats with cacheHits := r.stats.cacheHits + 1 } }

def failed (r : Registry) : Registry :=
  { r with stats := { r.stats with failures := r.stats.failures + 1 } }

def logged (r : Registry) (work : Work) : Registry :=
  { r with history := r.history ++ [{ work, pins := r.pin.depth, stack := r.stack }] }

/-- The registry in which the callees of a name are resolved. -/
def begun (r : Registry) (name : String) (d : Declaration) : Registry :=
  (r.asked.opened name).logged (.built d.name)

def resolveAll (f : String → RegistryM Stub) (names : List String) :
    RegistryM (List (String × Stub)) :=
  names.mapM fun name => return (name, ← f name)

/-- All that the resolution of `name` can come to when its callees are resolved by `f`. -/
inductive Resolution (f : String → RegistryM Stub) (name : String) (r : Registry) : Result → Prop
  | undeclared : r.find? name = none →
      Resolution f name r (.error (.notFound name) (r.asked.logged (.refused name)))
  | hit : r.Compiled name s → Resolution f name r (.ok s r.asked.served)
  | cycle : r.Pending name d → r.stack = before ++ name :: after →
      Resolution f name r (.error (.cyclic (name :: after ++ [name]))
        (r.asked.logged (.refused name)))
  | unbuilt : r.Pending name d → name ∉ r.stack → d.template d.name d.config = .error e →
      Resolution f name r (.error (.rejected e) (r.begun name d).closed.failed)
  | blocked : r.Pending name d → name ∉ r.stack → d.template d.name d.config = .ok g →
      g.callees = before ++ dep :: after → resolveAll f before (r.begun name d) = .ok done r₁ →
      f dep r₁ = .error e r₂ → Resolution f name r (.error e r₂.closed.failed)
  | refused : r.Pending name d → name ∉ r.stack → d.template d.name d.config = .ok g →
      resolveAll f g.callees (r.begun name d) = .ok deps r₁ →
      r₁.compiler.compile g d.config deps = .error e →
      Resolution f name r (.error (.rejected e) (r₁.logged
        (.compiled ⟨g, deps.map Prod.fst, none, r₁.compiler.compiled⟩)).closed.failed)
  | compiled : r.Pending name d → name ∉ r.stack → d.template d.name d.config = .ok g →
      resolveAll f g.callees (r.begun name d) = .ok deps r₁ →
      r₁.compiler.compile g d.config deps = .ok (s, c) →
      Resolution f name r (.ok s (({ r₁ with compiler := c }.logged
        (.compiled ⟨g, deps.map Prod.fst, some s.entry, c.compiled⟩)).closed.settled name s))

variable {f : String → RegistryM Stub} {name : String} {r : Registry}

theorem runCompiler_eq (g : Graph) (config : Config) (deps : List (String × Stub)) :
    runCompiler g config deps r = match r.compiler.compile g config deps with
      | .ok (s, c) => .ok s ({ r with compiler := c }.logged
          (.compiled ⟨g, deps.map Prod.fst, some s.entry, c.compiled⟩))
      | .error e => .error (.rejected e) (r.logged
          (.compiled ⟨g, deps.map Prod.fst, none, r.compiler.compiled⟩)) := by
  have read : (get : RegistryM Registry) r = .ok r r := rfl
  rw [runCompiler, estate_bind_of_ok read]
  cases r.compiler.compile g config deps <;> rfl

theorem construct_eq (d : Declaration) : construct f d r =
    match d.template d.name d.config with
    | .error e => .error (.rejected e) (r.logged (.built d.name))
    | .ok g => match resolveAll f g.callees (r.logged (.built d.name)) with
      | .error e r => .error e r
      | .ok deps r => runCompiler g d.config deps r := by
  unfold construct
  cases d.template d.name d.config with
  | error e => rfl
  | ok g =>
    change EStateM.bind (resolveAll f g.callees) (runCompiler g d.config)
      (r.logged (.built d.name)) = match resolveAll f g.callees (r.logged (.built d.name)) with
        | .error e r => .error e r
        | .ok deps r => runCompiler g d.config deps r
    unfold EStateM.bind
    cases resolveAll f g.callees (r.logged (.built d.name)) <;> rfl

theorem resolveWith_eq (f : String → RegistryM Stub) (name : String) (r : Registry) :
    resolveWith f name r = (match r.find? name with
      | none => refuse name (.notFound name)
      | some { compiled := some s, .. } => do
        count fun s => { s with cacheHits := s.cacheHits + 1 }
        return s
      | some { declaration, compiled := none } =>
        match r.stack.dropWhile (fun s => s != name) with
        | [] => settle name (underConstruction name (construct f declaration))
        | chain => refuse name (.cyclic (chain ++ [name])) : RegistryM Stub) r.asked :=
  rfl

/-- A name that is not under construction is built and compiled. -/
theorem resolveWith_idle (pending : r.Pending name d) (idle : name ∉ r.stack) :
    resolveWith f name r = settle name (underConstruction name (construct f d)) r.asked := by
  have nothing : r.stack.dropWhile (fun s => s != name) = [] := by
    rw [List.dropWhile_eq_nil_iff]
    intro s member
    simpa using fun same : s = name => idle (same ▸ member)
  rw [resolveWith_eq, pending, nothing]

theorem underConstruction_eq (name : String) (act : RegistryM α) :
    underConstruction name act r = match act (r.opened name) with
      | .ok a r => .ok a r.closed
      | .error e r => .error e r.closed := by
  rfl

theorem settle_eq (name : String) (act : RegistryM Stub) :
    settle name act r = match act r with
      | .ok s r => .ok s (r.settled name s)
      | .error e r => .error e r.failed := by
  rfl

theorem idle_resolution (pending : r.Pending name d) (idle : name ∉ r.stack) :
    Resolution f name r (resolveWith f name r) := by
  rw [resolveWith_idle pending idle, settle_eq, underConstruction_eq, construct_eq]
  cases built : d.template d.name d.config with
  | error e => exact .unbuilt pending idle built
  | ok g =>
    have start : (r.asked.opened name).logged (.built d.name) = r.begun name d := rfl
    simp only [start]
    cases callees : resolveAll f g.callees (r.begun name d) with
    | error e r₂ =>
      obtain ⟨before, dep, after, done, r₁, split, first, stopped⟩ :=
        estate_mapM_error_split callees
      obtain stopped | ⟨_, _, _, never⟩ := estate_bind_error.mp stopped
      · exact .blocked pending idle built split first stopped
      · cases never
    | ok deps r₁ =>
      simp only [runCompiler_eq]
      cases compiled : r₁.compiler.compile g d.config deps with
      | error e => exact .refused pending idle built callees compiled
      | ok made => exact .compiled pending idle built callees compiled

theorem resolveWith_resolution (f : String → RegistryM Stub) (name : String) (r : Registry) :
    Resolution f name r (resolveWith f name r) := by
  match found : r.find? name with
  | none =>
    rw [resolveWith_eq, found]
    exact .undeclared found
  | some { declaration := d, compiled := some s } =>
    rw [resolveWith_eq, found]
    exact .hit ⟨d, found⟩
  | some { declaration := d, compiled := none } =>
    by_cases busy : name ∈ r.stack
    · obtain ⟨before, after, split, absent⟩ := List.eq_append_cons_of_mem busy
      have chain : r.stack.dropWhile (fun s => s != name) = name :: after := by
        rw [split, List.dropWhile_append_of_pos, List.dropWhile_cons_of_neg] <;> simp
        exact fun s member same => absent (same ▸ member)
      rw [resolveWith_eq, found, chain]
      exact .cycle found split
    · exact idle_resolution found busy

/-- Resolving `name` by `f` resolves `dep` in `r₁`. -/
def Asks (f : String → RegistryM Stub) (name : String) (r : Registry) (d : Declaration)
    (dep : String) (r₁ : Registry) : Prop :=
  ∃ g before after done, r.Pending name d ∧ name ∉ r.stack ∧ d.template d.name d.config = .ok g ∧
    g.callees = before ++ dep :: after ∧ resolveAll f before (r.begun name d) = .ok done r₁

/-- The names under construction and the name they lead to, each needing the next. -/
structure Trail (r : Registry) (name : String) : Prop where
  linked : (r.stack ++ [name]).IsChain r.Needs
  distinct : r.stack.Nodup

def Outcome (r : Registry) (name : String) : Result → Prop
  | .ok s r' => Progress r r' ∧ r'.Compiled name s ∧ r.Good name
  | .error e r' => Progress r r' ∧ r.Truthful name e

theorem Trail.pending (trail : r.Trail name) (member : m ∈ r.stack) : ∃ d, r.Pending m d := by
  obtain ⟨before, after, split⟩ := List.append_of_mem member
  obtain ⟨b, rest, tail⟩ := List.exists_cons_of_ne_nil (List.append_ne_nil_of_right_ne_nil after
    (List.cons_ne_nil name []))
  have linked := trail.linked
  rw [split, List.append_assoc, List.cons_append, tail] at linked
  obtain ⟨_, ⟨d, _, pending, _⟩, _⟩ := List.isChain_append_cons_cons.mp linked
  exact ⟨d, pending⟩

/-- The stack holds distinct declared names, so it is shorter than the list of declarations as
long as another one is resolved. -/
theorem Trail.room (trail : r.Trail name) (pending : r.Pending name d) (idle : name ∉ r.stack) :
    r.stack.length < r.entries.length := by
  have declared : ∀ m d, r.Pending m d → m ∈ r.entries.map Entry.name := by
    intro m d found
    have same := List.find?_some found
    exact List.mem_map.mpr ⟨_, List.mem_of_find?_eq_some found, eq_of_beq same⟩
  have distinct : (name :: r.stack).Nodup := List.nodup_cons.mpr ⟨idle, trail.distinct⟩
  have inside : name :: r.stack ⊆ r.entries.map Entry.name := by
    refine List.cons_subset.mpr ⟨declared name d pending, fun m member => ?_⟩
    obtain ⟨d', pending'⟩ := trail.pending member
    exact declared m d' pending'
  simpa using Nat.lt_of_succ_le (distinct.length_le_of_subset inside)

theorem Trail.deeper (trail : r.Trail name) (idle : name ∉ r.stack) (edge : r.Needs name dep)
    (p : Progress (r.begun name d) r₁) : r₁.Trail dep := by
  have stack : r₁.stack = r.stack ++ [name] := p.stack
  refine ⟨?_, stack ▸ List.nodup_append.mpr ⟨trail.distinct, by simp, ?_⟩⟩
  · have linked : (r.stack ++ [name] ++ [dep]).IsChain r.Needs := by
      rw [List.append_assoc, List.singleton_append, List.isChain_append_cons_cons]
      exact ⟨trail.linked, edge, .singleton dep⟩
    rw [stack, List.isChain_iff_forall_rel_of_append_cons_cons]
    intro a b before after split
    have edge := List.isChain_iff_forall_rel_of_append_cons_cons.mp linked split
    have firsts := congrArg List.dropLast split
    rw [List.dropLast_concat, List.dropLast_append_of_ne_nil (List.cons_ne_nil a _),
      List.dropLast_cons_cons] at firsts
    have busy : a ∈ r.stack ++ [name] := firsts ▸ List.mem_append_right _ List.mem_cons_self
    exact p.still_needs edge busy
  · simpa using fun m member => fun same : m = name => idle (same ▸ member)

theorem resolveAll_names (h : resolveAll f callees r = .ok deps r') :
    deps.map Prod.fst = callees := by
  induction callees generalizing r deps with
  | nil =>
    cases h
    rfl
  | cons name callees ih =>
    unfold resolveAll at h
    rw [List.mapM_cons] at h
    obtain ⟨dep, r₁, head, h⟩ := estate_bind_ok.mp h
    obtain ⟨rest, r₂, tail, h⟩ := estate_bind_ok.mp h
    obtain ⟨s, _, _, named⟩ := estate_bind_ok.mp head
    cases named
    cases h
    rw [List.map_cons, ih tail]

variable (trail : r.Trail name)
  (calls : ∀ d dep r₁, Asks f name r d dep r₁ → Progress (r.begun name d) r₁ → r₁.Trail dep →
    r₁.Outcome dep (f dep r₁))

include trail calls

/-- The callees that were resolved are good, and the next one is met on a longer trail. -/
theorem resolveAll_progress (pending : r.Pending name d) (idle : name ∉ r.stack)
    (built : d.template d.name d.config = .ok g) (split : g.callees = before ++ after)
    (done : resolveAll f before (r.begun name d) = .ok deps r₁) :
    Progress (r.begun name d) r₁ ∧ ∀ b ∈ before, r.Good b := by
  refine estate_mapM_ok (I := fun met t => Progress (r.begun name d) t ∧ ∀ b ∈ met, r.Good b)
    ⟨.of_entries rfl rfl, fun _ absent => absurd absent List.not_mem_nil⟩ ?_ done
  rintro met dep rest found t y u parts first ⟨progress, good⟩ next
  obtain ⟨s, _, next, last⟩ := estate_bind_ok.mp next
  cases last
  have callees : g.callees = met ++ dep :: (rest ++ after) := by simp [split, parts]
  have edge : r.Needs name dep := ⟨d, g, pending, built, by simp [callees]⟩
  have outcome := calls d dep t ⟨g, met, _, found, pending, idle, built, callees, first⟩ progress
    (trail.deeper idle edge progress)
  rw [next] at outcome
  obtain ⟨further, _, dep_good⟩ := outcome
  refine ⟨progress.trans further, ?_⟩
  have entries : (r.begun name d).entries = r.entries := rfl
  simpa [or_imp, forall_and] using ⟨good, (progress.good dep_good).of_entries entries⟩

theorem Resolution.outcome (h : Resolution f name r out) : r.Outcome name out := by
  cases h with
  | undeclared absent => exact ⟨.of_entries rfl rfl, .notFound .refl absent⟩
  | hit done => exact ⟨.of_entries rfl rfl, done, .compiled done⟩
  | @cycle d before after pending split =>
    have linked := trail.linked
    rw [split, List.append_assoc] at linked
    replace linked : (name :: (after ++ [name])).IsChain r.Needs := linked.right_of_append
    refine ⟨.of_entries rfl rfl, .cyclic (by simp) ?_ linked fun m member => ?_⟩
    · rw [List.getLast?_concat]
      rfl
    · refine ⟨reaches_of_linked linked member, ?_⟩
      obtain busy | rfl : m ∈ r.stack ∨ m = name := by
        obtain member | member := List.mem_append.mp member
        · exact .inl (split ▸ List.mem_append_right _ member)
        · exact .inr (List.mem_singleton.mp member)
      · exact trail.pending busy
      · exact ⟨d, pending⟩
  | @unbuilt d e pending idle built =>
    have ended : Progress r (r.begun name d).closed :=
      Progress.close (.of_entries rfl rfl : Progress (r.begun name d) _) rfl rfl
    exact ⟨ended.trans (.of_entries rfl rfl), .rejected .refl pending (.inl built)⟩
  | @blocked d g before dep after done r₁ e r₂ pending idle built split first stopped =>
    obtain ⟨progress, _⟩ := resolveAll_progress trail calls pending idle built split first
    have edge : r.Needs name dep := ⟨d, g, pending, built, by simp [split]⟩
    have outcome := calls d dep r₁ ⟨g, before, after, done, pending, idle, built, split, first⟩
      progress (trail.deeper idle edge progress)
    rw [stopped] at outcome
    obtain ⟨further, truthful⟩ := outcome
    have ended : Progress r r₂.closed := (progress.trans further).close rfl rfl
    have truthful : (r.begun name d).Truthful name e := progress.truthful (.single edge) truthful
    exact ⟨ended.trans (.of_entries rfl rfl), truthful.of_entries rfl⟩
  | @refused d g deps r₁ e pending idle built done refused =>
    obtain ⟨progress, _⟩ := resolveAll_progress trail calls pending idle built
      (List.append_nil _).symm done
    have ended : ∀ work, Progress r (r₁.logged work).closed := by
      intro work
      have logged : Progress r₁ (r₁.logged work) := .of_entries rfl rfl
      exact (progress.trans logged).close rfl rfl
    refine ⟨(ended _).trans (.of_entries rfl rfl), .rejected .refl pending ?_⟩
    obtain ⟨uses, absent, rfl⟩ | ⟨b, member, absent, _⟩ := Compiler.compile_error refused
    · exact .inr ⟨g, built, uses, absent, rfl⟩
    · exact absurd (resolveAll_names done ▸ member) absent
  | @compiled d g deps r₁ s c pending idle built done compiled =>
    obtain ⟨progress, good⟩ := resolveAll_progress trail calls pending idle built
      (List.append_nil _).symm done
    have good : r.Good name := .built pending built good (Compiler.compile_ok compiled).2
    have busy : name ∈ (r.begun name d).stack := List.mem_append_right _ List.mem_cons_self
    have ended : ∀ work, Progress r ({ r₁ with compiler := c }.logged work).closed := by
      intro work
      have logged : Progress r₁ ({ r₁ with compiler := c }.logged work) := .of_entries rfl rfl
      exact (progress.trans logged).close rfl rfl
    have still : r₁.Pending name d := progress.still_pending pending busy
    exact ⟨(ended _).settle pending good idle, Compiled.settled still s, good⟩

end FastPath.Registry

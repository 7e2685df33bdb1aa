import FastPath.Proofs.Registry.Recursion

/-! Which names hold a stub once some were resolved. A stub is built up to its first callee that is
not good, so what a resolution visits is read off the dependency graph: the good names among them
are compiled, whatever else was resolved before and wherever a cycle is cut. -/

namespace FastPath.Registry

variable {name : String} {names asked : List String} {r r' r₁ r₂ : Registry} {d : Declaration}
  {g : Graph}

/-- Building `a` comes to resolving `b`. -/
def Leads (r : Registry) (a b : String) : Prop :=
  a ∉ r.stack ∧ ∃ d g before after, r.Pending a d ∧ d.template d.name d.config = .ok g ∧
    g.callees = before ++ b :: after ∧ ∀ c ∈ before, r.Good c

def Visits (r : Registry) : String → String → Prop := Relation.ReflTransGen r.Leads

/-- `r'` holds what `r` does and the good names that are visited from `names`. -/
def Gains (r : Registry) (names : List String) (r' : Registry) : Prop :=
  ∀ m, r'.Held m ↔ r.Held m ∨ r.Good m ∧ ∃ n ∈ names, r.Visits n m

theorem Held.good (held : r.Held m) : r.Good m := by
  obtain ⟨s, done⟩ := held
  exact .compiled done

theorem held_of_entries (entries : r'.entries = r.entries) : r'.Held m ↔ r.Held m := by
  simp only [Held, Compiled, find?, entries]

theorem good_of_entries (entries : r'.entries = r.entries) : r'.Good m ↔ r.Good m :=
  ⟨Good.of_entries entries, Good.of_entries entries.symm⟩

theorem begun_good (d : Declaration) : (r.begun name d).Good m ↔ r.Good m := good_of_entries rfl

theorem held_settled (pending : r.Pending name d) :
    (r.settled name s).Held m ↔ r.Held m ∨ m = name := by
  by_cases same : m = name
  · subst same
    exact iff_of_true ⟨s, .settled pending s⟩ (.inr rfl)
  · simp [Held, Compiled, find?_settled, same]

theorem Leads.needs (leads : r.Leads a b) : r.Needs a b := by
  obtain ⟨_, d, g, before, after, pending, built, split, _⟩ := leads
  exact ⟨d, g, pending, built, by simp [split]⟩

theorem leads_iff (pending : r.Pending name d) (idle : name ∉ r.stack)
    (built : d.template d.name d.config = .ok g) : r.Leads name b ↔
      ∃ before after, g.callees = before ++ b :: after ∧ ∀ c ∈ before, r.Good c := by
  constructor
  · rintro ⟨_, d', g', before, after, pending', built', split, good⟩
    obtain rfl := pending.unique pending'
    cases built.symm.trans built'
    exact ⟨before, after, split, good⟩
  · rintro ⟨before, after, split, good⟩
    exact ⟨idle, d, g, before, after, pending, built, split, good⟩

/-- What is built while `name` is. -/
theorem begun_leads : (r.begun name d).Leads a b ↔ r.Leads a b ∧ a ≠ name := by
  have entries : (r.begun name d).entries = r.entries := rfl
  have stack : (r.begun name d).stack = r.stack ++ [name] := rfl
  simp only [Leads, Pending, find?, entries, stack, good_of_entries entries, List.mem_append,
    List.mem_singleton, not_or]
  tauto

theorem begun_visits (visits : (r.begun name d).Visits a b) : r.Visits a b :=
  Relation.ReflTransGen.mono (fun _ _ leads => (begun_leads.mp leads).1) _ _ visits

/-- Nothing is missed when what is visited from `name` is looked for from its callees, without
building `name` again. -/
theorem visits_callee (d : Declaration) (visits : r.Visits name m) :
    m = name ∨ ∃ b, r.Leads name b ∧ (r.begun name d).Visits b m := by
  induction visits with
  | refl => exact .inl rfl
  | @tail a m _ edge ih =>
    by_cases same : a = name
    · subst same
      exact .inr ⟨m, edge, .refl⟩
    · obtain ⟨b, first, rest⟩ := ih.resolve_left same
      exact .inr ⟨b, first, rest.tail (begun_leads.mpr ⟨edge, same⟩)⟩

theorem visits_leaf (leaf : ∀ b, ¬ r.Leads name b) (visits : r.Visits name m) : m = name := by
  cases visits.cases_head with
  | inl same => exact same.symm
  | inr path =>
    obtain ⟨b, leads, _⟩ := path
    exact absurd leads (leaf b)

namespace Progress

theorem held (p : Progress r r') (held : r.Held m) : r'.Held m := by
  obtain ⟨s, done⟩ := held
  exact ⟨s, p.kept m s done⟩

theorem pending_or_held (p : Progress r r') (h : r.Pending m d) : r'.Pending m d ∨ r'.Held m := by
  have same := p.declared m
  rw [h] at same
  obtain ⟨⟨d', compiled⟩, found, declaration⟩ := Option.map_eq_some_iff.mp same
  cases declaration
  cases compiled with
  | none => exact .inl found
  | some s => exact .inr ⟨s, _, found⟩

theorem still_good (p : Progress r r') (good : r.Good m) : r'.Good m := by
  induction good with
  | compiled done => exact .compiled (p.kept _ _ done)
  | built pending built _ cached ih =>
    obtain pending | held := p.pending_or_held pending
    · exact .built pending built ih cached
    · exact held.good

theorem leads (p : Progress r r') (h : r'.Leads a b) : r.Leads a b := by
  obtain ⟨idle, d, g, before, after, pending, built, split, good⟩ := h
  exact ⟨p.stack ▸ idle, d, g, before, after, p.pending pending, built, split,
    fun c member => p.good (good c member)⟩

theorem visits (p : Progress r r') (h : r'.Visits a b) : r.Visits a b :=
  Relation.ReflTransGen.mono (fun _ _ => p.leads) _ _ h

theorem still_leads (p : Progress r r') (h : r.Leads a b) :
    r'.Leads a b ∨ r'.Held a ∧ ¬ r.Held a := by
  obtain ⟨idle, d, g, before, after, pending, built, split, good⟩ := h
  obtain still | held := p.pending_or_held pending
  · exact .inl ⟨p.stack ▸ idle, d, g, before, after, still, built, split,
      fun c member => p.still_good (good c member)⟩
  · exact .inr ⟨held, fun ⟨_, done⟩ => pending.not_compiled done⟩

end Progress

namespace Gains

theorem of_entries (entries : r'.entries = r.entries) : Gains r [] r' := fun m => by
  simp [held_of_entries entries]

/-- What was visited before is visited still, unless the way there leads over a name gained since;
then it was visited as that name was gained. -/
theorem visits (gains : Gains r names r₁) (p : Progress r r₁) (path : r.Visits n m) :
    r₁.Visits n m ∨ ∃ n' ∈ names, r.Visits n' m := by
  induction path using Relation.ReflTransGen.head_induction_on with
  | refl => exact .inl .refl
  | head edge rest ih =>
    obtain still | ⟨held, fresh⟩ := p.still_leads edge
    · exact ih.imp_left (.head still)
    · obtain ⟨_, n', member, visits⟩ := ((gains _).mp held).resolve_left fresh
      exact .inr ⟨n', member, (visits.tail edge).trans rest⟩

theorem trans (first : Gains r names r₁) (second : Gains r₁ names' r₂) (p : Progress r r₁) :
    Gains r (names ++ names') r₂ := by
  intro m
  constructor
  · intro held
    obtain held | ⟨good, n, member, visits⟩ := (second m).mp held
    · exact ((first m).mp held).imp_right fun ⟨good, n, member, visits⟩ =>
        ⟨good, n, List.mem_append_left _ member, visits⟩
    · exact .inr ⟨p.good good, n, List.mem_append_right _ member, p.visits visits⟩
  · rintro (held | ⟨good, n, member, visits⟩)
    · exact (second m).mpr (.inl (p.held held))
    · have earlier {n'} (member : n' ∈ names) (visits : r.Visits n' m) : r₂.Held m :=
        (second m).mpr (.inl ((first m).mpr (.inr ⟨good, n', member, visits⟩)))
      obtain member | member := List.mem_append.mp member
      · exact earlier member visits
      · obtain visits | ⟨n', member', visits⟩ := first.visits p visits
        · exact (second m).mpr (.inr ⟨p.still_good good, n, member, visits⟩)
        · exact earlier member' visits

/-- A name that is not built any further is held afterwards if it is good. -/
theorem leaf (leaf : ∀ b, ¬ r.Leads name b) (entries : r'.entries = r.entries)
    (settled : r.Good name → r.Held name) : Gains r [name] r' := by
  intro m
  rw [held_of_entries entries]
  refine ⟨.inl, ?_⟩
  rintro (held | ⟨good, n, member, visits⟩)
  · exact held
  · obtain rfl := List.mem_singleton.mp member
    obtain rfl := visits_leaf leaf visits
    exact settled good

/-- Building a name gains what its callees do, and the name itself if it is good. -/
theorem level (callees : Gains (r.begun name d) asked r₁)
    (met : ∀ b, r.Leads name b ↔ b ∈ asked)
    (result : ∀ m, r'.Held m ↔ r₁.Held m ∨ m = name ∧ r.Good name) : Gains r [name] r' := by
  have entries : (r.begun name d).entries = r.entries := rfl
  intro m
  rw [result, callees m, held_of_entries entries, good_of_entries entries]
  constructor
  · rintro ((held | ⟨good, b, member, visits⟩) | ⟨rfl, good⟩)
    · exact .inl held
    · exact .inr ⟨good, name, List.mem_singleton_self _, .head ((met b).mpr member)
        (begun_visits visits)⟩
    · exact .inr ⟨good, m, List.mem_singleton_self _, .refl⟩
  · rintro (held | ⟨good, n, member, visits⟩)
    · exact .inl (.inl held)
    · obtain rfl := List.mem_singleton.mp member
      obtain rfl | ⟨b, leads, visits⟩ := visits_callee d visits
      · exact .inr ⟨rfl, good⟩
      · exact .inl (.inr ⟨good, b, (met b).mp leads, visits⟩)

end Gains

/-- The callees that come to be resolved when one of them is not good. -/
theorem leads_until (pending : r.Pending name d) (idle : name ∉ r.stack)
    (built : d.template d.name d.config = .ok g) (split : g.callees = before ++ dep :: after)
    (good : ∀ b ∈ before, r.Good b) (bad : ¬ r.Good dep) (b : String) :
    r.Leads name b ↔ b ∈ before ++ [dep] := by
  rw [leads_iff pending idle built, split]
  constructor
  · rintro ⟨front, back, parts, first⟩
    obtain ⟨rest, rfl, tail⟩ | ⟨rest, rfl, tail⟩ := List.append_eq_append_iff.mp parts
    · cases rest with
      | nil =>
        obtain ⟨rfl, _⟩ := List.cons.inj tail
        exact List.mem_append_right _ (List.mem_singleton_self _)
      | cons c rest =>
        obtain ⟨rfl, _⟩ := List.cons.inj tail
        exact absurd (first dep (by simp)) bad
    · cases rest with
      | nil =>
        obtain ⟨rfl, _⟩ := List.cons.inj tail
        exact List.mem_append_right _ (List.mem_singleton_self _)
      | cons c rest =>
        obtain ⟨rfl, _⟩ := List.cons.inj tail
        simp
  · intro member
    obtain member | member := List.mem_append.mp member
    · obtain ⟨front, back, rfl⟩ := List.append_of_mem member
      exact ⟨front, back ++ dep :: after, by simp, fun c inside => good c (by simp [inside])⟩
    · obtain rfl := List.mem_singleton.mp member
      exact ⟨before, after, rfl, good⟩

theorem leads_all (pending : r.Pending name d) (idle : name ∉ r.stack)
    (built : d.template d.name d.config = .ok g) (good : ∀ b ∈ g.callees, r.Good b) (b : String) :
    r.Leads name b ↔ b ∈ g.callees := by
  rw [leads_iff pending idle built]
  constructor
  · rintro ⟨front, back, split, _⟩
    simp [split]
  · intro member
    obtain ⟨front, back, split⟩ := List.append_of_mem member
    exact ⟨front, back, split, fun c inside => good c (by simp [split, inside])⟩

/-- The callees that a level resolved gained what is visited from them. -/
theorem callees_gain (trail : r.Trail name) (pending : r.Pending name d) (idle : name ∉ r.stack)
    (built : d.template d.name d.config = .ok g) (split : g.callees = before ++ after)
    (calls : ∀ d dep r₁, Asks resolve name r d dep r₁ → Progress (r.begun name d) r₁ →
      r₁.Trail dep → Gains r₁ [dep] (left (resolve dep r₁)))
    (done : resolveAll resolve before (r.begun name d) = .ok deps r₁) :
    Gains (r.begun name d) before r₁ := by
  refine callees_keep (I := fun met _ t => Gains (r.begun name d) met t) trail pending idle built
    split done (.of_entries rfl) fun met dep found t s u asks progress deeper gains call => ?_
  have last := calls d dep t asks progress deeper
  rw [call] at last
  exact gains.trans last progress

theorem resolve_gains (trail : r.Trail name) : Gains r [name] (r.attempt name) := by
  refine resolve_rec (P := fun name r out => Gains r [name] (left out)) ?_ trail
  intro name r out trail resolution calls
  have outcome := resolution.outcome trail fun _ _ _ _ _ deeper => resolve_outcome deeper
  cases resolution with
  | undeclared absent =>
    refine .leaf (fun b leads => ?_) rfl fun good => absurd good outcome.2.not_good
    obtain ⟨d, _, pending, _⟩ := leads.needs
    simp [Pending, absent] at pending
  | hit done =>
    refine .leaf (fun b leads => ?_) rfl fun _ => ⟨_, done⟩
    obtain ⟨d, _, pending, _⟩ := leads.needs
    exact pending.not_compiled done
  | cycle pending split =>
    refine .leaf (fun b leads => leads.1 ?_) rfl fun good => absurd good outcome.2.not_good
    exact split ▸ List.mem_append_right _ List.mem_cons_self
  | unbuilt pending idle built =>
    refine .leaf (fun b leads => ?_) rfl fun good => absurd good outcome.2.not_good
    obtain ⟨_, _, pending', built', _⟩ := leads.needs
    obtain rfl := pending.unique pending'
    cases built.symm.trans built'
  | @blocked d g before dep after done r₁ e r₂ pending idle built split first stopped =>
    obtain ⟨progress, good⟩ := callees_progress trail pending idle built split first
    have edge : r.Needs name dep := ⟨d, g, pending, built, by simp [split]⟩
    have deeper := trail.deeper idle edge progress
    have last := calls d dep r₁ ⟨g, before, after, done, pending, idle, built, split, first⟩
      progress deeper
    rw [stopped] at last
    have bad : ¬ r.Good dep := fun good =>
      resolve_error deeper stopped (progress.still_good ((begun_good d).mpr good))
    refine .level ((callees_gain trail pending idle built split calls first).trans last progress)
      (leads_until pending idle built split good bad) fun m =>
        (held_of_entries (r := r₂) rfl).trans ?_
    simp [left, outcome.2.not_good]
  | @refused d g deps r₁ e pending idle built done refused =>
    have split : g.callees = g.callees ++ [] := (List.append_nil _).symm
    obtain ⟨_, good⟩ := callees_progress trail pending idle built split done
    refine .level (callees_gain trail pending idle built split calls done)
      (leads_all pending idle built good) fun m => (held_of_entries (r := r₁) rfl).trans ?_
    simp [outcome.2.not_good]
  | @compiled d g deps r₁ s c pending idle built done compiled =>
    have split : g.callees = g.callees ++ [] := (List.append_nil _).symm
    obtain ⟨progress, good⟩ := callees_progress trail pending idle built split done
    have busy : name ∈ (r.begun name d).stack := List.mem_append_right _ List.mem_cons_self
    refine .level (callees_gain trail pending idle built split calls done)
      (leads_all pending idle built good) fun m => ?_
    refine (held_settled (progress.still_pending pending busy)).trans ?_
    simp [outcome.2.2]

/-- What is held in the end does not depend on the order in which names are resolved. -/
theorem attemptAll_gains (idle : r.stack = []) (names : List String) :
    Gains r names (r.attemptAll names) := by
  induction names generalizing r with
  | nil => exact .of_entries rfl
  | cons name names ih =>
    have trail : r.Trail name := .of_idle idle name
    have progress := attempt_progress trail
    exact (resolve_gains trail).trans (ih (progress.stack.trans idle)) progress

end FastPath.Registry

import FastPath.Proofs.Registry.Dependency

/-! What the resolution of a name may change. Declarations stay, a compiled stub stays compiled,
and a stub that becomes compiled was good and not under construction, so names on the stack keep
needing one another. -/

namespace FastPath.Registry

structure Progress (r r' : Registry) : Prop where
  size : r'.entries.length = r.entries.length
  stack : r'.stack = r.stack
  declared : ∀ m, (r'.find? m).map Entry.declaration = (r.find? m).map Entry.declaration
  kept : ∀ m s, r.Compiled m s → r'.Compiled m s
  gained : ∀ m s, r'.Compiled m s → r.Compiled m s ∨ r.Good m ∧ m ∉ r.stack

variable {r r' r'' : Registry}

theorem Progress.of_entries (entries : r'.entries = r.entries) (stack : r'.stack = r.stack) :
    Progress r r' := by
  have same : ∀ m, r'.find? m = r.find? m := fun m => by rw [find?, find?, entries]
  refine ⟨by rw [entries], stack, fun m => by rw [same], fun m s => ?_, fun m s => ?_⟩
  · simp only [Compiled, same, imp_self]
  · simp only [Compiled, same]
    exact Or.inl

namespace Progress

theorem undeclared (p : Progress r r') (h : r'.find? m = none) : r.find? m = none := by
  simpa [h] using (p.declared m).symm

theorem pending (p : Progress r r') (h : r'.Pending m d) : r.Pending m d := by
  have same := p.declared m
  rw [h] at same
  obtain ⟨⟨d', compiled⟩, found, declaration⟩ := Option.map_eq_some_iff.mp same.symm
  cases declaration
  cases compiled with
  | none => exact found
  | some s => exact absurd (p.kept m s ⟨_, found⟩) h.not_compiled

theorem still_pending (p : Progress r r') (h : r.Pending m d) (busy : m ∈ r.stack) :
    r'.Pending m d := by
  have same := p.declared m
  rw [h] at same
  obtain ⟨⟨d', compiled⟩, found, declaration⟩ := Option.map_eq_some_iff.mp same
  cases declaration
  cases compiled with
  | none => exact found
  | some s =>
    obtain before | ⟨_, idle⟩ := p.gained m s ⟨_, found⟩
    · exact absurd before h.not_compiled
    · exact absurd busy idle

theorem needs (p : Progress r r') (h : r'.Needs a b) : r.Needs a b := by
  obtain ⟨d, g, pending, built, member⟩ := h
  exact ⟨d, g, p.pending pending, built, member⟩

theorem still_needs (p : Progress r r') (h : r.Needs a b) (busy : a ∈ r.stack) : r'.Needs a b := by
  obtain ⟨d, g, pending, built, member⟩ := h
  exact ⟨d, g, p.still_pending pending busy, built, member⟩

theorem reaches (p : Progress r r') (h : r'.Reaches a b) : r.Reaches a b :=
  Relation.ReflTransGen.mono (fun _ _ => p.needs) _ _ h

theorem good (p : Progress r r') (h : r'.Good m) : r.Good m := by
  induction h with
  | compiled done =>
    obtain before | ⟨good, _⟩ := p.gained _ _ done
    · exact .compiled before
    · exact good
  | built pending built _ cached ih => exact .built (p.pending pending) built ih cached

theorem truthful (p : Progress r r') (path : r.Reaches name b) (h : r'.Truthful b e) :
    r.Truthful name e := by
  cases h with
  | notFound reached absent =>
    exact .notFound (path.trans (p.reaches reached)) (p.undeclared absent)
  | cyclic long closed linked members =>
    refine .cyclic long closed (linked.imp fun _ _ => p.needs) fun m member => ?_
    obtain ⟨reached, d, pending⟩ := members m member
    exact ⟨path.trans (p.reaches reached), d, p.pending pending⟩
  | rejected reached pending rejects =>
    exact .rejected (path.trans (p.reaches reached)) (p.pending pending) rejects

theorem trans (p : Progress r r') (q : Progress r' r'') : Progress r r'' := by
  refine ⟨q.size.trans p.size, q.stack.trans p.stack, fun m => (q.declared m).trans (p.declared m),
    fun m s done => q.kept m s (p.kept m s done), fun m s done => ?_⟩
  obtain before | ⟨good, idle⟩ := q.gained m s done
  · exact p.gained m s before
  · exact .inr ⟨p.good good, p.stack ▸ idle⟩

end Progress

/-- The registry in which the graph of a name is built. -/
def opened (r : Registry) (name : String) : Registry :=
  { r with stack := r.stack ++ [name], pin := r.pin.enter }

def closed (r : Registry) : Registry :=
  { r with stack := r.stack.dropLast, pin := r.pin.leave }

/-- The registry in which a stub was compiled for a name. -/
def settled (r : Registry) (name : String) (s : Stub) : Registry :=
  { r with
    entries := r.entries.map fun e => if e.name = name then { e with compiled := some s } else e
    stats := { r.stats with compilations := r.stats.compilations + 1 } }

theorem find?_settled (r : Registry) (name m : String) (s : Stub) : (r.settled name s).find? m =
    (r.find? m).map fun e => if m = name then { e with compiled := some s } else e := by
  simp only [find?, settled, List.find?_map]
  have names : ((fun e : Entry => e.name == m) ∘
      fun e => if e.name = name then { e with compiled := some s } else e) =
        fun e => e.name == m := by
    funext e
    simp only [Function.comp_apply]
    split <;> rfl
  rw [names]
  refine Option.map_congr fun e found => ?_
  have same : e.name = m := by simpa using List.find?_some found
  rw [same]

theorem Good.of_entries (entries : r'.entries = r.entries) (h : r'.Good m) : r.Good m := by
  have same : ∀ m, r'.find? m = r.find? m := fun m => by rw [find?, find?, entries]
  induction h with
  | compiled done => exact .compiled (by simpa only [Compiled, same] using done)
  | built pending built _ cached ih =>
    exact .built (by simpa only [Pending, same] using pending) built ih cached

theorem Truthful.of_entries (truthful : r.Truthful name e) (entries : r'.entries = r.entries) :
    r'.Truthful name e := by
  have same : ∀ m, r'.find? m = r.find? m := fun m => by rw [find?, find?, entries]
  have needs : r'.Needs = r.Needs := by
    funext a b
    simp only [Needs, Pending, same]
  cases truthful with
  | @notFound m path absent =>
    have path : r'.Reaches name m := by rwa [Reaches, needs]
    exact .notFound path (by rwa [same])
  | cyclic long closed linked members =>
    refine .cyclic long closed (needs ▸ linked) fun m member => ?_
    obtain ⟨path, d, pending⟩ := members m member
    exact ⟨by rwa [Reaches, needs], d, by rwa [Pending, same]⟩
  | @rejected m d _ path pending rejects =>
    have path : r'.Reaches name m := by rwa [Reaches, needs]
    exact .rejected path (by rwa [Pending, same]) rejects

/-- What is done while `name` is under construction, as seen from before and after. -/
theorem Progress.close (p : Progress r₁ r') (entries : r₁.entries = r.entries)
    (stack : r₁.stack = r.stack ++ [name]) : Progress r r'.closed := by
  have same : ∀ m, r₁.find? m = r.find? m := fun m => by rw [find?, find?, entries]
  refine ⟨entries ▸ p.size, ?_, fun m => same m ▸ p.declared m, fun m s done => ?_,
    fun m s done => ?_⟩
  · simp only [closed, p.stack, stack, List.dropLast_concat]
  · exact p.kept m s (by simpa only [Compiled, same] using done)
  · obtain before | ⟨good, idle⟩ := p.gained m s done
    · exact .inl (by simpa only [Compiled, same] using before)
    · rw [stack] at idle
      exact .inr ⟨good.of_entries entries, fun busy => idle (List.mem_append_left _ busy)⟩

theorem Progress.settle (p : Progress r r') (pending : r.Pending name d) (good : r.Good name)
    (idle : name ∉ r.stack) : Progress r (r'.settled name s) := by
  refine ⟨?_, p.stack, fun m => ?_, fun m t done => ?_, fun m t done => ?_⟩
  · simp only [settled, List.length_map, p.size]
  · rw [find?_settled, ← p.declared m, Option.map_map]
    congr 1
    funext e
    simp only [Function.comp_apply]
    split <;> rfl
  · obtain ⟨d', found⟩ := p.kept m t done
    have other : m ≠ name := fun same => (same ▸ pending).not_compiled done
    exact ⟨d', by rw [find?_settled, found, Option.map_some, if_neg other]⟩
  · by_cases same : m = name
    · exact .inr (same ▸ ⟨good, idle⟩)
    · obtain ⟨d', found⟩ := done
      simp only [find?_settled, same, if_false, Option.map_id'] at found
      exact p.gained m t ⟨d', found⟩

theorem Compiled.settled (pending : r.Pending name d) (s : Stub) :
    (r.settled name s).Compiled name s :=
  ⟨d, by rw [find?_settled, pending, Option.map_some, if_pos rfl]⟩

end FastPath.Registry

import FastPath.Proofs.Registry.Order

/-! What resolutions do and how it is counted. The stubs made between two registries are those of
the names gained, one for each, and every resolution is either served, compiles, fails or refuses
its name. -/

namespace FastPath.Registry

/-- The name that a stub was made for. -/
def Moment.made? (m : Moment) : Option String :=
  match m.work with
  | .compiled { entry := some _, .. } => m.stack.getLast?
  | .compiled { entry := none, .. } | .built _ | .refused _ => none

def Moment.refused (m : Moment) : Bool := m.work matches .refused _

def made (moments : List Moment) : List String := moments.filterMap Moment.made?

def refusals (moments : List Moment) : Nat := moments.countP Moment.refused

/-- The names that stubs were made for are those that hold one only now, and the counts say how
often resolutions were served, made a stub, failed to and were refused. -/
structure Accounts (r r' : Registry) (moments : List Moment) (hits failures : Nat) : Prop where
  history : r'.history = r.history ++ moments
  once : (made moments).Nodup
  gained : ∀ m, m ∈ made moments ↔ r'.Held m ∧ ¬ r.Held m
  compiler : r'.compiler.compiled = r.compiler.compiled + (made moments).length
  stats : r'.stats = { r.stats with
    resolutions :=
      r.stats.resolutions + (hits + (made moments).length + failures + refusals moments)
    cacheHits := r.stats.cacheHits + hits
    compilations := r.stats.compilations + (made moments).length
    failures := r.stats.failures + failures }

def Accounted (r r' : Registry) : Prop :=
  ∃ moments hits failures, Accounts r r' moments hits failures

variable {name : String} {r r' r₁ r₂ : Registry} {d : Declaration} {g : Graph}

theorem made_append (first second : List Moment) :
    made (first ++ second) = made first ++ made second :=
  List.filterMap_append

theorem refusals_append (first second : List Moment) :
    refusals (first ++ second) = refusals first + refusals second :=
  List.countP_append

namespace Accounted

theorem refl : Accounted r r := by
  refine ⟨[], 0, 0, (List.append_nil _).symm, List.nodup_nil, fun m => ?_, rfl, rfl⟩
  exact iff_of_false List.not_mem_nil fun ⟨held, fresh⟩ => fresh held

theorem trans (first : Accounted r r₁) (second : Accounted r₁ r₂) (p : Progress r r₁)
    (q : Progress r₁ r₂) : Accounted r r₂ := by
  obtain ⟨moments, hits, failures, first⟩ := first
  obtain ⟨moments', hits', failures', second⟩ := second
  refine ⟨moments ++ moments', hits + hits', failures + failures', ?_, ?_, fun m => ?_, ?_, ?_⟩
  · rw [second.history, first.history, List.append_assoc]
  · rw [made_append]
    refine List.nodup_append.mpr ⟨first.once, second.once, ?_⟩
    rintro m earlier _ later rfl
    exact ((second.gained m).mp later).2 ((first.gained m).mp earlier).1
  · rw [made_append, List.mem_append, first.gained, second.gained]
    have kept : r.Held m → r₁.Held m := p.held
    have kept' : r₁.Held m → r₂.Held m := q.held
    tauto
  · rw [second.compiler, first.compiler, made_append, List.length_append, Nat.add_assoc]
  · rw [second.stats, first.stats, made_append, refusals_append, List.length_append]
    simp only [Stats.mk.injEq, true_and]
    omega

/-- No stub is made: a name is served or refused, or a graph is rejected. -/
theorem of_entries (hits : Nat) (entries : r'.entries = r.entries)
    (compiler : r'.compiler = r.compiler)
    (history : r'.history = r.history ++ moments) (nothing : made moments = [])
    (stats : r'.stats = { r.stats with
      resolutions := r.stats.resolutions + (hits + refusals moments)
      cacheHits := r.stats.cacheHits + hits }) : Accounted r r' := by
  refine ⟨moments, hits, 0, history, nothing ▸ List.nodup_nil, fun m => ?_, ?_, ?_⟩
  · rw [nothing, held_of_entries entries]
    exact iff_of_false List.not_mem_nil fun ⟨held, fresh⟩ => fresh held
  · rw [nothing, compiler]
    rfl
  · rw [stats, nothing]
    rfl

theorem failed (callees : Accounted (r.begun name d) r₁) : Accounted r r₁.closed.failed := by
  obtain ⟨moments, hits, failures, callees⟩ := callees
  let first : Moment := ⟨.built d.name, r.pin.enter.depth, r.stack ++ [name]⟩
  have names : made (first :: moments) = made moments := rfl
  have refused : refusals (first :: moments) = refusals moments := rfl
  refine ⟨first :: moments, hits, failures + 1, ?_, callees.once, callees.gained,
    callees.compiler, ?_⟩
  · exact callees.history.trans (List.append_assoc ..)
  · simp only [Registry.failed, closed, callees.stats, names, refused]
    simp only [begun, logged, opened, asked, Stats.mk.injEq, true_and]
    omega

theorem settled (callees : Accounted (r.begun name d) r₁) (p : Progress (r.begun name d) r₁)
    (pending : r.Pending name d) (c : Compilation) (named : c.entry = some entry) (s : Stub) :
    Accounted r (({ r₁ with compiler.compiled := r₁.compiler.compiled + 1 }.logged
      (.compiled c)).closed.settled name s) := by
  obtain ⟨moments, hits, failures, callees⟩ := callees
  let first : Moment := ⟨.built d.name, r.pin.enter.depth, r.stack ++ [name]⟩
  let last : Moment := ⟨.compiled c, r₁.pin.depth, r₁.stack⟩
  have final : last.made? = some name := by
    obtain ⟨_, _, _, _⟩ := c
    cases named
    exact (congrArg List.getLast? p.stack).trans List.getLast?_concat
  have names : made (first :: moments ++ [last]) = made moments ++ [name] := by
    rw [made_append]
    exact congrArg (made moments ++ ·) (List.filterMap_cons_some final)
  have refused : refusals (first :: moments ++ [last]) = refusals moments := by
    rw [refusals_append]
    rfl
  have still : r₁.Pending name d :=
    p.still_pending pending (List.mem_append_right _ List.mem_cons_self)
  have fresh : ¬ r₁.Held name := fun ⟨_, done⟩ => still.not_compiled done
  have unmade : name ∉ made moments := fun member => fresh ((callees.gained name).mp member).1
  refine ⟨first :: moments ++ [last], hits, failures, ?_, ?_, fun m => ?_, ?_, ?_⟩
  · refine (congrArg (· ++ [last]) callees.history).trans ?_
    simp [begun, logged, opened, asked, first]
  · rw [names]
    refine List.nodup_append.mpr ⟨callees.once, by simp, ?_⟩
    rintro m earlier _ here rfl
    exact unmade (List.mem_singleton.mp here ▸ earlier)
  · refine Iff.trans ?_ (and_congr_left' (held_settled still)).symm
    have other : m = name → ¬ r.Held m := by
      rintro rfl ⟨_, done⟩
      exact pending.not_compiled done
    have before : (r.begun name d).Held m ↔ r.Held m := held_of_entries rfl
    rw [names, List.mem_append, List.mem_singleton, callees.gained, before]
    tauto
  · rw [names, List.length_append]
    exact (congrArg (· + 1) callees.compiler).trans (Nat.add_assoc ..)
  · rw [names, refused, List.length_append]
    simp only [Registry.settled, closed, logged, callees.stats]
    simp only [begun, logged, opened, asked, Stats.mk.injEq, true_and, and_true,
      List.length_singleton]
    omega

end Accounted

theorem accounted_carried : Carried Accounted where
  refl := .refl
  trans p q first second := first.trans second p q
  served := .of_entries 1 rfl rfl (List.append_nil _).symm rfl rfl
  refused := .of_entries 0 rfl rfl rfl rfl rfl
  rejected {_ c} refused := by
    obtain ⟨_, _, entry, _⟩ := c
    cases entry with
    | none => exact .of_entries 0 rfl rfl rfl rfl rfl
    | some _ => cases refused
  failed := .failed
  settled pending progress callees _ compiled := by
    obtain ⟨_, _, rfl⟩ := Compiler.compile_parts compiled
    exact .settled callees progress pending _ rfl _

theorem resolve_compiled (done : r.Compiled name s) (trail : r.Trail name) :
    resolve name r = .ok s r.asked.served := by
  obtain ⟨d, found⟩ := done
  rw [resolve_unfold trail, resolveWith_eq, found]
  rfl

/-- Names that are resolved one after the other, none of them under construction at the start, leave
the same names with a stub in whatever order they come. A name resolved with success gets the same
stub ever after, as does every name that holds one. Each name that gains a stub has it made once,
and every resolution made on the way, also for another, is counted as a hit, a compilation or a
failure, or it refused its own name. -/
theorem attempts_settle (idle : r.stack = []) (names : List String) :
    (∀ names', names.Perm names' →
        ∀ m, (r.attemptAll names).Held m ↔ (r.attemptAll names').Held m) ∧
      (∀ before name after s r₁, resolve name (r.attemptAll before) = .ok s r₁ →
        ∃ r₂, resolve name (r.attemptAll (before ++ name :: after)) = .ok s r₂) ∧
      (∀ before name after s, (r.attemptAll before).Compiled name s →
        ∃ r₂, resolve name (r.attemptAll (before ++ after)) = .ok s r₂) ∧
      ∃ moments hits failures, Accounts r (r.attemptAll names) moments hits failures := by
  have stays {before name s} (after : List String) (done : (r.attemptAll before).Compiled name s) :
      ∃ r₂, resolve name (r.attemptAll (before ++ after)) = .ok s r₂ := by
    obtain ⟨_, still⟩ := attemptAll_progress idle before
    obtain ⟨later, ended⟩ := attemptAll_progress still after
    rw [attemptAll_append]
    exact ⟨_, resolve_compiled (later.kept name s done) (.of_idle ended name)⟩
  refine ⟨fun names' permuted m => ?_, fun before name after s r₁ done => ?_,
    fun before name after s done => stays after done, accounted_carried.attemptAll idle names⟩
  · rw [attemptAll_gains idle names m, attemptAll_gains idle names' m]
    simp only [permuted.mem_iff]
  · obtain ⟨_, still⟩ := attemptAll_progress idle before
    have held : (r.attemptAll (before ++ [name])).Compiled name s := by
      rw [attemptAll_append]
      change (left (resolve name (r.attemptAll before))).Compiled name s
      rw [done]
      exact (resolve_ok (.of_idle still name) done).1
    simpa using stays after held

/-- What "even" leaves behind when it fails, "top" finds, and the other way round. -/
theorem relays_settle : relays.stack = [] ∧
    (relays.attemptAll ["even", "top"]).Held "leaf" ∧
    (relays.attemptAll ["top", "even"]).Held "leaf" ∧
    ∃ moments hits failures,
      Accounts relays (relays.attemptAll ["even", "top"]) moments hits failures := by
  obtain ⟨order, _, _, accounts⟩ := attempts_settle (r := relays) rfl ["even", "top"]
  have held : (relays.attemptAll ["even", "top"]).Held "leaf" := ⟨_, _, rfl⟩
  exact ⟨rfl, held, (order _ (.swap _ _ _) "leaf").mp held, accounts⟩

end FastPath.Registry

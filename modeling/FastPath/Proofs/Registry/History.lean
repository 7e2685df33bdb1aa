import FastPath.Proofs.Execution.Descent
import FastPath.Proofs.Registry.Recursion

/-! The stubs that a registry holds in the course of its history. A name may come to mean another
stub, so names that need one another in a circle are no error as long as they are declared one
after the other; the stubs themselves always descend. -/

namespace FastPath.Registry

/-- The registries that declarations, new ones under old names among them, and resolutions, failed
ones among them, lead to. -/
inductive Developed : Registry → Prop
  | start (c : Compiler) : Developed { compiler := c }
  | register : Developed r → e.compiled = none → Developed (r.register e)
  | attempt (name : String) : Developed r → Developed (r.attempt name)

/-- Every stub that is held was made by the registry's compiler, after those it depends on. -/
def Grounded (r : Registry) : Prop :=
  ∀ e ∈ r.entries, ∀ s, e.compiled = some s → s.Grounded r.compiler.compiled

/-- The registry `r'` is grounded if `r` is, and its compiler has made more stubs. -/
structure Grounds (r r' : Registry) : Prop where
  more : r.compiler.compiled ≤ r'.compiler.compiled
  grounded : r.Grounded → r'.Grounded

variable {name : String} {r r' r₁ r₂ : Registry} {d : Declaration} {g : Graph}

theorem Compiled.grounded (done : r.Compiled name s) (grounded : r.Grounded) :
    s.Grounded r.compiler.compiled := by
  obtain ⟨d, found⟩ := done
  exact grounded _ (List.mem_of_find?_eq_some found) s rfl

namespace Grounds

theorem of_entries (entries : r'.entries = r.entries) (compiler : r'.compiler = r.compiler) :
    Grounds r r' := by
  refine ⟨Nat.le_of_eq (congrArg Compiler.compiled compiler.symm), fun grounded => ?_⟩
  rw [Grounded, entries, compiler]
  exact grounded

theorem trans (first : Grounds r r₁) (second : Grounds r₁ r₂) : Grounds r r₂ :=
  ⟨first.more.trans second.more, fun grounded => second.grounded (first.grounded grounded)⟩

theorem begun (grounds : Grounds (r.begun name d) r₁) : Grounds r r₁ :=
  ⟨grounds.more, grounds.grounded⟩

/-- A stub that was just made of stubs that the registry held. -/
theorem settled (grounds : Grounds r r₁) (held : ∀ t ∈ s.deps, ∃ m, r₁.Compiled m t)
    (entry : s.entry = r₁.compiler.nextEntry) (logged : r₂.entries = r₁.entries)
    (compiler : r₂.compiler = { r₁.compiler with compiled := r₁.compiler.compiled + 1 }) :
    Grounds r (r₂.settled name s) := by
  have count : (r₂.settled name s).compiler.compiled = r₁.compiler.compiled + 1 :=
    congrArg Compiler.compiled compiler
  refine ⟨count ▸ Nat.le_succ_of_le grounds.more, fun grounded e member t compiled => ?_⟩
  have before := grounds.grounded grounded
  rw [count]
  obtain ⟨e', inside, rfl⟩ := List.mem_map.mp member
  split at compiled
  · cases compiled
    have index : s.index = r₁.compiler.compiled := by
      rw [Stub.index, entry, Compiler.nextEntry]
      omega
    refine .of (index ▸ entry) (index ▸ Nat.lt_succ_self _) fun t used => ?_
    obtain ⟨m, done⟩ := held t used
    exact index ▸ done.grounded before
  · exact (before e' (logged ▸ inside) t compiled).mono (Nat.le_succ _)

end Grounds

theorem grounds_carried : Carried Grounds where
  refl := .of_entries rfl rfl
  trans _ _ := .trans
  served := .of_entries rfl rfl
  refused := .of_entries rfl rfl
  rejected _ := .of_entries rfl rfl
  failed callees := callees.begun.trans (.of_entries rfl rfl)
  settled _ _ callees stubs compiled := by
    obtain ⟨deps, entry, rfl⟩ := Compiler.compile_parts compiled
    refine callees.begun.settled (fun t used => ?_) entry rfl rfl
    obtain ⟨p, member, rfl⟩ := List.mem_map.mp (deps ▸ used)
    exact ⟨p.1, stubs p member⟩

theorem register_grounded (grounded : r.Grounded) (fresh : e.compiled = none) :
    (r.register e).Grounded := by
  intro e' member s compiled
  obtain member | member := List.mem_append.mp member
  · exact grounded e' (List.mem_filter.mp member).1 s compiled
  · obtain rfl := List.mem_singleton.mp member
    cases fresh.symm.trans compiled

theorem Developed.grounded (developed : r.Developed) : r.stack = [] ∧ r.Grounded := by
  induction developed with
  | start c => exact ⟨rfl, fun _ absent => absurd absent List.not_mem_nil⟩
  | register _ fresh ih => exact ⟨ih.1, register_grounded ih.2 fresh⟩
  | attempt name _ ih =>
    have trail : Trail _ name := .of_idle ih.1 name
    have progress := attempt_progress trail
    exact ⟨progress.stack.trans ih.1, (grounds_carried.attempt trail).grounded ih.2⟩

/-- Whatever a registry went through, the stubs that one of its stubs leads to depend on stubs with
smaller entry points only. So none of them comes back to the first, and a chain of dependencies is
no longer than the number of stubs that were made up to its first. Neither is a chain of calls
between stubs in any execution: an alarm at one call more is never raised. -/
theorem stubs_descend (developed : r.Developed) (done : r.Compiled name s) :
    (∀ t, Relation.ReflTransGen Stub.Uses s t → ∀ u ∈ t.deps, u.entry < t.entry) ∧
      (∀ t, Relation.TransGen Stub.Uses s t → t.same s = false) ∧
      (∀ rest, (s :: rest).IsChain Stub.Uses →
        (s :: rest).length ≤ (s.entry - 0x1000) / 0x10 + 1) ∧
      ∀ {ρ : Type} (alarm : Halt) (host : Host ρ) (fuel room : Nat),
        (s.entry - 0x1000) / 0x10 + 1 ≤ room →
        invokeChained alarm host fuel room s = invoke host fuel s := by
  obtain ⟨_, grounded⟩ := developed.grounded
  have grounded := done.grounded grounded
  refine ⟨fun t path u used => (grounded.reaches path).descends used, fun t path => ?_,
    fun rest chain => Nat.succ_le_succ (grounded.chain_length chain),
    fun alarm host fuel room => ?_⟩
  · have below := grounded.falls path
    simp only [Stub.same, Bool.and_eq_false_iff, beq_eq_false_iff_ne]
    exact .inr (Nat.ne_of_lt below)
  · intro enough
    exact invokeChained_eq alarm host fuel (grounded.within enough)

/-- Once "top" holds a stub that calls the one of "leaf", "leaf" is declared anew, to call "top". -/
def rebound : Registry := ((relays.attempt "top").declare (relay "leaf" ["top"])).attempt "leaf"

/-- The names go in a circle, the stubs do not. -/
theorem rebound_descends : rebound.Developed ∧ ∃ s t u, rebound.Compiled "leaf" s ∧
    s.deps = [t] ∧ t.deps = [u] ∧ [s, t, u].map Stub.name = ["leaf", "top", "leaf"] ∧
    s.entry = 0x1020 ∧ u.entry < t.entry ∧ u.same s = false ∧
    ∀ fuel,
      invokeChained .fault Host.absent fuel 3 s = invoke (Host.absent : Host Unit) fuel s := by
  have developed : rebound.Developed :=
    .attempt "leaf" (.register (.attempt "top" (.register (.register (.register (.register
      (.start _) rfl) rfl) rfl) rfl)) rfl)
  have held : ∃ s t u, rebound.Compiled "leaf" s ∧ s.deps = [t] ∧ t.deps = [u] ∧
      [s, t, u].map Stub.name = ["leaf", "top", "leaf"] ∧ s.entry = 0x1020 :=
    ⟨_, _, _, ⟨_, rfl⟩, rfl, rfl, rfl, rfl⟩
  obtain ⟨s, t, u, done, first, second, names, entry⟩ := held
  obtain ⟨descend, apart, _, bounded⟩ := stubs_descend developed done
  have uses : s.Uses t := by simp [Stub.Uses, first]
  have uses' : t.Uses u := by simp [Stub.Uses, second]
  refine ⟨developed, s, t, u, done, first, second, names, entry, descend t (.single uses) u uses',
    apart u (.tail (.single uses) uses'), fun fuel => bounded _ _ fuel 3 ?_⟩
  rw [entry]

end FastPath.Registry

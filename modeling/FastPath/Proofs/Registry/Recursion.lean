import FastPath.Proofs.Registry.Correctness

/-! Resolution as a recursion over what is left to put on the stack. A property of resolutions that
one level has whenever the calls it makes have it is a property of all of them; and a level that
resolves callees one after the other carries along whatever each call keeps. -/

namespace FastPath.Registry

/-- A relation between registries and what resolutions make of them. It holds across a level of a
resolution if it does across what the level makes of its callees. -/
structure Carried (T : Registry → Registry → Prop) : Prop where
  refl : T r r
  trans : Progress r r₁ → Progress r₁ r₂ → T r r₁ → T r₁ r₂ → T r r₂
  served : T r r.asked.served
  refused : T r (r.asked.logged (.refused name))
  rejected : c.entry = none → T r (r.logged (.compiled c))
  failed : T (r.begun name d) r₁ → T r r₁.closed.failed
  settled : r.Pending name d → Progress (r.begun name d) r₁ → T (r.begun name d) r₁ →
    (∀ p ∈ deps, r₁.Compiled p.1 p.2) → r₁.compiler.compile g d.config deps = .ok (s, c) →
    T r (({ r₁ with compiler := c }.logged
      (.compiled ⟨g, deps.map Prod.fst, some s.entry, c.compiled⟩)).closed.settled name s)

variable {name : String} {r r₁ : Registry} {d : Declaration} {g : Graph}

/-- The registry that a resolution leaves. -/
def left : Result → Registry
  | .ok _ r | .error _ r => r

/-- The registry after a name was resolved, with or without success. -/
def attempt (r : Registry) (name : String) : Registry := left (resolve name r)

/-- The registry after several names were resolved, one after the other. -/
def attemptAll (r : Registry) (names : List String) : Registry := names.foldl attempt r

def Held (r : Registry) (name : String) : Prop := ∃ s, r.Compiled name s

theorem resolve_rec {P : String → Registry → Result → Prop}
    (level : ∀ {name r out}, r.Trail name → Resolution resolve name r out →
      (∀ d dep r₁, Asks resolve name r d dep r₁ → Progress (r.begun name d) r₁ → r₁.Trail dep →
        P dep r₁ (resolve dep r₁)) → P name r out)
    (trail : r.Trail name) : P name r (resolve name r) := by
  -- the induction is on the number of names that can still join the stack
  have within (n : Nat) : ∀ name r, r.Trail name → r.entries.length ≤ n + r.stack.length →
      P name r (resolve name r) := by
    induction n with
    | zero =>
      intro name r trail room
      rw [resolve_unfold trail]
      refine level trail (resolveWith_resolution resolve name r) fun d dep r₁ asks _ _ => ?_
      exact (trail.no_room (by simpa using room) asks).elim
    | succ n ih =>
      intro name r trail room
      rw [resolve_unfold trail]
      refine level trail (resolveWith_resolution resolve name r) ?_
      intro d dep r₁ _ progress deeper
      exact ih dep r₁ deeper (progress.room room)
  exact within r.entries.length name r trail (Nat.le_add_right _ _)

theorem attempt_progress (trail : r.Trail name) : Progress r (r.attempt name) := by
  have outcome := resolve_outcome trail
  unfold attempt
  cases ran : resolve name r with
  | ok s r' =>
    rw [ran] at outcome
    exact outcome.1
  | error e r' =>
    rw [ran] at outcome
    exact outcome.1

/-- What fails to be resolved is not good. -/
theorem resolve_error (trail : r.Trail name) (failed : resolve name r = .error e r₁) :
    ¬ r.Good name := by
  have outcome := resolve_outcome trail
  rw [failed] at outcome
  exact outcome.2.not_good

theorem resolve_ok (trail : r.Trail name) (done : resolve name r = .ok s r₁) :
    r₁.Compiled name s ∧ r.Good name := by
  have outcome := resolve_outcome trail
  rw [done] at outcome
  exact outcome.2

section

variable (trail : r.Trail name) (pending : r.Pending name d) (idle : name ∉ r.stack)
  (built : d.template d.name d.config = .ok g) (split : g.callees = before ++ after)
  (done : resolveAll resolve before (r.begun name d) = .ok deps r₁)

include trail pending idle built split done

/-- The callees that were resolved are good, and all that happened was progress. -/
theorem callees_progress : Progress (r.begun name d) r₁ ∧ ∀ b ∈ before, r.Good b :=
  resolveAll_progress trail (fun _ _ _ _ _ deeper => resolve_outcome deeper) pending idle built
    split done

/-- What each callee keeps, given the callees before it and their stubs, all of them keep. -/
theorem callees_keep {I : List String → List (String × Stub) → Registry → Prop}
    (start : I [] [] (r.begun name d))
    (next : ∀ met dep found t s u, Asks resolve name r d dep t → Progress (r.begun name d) t →
      t.Trail dep → I met found t → resolve dep t = .ok s u →
      I (met ++ [dep]) (found ++ [(dep, s)]) u) : I before deps r₁ := by
  refine estate_mapM_results start ?_ done
  intro met dep rest found t _ u parts first kept call
  obtain ⟨s, _, call, last⟩ := estate_bind_ok.mp call
  cases last
  have callees : g.callees = met ++ dep :: (rest ++ after) := by simp [split, parts]
  obtain ⟨progress, _⟩ := callees_progress trail pending idle built callees first
  have edge : r.Needs name dep := ⟨d, g, pending, built, by simp [callees]⟩
  exact next met dep found t s u ⟨g, met, _, found, pending, idle, built, callees, first⟩ progress
    (trail.deeper idle edge progress) kept call

theorem callees_compiled : ∀ p ∈ deps, r₁.Compiled p.1 p.2 := by
  refine callees_keep (I := fun _ found t => ∀ p ∈ found, t.Compiled p.1 p.2) trail pending idle
    built split done (fun _ absent => absurd absent List.not_mem_nil) ?_
  intro met dep found t s u asks progress deeper earlier ended p member
  have further := attempt_progress deeper
  rw [attempt, ended] at further
  obtain member | member := List.mem_append.mp member
  · exact further.kept p.1 p.2 (earlier p member)
  · obtain rfl := List.mem_singleton.mp member
    exact (resolve_ok deeper ended).1

end

theorem attemptAll_append (before after : List String) :
    r.attemptAll (before ++ after) = (r.attemptAll before).attemptAll after :=
  List.foldl_append

/-- One name after the other, nothing is left under construction. -/
theorem attemptAll_progress (idle : r.stack = []) (names : List String) :
    Progress r (r.attemptAll names) ∧ (r.attemptAll names).stack = [] := by
  induction names generalizing r with
  | nil => exact ⟨.of_entries rfl rfl, idle⟩
  | cons name names ih =>
    have first := attempt_progress (.of_idle idle name)
    obtain ⟨rest, stack⟩ := ih (first.stack.trans idle)
    exact ⟨first.trans rest, stack⟩

namespace Carried

variable {T : Registry → Registry → Prop} (carried : Carried T)

include carried

theorem attempt (trail : r.Trail name) : T r (r.attempt name) := by
  refine resolve_rec (P := fun _ r out => T r (left out)) ?_ trail
  intro name r out trail resolution calls
  have call : ∀ {d dep t}, Asks resolve name r d dep t → Progress (r.begun name d) t →
      t.Trail dep → T (r.begun name d) t → T (r.begun name d) (t.attempt dep) :=
    fun asks progress deeper earlier => carried.trans progress (attempt_progress deeper) earlier
      (calls _ _ _ asks progress deeper)
  have callees : ∀ {d g before after deps r₁}, r.Pending name d → name ∉ r.stack →
      d.template d.name d.config = .ok g → g.callees = before ++ after →
      resolveAll resolve before (r.begun name d) = .ok deps r₁ → T (r.begun name d) r₁ := by
    intro d g before after deps r₁ pending idle built split done
    refine callees_keep (I := fun _ _ t => T (r.begun name d) t) trail pending idle built split done
      carried.refl fun met dep found t s u asks progress deeper earlier ended => ?_
    have next := call asks progress deeper earlier
    rwa [Registry.attempt, ended] at next
  cases resolution with
  | undeclared | cycle => exact carried.refused
  | hit => exact carried.served
  | unbuilt => exact carried.failed carried.refl
  | @blocked d g before dep after done r₁ e r₂ pending idle built split first stopped =>
    obtain ⟨progress, _⟩ := callees_progress trail pending idle built split first
    have edge : r.Needs name dep := ⟨d, g, pending, built, by simp [split]⟩
    have next := call ⟨g, before, after, done, pending, idle, built, split, first⟩ progress
      (trail.deeper idle edge progress) (callees pending idle built split first)
    rw [Registry.attempt, stopped] at next
    exact carried.failed next
  | @refused d g deps r₁ e pending idle built done refused =>
    have split : g.callees = g.callees ++ [] := (List.append_nil _).symm
    obtain ⟨progress, _⟩ := callees_progress trail pending idle built split done
    exact carried.failed (carried.trans progress (.of_entries rfl rfl)
      (callees pending idle built split done) (carried.rejected rfl))
  | @compiled d g deps r₁ s c pending idle built done compiled =>
    have split : g.callees = g.callees ++ [] := (List.append_nil _).symm
    obtain ⟨progress, _⟩ := callees_progress trail pending idle built split done
    exact carried.settled pending progress (callees pending idle built split done)
      (callees_compiled trail pending idle built split done) compiled

theorem attemptAll (idle : r.stack = []) (names : List String) : T r (r.attemptAll names) := by
  induction names generalizing r with
  | nil => exact carried.refl
  | cons name names ih =>
    have trail : r.Trail name := .of_idle idle name
    have first := attempt_progress trail
    have idle := first.stack.trans idle
    exact carried.trans first (attemptAll_progress idle names).1 (carried.attempt trail) (ih idle)

end Carried

end FastPath.Registry

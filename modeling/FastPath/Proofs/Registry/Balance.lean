import FastPath.Proofs.Registry.Accounts

/-! Pins and the stack of names are balanced. However a resolution ends, at whatever depth of the
dependency graph, it leaves the pins and the stack that it found. On its way the stack holds just
the names whose construction was begun and not ended, a chain of which each needs the next, and
for each of them there is one more pin than there was before. -/

namespace FastPath.Registry

/-- Resolutions that leave the pins and the stack as they find them. -/
def Restores (f : String → RegistryM Stub) : Prop :=
  ∀ name r, (left (f name r)).pin = r.pin ∧ (left (f name r)).stack = r.stack

section

variable {f : String → RegistryM Stub} {name : String} {names : List String} {r t : Registry}

theorem closed_restores (kept : t.pin = r.pin.enter ∧ t.stack = r.stack ++ [name]) :
    t.closed.pin = r.pin ∧ t.closed.stack = r.stack := by
  obtain ⟨pin, stack⟩ := kept
  constructor
  · rw [closed, pin, Pin.leave_enter]
  · rw [closed, stack, List.dropLast_concat]

namespace Restores

variable (restores : Restores f)

include restores

theorem callees (done : resolveAll f names r = .ok deps t) :
    t.pin = r.pin ∧ t.stack = r.stack := by
  refine estate_mapM_ok (I := fun _ t => t.pin = r.pin ∧ t.stack = r.stack) ⟨rfl, rfl⟩ ?_ done
  rintro _ dep _ _ t _ u _ _ ⟨pin, stack⟩ call
  obtain ⟨s, _, call, last⟩ := estate_bind_ok.mp call
  cases last
  have kept := restores dep t
  rw [call] at kept
  exact ⟨kept.1.trans pin, kept.2.trans stack⟩

theorem resolution (h : Resolution f name r out) :
    (left out).pin = r.pin ∧ (left out).stack = r.stack := by
  cases h with
  | undeclared | hit | cycle => exact ⟨rfl, rfl⟩
  | @unbuilt d e pending idle built =>
    have begun : (r.begun name d).pin = r.pin.enter ∧ (r.begun name d).stack = r.stack ++ [name] :=
      ⟨rfl, rfl⟩
    exact closed_restores begun
  | @blocked d g before dep after done t e u pending idle built split first stopped =>
    have kept := restores.callees first
    have last := restores dep t
    rw [stopped] at last
    have kept : u.pin = r.pin.enter ∧ u.stack = r.stack ++ [name] :=
      ⟨last.1.trans kept.1, last.2.trans kept.2⟩
    exact closed_restores kept
  | @refused d g deps t e pending idle built done refused =>
    have kept := restores.callees done
    exact closed_restores kept
  | @compiled d g deps t s c pending idle built done compiled =>
    have kept := restores.callees done
    exact closed_restores (t := { t with compiler := c }) kept

end Restores

theorem resolveWithin_restores (budget : Nat) : Restores (resolveWithin budget) := by
  induction budget with
  | zero =>
    intro name r
    have thrown : Restores fun name => throw (.cyclic [name]) := fun _ _ => ⟨rfl, rfl⟩
    exact thrown.resolution (resolveWith_resolution _ name r)
  | succ budget ih =>
    intro name r
    exact ih.resolution (resolveWith_resolution _ name r)

theorem resolve_restores : Restores resolve := by
  intro name r
  exact resolveWithin_restores r.entries.length name r

end

/-- The names under construction at a moment, given those before it. -/
def Moment.during (m : Moment) (names : List String) : List String :=
  match m.work with
  | .built name => names ++ [name]
  | .compiled _ | .refused _ => names

/-- The names under construction once the work of a moment is done. The one whose body went to the
compiler is constructed. -/
def Moment.after (m : Moment) (names : List String) : List String :=
  match m.work with
  | .built name => names ++ [name]
  | .compiled _ => names.dropLast
  | .refused _ => names

/-- The names whose construction was begun and not ended, if at first it was `names`. -/
def underway (names : List String) (moments : List Moment) : List String :=
  moments.foldl (fun names m => m.after names) names

/-- What is built or compiled is the last name on the stack. -/
def Moment.Concerns (m : Moment) (r : Registry) : Prop :=
  match m.work with
  | .built name => m.stack.getLast? = some name
  | .compiled c => ∃ name d, m.stack.getLast? = some name ∧ r.Pending name d ∧
      d.template d.name d.config = .ok c.graph
  | .refused _ => True

/-- A moment in the resolution of `name` from `r`, before which `names` were under construction. -/
structure Moment.Guarded (m : Moment) (r : Registry) (name : String) (names : List String) :
    Prop where
  stack : m.stack = m.during names
  distinct : m.stack.Nodup
  linked : m.stack.IsChain r.Needs
  under : r.stack ++ [name] <+: m.stack
  pins : m.pins + r.stack.length = r.pin.depth + m.stack.length
  concerns : m.Concerns r

/-- Whatever is built or compiled at one of the moments is guarded. -/
def Balanced (r : Registry) (name : String) : List String → List Moment → Prop
  | _, [] => True
  | names, m :: moments =>
    (m.refused = false → m.Guarded r name names) ∧ Balanced r name (m.after names) moments

/-- All that is done to resolve `name` is balanced, and if that succeeds, nothing is left that was
begun and not ended. -/
def Balances (r : Registry) (name : String) (out : Result) : Prop :=
  ∃ moments, (left out).history = r.history ++ moments ∧ Balanced r name r.stack moments ∧
    ∀ s r', out = .ok s r' → underway r.stack moments = r.stack

variable {name dep : String} {names : List String} {r r₁ t : Registry} {d : Declaration} {g : Graph}
  {moments moments' : List Moment} {out : Result}

theorem underway_append (names : List String) (moments moments' : List Moment) :
    underway names (moments ++ moments') = underway (underway names moments) moments' :=
  List.foldl_append

namespace Balanced

theorem append (balanced : Balanced r name names moments)
    (balanced' : Balanced r name (underway names moments) moments') :
    Balanced r name names (moments ++ moments') := by
  induction moments generalizing names with
  | nil => exact balanced'
  | cons m moments ih =>
    obtain ⟨guarded, rest⟩ := balanced
    exact ⟨guarded, ih rest balanced'⟩

theorem guarded (balanced : Balanced r name names (before ++ m :: after))
    (work : m.refused = false) : m.Guarded r name (underway names before) := by
  induction before generalizing names with
  | nil => exact balanced.1 work
  | cons _ before ih => exact ih balanced.2

end Balanced

/-- A callee is resolved with one more name on the stack and one more pin. -/
theorem Moment.Guarded.outer {m : Moment} (guarded : m.Guarded t dep names)
    (stack : t.stack = r.stack ++ [name]) (pin : t.pin = r.pin.enter)
    (progress : Progress (r.begun name d) t) : m.Guarded r name names where
  stack := guarded.stack
  distinct := guarded.distinct
  linked := guarded.linked.imp fun _ _ edge => progress.needs edge
  under := stack ▸ (List.prefix_append t.stack [dep]).trans guarded.under
  pins := by
    have pins := guarded.pins
    rw [stack, List.length_append, List.length_singleton, pin] at pins
    change m.pins + (r.stack.length + 1) = r.pin.depth + 1 + m.stack.length at pins
    omega
  concerns := by
    have concerns := guarded.concerns
    unfold Concerns at concerns ⊢
    split at concerns
    · exact concerns
    · obtain ⟨last, d', found, pending, built⟩ := concerns
      exact ⟨last, d', found, progress.pending pending, built⟩
    · trivial

theorem Balanced.outer (balanced : Balanced t dep names moments)
    (stack : t.stack = r.stack ++ [name]) (pin : t.pin = r.pin.enter)
    (progress : Progress (r.begun name d) t) : Balanced r name names moments := by
  induction moments generalizing names with
  | nil => trivial
  | cons m moments ih =>
    obtain ⟨guarded, rest⟩ := balanced
    exact ⟨fun work => (guarded work).outer stack pin progress, ih rest⟩

theorem Pending.declares (pending : r.Pending name d) : d.name = name := by
  simpa [Entry.name] using List.find?_some pending

theorem Balances.refused (error : RegistryError) :
    Balances r name (.error error (r.asked.logged (.refused name))) := by
  refine ⟨[⟨.refused name, r.pin.depth, r.stack⟩], rfl, ⟨?_, trivial⟩, ?_⟩
  · intro work
    cases work
  · intro s r' never
    cases never

/-- A moment at which `name` is the last on the stack. -/
def inside (r : Registry) (name : String) (work : Work) : Moment :=
  { work, pins := r.pin.depth + 1, stack := r.stack ++ [name] }

theorem begun_history (pending : r.Pending name d) :
    (r.begun name d).history = r.history ++ [inside r name (.built name)] := by
  have declared := pending.declares
  rw [begun, logged, declared]
  rfl

theorem inside_guarded {work : Work} (trail : r.Trail name) (idle : name ∉ r.stack)
    (stack : (inside r name work).during names = r.stack ++ [name])
    (concerns : (inside r name work).Concerns r) :
    (inside r name work).Guarded r name names where
  stack := stack.symm
  distinct := by
    apply List.nodup_append.mpr
    refine ⟨trail.distinct, by simp, ?_⟩
    rintro m busy _ last rfl
    exact idle (List.mem_singleton.mp last ▸ busy)
  linked := trail.linked
  under := List.prefix_rfl
  pins := by
    simp only [inside, List.length_append, List.length_singleton]
    omega
  concerns := concerns

/-- All that was done for `name` since it was begun, up to the registry `t`. -/
structure Beneath (r : Registry) (name : String) (t : Registry) (moments : List Moment) :
    Prop where
  history : t.history = r.history ++ inside r name (.built name) :: moments
  balanced : Balanced r name (r.stack ++ [name]) moments

namespace Beneath

theorem start (pending : r.Pending name d) : Beneath r name (r.begun name d) [] where
  history := begun_history pending
  balanced := trivial

/-- The next callee is resolved. -/
theorem call (beneath : Beneath r name t moments)
    (ended : underway (r.stack ++ [name]) moments = r.stack ++ [name])
    (balances : Balances t dep out) (asks : Asks resolve name r d dep t)
    (progress : Progress (r.begun name d) t) :
    ∃ moments', Beneath r name (left out) moments' ∧
      ∀ s r', out = .ok s r' → underway (r.stack ++ [name]) moments' = r.stack ++ [name] := by
  obtain ⟨further, history, balanced, finished⟩ := balances
  obtain ⟨_, _, _, _, _, _, _, _, first⟩ := asks
  have stack : t.stack = r.stack ++ [name] := progress.stack
  have pin : t.pin = r.pin.enter := (resolve_restores.callees first).1
  have inner := balanced.outer stack pin progress
  rw [stack] at inner finished
  refine ⟨moments ++ further, ⟨?_, ?_⟩, ?_⟩
  · rw [history, beneath.history, List.append_assoc, List.cons_append]
  · apply beneath.balanced.append
    rw [ended]
    exact inner
  · intro s r' done
    rw [underway_append, ended]
    exact finished s r' done

variable (beneath : Beneath r name t moments) (trail : r.Trail name) (idle : name ∉ r.stack)

include beneath trail idle

theorem balances (history : (left out).history = t.history)
    (finished : ∀ s r', out = .ok s r' → underway (r.stack ++ [name]) moments = r.stack) :
    Balances r name out := by
  refine ⟨inside r name (.built name) :: moments, ?_, ⟨?_, beneath.balanced⟩, finished⟩
  · exact history.trans beneath.history
  · intro _
    exact inside_guarded trail idle rfl List.getLast?_concat

/-- A level that fails has its own name begun, and does nothing more. -/
theorem failed (error : RegistryError) : Balances r name (.error error t.closed.failed) := by
  apply beneath.balances trail idle rfl
  intro s r' never
  cases never

/-- The body of `name` goes to the compiler once its callees are through. -/
theorem logged (ended : underway (r.stack ++ [name]) moments = r.stack ++ [name])
    (stack : t.stack = r.stack ++ [name]) (pin : t.pin = r.pin.enter)
    (pending : r.Pending name d) (c : Compilation)
    (built : d.template d.name d.config = .ok c.graph) :
    Beneath r name (t.logged (.compiled c)) (moments ++ [inside r name (.compiled c)]) where
  history := by
    rw [Registry.logged, beneath.history, stack, pin, List.append_assoc, List.cons_append]
    rfl
  balanced := by
    apply beneath.balanced.append
    rw [ended]
    refine ⟨?_, trivial⟩
    intro _
    exact inside_guarded trail idle rfl ⟨name, d, List.getLast?_concat, pending, built⟩

end Beneath

section

variable (trail : r.Trail name) (pending : r.Pending name d) (idle : name ∉ r.stack)
  (built : d.template d.name d.config = .ok g) (split : g.callees = before ++ after)
  (calls : ∀ d dep r₁, Asks resolve name r d dep r₁ → Progress (r.begun name d) r₁ →
    r₁.Trail dep → Balances r₁ dep (resolve dep r₁))
  (done : resolveAll resolve before (r.begun name d) = .ok deps t)

include trail pending idle built split calls done

theorem callees_balance : ∃ moments, Beneath r name t moments ∧
    underway (r.stack ++ [name]) moments = r.stack ++ [name] := by
  refine callees_keep (I := fun _ _ t => ∃ moments, Beneath r name t moments ∧
      underway (r.stack ++ [name]) moments = r.stack ++ [name]) trail pending idle built split done
    ⟨[], .start pending, rfl⟩ ?_
  intro met dep found t s u asks progress deeper earlier call
  obtain ⟨moments, beneath, ended⟩ := earlier
  obtain ⟨moments', later, finished⟩ := beneath.call ended (calls d dep t asks progress deeper)
    asks progress
  rw [call] at later finished
  exact ⟨moments', later, finished s u rfl⟩

end

theorem resolve_balances (trail : r.Trail name) : Balances r name (resolve name r) := by
  refine resolve_rec (P := fun name r out => Balances r name out) ?_ trail
  intro name r out trail resolution calls
  cases resolution with
  | undeclared | cycle => exact .refused _
  | hit done => exact ⟨[], (List.append_nil _).symm, trivial, fun _ _ _ => rfl⟩
  | unbuilt pending idle built => exact (Beneath.start pending).failed trail idle _
  | @blocked d g before dep after done t e u pending idle built split first stopped =>
    obtain ⟨moments, beneath, ended⟩ := callees_balance trail pending idle built split calls first
    obtain ⟨progress, _⟩ := callees_progress trail pending idle built split first
    have edge : r.Needs name dep := ⟨d, g, pending, built, by simp [split]⟩
    have asks : Asks resolve name r d dep t :=
      ⟨g, before, after, done, pending, idle, built, split, first⟩
    have last := calls d dep t asks progress (trail.deeper idle edge progress)
    obtain ⟨moments', later, _⟩ := beneath.call ended last asks progress
    rw [stopped] at later
    exact later.failed trail idle e
  | @refused d g deps t e pending idle built done refused =>
    have split : g.callees = g.callees ++ [] := (List.append_nil _).symm
    obtain ⟨moments, beneath, ended⟩ := callees_balance trail pending idle built split calls done
    obtain ⟨progress, _⟩ := callees_progress trail pending idle built split done
    obtain ⟨pin, _⟩ := resolve_restores.callees done
    have last := beneath.logged trail idle ended progress.stack pin pending
      ⟨g, deps.map Prod.fst, none, t.compiler.compiled⟩ built
    exact last.failed trail idle _
  | @compiled d g deps t s c pending idle built done compiled =>
    have split : g.callees = g.callees ++ [] := (List.append_nil _).symm
    obtain ⟨moments, beneath, ended⟩ := callees_balance trail pending idle built split calls done
    obtain ⟨progress, _⟩ := callees_progress trail pending idle built split done
    obtain ⟨pin, _⟩ := resolve_restores.callees done
    have made : Beneath r name { t with compiler := c } moments :=
      ⟨beneath.history, beneath.balanced⟩
    have last := made.logged trail idle ended progress.stack pin pending
      ⟨g, deps.map Prod.fst, some s.entry, c.compiled⟩ built
    apply last.balances trail idle rfl
    intro _ _ _
    rw [underway_append, ended]
    exact List.dropLast_concat

/-- However the resolution of a name ends, pins and stack are what they were. If nothing was under
construction before, then wherever a graph is built or compiled on the way, the stack holds the
names begun and not ended, from `name` on, without repetition and each needing the next, the last
one being what is built or compiled; and with the pins that others hold there is one for each. -/
theorem resolution_balanced (r : Registry) (name : String) :
    (r.attempt name).pin = r.pin ∧ (r.attempt name).stack = r.stack ∧
      (r.stack = [] → ∃ moments, (r.attempt name).history = r.history ++ moments ∧
        ∀ before m after, moments = before ++ m :: after → m.refused = false →
          m.stack = m.during (underway [] before) ∧ m.stack.Nodup ∧
            m.stack.head? = some name ∧ m.stack.IsChain r.Needs ∧ m.Concerns r ∧
            m.pins = r.pin.depth + m.stack.length ∧ 0 < m.pins) := by
  obtain ⟨pin, stack⟩ := resolve_restores name r
  refine ⟨pin, stack, fun idle => ?_⟩
  obtain ⟨moments, history, balanced, _⟩ := resolve_balances (.of_idle idle name)
  refine ⟨moments, history, ?_⟩
  rintro before m after rfl work
  have guarded := balanced.guarded work
  have under := guarded.under
  have pins := guarded.pins
  rw [idle] at guarded under pins
  obtain ⟨rest, whole⟩ := under
  have first : m.stack = name :: rest := whole.symm
  have nonempty : 0 < m.stack.length := first ▸ Nat.succ_pos _
  have pins : m.pins = r.pin.depth + m.stack.length := pins
  refine ⟨guarded.stack, guarded.distinct, ?_, guarded.linked, guarded.concerns, pins, ?_⟩
  · rw [first, List.head?_cons]
  · omega

/-- While others hold two pins, "even" fails after its callees went two levels deeper. -/
theorem relays_balanced :
    let r : Registry := { relays with pin := ⟨2⟩ }
    r.stack = [] ∧ (r.attempt "even").pin = ⟨2⟩ ∧ (r.attempt "even").stack = [] ∧
      ∃ before m after, (r.attempt "even").history = before ++ m :: after ∧ m.refused = false ∧
        m.stack = ["even", "odd", "leaf"] ∧ m.pins = 5 ∧
        m.during (underway [] before) = ["even", "odd", "leaf"] ∧ m.stack.IsChain r.Needs := by
  intro r
  obtain ⟨pin, stack, moments⟩ := resolution_balanced r "even"
  obtain ⟨moments, history, guarded⟩ := moments rfl
  obtain rfl : (r.attempt "even").history = moments := history
  let before := (r.attempt "even").history.take 3
  have facts : ((r.attempt "even").history[3]?.any fun m => !m.refused &&
      m.stack == ["even", "odd", "leaf"] &&
      m.during (underway [] before) == ["even", "odd", "leaf"]) = true := by decide +kernel
  obtain ⟨m, third, facts⟩ := (Option.any_eq_true _ _).mp facts
  simp only [Bool.and_eq_true, Bool.not_eq_true', beq_iff_eq] at facts
  obtain ⟨⟨work, names⟩, begun⟩ := facts
  obtain ⟨inside, rfl⟩ := List.getElem?_eq_some_iff.mp third
  have split : (r.attempt "even").history = before ++ (r.attempt "even").history[3] ::
      (r.attempt "even").history.drop 4 := by
    rw [List.getElem_cons_drop, List.take_append_drop]
  obtain ⟨_, _, _, linked, _, pins, _⟩ := guarded before _ _ split work
  have pins : (r.attempt "even").history[3].pins = 5 := by rw [pins, names]; rfl
  exact ⟨rfl, pin, stack, before, _, _, split, work, names, pins, begun, linked⟩

end FastPath.Registry

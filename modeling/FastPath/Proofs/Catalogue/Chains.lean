import FastPath.Proofs.Catalogue.Ancestry
import FastPath.Proofs.Execution.Quiet

/-! What the stub that tells whether a function has made an object finds out on any heap, one with
chains of prototypes that go round in circles included: whether the map of the function's instances
is on the chain of the object. -/

namespace FastPath

open Catalogue Heap

variable {stubs : String → Stub} {host : Host ρ} {s : State ρ}

namespace Programs

theorem functionCheck_quiet : (functionCheck.linked stubs).Quiet := by
  change ∀ x ∈ functionCheck.blocks, ∀ i ∈ x.insts, i.quiet = true
  decide

theorem functionCheck_callees : functionCheck.callees = [] := by decide

theorem descent_quiet : (descent.linked stubs).Quiet := by
  change ∀ x ∈ descent.blocks, ∀ i ∈ x.insts, i.quiet = true
  decide

theorem descent_callees : descent.callees = [checkFunction] := by decide

variable {calls : Invoke ρ} {f : Frame} {obj fn i m : Word}

variable (stubs host calls) in
/-- The loop goes around as long as nothing is decided. -/
theorem goes_on (instances : s.machine.heap.load fn Layout.Function.instanceMap = .ok i)
    (readable : s.machine.heap.Readable obj i) (visiting : Visiting f m fn)
    (start : s.machine.heap.mapOf obj = .ok m) {k : Nat}
    (before : s.machine.heap.OpenUntil obj i k) :
    ∃ ids f' m', (descent.linked stubs).Passes host calls ids visit f s visit f' s ∧
      ids.length = 4 * k ∧ Visiting f' m' fn ∧ s.machine.heap.mapAlong obj k = .ok (some m') := by
  induction k with
  | zero =>
    refine ⟨[], f, m, fun fuel => ⟨rfl, rfl⟩, rfl, visiting, ?_⟩
    rw [mapAlong, start]
    rfl
  | succ k ih =>
    obtain ⟨ids, f', m', passes, length, visiting', reached⟩ :=
      ih fun j earlier => before j (Nat.lt_succ_of_lt earlier)
    obtain ⟨other, unended⟩ := before k (Nat.lt_succ_self k)
    obtain ⟨next, along⟩ := readable (k + 1) before
    have beyond : s.machine.heap.mapBeyond m' = .ok next := by
      rw [mapAlong, reached] at along
      exact along
    cases next with
    | none => exact absurd ⟨m', reached, .inl beyond⟩ unended
    | some m'' =>
      have apart : m'' ≠ m' := by
        rintro rfl
        exact unended ⟨m'', reached, .inr beyond⟩
      have unmet : m' ≠ i := by
        rintro rfl
        exact other reached
      obtain ⟨f'', around, visiting''⟩ := moves stubs host calls visiting'
        instances unmet beyond apart
      refine ⟨_, f'', m'', passes.trans around, ?_, visiting'', along⟩
      rw [List.length_append, length]
      rfl

variable (host) in
/-- A call that passes the check comes to each map of an open chain. -/
theorem reaches (self : Word) {v : Word}
    (passed : calls (stubs checkFunction) .undefined [fn] s = .ok v s)
    (entity : obj.isInt = false)
    (instances : s.machine.heap.load fn Layout.Function.instanceMap = .ok i)
    (readable : s.machine.heap.Readable obj i) {k : Nat}
    (before : s.machine.heap.OpenUntil obj i k) :
    ∃ ids f m, (descent.linked stubs).Passes host calls ids 0
        ((descent.linked stubs).frame self [obj, fn]) s visit f s ∧
      k ≤ ids.length ∧ Visiting f m fn ∧ s.machine.heap.mapAlong obj k = .ok (some m) := by
  obtain ⟨m, mapped⟩ : ∃ m, s.machine.heap.mapOf obj = .ok m := by
    obtain ⟨_, along⟩ := readable 0 (fun _ none => absurd none (Nat.not_lt_zero _))
    obtain ⟨m, mapped, _⟩ := except_bind_ok.mp along
    exact ⟨m, mapped⟩
  obtain ⟨f, entered, visiting⟩ := enters host self obj fn passed entity mapped
  obtain ⟨ids, f', m', passes, length, visiting', along⟩ := goes_on stubs host calls instances
    readable visiting mapped before
  refine ⟨_, f', m', entered.trans passes, ?_, visiting', along⟩
  rw [List.length_append]
  omega

end Programs

section

variable (library : Library stubs)

include library

/-- Every graph of the library is that of a declaration without an inline cache. -/
theorem Library.declares (g : Graph) (name : String) (named : g.stub = name)
    (known : g ∈ Programs.graphs := by decide) : ∃ d : Declaration,
      d.CompiledTo stubs (stubs name) ∧ d.config.cache = none ∧
        d.template d.name d.config = .ok g := by
  obtain ⟨d, member, same, built⟩ := Programs.built g known
  have bare : ∀ d ∈ makers, d.config.cache = none := by decide
  have compiled : d.CompiledTo stubs (stubs d.name) := library.compiled d member
  rw [same, named] at compiled
  exact ⟨d, compiled, bare d member, built⟩

theorem Library.checkFunction_reads (fuel : Nat) (self : Word) (args : List Word) :
    (invoke host fuel (stubs checkFunction) self args).Reads := by
  obtain ⟨d, compiled, bare, built⟩ := library.declares Programs.functionCheck checkFunction rfl
  refine compiled.reads bare built Programs.functionCheck_quiet (fun name used => ?_) fuel self args
  rw [Programs.functionCheck_callees] at used
  cases used

theorem Library.checkFunction_approaches {fuel fuel' : Nat} (more : fuel ≤ fuel') (self : Word)
    (args : List Word) : (invoke host fuel (stubs checkFunction) self args).Approaches
      (invoke host fuel' (stubs checkFunction) self args) := by
  obtain ⟨d, compiled, bare, built⟩ := library.declares Programs.functionCheck checkFunction rfl
  refine compiled.approaches bare built Programs.functionCheck_quiet (fun name used => ?_) more
    self args
  rw [Programs.functionCheck_callees] at used
  cases used

theorem Library.descent_approaches {fuel fuel' blocks blocks' : Nat} (more : fuel ≤ fuel')
    (more' : blocks ≤ blocks') (self : Word) (args : List Word) :
    ((Programs.descent.linked stubs).run host (invoke host fuel) blocks self args).Approaches
      ((Programs.descent.linked stubs).run host (invoke host fuel') blocks' self args) := by
  refine Programs.descent_quiet.approaches (fun callee calls args => ?_) more' 0 _
  obtain ⟨name, member, rfl⟩ := Graph.linked_calls calls
  rw [Programs.descent_callees] at member
  obtain rfl := List.mem_singleton.mp member
  exact library.checkFunction_approaches more _ args

variable {d : Declaration} (declared : d ∈ binaryOperators)
  (named : d.name = BinaryOp.instanceOf.stubName) {tester : Stub}
  (compiled : d.CompiledTo stubs tester) {host : Host ρ} {s : State ρ} {self obj fn v : Word}

include declared named compiled

theorem Library.instanceOf_reads (fuel : Nat) (self : Word) (args : List Word) :
    (invoke host fuel tester self args).Reads := by
  obtain ⟨built, bare⟩ := Programs.descent_built d declared named
  refine compiled.reads bare built Programs.descent_quiet (fun name used fuel args => ?_) fuel self
    args
  rw [Programs.descent_callees] at used
  obtain rfl := List.mem_singleton.mp used
  exact library.checkFunction_reads fuel _ args

theorem Library.instanceOf_approaches {fuel fuel' : Nat} (more : fuel ≤ fuel') (self : Word)
    (args : List Word) :
    (invoke host fuel tester self args).Approaches (invoke host fuel' tester self args) := by
  obtain ⟨built, bare⟩ := Programs.descent_built d declared named
  refine compiled.approaches bare built Programs.descent_quiet
    (fun name used fuel fuel' more args => ?_) more self args
  rw [Programs.descent_callees] at used
  obtain rfl := List.mem_singleton.mp used
  exact library.checkFunction_approaches more _ args

/-- The check comes before all else, and a call that fails it goes no further. -/
theorem Library.instanceOf_refuses {fuel : Nat} {e : Halt} {t : State ρ} (refused :
      invoke host (fuel + 1) (stubs checkFunction) .undefined [fn] s.deeper = .error e t) :
    invoke host (fuel + 2) tester self [obj, fn] s = .error e s := by
  obtain ⟨built, bare⟩ := Programs.descent_built d declared named
  obtain rfl : t = s.deeper :=
    ((library.checkFunction_reads (fuel + 1) _ _).yields s.deeper).error refused
  rw [compiled.invoke_eq bare built, Exec.nested_eq]
  by_cases depth : s.machine.depth < s.machine.maxDepth
  · have ends : (Programs.descent.linked stubs).Ends host (invoke host (fuel + 1)) [0] 0 _ _ _ :=
      Programs.refuses self obj fn refused
    have ran : (Programs.descent.linked stubs).run host (invoke host (fuel + 1)) (fuel + 1) self
        [obj, fn] s.deeper = .error e s.deeper := (ends fuel).1
    rw [if_pos depth, ran]
    rfl
  · have deep : ¬ s.deeper.machine.depth < s.deeper.machine.maxDepth :=
      fun room => depth (Nat.lt_of_succ_lt room)
    rw [invoke_succ, Exec.nested_eq, if_neg deep] at refused
    cases refused
    rw [if_neg depth]

/-- The answer that a path through the graph ends with is that of the stub, given enough fuel. -/
theorem Library.instanceOf_answers {fuel : Nat} {ids : List BlockId} {w : Word}
    (depth : s.machine.depth < s.machine.maxDepth)
    (ends : (Programs.descent.linked stubs).Ends host (invoke host fuel) ids 0
      ((Programs.descent.linked stubs).frame self [obj, fn]) s.deeper (.ok w s.deeper)) :
    invoke host (max fuel ids.length + 1) tester self [obj, fn] s = .ok w s := by
  obtain ⟨built, bare⟩ := Programs.descent_built d declared named
  have ran : (Programs.descent.linked stubs).run host (invoke host fuel) ids.length self [obj, fn]
      s.deeper = .ok w s.deeper := by
    have path := (ends 0).1
    rw [Nat.zero_add] at path
    exact path
  rw [compiled.invoke_eq bare built]
  exact Exec.nested_ok depth ((library.descent_approaches (Nat.le_max_left ..)
    (Nat.le_max_right ..) self [obj, fn]).ok ran)

section

variable {fuel k : Nat} {v i : Word} (depth : s.machine.depth < s.machine.maxDepth)
  (passed : invoke host fuel (stubs checkFunction) .undefined [fn] s.deeper = .ok v s.deeper)
  (entity : obj.isInt = false)
  (instances : s.machine.heap.load fn Layout.Function.instanceMap = .ok i)
  (readable : s.machine.heap.Readable obj i) (before : s.machine.heap.OpenUntil obj i k)

include depth passed entity instances readable before

/-- A chain that comes to the map of the function's instances. -/
theorem Library.instanceOf_meets (met : s.machine.heap.mapAlong obj k = .ok (some i)) :
    ∃ n, invoke host n tester self [obj, fn] s = .ok (.boolean true) s := by
  obtain ⟨ids, f, m, passes, _, visiting, along⟩ := Programs.reaches host self passed
    entity instances readable before
  obtain rfl : m = i := Option.some.inj (Except.ok.inj (along.symm.trans met))
  exact ⟨_, library.instanceOf_answers declared named compiled depth
    (passes.ends (Programs.meets visiting instances rfl))⟩

/-- A chain that ends without that map. -/
theorem Library.instanceOf_misses (other : s.machine.heap.mapAlong obj k ≠ .ok (some i))
    (ended : s.machine.heap.EndsAt obj k) :
    ∃ n, invoke host n tester self [obj, fn] s = .ok (.boolean false) s := by
  obtain ⟨ids, f, m, passes, _, visiting, along⟩ := Programs.reaches host self passed
    entity instances readable before
  obtain ⟨m', along', last⟩ := ended
  obtain rfl : m = m' := Option.some.inj (Except.ok.inj (along.symm.trans along'))
  have unmet : m ≠ i := by
    rintro rfl
    exact other along
  obtain ⟨ids', ends, _⟩ := Programs.misses (s := s.deeper) visiting instances unmet last
  exact ⟨_, library.instanceOf_answers declared named compiled depth (passes.ends ends)⟩

end

/-- On a chain that stays open for ever no fuel is enough. -/
theorem Library.instanceOf_never (self : Word) {fuel : Nat} {v i : Word}
    (depth : s.machine.depth < s.machine.maxDepth)
    (passed : invoke host fuel (stubs checkFunction) .undefined [fn] s.deeper = .ok v s.deeper)
    (entity : obj.isInt = false)
    (instances : s.machine.heap.load fn Layout.Function.instanceMap = .ok i)
    (readable : s.machine.heap.Readable obj i) (always : ∀ k, s.machine.heap.OpenUntil obj i k)
    (n : Nat) : invoke host n tester self [obj, fn] s = .error .outOfFuel s := by
  obtain ⟨built, bare⟩ := Programs.descent_built d declared named
  let most := max n fuel
  have passed := (library.checkFunction_approaches (Nat.le_max_right n fuel) _ _).ok passed
  obtain ⟨ids, f, m, passes, long, _, _⟩ := Programs.reaches host (s := s.deeper) self passed
    entity instances readable (always most)
  -- the path is longer than the fuel, so that the run stops somewhere on it
  have short : (Programs.descent.linked stubs).run host (invoke host most) ids.length self [obj, fn]
      s.deeper = .error .outOfFuel s.deeper := by
    have path := (passes 0).1
    rw [Nat.zero_add] at path
    exact path
  have stops : ∃ t, (Programs.descent.linked stubs).run host (invoke host most) most self [obj, fn]
      s.deeper = .error .outOfFuel t := by
    rcases library.descent_approaches (Nat.le_refl most) long self [obj, fn] s.deeper with
      out | same
    · exact out
    · exact ⟨_, same.trans short⟩
  obtain ⟨t, stops⟩ := stops
  have out : invoke host (most + 1) tester self [obj, fn] s = .error .outOfFuel t.shallower := by
    rw [compiled.invoke_eq bare built, Exec.nested_eq, if_pos depth, stops]
  have less : ∃ t, invoke host n tester self [obj, fn] s = .error .outOfFuel t := by
    rcases library.instanceOf_approaches declared named compiled
      (Nat.le_succ_of_le (Nat.le_max_left n fuel)) self [obj, fn] s with out | same
    · exact out
    · exact ⟨_, same.trans out⟩
  obtain ⟨u, less⟩ := less
  have same := ((library.instanceOf_reads declared named compiled n self _).yields s).error less
  rw [less, same]

/-- Of two answers that fuel brings only one is possible. -/
theorem Library.instanceOf_unique {fuel : Nat} {yes : Bool}
    (answered : invoke host fuel tester self [obj, fn] s = .ok (.boolean yes) s) :
    (∀ yes', (∃ n, invoke host n tester self [obj, fn] s = .ok (.boolean yes') s) ↔ yes' = yes) ∧
      ¬ ∀ n, invoke host n tester self [obj, fn] s = .error .outOfFuel s := by
  constructor
  · refine fun yes' => ⟨fun ⟨n, done⟩ => ?_, fun same => ⟨fuel, same ▸ answered⟩⟩
    have first := (library.instanceOf_approaches declared named compiled
      (Nat.le_max_left fuel n) self [obj, fn]).ok answered
    have second := (library.instanceOf_approaches declared named compiled
      (Nat.le_max_right fuel n) self [obj, fn]).ok done
    rw [first] at second
    have same := (EStateM.Result.ok.inj second).1
    revert same
    cases yes <;> cases yes' <;> decide
  · intro never
    cases answered.symm.trans (never fuel)

end

/-- What a call for any two words on any heap comes to, which stays as it is. First the function is
checked, and the call fails as the check does. Then the answer is yes if the object is an entity
whose chain comes to the map of the function's instances before it ends, no if it is a small integer
or its chain ends without that map, and none comes only if neither is the case. More fuel does not
change an answer. -/
theorem instanceOf_decides (library : Library stubs) {d : Declaration}
    (declared : d ∈ binaryOperators) (named : d.name = BinaryOp.instanceOf.stubName) {tester : Stub}
    (compiled : d.CompiledTo stubs tester) (host : Host ρ) (s : State ρ) (self obj fn : Word) :
    (∀ n, Yields (invoke host n tester self [obj, fn]) s (fun _ t => t = s) fun _ t => t = s) ∧
    (∀ n e t, invoke host (n + 1) (stubs checkFunction) .undefined [fn] s.deeper = .error e t →
      invoke host (n + 2) tester self [obj, fn] s = .error e s) ∧
    ∀ n v t, invoke host n (stubs checkFunction) .undefined [fn] s.deeper = .ok v t →
      ∀ i, (obj.isInt = false → s.machine.heap.load fn Layout.Function.instanceMap = .ok i ∧
          s.machine.heap.Readable obj i) →
        ((∃ n, invoke host n tester self [obj, fn] s = .ok (.boolean true) s) ↔
          obj.isInt = false ∧ ∃ k, s.machine.heap.MeetsAt obj i k) ∧
        ((∃ n, invoke host n tester self [obj, fn] s = .ok (.boolean false) s) ↔
          obj.isInt = true ∨ ∃ k, s.machine.heap.MissesAt obj i k) ∧
        ((∀ n, invoke host n tester self [obj, fn] s = .error .outOfFuel s) ↔
          obj.isInt = false ∧ (¬ ∃ k, s.machine.heap.MeetsAt obj i k) ∧
            ¬ ∃ k, s.machine.heap.MissesAt obj i k) ∧
        ∀ n n' w, n ≤ n' → invoke host n tester self [obj, fn] s = .ok w s →
          invoke host n' tester self [obj, fn] s = .ok w s := by
  refine ⟨fun n => (library.instanceOf_reads declared named compiled n self _).yields s,
    fun n e t => library.instanceOf_refuses declared named compiled, ?_⟩
  intro n v t passed i given
  have same : t = s.deeper := ((library.checkFunction_reads n _ _).yields s.deeper).ok passed
  rw [same] at passed
  have depth : s.machine.depth < s.machine.maxDepth := by
    cases n with
    | zero => cases passed
    | succ n =>
      rw [invoke_succ, Exec.nested_eq] at passed
      by_cases room : s.deeper.machine.depth < s.deeper.machine.maxDepth
      · exact Nat.lt_of_succ_lt room
      · rw [if_neg room] at passed
        cases passed
  have kept : ∀ n n' w, n ≤ n' → invoke host n tester self [obj, fn] s = .ok w s →
      invoke host n' tester self [obj, fn] s = .ok w s := fun n n' w more =>
    (library.instanceOf_approaches declared named compiled more self [obj, fn]).ok
  cases entity : obj.isInt with
  | true =>
    have denied : (Programs.descent.linked stubs).Ends host (invoke host n) _ 0 _ _ _ :=
      Programs.denies_int self obj fn passed entity
    have answered := library.instanceOf_answers declared named compiled depth denied
    obtain ⟨only, never⟩ := library.instanceOf_unique declared named compiled answered
    exact ⟨by simp [only], by simp [only], by simp [never], kept⟩
  | false =>
    obtain ⟨instances, readable⟩ := given entity
    rcases first_decides s.machine.heap obj i with
      always | ⟨k, before, met | ⟨other, ended⟩⟩
    · have never := library.instanceOf_never declared named compiled self depth passed
        entity instances readable always
      obtain ⟨met, missed⟩ := undecided always
      have unanswered : ∀ w, ¬ ∃ n, invoke host n tester self [obj, fn] s = .ok w s := by
        rintro w ⟨n, done⟩
        cases (never n).symm.trans done
      exact ⟨by simp [unanswered, met], by simp [unanswered, missed], by simp [never, met, missed],
        kept⟩
    · obtain ⟨n, answered⟩ : ∃ n, invoke host n tester self [obj, fn] s = .ok (.boolean true) s :=
        library.instanceOf_meets declared named compiled depth passed entity instances readable
          before met
      obtain ⟨only, never⟩ := library.instanceOf_unique declared named compiled answered
      obtain ⟨meets, missed⟩ := before.meets met
      exact ⟨by simp [only, meets], by simp [only, missed], by simp [never, meets], kept⟩
    · obtain ⟨n, answered⟩ : ∃ n, invoke host n tester self [obj, fn] s = .ok (.boolean false) s :=
        library.instanceOf_misses declared named compiled depth passed entity instances readable
          before other ended
      obtain ⟨only, never⟩ := library.instanceOf_unique declared named compiled answered
      obtain ⟨misses, met⟩ := before.misses other ended
      exact ⟨by simp [only, met], by simp [only, misses], by simp [never, misses], kept⟩

/-- Of two objects of the function only the one that was made after it got another prototype is
found to be one, at the first map. -/
theorem reassigning_decides : ∃ c, Client.fresh.gets freshStubs 8 reassigning = c ∧
    (∃ v t, invoke PropertyHost.serve 8 (freshStubs checkFunction) .undefined [.pointer 464]
      c.state.deeper = .ok v t) ∧
    c.state.machine.heap.load (.pointer 464) Layout.Function.instanceMap = .ok (.pointer 1312) ∧
    (c.state.machine.heap.Readable (.pointer 1080) (.pointer 1312) ∧
      ∃ n, invoke PropertyHost.serve n freshTester .undefined [.pointer 1080, .pointer 464]
        c.state = .ok (.boolean false) c.state) ∧
    c.state.machine.heap.Readable (.pointer 1352) (.pointer 1312) ∧
      ∃ n, invoke PropertyHost.serve n freshTester .undefined [.pointer 1352, .pointer 464]
        c.state = .ok (.boolean true) c.state := by
  have chains : (let h := (Client.fresh.gets freshStubs 8 reassigning).state.machine.heap
      h.load (.pointer 464) Layout.Function.instanceMap = .ok (.pointer 1312) ∧
      h.mapBeyond (.pointer 288) = .ok (some (.pointer 288)) ∧
      (h.mapAlong (.pointer 1080) 3 = .ok (some (.pointer 288)) ∧
        ∀ j ≤ 3, (h.mapAlong (.pointer 1080) j).isOk = true ∧
          h.mapAlong (.pointer 1080) j ≠ .ok (some (.pointer 1312))) ∧
      h.mapAlong (.pointer 1352) 4 = .ok (some (.pointer 288)) ∧
        (∀ j ≤ 4, (h.mapAlong (.pointer 1352) j).isOk = true) ∧
        h.mapAlong (.pointer 1352) 0 = .ok (some (.pointer 1312))) := by decide +kernel
  obtain ⟨instances, last, ⟨along, without⟩, along', read, met⟩ := chains
  obtain ⟨v, t, passed, _⟩ : ∃ v t, invoke PropertyHost.serve 8 (freshStubs checkFunction)
      .undefined [.pointer 464] (Client.fresh.gets freshStubs 8 reassigning).state.deeper =
        .ok v t ∧ True :=
    Yields.returns (by decide +kernel)
  have ends : EndsAt _ (.pointer 1080) 3 := ⟨_, along, .inr last⟩
  have readable := readable_of_ends (m := .pointer 1312) ends fun j reached => (without j reached).1
  have readable' := readable_of_ends (m := .pointer 1312) ⟨_, along', .inr last⟩ read
  obtain ⟨d, declared, named, compiled⟩ := freshTester_compiled
  have decides (obj : Word) := (instanceOf_decides freshStubs_library declared named compiled
    PropertyHost.serve (Client.fresh.gets freshStubs 8 reassigning).state .undefined obj
    (.pointer 464)).2.2 8 v t passed (.pointer 1312)
  refine ⟨_, rfl, ⟨v, t, passed⟩, instances, ⟨readable, ?_⟩, readable', ?_⟩
  · exact (decides _ fun _ => ⟨instances, readable⟩).2.1.mpr
      (.inr ⟨3, ends, fun j reached => (without j reached).2⟩)
  · exact (decides _ fun _ => ⟨instances, readable'⟩).1.mpr
      ⟨by decide, 0, met, fun j none => absurd none (Nat.not_lt_zero j)⟩

end FastPath

import FastPath.Proofs.Catalogue.Library
import FastPath.Proofs.Execution.Safety

/-! Bodies that write nothing and ask nothing of the host. A call of one leaves the state as it was,
and what comes of the call does not change with more fuel. -/

namespace FastPath

namespace Exec

/-- The state stays as it is, whatever comes of the action. -/
def Reads (act : Exec ρ α) : Prop := ∀ s, Keeps (· = s) (fun _ => True) act fun _ => True

/-- The first action ends as the second one does, unless it runs out of fuel. -/
def Approaches (act act' : Exec ρ α) : Prop :=
  ∀ s, (∃ t, act s = .error .outOfFuel t) ∨ act s = act' s

namespace Reads

variable {act : Exec ρ α} {next : α → Exec ρ β}

theorem pure (a : α) : Reads (ρ := ρ) (pure a) := fun _ => .pure a trivial

theorem throw (e : Halt) : Reads (throw e : Exec ρ α) := fun _ => .throw e trivial

theorem bind (first : act.Reads) (rest : ∀ a, (next a).Reads) : (act >>= next).Reads :=
  fun s => (first s).bind fun a _ => rest a s

theorem query (f : Heap → Except HeapError α) : Reads (ρ := ρ) (query f) := by
  intro s t same
  cases read : f t.machine.heap with
  | ok a => exact .of_ok (query_ok read) ⟨same, trivial⟩
  | error e => exact .of_error (query_error read) ⟨same, trivial⟩

theorem heap : Reads (ρ := ρ) heap := fun _ t same => .of_ok (heap_ok t) ⟨same, trivial⟩

theorem mapM {f : α → Exec ρ β} (each : ∀ a, (f a).Reads) (as : List α) : (as.mapM f).Reads :=
  fun s => (Keeps.mapM fun a _ => each a s).mono fun _ _ => trivial

theorem foldlM {f : β → α → Exec ρ β} {as : List α} (each : ∀ b, ∀ a ∈ as, (f b a).Reads)
    (b : β) : (as.foldlM f b).Reads :=
  fun s => Keeps.foldlM (fun b _ a member => each b a member s) trivial

theorem nested (inside : act.Reads) : (Exec.nested act).Reads := by
  rintro s _ rfl
  refine Yields.nested ?_ fun _ => ⟨rfl, trivial⟩
  refine (inside _ _ rfl).mono ?_ ?_
  · rintro _ _ ⟨rfl, _⟩
    exact ⟨rfl, trivial⟩
  · rintro _ _ ⟨rfl, _⟩
    exact ⟨rfl, trivial⟩

theorem yields (reads : act.Reads) (s : State ρ) :
    Yields act s (fun _ t => t = s) fun _ t => t = s :=
  (reads s s rfl).mono (fun _ _ met => met.1) fun _ _ met => met.1

end Reads

namespace Approaches

variable {act act' : Exec ρ α} {next next' : α → Exec ρ β} {s : State ρ}

theorem refl (act : Exec ρ α) : act.Approaches act := fun _ => .inr rfl

theorem bind (first : act.Approaches act') (rest : ∀ a, (next a).Approaches (next' a)) :
    (act >>= next).Approaches (act' >>= next') := by
  intro s
  rcases first s with ⟨t, short⟩ | same
  · exact .inl ⟨t, estate_bind_of_error short⟩
  · cases ran : act' s with
    | ok a t =>
      rw [estate_bind_of_ok (same.trans ran), estate_bind_of_ok ran]
      exact rest a t
    | error e t =>
      rw [estate_bind_of_error (same.trans ran), estate_bind_of_error ran]
      exact .inr rfl

theorem foldlM {f f' : β → α → Exec ρ β} {as : List α}
    (each : ∀ b, ∀ a ∈ as, (f b a).Approaches (f' b a)) (b : β) :
    (as.foldlM f b).Approaches (as.foldlM f' b) := by
  induction as generalizing b with
  | nil => exact refl _
  | cons a as ih =>
    rw [List.foldlM_cons, List.foldlM_cons]
    exact (each b a List.mem_cons_self).bind
      (ih fun b a later => each b a (List.mem_cons_of_mem _ later))

theorem nested (inside : act.Approaches act') :
    (Exec.nested act).Approaches (Exec.nested act') := by
  intro s
  rw [nested_eq, nested_eq]
  by_cases depth : s.machine.depth < s.machine.maxDepth
  · rw [if_pos depth, if_pos depth]
    rcases inside s.deeper with ⟨t, short⟩ | same
    · rw [short]
      exact .inl ⟨_, rfl⟩
    · rw [same]
      exact .inr rfl
  · exact .inr (by rw [if_neg depth, if_neg depth])

/-- What ends is what it approaches. -/
theorem ok {a : α} {t : State ρ} (approaches : act.Approaches act') (done : act s = .ok a t) :
    act' s = .ok a t := by
  rcases approaches s with ⟨u, short⟩ | same
  · cases short.symm.trans done
  · exact same.symm.trans done

end Approaches

end Exec

namespace Frame

variable (f : Frame)

theorem get_reads (v : Var) : (f.get v : Exec ρ Word).Reads := by
  unfold get
  split
  · exact .pure _
  · exact .throw _

theorem set_reads (v : Var) (w : Word) : (f.set v w : Exec ρ Frame).Reads := by
  unfold set
  split
  · exact .pure _
  · exact .throw _

theorem getAll_reads (vs : List Var) : (f.getAll vs : Exec ρ (List Word)).Reads :=
  .mapM f.get_reads vs

theorem int_reads (v : Var) : (f.int v : Exec ρ Int).Reads := by
  refine (f.get_reads v).bind fun w => ?_
  split
  · exact .pure _
  · exact .throw _

theorem address_reads (v : Var) : (f.address v : Exec ρ Nat).Reads := by
  refine (f.get_reads v).bind fun w => ?_
  split
  · exact .pure _
  · exact .throw _

theorem count_reads (v : Var) : (f.count v : Exec ρ Nat).Reads := by
  refine (f.int_reads v).bind fun n => ?_
  split
  · exact .pure _
  · exact .throw _

theorem pass_reads (args : CallArgs) : (f.pass args : Exec ρ (List Word)).Reads := by
  cases args with
  | list vs => exact f.getAll_reads vs
  | forward start count =>
    refine (f.count_reads count).bind fun n => ?_
    split
    · exact .pure _
    · exact .throw _

theorem test_reads (c : Condition) : (f.test c : Exec ρ Bool).Reads := by
  cases c with
  | isInt v => exact (f.get_reads v).bind fun _ => .pure _
  | overlap v w | compareInts _ v w =>
    exact (f.int_reads v).bind fun _ => (f.int_reads w).bind fun _ => .pure _
  | compareWords _ v w =>
    exact (f.get_reads v).bind fun _ => (f.get_reads w).bind fun _ => .pure _
  | overflowed => exact .pure _

end Frame

/-- Neither writes nor makes calls, other than of a dependency. -/
def Op.quiet : Op σ → Bool
  | .literal (.atom _) | .service .. | .stubRef _ | .call .. => false
  | _ => true

def Inst.quiet : Inst σ → Bool
  | .define _ op => op.quiet
  | .perform _ => false

namespace Body

def Quiet (b : Body σ) : Prop := ∀ x ∈ b.blocks, ∀ i ∈ x.insts, i.quiet = true

/-- Some instruction calls the stub or refers to it. -/
def Calls (b : Body σ) (stub : Stub) : Prop :=
  ∃ x ∈ b.blocks, ∃ i ∈ x.insts, ∃ c, i.callee? = some c ∧ b.link c = some stub

variable {b : Body σ} {host : Host ρ} {calls calls' : Invoke ρ}

theorem block_reads (id : BlockId) : (b.block id : Exec ρ _).Reads := by
  unfold block
  split
  · exact .pure _
  · exact .throw _

theorem bind_reads (f : Frame) (vs : List Var) (ws : List Word) :
    (bind f vs ws : Exec ρ Frame).Reads := by
  induction vs generalizing f ws with
  | nil => cases ws <;> first | exact .pure _ | exact .throw _
  | cons v vs ih =>
    cases ws with
    | nil => exact .throw _
    | cons w ws => exact (f.set_reads v w).bind fun g => ih g ws

theorem leave_reads (f : Frame) (exit : Exit) : (b.leave f exit : Exec ρ Next).Reads := by
  cases exit with
  | ret v =>
    cases v with
    | none => exact .pure _
    | some v => exact (f.get_reads v).bind fun _ => .pure _
  | jump target args =>
    exact (f.getAll_reads args).bind fun ws => (block_reads target).bind fun x =>
      (bind_reads f x.params ws).bind fun _ => .pure _
  | branch condition yes no => exact (f.test_reads condition).bind fun _ => .pure _
  | trap t => exact .throw _

theorem eval_reads (f : Frame) (op : Op σ) (quiet : op.quiet = true)
    (called : ∀ c stub, op.callee? = some c → b.link c = some stub →
      ∀ args, (calls stub .undefined args).Reads) : (b.eval host calls f op).Reads := by
  cases op with
  | stubArg i =>
    simp only [eval]
    split
    · exact .pure _
    · exact .throw _
  | cache =>
    simp only [eval]
    split
    · exact .throw _
    · split
      · exact .pure _
      · exact .throw _
  | arg | receiver | canonicalMap => exact .pure _
  | literal l =>
    refine Exec.Reads.bind ?_ fun _ => .pure _
    cases l with
    | int n =>
      simp only [Literal.value]
      split
      · exact .pure _
      · exact .throw _
    | atom name => cases quiet
    | undefined | null | hole | boolean => exact .pure _
  | load base _ =>
    exact (f.get_reads base).bind fun _ => (Exec.Reads.query _).bind fun _ => .pure _
  | loadAt base offset =>
    exact (f.count_reads offset).bind fun _ => (f.get_reads base).bind fun _ =>
      (Exec.Reads.query _).bind fun _ => .pure _
  | arith _ v w => exact (f.int_reads v).bind fun _ => (f.int_reads w).bind fun _ => .pure _
  | negate v => exact (f.int_reads v).bind fun _ => .pure _
  | advance base offset =>
    exact (f.address_reads base).bind fun _ => (f.int_reads offset).bind fun _ =>
      (Exec.Reads.query _).bind fun _ => .pure _
  | cursor | limit => exact Exec.Reads.heap.bind fun _ => .pure _
  | roundUp v =>
    refine (f.count_reads v).bind fun n => ?_
    split
    · exact .pure _
    · exact .throw _
  | callStub c args =>
    refine (f.pass_reads args).bind fun args => ?_
    simp only [callee]
    cases linked : b.link c with
    | none => exact .throw Halt.fault
    | some stub =>
      rw [pure_bind]
      exact (called c stub rfl linked args).bind fun _ => .pure _
  | service | stubRef | call => cases quiet

/-- What differs between two evaluations is what the calls come to. -/
theorem eval_approaches (f : Frame) (op : Op σ) (quiet : op.quiet = true)
    (called : ∀ c stub, op.callee? = some c → b.link c = some stub →
      ∀ args, (calls stub .undefined args).Approaches (calls' stub .undefined args)) :
    (b.eval host calls f op).Approaches (b.eval host calls' f op) := by
  cases op with
  | callStub c args =>
    refine (Exec.Approaches.refl _).bind fun args => ?_
    simp only [callee]
    cases linked : b.link c with
    | none => exact .refl _
    | some stub =>
      rw [pure_bind, pure_bind]
      exact (called c stub rfl linked args).bind fun _ => .refl _
  | service | call => cases quiet
  | _ => exact .refl _

section

variable (quiet : b.Quiet)

include quiet

theorem Quiet.reads (called : ∀ stub, b.Calls stub → ∀ args, (calls stub .undefined args).Reads)
    (fuel : Nat) (id : BlockId) (f : Frame) : (b.runFrom host calls fuel id f).Reads := by
  induction fuel generalizing id f with
  | zero => exact .throw _
  | succ fuel ih =>
    unfold runFrom block
    cases found : b.blocks[id]? with
    | none => exact .throw Halt.fault
    | some x =>
      have inside := List.mem_of_getElem? found
      rw [pure_bind]
      refine (Exec.Reads.foldlM (fun f i member => ?_) f).bind fun f => ?_
      · cases i with
        | define v op =>
          refine Exec.Reads.bind (eval_reads f op (quiet x inside _ member) ?_)
            fun _ => Frame.set_reads _ _ _
          exact fun c stub used linked => called stub ⟨x, inside, _, member, c, used, linked⟩
        | perform effect => cases quiet x inside _ member
      · refine (leave_reads f x.exit).bind fun next => ?_
        cases next with
        | done w => exact .pure w
        | goto id f => exact ih id f

/-- More fuel for its blocks and its calls takes a run no other way. -/
theorem Quiet.approaches (called : ∀ stub, b.Calls stub → ∀ args,
      (calls stub .undefined args).Approaches (calls' stub .undefined args))
    {fuel fuel' : Nat} (more : fuel ≤ fuel') (id : BlockId) (f : Frame) :
    (b.runFrom host calls fuel id f).Approaches (b.runFrom host calls' fuel' id f) := by
  induction fuel generalizing id f fuel' with
  | zero => exact fun s => .inl ⟨s, rfl⟩
  | succ fuel ih =>
    obtain ⟨fuel', rfl⟩ := Nat.exists_eq_add_of_le' (Nat.lt_of_lt_of_le fuel.succ_pos more)
    have more : fuel ≤ fuel' := Nat.le_of_succ_le_succ more
    unfold runFrom block
    cases found : b.blocks[id]? with
    | none => exact .refl _
    | some x =>
      have inside := List.mem_of_getElem? found
      rw [pure_bind, pure_bind]
      refine (Exec.Approaches.foldlM (fun f i member => ?_) f).bind fun f => ?_
      · cases i with
        | define v op =>
          refine Exec.Approaches.bind (eval_approaches f op (quiet x inside _ member) ?_)
            fun _ => .refl _
          exact fun c stub used linked => called stub ⟨x, inside, _, member, c, used, linked⟩
        | perform effect => cases quiet x inside _ member
      · refine (Exec.Approaches.refl (b.leave f x.exit)).bind fun next => ?_
        cases next with
        | done w => exact .refl _
        | goto id f => exact ih more id f

end

end Body

/-- The stubs that a graph calls are those that its names stand for. -/
theorem Graph.linked_calls {g : Graph} {stubs : String → Stub} {stub : Stub}
    (called : (g.linked stubs).Calls stub) : ∃ name ∈ g.callees, stub = stubs name := by
  obtain ⟨x, inside, i, member, name, used, linked⟩ := called
  cases linked
  refine ⟨name, List.mem_eraseDups.mpr (List.mem_flatMap.mpr ⟨x, inside, ?_⟩), rfl⟩
  exact List.mem_filterMap.mpr ⟨i, member, used⟩

namespace Declaration.CompiledTo

variable {d : Declaration} {stubs : String → Stub} {stub : Stub} {g : Graph} {host : Host ρ}
  (compiled : d.CompiledTo stubs stub) (bare : d.config.cache = none)
  (built : d.template d.name d.config = .ok g) (quiet : (g.linked stubs).Quiet)

include compiled bare built quiet

theorem reads (called : ∀ name ∈ g.callees, ∀ fuel args,
      (invoke host fuel (stubs name) .undefined args).Reads)
    (fuel : Nat) (self : Word) (args : List Word) : (invoke host fuel stub self args).Reads := by
  cases fuel with
  | zero => exact .throw _
  | succ fuel =>
    rw [compiled.invoke_eq bare built]
    refine .nested (quiet.reads (fun callee calls args => ?_) fuel 0 _)
    obtain ⟨name, member, rfl⟩ := Graph.linked_calls calls
    exact called name member fuel args

theorem approaches (called : ∀ name ∈ g.callees, ∀ {fuel fuel'}, fuel ≤ fuel' → ∀ args,
      (invoke host fuel (stubs name) .undefined args).Approaches
        (invoke host fuel' (stubs name) .undefined args))
    {fuel fuel' : Nat} (more : fuel ≤ fuel') (self : Word) (args : List Word) :
    (invoke host fuel stub self args).Approaches (invoke host fuel' stub self args) := by
  cases fuel with
  | zero => exact fun s => .inl ⟨s, rfl⟩
  | succ fuel =>
    obtain ⟨fuel', rfl⟩ := Nat.exists_eq_add_of_le' (Nat.lt_of_lt_of_le fuel.succ_pos more)
    have more : fuel ≤ fuel' := Nat.le_of_succ_le_succ more
    rw [compiled.invoke_eq bare built, compiled.invoke_eq bare built]
    refine .nested (quiet.approaches (fun callee calls args => ?_) more 0 _)
    obtain ⟨name, member, rfl⟩ := Graph.linked_calls calls
    exact called name member more args

end Declaration.CompiledTo

end FastPath

import FastPath.Proofs.Property.Serving

/-! The bounds that every execution keeps, whatever its stub does to the words of the region: the
cursor and the tables only go onward, the depth of calls comes back to what it was, and no call on
the way goes deeper than the machine allows. The last is said of runs under watch, which stop with
an alarm at the first instruction that finds something wrong: they go as the runs without. -/

namespace FastPath

/-- The cursor stands at a word boundary of the region, and no more calls are under way than are
allowed. -/
structure Machine.InBounds (m : Machine) : Prop where
  aligned : m.heap.region.cursor % 8 = 0
  bounded : m.heap.region.cursor ≤ m.heap.region.limit
  depth : m.depth ≤ m.maxDepth

/-- The machine `m'` is `m` after some actions, with `n` more calls under way. -/
structure Machine.Within (m : Machine) (n : Nat) (m' : Machine) : Prop extends
    m.Onward m' where
  inBounds : m'.InBounds
  depth : m'.depth = m.depth + n
  maxDepth : m'.maxDepth = m.maxDepth

theorem Machine.Within.start {m : Machine} (inBounds : m.InBounds) : m.Within 0 m :=
  ⟨.refl m, inBounds, rfl, rfl⟩

theorem Machine.Within.rebuilt {m m' : Machine} {n : Nat} (within : m.Within n m') {h : Heap}
    {c : List Stub} (es : List (Nat × Word)) (heap : m'.heap.Onward h) (code : m'.code <+: c) :
    m.Within n { m' with heap := h, code := c, entities := es } := by
  obtain ⟨aligned, bounded, depth⟩ := within.inBounds
  constructor
  · exact within.toOnward.trans ⟨heap, code⟩
  · exact ⟨heap.aligned aligned, heap.bounded bounded, depth⟩
  · exact within.depth
  · exact within.maxDepth

section

variable (watch : Exec ρ Unit)

/-- An instruction under watch. -/
def Body.stepWatched (b : Body σ) (host : Host ρ) (calls : Invoke ρ) (f : Frame) (i : Inst σ) :
    Exec ρ Frame := do
  let f ← b.step host calls f i
  watch
  return f

/-- A run under watch looks before every block and after every instruction. -/
def Body.runWatched (b : Body σ) (host : Host ρ) (calls : Invoke ρ) :
    (fuel : Nat) → BlockId → Frame → Exec ρ Word
  | 0, _, _ => throw .outOfFuel
  | fuel + 1, id, f => do
    watch
    let block ← b.block id
    let f ← block.insts.foldlM (b.stepWatched watch host calls) f
    match ← b.leave f block.exit with
    | .done w => return w
    | .goto id f => runWatched b host calls fuel id f

/-- A call under watch, with all calls that are made on the way. -/
def invokeWatched (host : Host ρ) : (fuel : Nat) → Invoke ρ
  | 0 => fun _ _ _ => throw .outOfFuel
  | fuel + 1 => fun s self args => Exec.nested
      (s.body.runWatched watch host (invokeWatched host fuel) fuel 0 (s.body.frame self args))

end

/-- Raises the alarm if more calls are under way than are allowed. -/
def Exec.watchDepth (alarm : Halt) : Exec ρ Unit := fun s =>
  if s.machine.depth ≤ s.machine.maxDepth then .ok () s else .error alarm s

/-- Both sides are in the same state, within the bounds of the machine of the first call. -/
def Bounded (m : Machine) (n : Nat) (s s' : State ρ) : Prop := s' = s ∧ m.Within n s.machine

theorem bounded_lockstep (m : Machine) :
    Lockstep (Bounded m : Nat → State ρ → State ρ → Prop) fun _ => False where
  heap := by
    rintro _ _ _ ⟨rfl, _⟩
    rfl
  code := by
    rintro _ _ _ ⟨rfl, _⟩
    rfl
  entities := by
    rintro _ _ _ ⟨rfl, _⟩
    rfl
  rebuilt := by
    rintro _ _ _ ⟨rfl, within⟩ h c es heap code
    exact ⟨rfl, within.rebuilt es heap code⟩
  enter := by
    rintro _ _ _ ⟨rfl, within⟩ room
    obtain ⟨aligned, bounded, _⟩ := within.inBounds
    exact ⟨room, rfl, ⟨within.heap, within.code⟩, ⟨aligned, bounded, room⟩,
      congrArg Nat.succ within.depth, within.maxDepth⟩
  refuse := by
    rintro _ _ _ ⟨rfl, _⟩ full
    exact .inr full
  leave := by
    rintro n _ s ⟨rfl, within⟩
    obtain ⟨aligned, bounded, depth⟩ := within.inBounds
    have deep : s.machine.depth - 1 = m.depth + n := by
      rw [within.depth]
      rfl
    exact ⟨rfl, ⟨within.heap, within.code⟩, ⟨aligned, bounded, Nat.le_trans (Nat.sub_le _ _) depth⟩,
      deep, within.maxDepth⟩

theorem bounded_attended (m : Machine) (n : Nat) : Attended (Bounded m n) where
  counted := by
    rintro _ _ ⟨rfl, within⟩
    exact ⟨rfl, within⟩
  noted := by
    rintro _ _ ⟨rfl, within⟩ id map slot
    exact ⟨rfl, within⟩

section

variable {m : Machine} {n : Nat} {host : Host ρ} {calls calls' : Invoke ρ} (alarm : Halt)

/-- Within bounds there is no alarm. -/
theorem Mirrors.watched {act act' : Exec ρ α}
    (mirrors : Mirrors (Bounded m n) (fun _ => False) act act') :
    Mirrors (Bounded m n) (fun _ => False) act (do
      Exec.watchDepth alarm
      act') := by
  rintro _ s ⟨rfl, within⟩
  have quiet : Exec.watchDepth alarm s = .ok () s := if_pos within.inBounds.depth
  rw [estate_bind_of_ok quiet]
  exact mirrors s s ⟨rfl, within⟩

variable
  (served : ∀ service args,
    Mirrors (Bounded m n) (fun _ => False) (host calls service args) (host calls' service args))
  (called : ∀ stub self args,
    Mirrors (Bounded m n) (fun _ => False) (calls stub self args) (calls' stub self args))
  (b : Body σ)

include served called

theorem stepWatched_mirrors (f : Frame) (i : Inst σ) :
    Mirrors (Bounded m n) (fun _ => False) (b.step host calls f i)
      (b.stepWatched (Exec.watchDepth alarm) host calls' f i) := by
  have step := (bounded_lockstep m).step served called b f i
  rw [← bind_pure (b.step host calls f i)]
  exact step.bind fun f => (Mirrors.pure f).watched alarm

theorem runWatched_mirrors (fuel : Nat) (id : BlockId) (f : Frame) :
    Mirrors (Bounded m n) (fun _ => False) (b.runFrom host calls fuel id f)
      (b.runWatched (Exec.watchDepth alarm) host calls' fuel id f) := by
  induction fuel generalizing id f with
  | zero => exact .throw _
  | succ fuel ih =>
    apply Mirrors.watched alarm
    apply (b.block_mirrors id).bind
    intro block
    apply (Mirrors.foldlM (stepWatched_mirrors alarm served called b) block.insts f).bind
    intro f
    apply (b.leave_mirrors f block.exit).bind
    intro next
    cases next with
    | done w => exact .pure w
    | goto id f => exact ih id f

end

/-- A host that is served in lockstep is served so also under watch. -/
theorem invokeWatched_mirrors {host : Host ρ} (m : Machine)
    (served : ∀ {n} {calls calls' : Invoke ρ},
      (∀ stub self args,
        Mirrors (Bounded m n) (fun _ => False) (calls stub self args) (calls' stub self args)) →
      ∀ service args,
        Mirrors (Bounded m n) (fun _ => False) (host calls service args) (host calls' service args))
    (alarm : Halt) (fuel n : Nat) (stub : Stub) (self : Word) (args : List Word) :
    Mirrors (Bounded m n) (fun _ => False) (invoke host fuel stub self args)
      (invokeWatched (Exec.watchDepth alarm) host fuel stub self args) := by
  induction fuel generalizing n stub self args with
  | zero => exact .throw _
  | succ fuel ih =>
    apply (bounded_lockstep m).nested
    exact runWatched_mirrors alarm (served (ih (n + 1))) (ih (n + 1)) stub.body fuel 0 _

/-- A call that keeps to the bounds of its machine. -/
structure Orderly (host : Host ρ) (fuel : Nat) (stub : Stub) (receiver : Word) (args : List Word)
    (s : State ρ) : Prop where
  /-- However it ends, the machine is within its bounds, as deep in calls as before. -/
  kept : Yields (invoke host fuel stub receiver args) s (fun _ t => s.machine.Within 0 t.machine)
    fun _ t => s.machine.Within 0 t.machine
  /-- No alarm is raised on the way. -/
  quiet : ∀ alarm, invokeWatched (Exec.watchDepth alarm) host fuel stub receiver args s =
    invoke host fuel stub receiver args s
  /-- One call too many is refused and changes nothing. -/
  refused : s.machine.depth = s.machine.maxDepth → fuel ≠ 0 →
    invoke host fuel stub receiver args s = .error (.trap (.fatal .callDepth)) s

/-- In lockstep with itself an action stays within the bounds. -/
theorem Mirrors.ends {m : Machine} {act act' : Exec ρ α} {s : State ρ}
    (mirrors : Mirrors (Bounded m n) (fun _ => False) act act') (within : m.Within n s.machine) :
    act' s = act s ∧ Yields act s (fun _ t => m.Within n t.machine)
      fun _ t => m.Within n t.machine := by
  have matched := mirrors s s ⟨rfl, within⟩
  rw [Yields]
  revert matched
  generalize act s = r, act' s = r'
  rintro (bounded | bounded | absurd)
  · obtain ⟨rfl, within⟩ := bounded
    exact ⟨rfl, within⟩
  · obtain ⟨rfl, within⟩ := bounded
    exact ⟨rfl, within⟩
  · exact absurd.elim

theorem orderly_of_served {host : Host ρ} {s : State ρ} (inBounds : s.machine.InBounds)
    (served : ∀ {n} {calls calls' : Invoke ρ},
      (∀ stub self args, Mirrors (Bounded s.machine n) (fun _ => False) (calls stub self args)
        (calls' stub self args)) →
      ∀ service args, Mirrors (Bounded s.machine n) (fun _ => False) (host calls service args)
        (host calls' service args))
    (fuel : Nat) (stub : Stub) (self : Word) (args : List Word) :
    Orderly host fuel stub self args s := by
  have ends (alarm : Halt) := (invokeWatched_mirrors s.machine served alarm fuel 0 stub self
    args).ends (.start inBounds)
  constructor
  · exact (ends .fault).2
  · exact fun alarm => (ends alarm).1
  · intro deepest some_
    obtain ⟨fuel, rfl⟩ := Nat.exists_eq_succ_of_ne_zero some_
    rw [invoke_succ, Exec.nested_eq, if_neg (Nat.not_lt_of_ge (Nat.le_of_eq deepest.symm))]

/-- Whatever stub is called on a machine within its bounds, with whatever receiver and arguments,
and whether accesses are served or not, the call keeps to the bounds. -/
theorem calls_are_orderly (stub : Stub) (fuel : Nat) (self : Word) (args : List Word) :
    (∀ s : State PropertyHost, s.machine.InBounds →
      Orderly PropertyHost.serve fuel stub self args s) ∧
    ∀ {ρ : Type} (s : State ρ), s.machine.InBounds → Orderly Host.absent fuel stub self args s := by
  constructor
  · intro s inBounds
    refine orderly_of_served inBounds (fun called => ?_) fuel stub self args
    exact (bounded_lockstep s.machine).serve (bounded_attended s.machine _) called
  · intro ρ s inBounds
    refine orderly_of_served inBounds (fun _ service _ => ?_) fuel stub self args
    exact .throw (.trap (.fatal (.noService service.name)))

/-- Takes two words off the region and calls a stub. -/
def taking : Stub :=
  { name := "taking", origin := 0, entry := 0x1010, varCount := 4, cache := none
    deps := [{ name := "inner", origin := 0, entry := 0x1000, blocks := [⟨[], [], .ret none⟩],
               varCount := 0, deps := [], cache := none }]
    blocks := [⟨[], [.define 0 .cursor, .define 1 (.literal (.int 16)),
      .define 2 (.advance 0 1), .perform (.moveCursor 2),
      .define 3 (.callStub 0 (.list []))], .ret (some 3)⟩] }

/-- The words are taken before the inner call turns out to be one too many. -/
theorem taking_orderly :
    let s : State Unit := { machine := .ofHeap (Heap.blank 64) 1, host := () }
    s.machine.InBounds ∧ ∃ t, invoke Host.absent 3 taking .undefined [] s =
      .error (.trap (.fatal .callDepth)) t ∧ t.machine.heap.region.cursor = 24 ∧
      s.machine.Within 0 t.machine ∧ invokeWatched (Exec.watchDepth .fault) Host.absent 3 taking
        .undefined [] s = .error (.trap (.fatal .callDepth)) t := by
  intro s
  have inBounds : s.machine.InBounds := ⟨by decide, by decide, by decide⟩
  have orderly := (calls_are_orderly taking 3 .undefined []).2 s inBounds
  have refused : Yields (invoke Host.absent 3 taking .undefined []) s (fun _ _ => False)
      fun e t => e = .trap (.fatal .callDepth) ∧ t.machine.heap.region.cursor = 24 := by
    decide +kernel
  obtain ⟨_, t, ran, rfl, cursor⟩ := refused.fails
  exact ⟨inBounds, t, ran, cursor, orderly.kept.error ran, (orderly.quiet .fault).trans ran⟩

end FastPath

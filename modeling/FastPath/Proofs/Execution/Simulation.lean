import FastPath.Proofs.Execution.Block
import FastPath.Proofs.Heap.Onward

/-! Two executions in lockstep. Execution looks at nothing of a state but its heap, its stubs and
whether another call is allowed, so a relation that fixes these and admits every change that leads
onward is kept by all of it. One side may be excused from going on by certain halts. -/

namespace FastPath

/-- The state with other entities: another heap and other tables of stubs. -/
def State.rebuilt (s : State ρ) (heap : Heap) (code : List Stub) (entities : List (Nat × Word)) :
    State ρ :=
  { s with machine := { s.machine with heap, code, entities } }

theorem Machine.onHeap_ok {m : Machine} {act : HeapM α} {h : Heap}
    (done : act m.heap = .ok a h) :
    Machine.onHeap act m = .ok a { m with heap := h } := by
  cases m
  simp only [Machine.onHeap, done]

theorem Machine.onHeap_error {m : Machine} {act : HeapM α} {h : Heap}
    (failed : act m.heap = .error e h) :
    Machine.onHeap act m = .error e { m with heap := h } := by
  cases m
  simp only [Machine.onHeap, failed]

/-- Machine actions that are blind to the depth of calls. -/
def Machine.Blind (act : EStateM HeapError Machine α) : Prop :=
  ∀ heap code entities,
    (∃ a h c es, ∀ depth maxDepth, act ⟨heap, code, entities, depth, maxDepth⟩ =
      .ok a ⟨h, c, es, depth, maxDepth⟩) ∨
    ∃ e h c es, ∀ depth maxDepth, act ⟨heap, code, entities, depth, maxDepth⟩ =
      .error e ⟨h, c, es, depth, maxDepth⟩

theorem Machine.blind_onHeap (act : HeapM α) : Machine.Blind (Machine.onHeap act) := by
  intro heap code entities
  cases done : act heap with
  | ok a h => exact .inl ⟨a, h, code, entities, fun _ _ => by simp only [onHeap, done]⟩
  | error e h => exact .inr ⟨e, h, code, entities, fun _ _ => by simp only [onHeap, done]⟩

theorem Machine.Blind.bind {act : EStateM HeapError Machine α}
    {next : α → EStateM HeapError Machine β} (first : Machine.Blind act)
    (rest : ∀ a, Machine.Blind (next a)) : Machine.Blind (act >>= next) := by
  intro heap code entities
  obtain ⟨a, h, c, es, done⟩ | ⟨e, h, c, es, failed⟩ := first heap code entities
  · obtain ⟨b, h', c', es', done'⟩ | ⟨e, h', c', es', failed⟩ := rest a h c es
    · exact .inl ⟨b, h', c', es', fun d m => (estate_bind_of_ok (done d m)).trans (done' d m)⟩
    · exact .inr ⟨e, h', c', es', fun d m => (estate_bind_of_ok (done d m)).trans (failed d m)⟩
  · exact .inr ⟨e, h, c, es, fun d m => estate_bind_of_error (failed d m)⟩

/-- Makes the Code entity of a stub. -/
def Machine.newEntity (s : Stub) (index : Nat) : EStateM HeapError Machine Word := do
  let w ← onHeap (Heap.allocate .code Layout.Code.size)
  onHeap (Heap.store w Layout.Code.index (.int index))
  modify fun m => { m with code := m.code ++ [s], entities := (s.entry, w) :: m.entities }
  return w

theorem Machine.blind_newEntity (s : Stub) (index : Nat) : Blind (newEntity s index) :=
  (blind_onHeap _).bind fun w => (blind_onHeap _).bind fun _ h c es =>
    .inl ⟨w, h, c ++ [s], (s.entry, w) :: es, fun _ _ => rfl⟩

theorem Machine.codeEntity_eq (s : Stub) (m : Machine) :
    codeEntity s m = (match m.entities.lookup s.entry with
      | some w => pure w
      | none => if m.code.length < 0x80000000 then newEntity s m.code.length
        else throw (.outOfBounds m.code.length) : EStateM HeapError Machine Word) m := by
  have read : (get : EStateM HeapError Machine Machine) m = .ok m m := rfl
  rw [codeEntity, estate_bind_of_ok read]
  cases m.entities.lookup s.entry with
  | some w => rfl
  | none => exact estate_bind_of_ok read

theorem Machine.blind_codeEntity (s : Stub) : Blind (codeEntity s) := by
  intro heap code entities
  simp only [codeEntity_eq]
  cases entities.lookup s.entry with
  | some w => exact .inl ⟨w, heap, code, entities, fun _ _ => rfl⟩
  | none =>
    by_cases room : code.length < 0x80000000
    · simp only [if_pos room]
      exact blind_newEntity s _ heap code entities
    · simp only [if_neg room]
      exact .inr ⟨_, heap, code, entities, fun _ _ => rfl⟩

/-- The machine `m'` is `m` after some actions. -/
structure Machine.Onward (m m' : Machine) : Prop where
  heap : m.heap.Onward m'.heap
  code : m.code <+: m'.code

theorem Machine.Onward.refl (m : Machine) : Onward m m := ⟨.refl _, List.prefix_rfl⟩

theorem Machine.Onward.trans {m m' m'' : Machine} (first : Onward m m')
    (second : Onward m' m'') : Onward m m'' :=
  ⟨first.heap.trans second.heap, first.code.trans second.code⟩

/-- Machine actions that lead onward, whether they return or fail. -/
def Machine.Advances (act : EStateM HeapError Machine α) : Prop :=
  ∀ m, Yields act m (fun _ => Onward m) fun _ => Onward m

theorem Machine.Advances.bind {act : EStateM HeapError Machine α}
    {next : α → EStateM HeapError Machine β} (first : Machine.Advances act)
    (rest : ∀ a, Machine.Advances (next a)) : Machine.Advances (act >>= next) := by
  intro m
  apply Yields.bind
  apply (first m).mono
  · intro a m' onward
    exact (rest a m').mono (fun _ _ => onward.trans) fun _ _ => onward.trans
  · exact fun _ _ onward => onward

theorem Machine.advances_onHeap {act : HeapM α} (advances : Heap.Advances act) :
    Machine.Advances (Machine.onHeap act) := by
  intro m
  have onward := advances m.heap
  rw [Yields, onHeap]
  cases done : act m.heap with
  | ok a h => exact ⟨onward.ok done, List.prefix_rfl⟩
  | error e h => exact ⟨onward.error done, List.prefix_rfl⟩

/-- A new stub comes after all that are in the table. -/
theorem Machine.advances_newEntity (s : Stub) (index : Nat) : Advances (newEntity s index) := by
  apply (advances_onHeap (Heap.allocate_advances _ _)).bind
  intro w
  apply (advances_onHeap (Heap.store_advances _ _ _)).bind
  intro _ m
  exact .of_ok rfl ⟨.refl _, List.prefix_append _ _⟩

theorem Machine.advances_codeEntity (s : Stub) : Advances (codeEntity s) := by
  intro m
  apply Yields.congr (codeEntity_eq s m)
  cases m.entities.lookup s.entry with
  | some w => exact .pure (.refl m)
  | none =>
    by_cases room : m.code.length < 0x80000000
    · simp only [if_pos room]
      exact advances_newEntity s _ m
    · simp only [if_neg room]
      exact .throw (.refl m)

theorem Machine.target_congr {m m' : Machine} (heap : m'.heap = m.heap) (code : m'.code = m.code)
    (callee : Word) : m'.target callee = m.target callee := by
  simp only [target, stub?, heap, code]

theorem Machine.target_entity {m : Machine} {w : Word} (pointer : w.isInt = false)
    (held : m.stub? w = some s) : m.target w = .ok s := by
  rw [target, pointer, held]
  rfl

/-- What can be called and is no Code entity is called through its own. -/
theorem Machine.target_callable {m : Machine} {f w : Word} (pointer : f.isInt = false)
    (direct : m.stub? f = none) (callable : m.heap.mapFlag f Layout.Map.callable = .ok true)
    (code : m.heap.load f Layout.Function.code = .ok w) :
    (∀ s, m.stub? w = some s → m.target f = .ok s) ∧
      (m.stub? w = none → m.target f = .error (.fatal .notCallable)) := by
  rw [target, pointer, direct, callable, code]
  simp only [Except.mapError]
  constructor
  · intro s held
    simp only [bind, Except.bind, held]
    rfl
  · intro missing
    simp only [bind, Except.bind, missing]
    rfl

/-- Related by `R n` are states at the `n`-th of some nested calls. -/
structure Lockstep (R : Nat → State ρ → State ρ' → Prop) (excused : Halt → Prop) : Prop where
  heap : R n s s' → s'.machine.heap = s.machine.heap
  code : R n s s' → s'.machine.code = s.machine.code
  entities : R n s s' → s'.machine.entities = s.machine.entities
  rebuilt : R n s s' → ∀ h c es, s.machine.heap.Onward h → s.machine.code <+: c →
    R n (s.rebuilt h c es) (s'.rebuilt h c es)
  enter : R n s s' → s.machine.depth < s.machine.maxDepth →
    s'.machine.depth < s'.machine.maxDepth ∧ R (n + 1) s.deeper s'.deeper
  refuse : R n s s' → ¬ s.machine.depth < s.machine.maxDepth →
    excused (.trap (.fatal .callDepth)) ∨ ¬ s'.machine.depth < s'.machine.maxDepth
  leave : R (n + 1) s s' → R n s.shallower s'.shallower

/-- Related results: the same value or the same halt, in related states. -/
inductive Matches (R : State ρ → State ρ' → Prop) (excused : Halt → Prop) :
    EStateM.Result Halt (State ρ) α → EStateM.Result Halt (State ρ') α → Prop
  | ok : R s s' → Matches R excused (.ok a s) (.ok a s')
  | error : R s s' → Matches R excused (.error e s) (.error e s')
  | excused : excused e → Matches R excused (.error e s) r

/-- Actions that take related states to related results. -/
def Mirrors (R : State ρ → State ρ' → Prop) (excused : Halt → Prop) (act : Exec ρ α)
    (act' : Exec ρ' α) : Prop :=
  ∀ s s', R s s' → Matches R excused (act s) (act' s')

variable {R : State ρ → State ρ' → Prop} {excused : Halt → Prop}

namespace Mirrors

theorem pure (a : α) : Mirrors R excused (pure a) (pure a) := fun _ _ related => .ok related

theorem throw (e : Halt) : Mirrors R excused (throw e : Exec ρ α) (throw e) :=
  fun _ _ related => .error related

theorem bind {act : Exec ρ α} {act' : Exec ρ' α} {next : α → Exec ρ β} {next' : α → Exec ρ' β}
    (first : Mirrors R excused act act') (rest : ∀ a, Mirrors R excused (next a) (next' a)) :
    Mirrors R excused (act >>= next) (act' >>= next') := by
  intro s s' related
  have step := first s s' related
  change Matches R excused (EStateM.bind act next s) (EStateM.bind act' next' s')
  unfold EStateM.bind
  revert step
  generalize act s = r, act' s' = r'
  rintro (related | related | allowed)
  · exact rest _ _ _ related
  · exact .error related
  · exact .excused allowed

theorem mapM {f : α → Exec ρ β} {f' : α → Exec ρ' β}
    (each : ∀ a, Mirrors R excused (f a) (f' a)) (as : List α) :
    Mirrors R excused (as.mapM f) (as.mapM f') := by
  induction as with
  | nil => exact pure _
  | cons a as ih =>
    rw [List.mapM_cons, List.mapM_cons]
    exact (each a).bind fun _ => ih.bind fun _ => pure _

theorem foldlM {f : β → α → Exec ρ β} {f' : β → α → Exec ρ' β}
    (each : ∀ b a, Mirrors R excused (f b a) (f' b a)) (as : List α) (b : β) :
    Mirrors R excused (as.foldlM f b) (as.foldlM f' b) := by
  induction as generalizing b with
  | nil => exact pure _
  | cons a as ih =>
    rw [List.foldlM_cons, List.foldlM_cons]
    exact (each b a).bind fun b => ih b

end Mirrors

section

variable {R : Nat → State ρ → State ρ' → Prop} (lockstep : Lockstep R excused) {n : Nat}

include lockstep

theorem Lockstep.query (f : Heap → Except HeapError α) :
    Mirrors (R n) excused (Exec.query f) (Exec.query f) := by
  intro s s' related
  rw [Exec.query, Exec.query, lockstep.heap related]
  split
  · exact .ok related
  · exact .error related

theorem Lockstep.heap_read : Mirrors (R n) excused Exec.heap Exec.heap := by
  intro s s' related
  rw [Exec.heap, Exec.heap, lockstep.heap related]
  exact .ok related

theorem Lockstep.onMachine (blind : Machine.Blind act) (advances : Machine.Advances act) :
    Mirrors (R n) excused (Exec.onMachine act) (Exec.onMachine act) := by
  intro s s' related
  have heap := lockstep.heap related
  have code := lockstep.code related
  have entities := lockstep.entities related
  have rebuilt := lockstep.rebuilt related
  have onward := advances s.machine
  obtain ⟨⟨h, c, es, d, m⟩, host⟩ := s
  obtain ⟨⟨h', c', es', d', m'⟩, host'⟩ := s'
  cases heap
  cases code
  cases entities
  obtain ⟨a, h₁, c₁, es₁, done⟩ | ⟨e, h₁, c₁, es₁, failed⟩ := blind h c es
  · have onward := onward.ok (done d m)
    simp only [Exec.onMachine, done]
    exact .ok (rebuilt h₁ c₁ es₁ onward.heap onward.code)
  · have onward := onward.error (failed d m)
    simp only [Exec.onMachine, failed]
    exact .error (rebuilt h₁ c₁ es₁ onward.heap onward.code)

theorem Lockstep.onHeap {act : HeapM α} (advances : Heap.Advances act) :
    Mirrors (R n) excused (Exec.onHeap act) (Exec.onHeap act) :=
  lockstep.onMachine (Machine.blind_onHeap act) (Machine.advances_onHeap advances)

theorem Lockstep.nested {act : Exec ρ α} {act' : Exec ρ' α}
    (inside : Mirrors (R (n + 1)) excused act act') :
    Mirrors (R n) excused (Exec.nested act) (Exec.nested act') := by
  intro s s' related
  rw [Exec.nested_eq, Exec.nested_eq]
  by_cases room : s.machine.depth < s.machine.maxDepth
  · obtain ⟨room', entered⟩ := lockstep.enter related room
    rw [if_pos room, if_pos room']
    have result := inside _ _ entered
    revert result
    generalize act s.deeper = r, act' s'.deeper = r'
    rintro (left | left | allowed)
    · exact .ok (lockstep.leave left)
    · exact .error (lockstep.leave left)
    · exact .excused allowed
  · rw [if_neg room]
    obtain allowed | full := lockstep.refuse related room
    · exact .excused allowed
    · rw [if_neg full]
      exact .error related

theorem Lockstep.callValue {calls : Invoke ρ} {calls' : Invoke ρ'}
    (same : ∀ stub self args, Mirrors (R n) excused (calls stub self args) (calls' stub self args))
    (callee self : Word) (args : List Word) :
    Mirrors (R n) excused (callValue calls callee self args)
      (FastPath.callValue calls' callee self args) := by
  intro s s' related
  have target := Machine.target_congr (lockstep.heap related) (lockstep.code related) callee
  rw [callValue_eq, callValue_eq, target]
  cases s.machine.target callee with
  | ok stub => exact same stub self args s s' related
  | error t => exact .error related

end

section

variable {R : State ρ → State ρ' → Prop} {excused : Halt → Prop} (f : Frame)

/-- What only reads the frame does the same on both sides. -/
theorem Frame.get_mirrors (v : Var) : Mirrors R excused (f.get v) (f.get v) := by
  unfold get
  cases f.registers[v]? with
  | some w => exact .pure w
  | none => exact .throw _

theorem Frame.set_mirrors (v : Var) (w : Word) : Mirrors R excused (f.set v w) (f.set v w) := by
  unfold set
  split
  · exact .pure _
  · exact .throw _

theorem Frame.getAll_mirrors (vs : List Var) : Mirrors R excused (f.getAll vs) (f.getAll vs) :=
  .mapM f.get_mirrors vs

theorem Frame.int_mirrors (v : Var) : Mirrors R excused (f.int v) (f.int v) := by
  refine (f.get_mirrors v).bind fun w => ?_
  cases w.int? with
  | some n => exact .pure n
  | none => exact .throw _

theorem Frame.address_mirrors (v : Var) : Mirrors R excused (f.address v) (f.address v) := by
  refine (f.get_mirrors v).bind fun w => ?_
  cases w.address? with
  | some a => exact .pure a
  | none => exact .throw _

theorem Frame.count_mirrors (v : Var) : Mirrors R excused (f.count v) (f.count v) := by
  refine (f.int_mirrors v).bind fun n => ?_
  cases n with
  | ofNat n => exact .pure n
  | negSucc n => exact .throw _

theorem Frame.pass_mirrors (args : CallArgs) : Mirrors R excused (f.pass args) (f.pass args) := by
  cases args with
  | list vs => exact f.getAll_mirrors vs
  | forward start count =>
    refine (f.count_mirrors count).bind fun n => ?_
    split
    · exact .pure _
    · exact .throw _

theorem Frame.test_mirrors (c : Condition) : Mirrors R excused (f.test c) (f.test c) := by
  cases c with
  | isInt v => exact (f.get_mirrors v).bind fun _ => .pure _
  | overlap a b => exact (f.int_mirrors a).bind fun _ => (f.int_mirrors b).bind fun _ => .pure _
  | compareInts c a b =>
    exact (f.int_mirrors a).bind fun _ => (f.int_mirrors b).bind fun _ => .pure _
  | compareWords c a b =>
    exact (f.get_mirrors a).bind fun _ => (f.get_mirrors b).bind fun _ => .pure _
  | overflowed => exact .pure _

variable (b : Body σ)

theorem Body.block_mirrors (id : BlockId) : Mirrors R excused (b.block id) (b.block id) := by
  unfold block
  cases b.blocks[id]? with
  | some block => exact .pure block
  | none => exact .throw _

theorem Body.callee_mirrors (s : σ) : Mirrors R excused (b.callee s) (b.callee s) := by
  unfold callee
  cases b.link s with
  | some stub => exact .pure stub
  | none => exact .throw _

theorem Body.bind_mirrors (vs : List Var) (ws : List Word) :
    Mirrors R excused (bind f vs ws) (bind f vs ws) := by
  induction vs generalizing f ws with
  | nil =>
    cases ws with
    | nil => exact .pure f
    | cons w ws => exact .throw _
  | cons v vs ih =>
    cases ws with
    | nil => exact .throw _
    | cons w ws => exact (f.set_mirrors v w).bind fun f => ih f ws

theorem Body.leave_mirrors (exit : Exit) : Mirrors R excused (b.leave f exit) (b.leave f exit) := by
  cases exit with
  | ret v =>
    cases v with
    | none => exact .pure _
    | some v => exact (f.get_mirrors v).bind fun _ => .pure _
  | jump target args =>
    exact (f.getAll_mirrors args).bind fun values => (b.block_mirrors target).bind fun block =>
      (bind_mirrors f block.params values).bind fun _ => .pure _
  | branch condition yes no => exact (f.test_mirrors condition).bind fun _ => .pure _
  | trap t => exact .throw _

end

section

variable {R : Nat → State ρ → State ρ' → Prop} (lockstep : Lockstep R excused) {n : Nat}

include lockstep

theorem Lockstep.literal (l : Literal) : Mirrors (R n) excused l.value l.value := by
  cases l with
  | int n =>
    simp only [Literal.value]
    cases Word.ofInt? n with
    | some w => exact .pure w
    | none => exact .throw _
  | atom name => exact lockstep.onHeap (Heap.atom_advances name)
  | undefined | null | hole | boolean => exact .pure _

theorem Lockstep.perform (f : Frame) (effect : Effect) :
    Mirrors (R n) excused (effect.perform f) (effect.perform f) := by
  cases effect with
  | store base value offset =>
    exact (f.get_mirrors base).bind fun _ => (f.get_mirrors value).bind fun _ =>
      lockstep.onHeap (Heap.store_advances _ _ _)
  | storeAt base value offset =>
    exact (f.count_mirrors offset).bind fun _ => (f.get_mirrors base).bind fun _ =>
      (f.get_mirrors value).bind fun _ => lockstep.onHeap (Heap.store_advances _ _ _)
  | fill start stop value =>
    exact (f.address_mirrors start).bind fun _ => (f.address_mirrors stop).bind fun _ =>
      (f.get_mirrors value).bind fun _ => lockstep.onHeap (Heap.fill_advances _ _ _)
  | moveCursor v =>
    exact (f.address_mirrors v).bind fun _ => lockstep.onHeap (Heap.moveCursor_advances _)

section

variable {host : Host ρ} {host' : Host ρ'} {calls : Invoke ρ} {calls' : Invoke ρ'}
  (served : ∀ service args,
    Mirrors (R n) excused (host calls service args) (host' calls' service args))
  (called : ∀ stub self args,
    Mirrors (R n) excused (calls stub self args) (calls' stub self args))
  (b : Body σ)

include served called

theorem Lockstep.eval (f : Frame) (op : Op σ) :
    Mirrors (R n) excused (b.eval host calls f op) (b.eval host' calls' f op) := by
  cases op with
  | stubArg i =>
    simp only [Body.eval]
    cases f.args[i]? with
    | some w => exact .pure _
    | none => exact .throw _
  | cache =>
    simp only [Body.eval]
    cases b.cache with
    | none => exact .throw _
    | some id =>
      dsimp only
      cases Word.ofInt? id with
      | some w => exact .pure _
      | none => exact .throw _
  | arg | receiver | canonicalMap => exact .pure _
  | literal l => exact (lockstep.literal l).bind fun _ => .pure _
  | load base offset =>
    exact (f.get_mirrors base).bind fun _ => (lockstep.query _).bind fun _ => .pure _
  | loadAt base offset =>
    exact (f.count_mirrors offset).bind fun _ => (f.get_mirrors base).bind fun _ =>
      (lockstep.query _).bind fun _ => .pure _
  | arith op l r =>
    exact (f.int_mirrors l).bind fun _ => (f.int_mirrors r).bind fun _ => .pure _
  | negate v => exact (f.int_mirrors v).bind fun _ => .pure _
  | advance base offset =>
    exact (f.address_mirrors base).bind fun _ => (f.int_mirrors offset).bind fun _ =>
      (lockstep.query _).bind fun _ => .pure _
  | cursor => exact lockstep.heap_read.bind fun _ => .pure _
  | limit => exact lockstep.heap_read.bind fun _ => .pure _
  | roundUp size =>
    refine (f.count_mirrors size).bind fun n => ?_
    cases Word.ofInt? (FastPath.roundUp n) with
    | some w => exact .pure _
    | none => exact .throw _
  | service id args =>
    exact (f.getAll_mirrors args).bind fun _ => (served id _).bind fun _ => .pure _
  | callStub s args =>
    exact (f.pass_mirrors args).bind fun _ => (b.callee_mirrors s).bind fun stub =>
      (called stub _ _).bind fun _ => .pure _
  | stubRef s =>
    exact (b.callee_mirrors s).bind fun stub =>
      (lockstep.onMachine (Machine.blind_codeEntity stub)
        (Machine.advances_codeEntity stub)).bind fun _ => .pure _
  | call callee self args =>
    exact (f.pass_mirrors args).bind fun args => (f.get_mirrors callee).bind fun callee =>
      (f.get_mirrors self).bind fun self =>
        (lockstep.callValue called callee self args).bind fun _ => .pure _

theorem Lockstep.step (f : Frame) (i : Inst σ) :
    Mirrors (R n) excused (b.step host calls f i) (b.step host' calls' f i) := by
  cases i with
  | define v op =>
    exact (lockstep.eval served called b f op).bind fun _ => Frame.set_mirrors _ _ _
  | perform effect => exact (lockstep.perform f effect).bind fun _ => .pure f

theorem Lockstep.runFrom (fuel : Nat) (id : BlockId) (f : Frame) :
    Mirrors (R n) excused (b.runFrom host calls fuel id f) (b.runFrom host' calls' fuel id f) := by
  induction fuel generalizing id f with
  | zero => exact .throw _
  | succ fuel ih =>
    refine (b.block_mirrors id).bind fun block =>
      (Mirrors.foldlM (lockstep.step served called b) block.insts f).bind fun f =>
        (b.leave_mirrors f block.exit).bind fun next => ?_
    cases next with
    | done w => exact .pure w
    | goto id f => exact ih id f

end

/-- Calls of stubs go in lockstep if the hosts serve in lockstep whatever calls they are given. -/
theorem Lockstep.invoke {host : Host ρ} {host' : Host ρ'}
    (served : ∀ {n} {calls : Invoke ρ} {calls' : Invoke ρ'},
      (∀ stub self args, Mirrors (R n) excused (calls stub self args) (calls' stub self args)) →
      ∀ service args, Mirrors (R n) excused (host calls service args) (host' calls' service args))
    (fuel : Nat) (stub : Stub) (self : Word) (args : List Word) :
    Mirrors (R n) excused (invoke host fuel stub self args)
      (FastPath.invoke host' fuel stub self args) := by
  induction fuel generalizing n stub self args with
  | zero => exact .throw _
  | succ fuel ih => exact lockstep.nested (lockstep.runFrom (served ih) ih _ fuel 0 _)

end

end FastPath

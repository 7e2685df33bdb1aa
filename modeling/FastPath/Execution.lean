import FastPath.Machine

/-!
Execution of stub bodies. A body runs block by block over a frame of registers, one for each
variable, and may call other stubs, values and the services of a host. Running out of fuel is kept
apart from every trap, as is a fault, the use of a block, register or dependency that does not
exist or a jump that does not fit its target: a checked graph never faults.

`Body.run` takes the calls it makes as a parameter, so that what a body does can be described
without saying what its callees do; `invoke` ties the knot, and every level of calls and every
block costs one unit of fuel.
-/

namespace FastPath

inductive Halt where
  | trap (t : Trap)
  | fault
  | outOfFuel
  deriving DecidableEq, Inhabited

/-- A machine together with the state of its host. -/
structure State (ρ : Type) where
  machine : Machine
  host : ρ

abbrev Exec (ρ : Type) := EStateM Halt (State ρ)

/-- Calls of stubs with a receiver and arguments. -/
abbrev Invoke (ρ : Type) := Stub → Word → List Word → Exec ρ Word

/-- Serves requests of stubs, calling back through the given calls. -/
abbrev Host (ρ : Type) := Invoke ρ → Service → List Word → Exec ρ Word

/-- The host without services. -/
def Host.absent : Host ρ := fun _ id _ => throw (.trap (.fatal (.noService id.name)))

namespace Exec

def trap (t : Trap) : Exec ρ α := throw (.trap t)

def fatal (cause : FatalCause) : Exec ρ α := trap (.fatal cause)

/-- Runs a machine action; heap errors become traps. -/
def onMachine (act : EStateM HeapError Machine α) : Exec ρ α := fun s =>
  match s with
  | { machine, host } =>
    match act machine with
    | .ok a machine => .ok a { machine, host }
    | .error e machine => .error (.trap (.ofHeapError e)) { machine, host }

def onHeap (act : HeapM α) : Exec ρ α := onMachine (Machine.onHeap act)

def query (f : Heap → Except HeapError α) : Exec ρ α := fun s =>
  match f s.machine.heap with
  | .ok a => .ok a s
  | .error e => .error (.trap (.ofHeapError e)) s

def heap : Exec ρ Heap := fun s => .ok s.machine.heap s

/-- Runs `act` one call deeper, if the depth allows it. -/
def nested (act : Exec ρ α) : Exec ρ α := fun s =>
  if s.machine.depth < s.machine.maxDepth then
    let leave (s : State ρ) : State ρ :=
      { s with machine := { s.machine with depth := s.machine.depth - 1 } }
    match act { s with machine := { s.machine with depth := s.machine.depth + 1 } } with
    | .ok a s => .ok a (leave s)
    | .error e s => .error e (leave s)
  else .error (.trap (.fatal .callDepth)) s

end Exec

/-- Calls whatever stub the callee stands for. -/
def callValue (invoke : Invoke ρ) (callee self : Word) (args : List Word) : Exec ρ Word := do
  match (← get).machine.target callee with
  | .ok s => invoke s self args
  | .error t => Exec.trap t

structure Frame where
  registers : List Word
  self : Word
  args : List Word
  /-- Whether the last checked operation overflowed. -/
  overflowed : Bool
  deriving Inhabited

namespace Frame

def get (f : Frame) (v : Var) : Exec ρ Word :=
  match f.registers[v]? with
  | some w => return w
  | none => throw .fault

def set (f : Frame) (v : Var) (w : Word) : Exec ρ Frame :=
  if v < f.registers.length then return { f with registers := f.registers.set v w }
  else throw .fault

def getAll (f : Frame) (vs : List Var) : Exec ρ (List Word) := vs.mapM f.get

def int (f : Frame) (v : Var) : Exec ρ Int := do
  match (← f.get v).int? with
  | some n => return n
  | none => Exec.fatal .notInt

def address (f : Frame) (v : Var) : Exec ρ Nat := do
  let w ← f.get v
  match w.address? with
  | some a => return a
  | none => Exec.trap (.ofHeapError (.notPointer w))

/-- A small integer that counts bytes or arguments. -/
def count (f : Frame) (v : Var) : Exec ρ Nat := do
  match ← f.int v with
  | .ofNat n => return n
  | .negSucc _ => Exec.trap (.ofHeapError (.outOfBounds 0))

/-- The words that a call passes on. Arguments that are forwarded beyond those that came in are
`undefined`, and their positions have to fit into 64 bits. -/
def pass (f : Frame) : CallArgs → Exec ρ (List Word)
  | .list vs => f.getAll vs
  | .forward start count => do
    let n ← f.count count
    if start + n ≤ 0x10000000000000000 then
      return (List.range n).map fun i => f.args.getD (start + i) .undefined
    else Exec.trap (.ofHeapError (.overflow (start + n)))

def test (f : Frame) : Condition → Exec ρ Bool
  | .isInt v => return (← f.get v).isInt
  | .overlap a b => return Bits.overlap (← f.int a) (← f.int b)
  | .compareInts c a b => return c.holds (← f.int a) (← f.int b)
  | .compareWords c a b => return c.holds (← f.get a).toNat (← f.get b).toNat
  | .overflowed => return f.overflowed

end Frame

/-- What a body needs to run: its blocks, the size of its frames, its inline cache and the stubs
that its instructions refer to. -/
structure Body (σ : Type) where
  blocks : List (Block σ)
  varCount : Nat
  cache : Option CacheId
  link : σ → Option Stub

def Stub.body (s : Stub) : Body Nat :=
  { blocks := s.blocks, varCount := s.varCount, cache := s.cache, link := fun i => s.deps[i]? }

namespace Literal

def value : Literal → Exec ρ Word
  | .int n =>
    match Word.ofInt? n with
    | some w => return w
    | none => Exec.fatal .notInt
  | .undefined => return .undefined
  | .null => return .null
  | .hole => return .hole
  | .boolean b => return .boolean b
  | .atom name => Exec.onHeap (Heap.atom name)

end Literal

/-- The address `offset` bytes from `base`: an even number, neither negative nor beyond the
signed 64-bit range, in which the sum is formed. -/
def displace (base : Nat) (offset : Int) : Except HeapError Nat :=
  let sum : Int := base + offset
  if base < 0x8000000000000000 ∧ 0 ≤ sum ∧ sum < 0x8000000000000000 ∧ sum % 2 = 0 then .ok sum.toNat
  else .error (.outOfBounds base)

namespace Body

def callee (b : Body σ) (s : σ) : Exec ρ Stub :=
  match b.link s with
  | some stub => return stub
  | none => throw .fault

/-- The value of a computation, and the overflow flag behind it. Only checked arithmetic changes
the flag. -/
def eval (b : Body σ) (host : Host ρ) (invoke : Invoke ρ) (f : Frame) :
    Op σ → Exec ρ (Word × Bool)
  | .stubArg i =>
    match f.args[i]? with
    | some w => return (w, f.overflowed)
    | none => Exec.fatal (.missingArgument i)
  | .arg i => return (f.args.getD i .undefined, f.overflowed)
  | .receiver => return (f.self, f.overflowed)
  | .literal l => return (← l.value, f.overflowed)
  | .cache =>
    match b.cache with
    | none => Exec.fatal .unreachable
    | some id =>
      match Word.ofInt? id with
      | some w => return (w, f.overflowed)
      | none => Exec.fatal .notInt
  | .canonicalMap k => return (k.canonicalMap, f.overflowed)
  | .load base offset => do
    let base ← f.get base
    return (← Exec.query fun h => h.load base offset, f.overflowed)
  | .loadAt base offset => do
    let offset ← f.count offset
    let base ← f.get base
    return (← Exec.query fun h => h.load base offset, f.overflowed)
  | .arith op l r => do
    let (n, overflowed) := op.checked (← f.int l) (← f.int r)
    return (.int n, overflowed)
  | .negate v => do
    let (n, overflowed) := Arith.sub.checked 0 (← f.int v)
    return (.int n, overflowed)
  | .advance base offset => do
    let base ← f.address base
    let offset ← f.int offset
    return (.pointer (← Exec.query fun _ => displace base offset), f.overflowed)
  | .cursor => return (.pointer (← Exec.heap).region.cursor, f.overflowed)
  | .limit => return (.pointer (← Exec.heap).region.limit, f.overflowed)
  | .roundUp size => do
    match Word.ofInt? (roundUp (← f.count size)) with
    | some w => return (w, f.overflowed)
    | none => Exec.fatal .notInt
  | .service id args => do
    return (← host invoke id (← f.getAll args), f.overflowed)
  | .callStub s args => do
    let args ← f.pass args
    return (← invoke (← b.callee s) .undefined args, f.overflowed)
  | .stubRef s => do
    let stub ← b.callee s
    return (← Exec.onMachine (Machine.codeEntity stub), f.overflowed)
  | .call callee self args => do
    let args ← f.pass args
    return (← callValue invoke (← f.get callee) (← f.get self) args, f.overflowed)

end Body

def Effect.perform (f : Frame) : Effect → Exec ρ Unit
  | .store base value offset => do
    let base ← f.get base
    let value ← f.get value
    Exec.onHeap (Heap.store base offset value)
  | .storeAt base value offset => do
    let offset ← f.count offset
    let base ← f.get base
    let value ← f.get value
    Exec.onHeap (Heap.store base offset value)
  | .fill start stop value => do
    let start ← f.address start
    let stop ← f.address stop
    let value ← f.get value
    Exec.onHeap (Heap.fill start stop value)
  | .moveCursor v => do
    let cursor ← f.address v
    Exec.onHeap (Heap.moveCursor cursor)

/-- Where a block leaves to. -/
inductive Next where
  | done (value : Word)
  | goto (block : BlockId) (f : Frame)

namespace Body

def step (b : Body σ) (host : Host ρ) (invoke : Invoke ρ) (f : Frame) :
    Inst σ → Exec ρ Frame
  | .define v op => do
    let (w, overflowed) ← b.eval host invoke f op
    { f with overflowed }.set v w
  | .perform effect => do
    effect.perform f
    return f

def block (b : Body σ) (id : BlockId) : Exec ρ (Block σ) :=
  match b.blocks[id]? with
  | some block => return block
  | none => throw .fault

/-- Binds the parameters of a block, which must be as many as the values. -/
def bind (f : Frame) : List Var → List Word → Exec ρ Frame
  | [], [] => return f
  | v :: vs, w :: ws => do bind (← f.set v w) vs ws
  | _, _ => throw .fault

def leave (b : Body σ) (f : Frame) : Exit → Exec ρ Next
  | .ret none => return .done .undefined
  | .ret (some v) => return .done (← f.get v)
  | .jump target args => do
    let values ← f.getAll args
    return .goto target (← bind f (← b.block target).params values)
  | .branch condition yes no => return .goto (if ← f.test condition then yes else no) f
  | .trap t => Exec.trap t

/-- Runs from the start of a block, entering at most `fuel` blocks. -/
def runFrom (b : Body σ) (host : Host ρ) (invoke : Invoke ρ) :
    (fuel : Nat) → BlockId → Frame → Exec ρ Word
  | 0, _, _ => throw .outOfFuel
  | fuel + 1, id, f => do
    let block ← b.block id
    let f ← block.insts.foldlM (b.step host invoke) f
    match ← b.leave f block.exit with
    | .done w => return w
    | .goto id f => runFrom b host invoke fuel id f

/-- The frame of a fresh call. Registers start out as `undefined`. -/
def frame (b : Body σ) (self : Word) (args : List Word) : Frame :=
  { registers := .replicate b.varCount .undefined, self, args, overflowed := false }

def run (b : Body σ) (host : Host ρ) (invoke : Invoke ρ) (fuel : Nat) (self : Word)
    (args : List Word) : Exec ρ Word :=
  b.runFrom host invoke fuel 0 (b.frame self args)

end Body

/-- Calls a stub with fuel for `fuel` levels of calls and as many blocks on each level. -/
def invoke (host : Host ρ) : (fuel : Nat) → Invoke ρ
  | 0 => fun _ _ _ => throw .outOfFuel
  | fuel + 1 => fun s self args => Exec.nested (s.body.run host (invoke host fuel) fuel self args)

end FastPath

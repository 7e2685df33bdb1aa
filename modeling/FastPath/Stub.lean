import FastPath.Graph.Config
import FastPath.Graph.Basic

/-!
Compiled stubs. Compiling a graph replaces the names of other stubs by their places among the
given dependencies, binds the inline cache and gives the stub an entry point that the compiler has
not given before; a graph that is refused takes no entry point.
-/

namespace FastPath

structure Stub where
  name : String
  /-- The compiler that made the stub. Two stubs of one compiler differ in their entry points. -/
  origin : Nat
  entry : Nat
  blocks : List (Block Nat)
  varCount : Nat
  deps : List Stub
  cache : Option CacheId
  deriving Inhabited

/-- Whether both were made by the same compilation. -/
def Stub.same (a b : Stub) : Bool := a.origin == b.origin && a.entry == b.entry

def Stub.describe (quote : String → String) (s : Stub) : String :=
  "CompiledStub \x7b name: " ++ quote s.name ++ ", entry: EntryPoint(" ++ toString s.entry ++
    "), blocks: " ++ toString s.blocks.length ++ ", deps: " ++ toString s.deps.length ++ " \x7d"

def Op.mapCallee (f : σ → Except ε τ) : Op σ → Except ε (Op τ)
  | .callStub s args => return .callStub (← f s) args
  | .stubRef s => return .stubRef (← f s)
  | .stubArg i => return .stubArg i
  | .arg i => return .arg i
  | .receiver => return .receiver
  | .literal l => return .literal l
  | .cache => return .cache
  | .canonicalMap k => return .canonicalMap k
  | .load base offset => return .load base offset
  | .loadAt base offset => return .loadAt base offset
  | .arith op l r => return .arith op l r
  | .negate v => return .negate v
  | .advance base offset => return .advance base offset
  | .cursor => return .cursor
  | .limit => return .limit
  | .roundUp size => return .roundUp size
  | .service id args => return .service id args
  | .call callee self args => return .call callee self args

def Inst.mapCallee (f : σ → Except ε τ) : Inst σ → Except ε (Inst τ)
  | .define v op => return .define v (← op.mapCallee f)
  | .perform effect => return .perform effect

/-- Counts the stubs it has made. -/
structure Compiler where
  id : Nat
  compiled : Nat := 0
  deriving DecidableEq, Inhabited

namespace Compiler

/-- The entry point of the next stub. None is zero. -/
def nextEntry (c : Compiler) : Nat := 0x1000 + 0x10 * c.compiled

/-- The place of a name among the dependencies. -/
def place (stub : String) (deps : List (String × Stub)) (callee : String) :
    Except GraphError Nat :=
  match deps.findIdx? (fun d => d.1 == callee) with
  | some i => .ok i
  | none => .error (.missingCallee stub callee)

def compileInst (stub : String) (cache : Option CacheId) (deps : List (String × Stub))
    (i : Inst String) : Except GraphError (Inst Nat) :=
  if i matches .define _ .cache && cache.isNone then .error (.missingCache stub)
  else i.mapCallee (place stub deps)

def compileBlock (stub : String) (cache : Option CacheId) (deps : List (String × Stub))
    (b : Block String) : Except GraphError (Block Nat) := do
  return { params := b.params, insts := ← b.insts.mapM (compileInst stub cache deps),
           exit := b.exit }

def compile (c : Compiler) (g : Graph) (config : Config) (deps : List (String × Stub)) :
    Except GraphError (Stub × Compiler) := do
  let blocks ← g.blocks.mapM (compileBlock g.stub config.cache deps)
  let stub : Stub :=
    { name := g.stub, origin := c.id, entry := c.nextEntry, blocks, varCount := g.varCount,
      deps := deps.map Prod.snd, cache := config.cache }
  return (stub, { c with compiled := c.compiled + 1 })

end Compiler

end FastPath

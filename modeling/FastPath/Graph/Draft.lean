import FastPath.Graph.Basic
import FastPath.Graph.Error

/-!
Graphs under construction. Calls are applied to a draft one after the other; a call that makes no
sense is noted and the first such note is what `Draft.finish` reports, so that a caller can write
a body straight down. Variables are numbered in the order of the calls that define them, also when
such a call is refused. Their count is checked: a program that takes it beyond 32 bits ends there.
-/

namespace FastPath

structure OpenBlock where
  params : List Var := []
  insts : List (Inst String) := []
  exit : Option Exit := none
  deriving DecidableEq, Inhabited

structure Draft where
  stub : String
  blocks : List OpenBlock
  /-- The block that instructions go to. -/
  current : BlockId
  varCount : Nat
  error : Option GraphError
  deriving DecidableEq, Inhabited

inductive Draft.Call where
  | block
  | param (b : BlockId)
  | enter (b : BlockId)
  | define (op : Op String)
  | perform (effect : Effect)
  | leave (exit : Exit)
  /-- Goes to the target if the last checked operation overflowed, and otherwise on in a fresh
  block. -/
  | guardOverflow (target : BlockId)
  deriving DecidableEq, Inhabited

namespace Draft

/-- A draft whose entry block is open. -/
def start (stub : String) : Draft :=
  { stub, blocks := [{}], current := 0, varCount := 0, error := none }

def note (d : Draft) (e : GraphError) : Draft := { d with error := d.error <|> some e }

def addBlock (d : Draft) : Draft := { d with blocks := d.blocks ++ [{}] }

def addParam (d : Draft) (b : BlockId) : Draft :=
  let counted := { d with varCount := d.varCount + 1 }
  if b < d.blocks.length then
    { counted with
      blocks := d.blocks.modify b fun o => { o with params := o.params ++ [d.varCount] } }
  else counted.note (.unknownBlock d.stub b)

def enter (d : Draft) (b : BlockId) : Draft :=
  if b < d.blocks.length then { d with current := b } else d.note (.unknownBlock d.stub b)

/-- Changes the current block, which must still be open. -/
def extend (d : Draft) (f : OpenBlock → OpenBlock) : Draft :=
  match d.blocks[d.current]? with
  | some { exit := none, .. } => { d with blocks := d.blocks.modify d.current f }
  | _ => d.note (.terminated d.stub d.current)

def push (d : Draft) (i : Inst String) : Draft :=
  d.extend fun o => { o with insts := o.insts ++ [i] }

def leave (d : Draft) (exit : Exit) : Draft := d.extend fun o => { o with exit := some exit }

def call (d : Draft) : Call → Draft
  | .block => d.addBlock
  | .param b => d.addParam b
  | .enter b => d.enter b
  | .define op => { d with varCount := d.varCount + 1 }.push (.define d.varCount op)
  | .perform effect => d.push (.perform effect)
  | .leave exit => d.leave exit
  | .guardOverflow target =>
    let fresh := BlockId.ofPosition d.blocks.length
    (d.addBlock.leave (.branch .overflowed target fresh)).enter fresh

/-- The parameter count of a block that a terminator names. -/
def arity (stub : String) (arities : List Nat) (b : BlockId) : Except GraphError Nat :=
  match arities[b]? with
  | some n => .ok n
  | none => .error (.unknownBlock stub b)

/-- A jump supplies exactly the parameters of its target, a branch has targets without any. -/
def checkExit (stub : String) (arities : List Nat) : Exit → Except GraphError Unit
  | .jump target args => do
    let expected ← arity stub arities target
    if expected = args.length then return ()
    else .error (.arity stub target args.length expected)
  | .branch _ yes no =>
    [yes, no].forM fun b => do
      if (← arity stub arities b) = 0 then return () else .error (.branchArity stub b)
  | .ret _ | .trap _ => return ()

def closeBlock (stub : String) (arities : List Nat) (o : OpenBlock) (b : BlockId) :
    Except GraphError (Block String) := do
  match o.exit with
  | none => .error (.unterminated stub b)
  | some exit =>
    checkExit stub arities exit
    return { params := o.params, insts := o.insts, exit }

/-- The finished graph, or the first call that made no sense, or else the first block that is not
well formed. A program that ran out of variables has ended before it comes to this. -/
def finish (d : Draft) : Except GraphError Graph :=
  if 0x100000000 ≤ d.varCount then .error (.overflow d.stub) else
  match d.error with
  | some e => .error e
  | none => do
    let arities := d.blocks.map fun o => o.params.length
    let blocks ← d.blocks.zipIdx.mapM fun (o, b) => closeBlock d.stub arities o b
    return { stub := d.stub, blocks, varCount := d.varCount }

end Draft

end FastPath

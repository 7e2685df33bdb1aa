import FastPath.Arith
import FastPath.Kind
import FastPath.Trap

/-!
Bodies of stubs as control-flow graphs. A block has parameters, a straight run of instructions and
one exit; a jump supplies one variable for each parameter of its target. Instructions refer to
other stubs through `σ`: a fresh graph names them, a compiled one numbers them by their place
among its dependencies.
-/

namespace FastPath

abbrev Var := Nat

abbrev BlockId := Nat

/-- The number of the block at a position: the low 32 bits of the position. -/
def BlockId.ofPosition (position : Nat) : BlockId := position % 0x100000000

inductive Literal where
  | int (n : Int)
  | undefined
  | null
  | hole
  | boolean (b : Bool)
  | atom (name : String)
  deriving DecidableEq, Inhabited

/-- What a host does for stubs. -/
inductive Service where
  | getProperty
  | setProperty
  | deleteProperty
  | getPropertySlot
  | coerce (k : Kind)
  deriving DecidableEq, Inhabited

def Service.name : Service → String
  | getProperty => "getProperty"
  | setProperty => "setProperty"
  | deleteProperty => "deleteProperty"
  | getPropertySlot => "getPropertySlot"
  | coerce k => "coerce/" ++ k.name

/-- The arguments of a call: a list, or some of those that the caller itself was given. -/
inductive CallArgs where
  | list (vars : List Var)
  | forward (start : Nat) (count : Var)
  deriving DecidableEq, Inhabited

/-- Computations that define a variable. -/
inductive Op (σ : Type) where
  /-- An argument that has to be there. -/
  | stubArg (index : Nat)
  /-- An argument, or `undefined` where it is left out. -/
  | arg (index : Nat)
  | receiver
  | literal (value : Literal)
  /-- The number of the configured inline cache. -/
  | cache
  | canonicalMap (k : Kind)
  | load (base : Var) (offset : Nat)
  | loadAt (base offset : Var)
  | arith (op : Arith) (left right : Var)
  | negate (v : Var)
  /-- An address some bytes away from another. -/
  | advance (base offset : Var)
  | cursor
  | limit
  | roundUp (size : Var)
  | service (id : Service) (args : List Var)
  | callStub (stub : σ) (args : CallArgs)
  /-- A value that calls the stub. -/
  | stubRef (stub : σ)
  | call (callee receiver : Var) (args : CallArgs)
  deriving DecidableEq, Inhabited

/-- Changes to the heap that define nothing. -/
inductive Effect where
  | store (base value : Var) (offset : Nat)
  | storeAt (base value offset : Var)
  | fill (start stop value : Var)
  | moveCursor (cursor : Var)
  deriving DecidableEq, Inhabited

inductive Inst (σ : Type) where
  | define (var : Var) (op : Op σ)
  | perform (effect : Effect)
  deriving DecidableEq, Inhabited

inductive Condition where
  | isInt (v : Var)
  /-- The two share a set bit. -/
  | overlap (a b : Var)
  | compareInts (c : Compare) (a b : Var)
  | compareWords (c : Compare) (a b : Var)
  /-- The last checked operation overflowed. -/
  | overflowed
  deriving DecidableEq, Inhabited

inductive Exit where
  | ret (value : Option Var)
  | jump (target : BlockId) (args : List Var)
  | branch (condition : Condition) (yes no : BlockId)
  | trap (t : Trap)
  deriving DecidableEq, Inhabited

structure Block (σ : Type) where
  params : List Var
  insts : List (Inst σ)
  exit : Exit
  deriving DecidableEq, Inhabited

/-- The body of a stub. The entry is block zero. -/
structure Graph where
  stub : String
  blocks : List (Block String)
  varCount : Nat
  deriving DecidableEq, Inhabited

def Op.callee? : Op σ → Option σ
  | .callStub s _ | .stubRef s => some s
  | _ => none

def Inst.callee? : Inst σ → Option σ
  | .define _ op => op.callee?
  | _ => none

/-- Names of the stubs that the body calls or refers to, in the order of first use. -/
def Graph.callees (g : Graph) : List String :=
  (g.blocks.flatMap fun b => b.insts.filterMap Inst.callee?).eraseDups

/-- Whether some instruction asks for the inline cache. -/
def Graph.usesCache (g : Graph) : Bool :=
  g.blocks.any fun b => b.insts.any fun i => i matches .define _ .cache

end FastPath

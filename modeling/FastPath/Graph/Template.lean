import FastPath.Graph.Config
import FastPath.Graph.Draft

/-!
Templates: bodies that still depend on the stub's name and configuration. A template is given as
a list of calls on a draft or written in `Build`, where each call hands back the variable or block
it makes. A constant that the configuration lacks ends the build at once, before any complaint
about the graph.
-/

namespace FastPath

abbrev Template := String → Config → Except GraphError Graph

/-- A template that makes the calls in order. -/
def Template.ofCalls (calls : List (Config → Except GraphError Draft.Call)) : Template :=
  fun stub config => do
    let d ← calls.foldlM (fun d call => return d.call (← call config)) (Draft.start stub)
    d.finish

abbrev Build := ReaderT Config (StateT Draft (Except GraphError))

/-- The template that a build describes. -/
def Build.template (body : Build Unit) : Template := fun stub config => do
  let ((), d) ← (body config).run (Draft.start stub)
  d.finish

namespace Build

def constant (name : String) : Build Int := fun config => (config.constant name : Except _ _)

def offset (name : String) : Build Nat := fun config => (config.offset name : Except _ _)

def make (c : Draft.Call) : Build Unit := modify fun d => d.call c

/-- Makes a call that defines a variable. -/
def makeVar (c : Draft.Call) : Build Var := do
  let v := (← get).varCount
  make c
  return v

def block : Build BlockId := do
  let b := BlockId.ofPosition (← get).blocks.length
  make .block
  return b

def param (b : BlockId) : Build Var := makeVar (.param b)

def enter (b : BlockId) : Build Unit := make (.enter b)

def define (op : Op String) : Build Var := makeVar (.define op)

def stubArg (index : Nat) : Build Var := define (.stubArg index)

def arg (index : Nat) : Build Var := define (.arg index)

def receiver : Build Var := define .receiver

def literal (value : Literal) : Build Var := define (.literal value)

def int (n : Int) : Build Var := literal (.int n)

def hole : Build Var := literal .hole

def undefined : Build Var := literal .undefined

def cache : Build Var := define .cache

def canonicalMap (k : Kind) : Build Var := define (.canonicalMap k)

def load (base : Var) (offset : Nat) : Build Var := define (.load base offset)

def loadAt (base offset : Var) : Build Var := define (.loadAt base offset)

def arith (op : Arith) (left right : Var) : Build Var := define (.arith op left right)

def negate (v : Var) : Build Var := define (.negate v)

def advance (base offset : Var) : Build Var := define (.advance base offset)

def cursor : Build Var := define .cursor

def limit : Build Var := define .limit

def rounded (size : Var) : Build Var := define (.roundUp size)

def service (id : Service) (args : List Var) : Build Var := define (.service id args)

def callStub (stub : String) (args : List Var) : Build Var := define (.callStub stub (.list args))

def stubRef (stub : String) : Build Var := define (.stubRef stub)

def call (callee receiver : Var) (args : CallArgs) : Build Var :=
  define (.call callee receiver args)

def store (base value : Var) (offset : Nat) : Build Unit :=
  make (.perform (.store base value offset))

def storeAt (base value offset : Var) : Build Unit := make (.perform (.storeAt base value offset))

def fill (start stop value : Var) : Build Unit := make (.perform (.fill start stop value))

def moveCursor (v : Var) : Build Unit := make (.perform (.moveCursor v))

def ret (v : Var) : Build Unit := make (.leave (.ret (some v)))

def retUndefined : Build Unit := make (.leave (.ret none))

def jump (target : BlockId) (args : List Var) : Build Unit := make (.leave (.jump target args))

def branch (condition : Condition) (yes no : BlockId) : Build Unit :=
  make (.leave (.branch condition yes no))

def guardOverflow (target : BlockId) : Build Unit := make (.guardOverflow target)

def trap (t : Trap) : Build Unit := make (.leave (.trap t))

def fatal (cause : FatalCause) : Build Unit := trap (.fatal cause)

def deoptimize (cause : DeoptCause) : Build Unit := trap (.unhandled (.deoptimize cause))

end Build

end FastPath

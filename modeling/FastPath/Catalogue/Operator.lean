import FastPath.Catalogue.Declaration
import FastPath.Layout

/-!
Operator stubs. Arithmetic and comparisons are done on small integers alone; any other operand, or
a result that does not fit, asks for slower code. Greater-than comparisons exchange their operands.

`instanceof` follows maps from the left operand: from a map to the map of its prototype, until it
meets the instance map of the function, a prototype without a map, or a map that comes back to
itself.
-/

namespace FastPath

inductive UnaryOp where
  | neg
  deriving DecidableEq, Inhabited

namespace UnaryOp

def all : List UnaryOp := [neg]

def symbol : UnaryOp → String
  | neg => "-"

def stubName (op : UnaryOp) : String := "unary/" ++ op.symbol

end UnaryOp

inductive BinaryOp where
  | add
  | sub
  | mul
  | lt
  | le
  | gt
  | ge
  | eq
  | ne
  | instanceOf
  deriving DecidableEq, Inhabited

namespace BinaryOp

def all : List BinaryOp := [add, sub, mul, lt, le, gt, ge, eq, ne, instanceOf]

def symbol : BinaryOp → String
  | add => "+"
  | sub => "-"
  | mul => "*"
  | lt => "<"
  | le => "<="
  | gt => ">"
  | ge => ">="
  | eq => "=="
  | ne => "!="
  | instanceOf => "instanceof"

def stubName (op : BinaryOp) : String := "binary/" ++ op.symbol

def arith? : BinaryOp → Option Arith
  | add => some .add
  | sub => some .sub
  | mul => some .mul
  | _ => none

/-- The comparison, and whether it exchanges its operands. -/
def compare? : BinaryOp → Option (Compare × Bool)
  | lt => some (.lt, false)
  | le => some (.le, false)
  | gt => some (.lt, true)
  | ge => some (.le, true)
  | eq => some (.eq, true)
  | ne => some (.ne, true)
  | _ => none

end BinaryOp

namespace Catalogue

open Build

/-- `(x)` for small integers. -/
def unary (op : UnaryOp) : Template := Build.template do
  let isInt ← block
  let isEntity ← block
  let success ← block
  let overflow ← block
  let x ← stubArg 0
  branch (.isInt x) isInt isEntity
  enter isInt
  let result ← match op with
    | .neg => negate x
  branch .overflowed overflow success
  enter success
  ret result
  enter isEntity
  deoptimize .notIntOperand
  enter overflow
  deoptimize .overflow

/-- `(left, right)` for small integers. -/
def arithmetic (op : Arith) : Template := Build.template do
  let leftInt ← block
  let leftEntity ← block
  let rightInt ← block
  let rightEntity ← block
  let success ← block
  let overflow ← block
  let left ← stubArg 0
  branch (.isInt left) leftInt leftEntity
  enter leftInt
  let right ← stubArg 1
  branch (.isInt right) rightInt rightEntity
  enter rightInt
  let result ← arith op left right
  branch .overflowed overflow success
  enter success
  ret result
  enter leftEntity
  jump rightEntity []
  enter rightEntity
  deoptimize .notIntOperand
  enter overflow
  deoptimize .overflow

/-- `(left, right)` gives a boolean for small integers. -/
def comparison (c : Compare) (swapped : Bool) : Template := Build.template do
  let leftInt ← block
  let leftEntity ← block
  let rightInt ← block
  let rightEntity ← block
  let truthy ← block
  let falsy ← block
  let left ← stubArg 0
  branch (.isInt left) leftInt leftEntity
  enter leftInt
  let right ← stubArg 1
  branch (.isInt right) rightInt rightEntity
  enter rightInt
  let (a, b) := if swapped then (right, left) else (left, right)
  branch (.compareInts c a b) truthy falsy
  enter truthy
  let yes ← literal (.boolean true)
  ret yes
  enter falsy
  let no ← literal (.boolean false)
  ret no
  enter leftEntity
  jump rightEntity []
  enter rightEntity
  deoptimize .notIntOperand

/-- `(obj, fn)` gives whether `fn` has made `obj` or one of its prototypes. -/
def instanceOf : Template := Build.template do
  let isInt ← block
  let isEntity ← block
  let visit ← block
  let map ← param visit
  let onward ← block
  let hasProto ← block
  let again ← block
  let met ← block
  let missed ← block
  let falsy ← block
  let truthy ← block
  let answer ← block
  let result ← param answer
  let obj ← stubArg 0
  let fn ← stubArg 1
  let _ ← callStub checkFunction [fn]
  branch (.isInt obj) isInt isEntity
  enter isInt
  jump missed []
  enter isEntity
  let first ← load obj (← offset "mapOffset")
  jump visit [first]
  enter visit
  let instances ← load fn (← offset "instanceMap")
  branch (.compareWords .eq map instances) met onward
  enter onward
  let proto ← load map (← offset "mapProto")
  branch (.isInt proto) missed hasProto
  enter hasProto
  let next ← load proto (← offset "mapOffset")
  branch (.compareWords .ne next map) again missed
  enter again
  jump visit [next]
  enter met
  jump truthy []
  enter missed
  jump falsy []
  enter falsy
  let no ← literal (.boolean false)
  jump answer [no]
  enter truthy
  let yes ← literal (.boolean true)
  jump answer [yes]
  enter answer
  ret result

def binary (op : BinaryOp) : Template :=
  match op.arith?, op.compare? with
  | some a, _ => arithmetic a
  | none, some (c, swapped) => comparison c swapped
  | none, none => instanceOf

def unaryOperators : List Declaration :=
  UnaryOp.all.map fun op => { name := op.stubName, template := unary op }

def binaryOperators : List Declaration :=
  BinaryOp.all.map fun op =>
    { name := op.stubName, template := binary op,
      config :=
        match op with
        | .instanceOf =>
          { constants :=
            [("mapOffset", Layout.map), ("mapProto", Layout.Map.proto),
             ("instanceMap", Layout.Function.instanceMap)] }
        | _ => {} }

end Catalogue

end FastPath

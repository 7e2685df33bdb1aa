import FastPath.Heap.Error

/-!
Why a stub stops early. A fatal trap reports a violated precondition; the others stand for slow
paths that this layer does not have, so that a caller may collect garbage or fall back to slower
code and try again.
-/

namespace FastPath

inductive FatalCause where
  | notFunction
  | notCallable
  /-- A branch that should never be taken was taken. -/
  | unreachable
  | heapAccess (e : HeapError)
  | notInt
  | missingArgument (index : Nat)
  | callDepth
  /-- The host does not offer the service. -/
  | noService (service : String)
  deriving DecidableEq, Inhabited

/-- Why an operator gave up its fast path. -/
inductive DeoptCause where
  | overflow
  | notIntOperand
  deriving DecidableEq, Inhabited

inductive Gap where
  | collection
  | deoptimize (cause : DeoptCause)
  deriving DecidableEq, Inhabited

inductive Trap where
  | fatal (cause : FatalCause)
  | unhandled (gap : Gap)
  deriving DecidableEq, Inhabited

def FatalCause.message : FatalCause → String
  | notFunction => "target is not a function"
  | notCallable => "value is not callable"
  | unreachable => "unreachable stub branch reached"
  | heapAccess e => "invalid heap access: " ++ e.message
  | notInt => "expected a small integer operand"
  | missingArgument i => "missing stub argument " ++ toString i
  | callDepth => "maximum stub call depth exceeded"
  | noService service => "no runtime entry for " ++ service

def DeoptCause.name : DeoptCause → String
  | overflow => "Overflow"
  | notIntOperand => "NonSmiOperand"

def Gap.message : Gap → String
  | collection => "heap region exhausted, collection required"
  | deoptimize cause => "deoptimization required (" ++ cause.name ++ ")"

namespace Trap

def message : Trap → String
  | fatal cause => "fatal stub trap: " ++ cause.message
  | unhandled gap => "unhandled stub condition: " ++ gap.message

def isFatal : Trap → Bool
  | fatal _ => true
  | unhandled _ => false

/-- A full heap asks for a collection, and every other heap error is fatal. -/
def ofHeapError : HeapError → Trap
  | .exhausted _ _ => .unhandled .collection
  | .notInt _ => .fatal .notInt
  | e => .fatal (.heapAccess e)

end Trap

end FastPath

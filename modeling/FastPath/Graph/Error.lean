/-!
Why a body is refused, by the check of its control flow or when it is compiled.
-/

namespace FastPath

inductive GraphError where
  | unterminated (stub : String) (block : Nat)
  /-- Something was added to a block behind its terminator. -/
  | terminated (stub : String) (block : Nat)
  | unknownBlock (stub : String) (block : Nat)
  /-- A jump does not supply the parameters of its target. -/
  | arity (stub : String) (block given expected : Nat)
  /-- A branch cannot supply parameters. -/
  | branchArity (stub : String) (block : Nat)
  | missingConstant (name : String)
  | missingCache (stub : String)
  | missingCallee (stub callee : String)
  /-- The variables of the stub outnumber what 32 bits hold. No program survives this. -/
  | overflow (stub : String)
  deriving DecidableEq, Inhabited

namespace GraphError

def quoted (name : String) : String := "`" ++ name ++ "`"

def message : GraphError → String
  | unterminated stub block =>
    "block " ++ toString block ++ " of " ++ quoted stub ++ " has no terminator"
  | terminated stub block =>
    "block " ++ toString block ++ " of " ++ quoted stub ++ " is already terminated"
  | unknownBlock stub block => quoted stub ++ " references unknown block " ++ toString block
  | arity stub block given expected =>
    "jump to block " ++ toString block ++ " of " ++ quoted stub ++ " passes " ++ toString given ++
      " args, expected " ++ toString expected
  | branchArity stub block =>
    "branch target " ++ toString block ++ " of " ++ quoted stub ++ " takes parameters"
  | missingConstant name => "stub config has no local " ++ quoted name
  | missingCache stub => quoted stub ++ " uses an inline cache but none was configured"
  | missingCallee stub callee =>
    quoted stub ++ " depends on " ++ quoted callee ++ ", which was not supplied"
  | overflow _ => "arithmetic overflow"

end GraphError

end FastPath

import FastPath.Graph.Error

/-!
What a stub is built with: named constants, such as the offsets of the layout that it is built
for, and the inline cache that it reports to.
-/

namespace FastPath

/-- The number of an inline cache. -/
abbrev CacheId := Nat

structure Config where
  constants : List (String × Int) := []
  cache : Option CacheId := none
  deriving Inhabited

namespace Config

/-- Sets a constant, replacing an earlier one of that name. -/
def set (c : Config) (name : String) (value : Int) : Config :=
  { c with constants := (name, value) :: c.constants.filter (fun p => p.1 != name) }

def constant (c : Config) (name : String) : Except GraphError Int :=
  match c.constants.lookup name with
  | some n => .ok n
  | none => .error (.missingConstant name)

/-- A constant that holds a byte offset; a negative one is as good as missing. -/
def offset (c : Config) (name : String) : Except GraphError Nat := do
  match ← c.constant name with
  | .ofNat n => .ok n
  | .negSucc _ => .error (.missingConstant name)

end Config

end FastPath

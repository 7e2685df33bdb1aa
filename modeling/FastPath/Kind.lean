/-!
The kinds of heap entities. Each kind has a canonical map, and the kinds are numbered in the order
in which a fresh heap lays those maps out.
-/

namespace FastPath

inductive Kind where
  | map
  | boolean
  | field
  | object
  | function
  | accessPair
  | code
  | oddball
  | atom
  deriving DecidableEq, Inhabited

namespace Kind

def all : List Kind :=
  [map, boolean, field, object, function, accessPair, code, oddball, atom]

def index : Kind → Nat
  | map => 0
  | boolean => 1
  | field => 2
  | object => 3
  | function => 4
  | accessPair => 5
  | code => 6
  | oddball => 7
  | atom => 8

def name : Kind → String
  | map => "map"
  | boolean => "boolean"
  | field => "field"
  | object => "object"
  | function => "function"
  | accessPair => "access-pair"
  | code => "code"
  | oddball => "oddball"
  | atom => "atom"

def ofName? (s : String) : Option Kind := all.find? (fun k => k.name == s)

/-- Whether entities of the kind carry object flags and property storage. -/
def objectLike : Kind → Bool
  | object | function => true
  | _ => false

theorem mem_all (k : Kind) : k ∈ all := by
  cases k <;> decide

theorem index_lt (k : Kind) : k.index < 9 := by
  cases k <;> decide

end Kind

end FastPath

import FastPath.Word

/-!
What can go wrong in a heap access: the region is used up, an address is not that of a word of the
region, or a word is of the wrong sort. Addresses and sizes are 64-bit numbers, and the arithmetic
on them is checked: a sum that 64 bits do not hold ends the program.
-/

namespace FastPath

inductive HeapError where
  /-- The request, rounded to whole words, exceeds what is left. -/
  | exhausted (requested available : Nat)
  | outOfBounds (address : Nat)
  | notPointer (found : Word)
  | notInt (found : Word)
  /-- The sum does not fit into 64 bits. No program survives this. -/
  | overflow (sum : Nat)
  deriving DecidableEq, Inhabited

namespace HeapError

def message : HeapError → String
  | exhausted requested available =>
    "heap region exhausted: requested " ++ toString requested ++ " bytes, " ++
      toString available ++ " available"
  | outOfBounds address => "heap access out of bounds at " ++ Word.hexadecimal address
  | notPointer w => "expected a heap pointer, found " ++ w.describe
  | notInt w => "expected a small integer, found " ++ w.describe
  | overflow _ => "arithmetic overflow"

end HeapError

end FastPath

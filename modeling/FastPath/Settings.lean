import FastPath.Heap.Region

/-!
Settings read from text, such as that of environment variables. A setting is a positive decimal
number between blanks, with a plus sign allowed, and counts only if it is below its bound; any
other text leaves the default in place.
-/

namespace FastPath

/-- The characters with the Unicode property White_Space. -/
def isBlank (c : Char) : Bool :=
  let n := c.toNat
  (9 ≤ n && n ≤ 13) || n == 0x20 || n == 0x85 || n == 0xa0 || n == 0x1680 ||
    (0x2000 ≤ n && n ≤ 0x200a) || n == 0x2028 || n == 0x2029 || n == 0x202f || n == 0x205f ||
    n == 0x3000

namespace Settings

def digits : List Char → Option Nat
  | [] => none
  | cs => cs.foldlM (fun n c => if c.isDigit then some (10 * n + (c.toNat - '0'.toNat)) else none) 0

/-- The number that a setting asks for, if it is positive and below `bound`. -/
def positive? (bound : Nat) (text : String) : Option Nat := do
  let trimmed := ((text.toList.dropWhile isBlank).reverse.dropWhile isBlank).reverse
  let unsigned := match trimmed with
    | '+' :: rest => rest
    | all => all
  let n ← digits unsigned
  if 0 < n ∧ n < bound then some n else none

def defaultRegionSize : Nat := 1024 * 1024

/-- Settings below this are raised to it, so that a heap fits. -/
def leastRegionSize : Nat := 4 * 1024

def defaultCallDepth : Nat := 256

def regionSize (text : Option String) : Nat :=
  match text.bind (positive? 0x10000000000000000) with
  | some n => max n leastRegionSize
  | none => defaultRegionSize

def callDepth (text : Option String) : Nat :=
  (text.bind (positive? 0x100000000)).getD defaultCallDepth

end Settings

end FastPath

import FastPath.Word

/-!
Checked arithmetic and comparisons on small integers. `Arith.result?` is the mathematical result
over unbounded integers. `Arith.checked` works it out in 128 bits and keeps what a word can hold of
it: the result itself when it fits, and otherwise its low 64 bits together with a raised overflow
flag.
-/

namespace FastPath

namespace Bits

/-- Bitwise conjunction in 64-bit two's complement. -/
def meet (a b : Int) : Int := (BitVec.ofInt 64 a &&& BitVec.ofInt 64 b).toInt

/-- Bitwise disjunction in 64-bit two's complement. -/
def join (a b : Int) : Int := (BitVec.ofInt 64 a ||| BitVec.ofInt 64 b).toInt

/-- Whether the two share a set bit. -/
def overlap (a b : Int) : Bool := meet a b != 0

end Bits

inductive Arith where
  | add
  | sub
  | mul
  | shl
  | or
  deriving DecidableEq, Inhabited

namespace Arith

def name : Arith → String
  | add => "add"
  | sub => "sub"
  | mul => "mul"
  | shl => "shl"
  | or => "or"

def all : List Arith := [add, sub, mul, shl, or]

/-- A shift has a result only for the 64 distances of a machine word. -/
def result? (op : Arith) (l r : Int) : Option Int :=
  match op with
  | add => some (l + r)
  | sub => some (l - r)
  | mul => some (l * r)
  | shl => if 0 ≤ r ∧ r < 64 then some (l * Int.pow 2 r.toNat) else none
  | or => some (Bits.join l r)

/-- The result as it is worked out, in 128 bits. -/
def wide? (op : Arith) (l r : Int) : Option (BitVec 128) :=
  match op with
  | add => some (.ofInt 128 l + .ofInt 128 r)
  | sub => some (.ofInt 128 l - .ofInt 128 r)
  | mul => some (.ofInt 128 l * .ofInt 128 r)
  | shl => if 0 ≤ r ∧ r < 64 then some (BitVec.ofInt 128 l <<< r.toNat) else none
  | or => some ((BitVec.ofInt 64 l ||| .ofInt 64 r).signExtend 128)

/-- The integer kept of a result, and whether the result left the range of small integers. -/
def checked (op : Arith) (l r : Int) : Int × Bool :=
  match op.wide? l r with
  | none => (0, true)
  | some w => if Word.Fits w.toInt then (w.toInt, false) else ((w.setWidth 64).toInt, true)

end Arith

/-- Comparisons. The two that are missing exchange the operands of `lt` and `le`. -/
inductive Compare where
  | lt
  | le
  | eq
  | ne
  deriving DecidableEq, Inhabited

namespace Compare

def name : Compare → String
  | lt => "lt"
  | le => "le"
  | eq => "eq"
  | ne => "ne"

def all : List Compare := [lt, le, eq, ne]

def holds (c : Compare) (a b : Int) : Bool :=
  match c with
  | lt => a < b
  | le => a ≤ b
  | eq => a == b
  | ne => a != b

end Compare

end FastPath

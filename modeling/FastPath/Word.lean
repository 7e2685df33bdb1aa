/-!
Tagged machine words. A word is a small integer carried inline or the byte address of a heap
entity, and its lowest bit decides which: an odd word holds the integer `n` as `2 * n + 1` modulo
`2 ^ 64`, an even word is an address. The payload has 63 bits, so the integers that fit are those
from `-2 ^ 62` to `2 ^ 62 - 1`. Both readings are written as arithmetic on the value of the word;
exactly one of them succeeds, and encoding its result gives the word back.
-/

namespace FastPath

structure Word where
  raw : UInt64
  deriving DecidableEq, Inhabited

namespace Word

def minInt : Int := -0x4000000000000000

def maxInt : Int := 0x4000000000000000 - 1

/-- The integers a word can carry inline. -/
abbrev Fits (n : Int) : Prop := minInt ≤ n ∧ n ≤ maxInt

def ofNat (n : Nat) : Word := ⟨UInt64.ofNat n⟩

def toNat (w : Word) : Nat := w.raw.toNat

/-- The word that carries the low 63 bits of `n`. -/
def int (n : Int) : Word := ofNat ((2 * n + 1) % 0x10000000000000000).toNat

def ofInt? (n : Int) : Option Word := if Fits n then some (int n) else none

/-- The word that holds the byte address `a`. Addresses are even. -/
def pointer (a : Nat) : Word := ofNat a

def isInt (w : Word) : Bool := w.toNat % 2 == 1

/-- The signed integer among those that fit whose payload is `n`. -/
def signed (n : Nat) : Int := if n < 0x4000000000000000 then n else n - 0x8000000000000000

def int? (w : Word) : Option Int := if w.isInt then some (signed (w.toNat / 2)) else none

def address? (w : Word) : Option Nat := if w.isInt then none else some w.toNat

/-- A number in base sixteen with its mark, as addresses and entry points are shown. -/
def hexadecimal (n : Nat) : String := "0x" ++ String.ofList (Nat.toDigits 16 n)

def describe (w : Word) : String :=
  match w.int? with
  | some n => "Smi(" ++ toString n ++ ")"
  | none => "Ptr(" ++ hexadecimal w.toNat ++ ")"

@[ext] theorem ext_toNat {v w : Word} (h : v.toNat = w.toNat) : v = w := by
  cases v; cases w
  simpa [toNat, UInt64.toNat_inj] using h

theorem toNat_lt (w : Word) : w.toNat < 0x10000000000000000 := w.raw.toNat_lt

@[simp] theorem toNat_ofNat (n : Nat) : (ofNat n).toNat = n % 0x10000000000000000 := by
  simp [ofNat, toNat]

@[simp] theorem ofNat_toNat (w : Word) : ofNat w.toNat = w :=
  ext_toNat (by simpa using Nat.mod_eq_of_lt w.toNat_lt)

theorem toNat_int (n : Int) : (int n).toNat = ((2 * n + 1) % 0x10000000000000000).toNat := by
  rw [int, toNat_ofNat]
  omega

@[simp] theorem isInt_int (n : Int) : (int n).isInt = true := by
  rw [isInt, toNat_int]
  simp only [beq_iff_eq]
  omega

/-- Encoding and decoding keep an integer that fits. -/
theorem int?_int {n : Int} (h : Fits n) : (int n).int? = some n := by
  simp only [int?, isInt_int, if_true, toNat_int, signed]
  obtain ⟨lower, upper⟩ := h
  simp only [minInt, maxInt] at lower upper
  congr 1
  split <;> omega

theorem fits_natCast {n : Nat} (small : n < 0x4000000000000000) : Fits n := by
  constructor <;> simp only [minInt, maxInt] <;> omega

theorem int?_natCast {n : Nat} (small : n < 0x4000000000000000) : (int n).int? = some (n : Int) :=
  int?_int (fits_natCast small)

theorem address?_pointer {a : Nat} (even : a % 2 = 0) (h : a < 0x10000000000000000) :
    (pointer a).address? = some a := by
  have kept : (pointer a).toNat = a := by rw [pointer, toNat_ofNat, Nat.mod_eq_of_lt h]
  simp only [address?, isInt, kept, even]
  rfl

end Word

end FastPath

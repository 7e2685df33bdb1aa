import FastPath.Arith
import FastPath.Proofs.Word
import Mathlib.Data.Int.Bitwise

/-! Checked arithmetic is exact. The 128 bits that a result is worked out in hold all of it, so the
overflow flag is raised exactly when the result is no small integer or there is none, and what is
kept is the result itself or has its low 64 bits. -/

namespace FastPath

namespace Bits

/-- Disjunction bit by bit is the same in any width. -/
theorem ofInt_lor (w : Nat) (a b : Int) :
    BitVec.ofInt w (a.lor b) = BitVec.ofInt w a ||| BitVec.ofInt w b := by
  apply BitVec.eq_of_getLsbD_eq
  intro i inside
  cases a <;> cases b <;>
    simp [-BitVec.getLsbD_eq_getElem, Int.lor, BitVec.getLsbD_ofNat, Nat.testBit_ldiff, inside,
      Bool.or_comm]

theorem ldiff_le (m n : Nat) : m.ldiff n ≤ m := by
  have within : m &&& m.ldiff n = m.ldiff n := by
    apply Nat.eq_of_testBit_eq
    intro i
    simp [Nat.testBit_ldiff]
  exact within ▸ Nat.and_le_left

variable {a b : Int}

theorem lor_fits (left : Word.Fits a) (right : Word.Fits b) : Word.Fits (a.lor b) := by
  simp only [Word.Fits, Word.minInt, Word.maxInt] at left right ⊢
  cases a with
  | ofNat m =>
    cases b with
    | ofNat n =>
      simp only [Int.ofNat_eq_natCast] at left right
      have small : m ||| n < 2 ^ 62 := Nat.or_lt_two_pow (by omega) (by omega)
      simp only [Int.lor]
      omega
    | negSucc n =>
      have small := ldiff_le n m
      simp only [Int.lor]
      omega
  | negSucc m =>
    cases b with
    | ofNat n =>
      have small := ldiff_le m n
      simp only [Int.lor]
      omega
    | negSucc n =>
      have small : m &&& n ≤ m := Nat.and_le_left
      simp only [Int.lor]
      omega

theorem join_eq_lor (left : Word.Fits a) (right : Word.Fits b) : join a b = a.lor b := by
  obtain ⟨lower, upper⟩ := lor_fits left right
  simp only [Word.minInt, Word.maxInt] at lower upper
  rw [join, ← ofInt_lor, BitVec.toInt_ofInt]
  apply Int.bmod_eq_of_le_mul_two
  · omega
  · omega

end Bits

namespace Arith

variable {op : Arith} {l r e : Int}

theorem shiftLeft_ofInt (w k : Nat) (l : Int) :
    BitVec.ofInt w l <<< k = BitVec.ofInt w (l * Int.pow 2 k) := by
  rw [BitVec.ofInt_mul, BitVec.shiftLeft_eq_mul_twoPow]
  have power : Int.pow 2 k = ((2 ^ k : Nat) : Int) := (Int.natCast_pow 2 k).symm
  rw [power, BitVec.ofInt_natCast]
  congr 1
  apply BitVec.eq_of_toNat_eq
  rw [BitVec.toNat_twoPow, BitVec.toNat_ofNat]

/-- What is worked out are the low 128 bits of the result. -/
theorem wide?_eq (op : Arith) (l r : Int) : op.wide? l r = (op.result? l r).map (.ofInt 128) := by
  cases op with
  | add => exact congrArg some (BitVec.ofInt_add l r).symm
  | sub =>
    rw [wide?, result?, Int.sub_eq_add_neg, Option.map_some, BitVec.ofInt_add, BitVec.ofInt_neg,
      BitVec.sub_eq_add_neg]
  | mul => exact congrArg some (BitVec.ofInt_mul l r).symm
  | shl =>
    simp only [wide?, result?]
    split
    next => exact congrArg some (shiftLeft_ofInt 128 r.toNat l)
    next => rfl
  | or => rfl

theorem toInt_ofInt_of_small (lower : -0x80000000000000000000000000000000 ≤ e)
    (upper : e < 0x80000000000000000000000000000000) : (BitVec.ofInt 128 e).toInt = e := by
  rw [BitVec.toInt_ofInt]
  apply Int.bmod_eq_of_le_mul_two
  · omega
  · omega

theorem toInt_ofInt_of_fits (fits : Word.Fits e) : (BitVec.ofInt 128 e).toInt = e := by
  obtain ⟨lower, upper⟩ := fits
  simp only [Word.minInt, Word.maxInt] at lower upper
  exact toInt_ofInt_of_small (by omega) (by omega)

theorem toInt_setWidth_ofInt (e : Int) :
    ((BitVec.ofInt 128 e).setWidth 64).toInt = e.bmod 0x10000000000000000 := by
  rw [← BitVec.signExtend_eq_setWidth_of_le _ (by decide), BitVec.toInt_signExtend,
    BitVec.toInt_ofInt]
  exact Int.bmod_bmod_of_dvd (by decide)

theorem natAbs_le_of_fits (fits : Word.Fits e) : e.natAbs ≤ 0x4000000000000000 := by
  obtain ⟨lower, upper⟩ := fits
  simp only [Word.minInt, Word.maxInt] at lower upper
  omega

/-- A product of a small integer and a factor of at most 64 bits. -/
theorem natAbs_mul_le (left : Word.Fits l) (right : r.natAbs ≤ 0x8000000000000000) :
    (l * r).natAbs ≤ 0x20000000000000000000000000000000 := by
  rw [Int.natAbs_mul]
  exact Nat.mul_le_mul (natAbs_le_of_fits left) right

theorem natAbs_result_le (left : Word.Fits l) (right : Word.Fits r)
    (result : op.result? l r = some e) : e.natAbs ≤ 0x20000000000000000000000000000000 := by
  have wide := natAbs_le_of_fits left
  have wide' := natAbs_le_of_fits right
  cases op with
  | add =>
    cases result
    omega
  | sub =>
    cases result
    omega
  | mul =>
    cases result
    exact natAbs_mul_le left (by omega)
  | shl =>
    simp only [result?] at result
    split at result
    next distance =>
      cases result
      apply natAbs_mul_le left
      have power : (Int.pow 2 r.toNat).natAbs = 2 ^ r.toNat := Int.natAbs_pow 2 r.toNat
      rw [power]
      exact Nat.pow_le_pow_right (by decide) (by omega : r.toNat ≤ 63)
    next => cases result
  | or =>
    cases result
    rw [Bits.join_eq_lor left right]
    have small := natAbs_le_of_fits (Bits.lor_fits left right)
    omega

/-- 128 bits hold the result of small integers. -/
theorem wide?_exact (op : Arith) (left : Word.Fits l) (right : Word.Fits r) :
    (op.wide? l r).map BitVec.toInt = op.result? l r := by
  rw [wide?_eq]
  cases result : op.result? l r with
  | none => rfl
  | some e =>
    have small := natAbs_result_le left right result
    exact congrArg some (toInt_ofInt_of_small (by omega) (by omega))

theorem checked_of_none (result : op.result? l r = none) : op.checked l r = (0, true) := by
  rw [checked, wide?_eq, result]
  rfl

theorem checked_of_some (result : op.result? l r = some e) :
    op.checked l r = if Word.Fits (BitVec.ofInt 128 e).toInt
      then ((BitVec.ofInt 128 e).toInt, false) else (e.bmod 0x10000000000000000, true) := by
  rw [checked, wide?_eq, result, ← toInt_setWidth_ofInt]
  rfl

theorem checked_of_fits (result : op.result? l r = some e) (fits : Word.Fits e) :
    op.checked l r = (e, false) := by
  rw [checked_of_some result, toInt_ofInt_of_fits fits]
  exact if_pos fits

theorem checked_of_large (left : Word.Fits l) (right : Word.Fits r)
    (result : op.result? l r = some e) (large : ¬Word.Fits e) :
    op.checked l r = (e.bmod 0x10000000000000000, true) := by
  have small := natAbs_result_le left right result
  rw [checked_of_some result, toInt_ofInt_of_small (by omega) (by omega)]
  exact if_neg large

theorem checked_modEq (result : op.result? l r = some e) :
    (op.checked l r).1 ≡ e [ZMOD 0x10000000000000000] := by
  rw [checked_of_some result]
  split
  next =>
    rw [BitVec.toInt_ofInt]
    exact Int.ModEq.of_dvd (by decide) (Int.bmod_emod)
  next => exact Int.bmod_emod

end Arith

/-- The word of an outcome carries the low bits of the result, whether it fits or not. -/
theorem Word.int_checked {op : Arith} {l r e : Int} (result : op.result? l r = some e) :
    int (op.checked l r).1 = int e := by
  have same := (Arith.checked_modEq result).of_dvd (m := 0x8000000000000000) (by decide)
  rw [← int_carried (op.checked l r).1, carried_congr same, int_carried]

namespace Arith

variable {op : Arith} {l r e : Int}

theorem checked_eq_false_iff (left : Word.Fits l) (right : Word.Fits r) :
    op.checked l r = (e, false) ↔ op.result? l r = some e ∧ Word.Fits e := by
  constructor
  · intro kept
    cases result : op.result? l r with
    | none =>
      rw [checked_of_none result] at kept
      cases kept
    | some k =>
      by_cases fits : Word.Fits k
      · rw [checked_of_fits result fits] at kept
        cases kept
        exact ⟨rfl, fits⟩
      · rw [checked_of_large left right result fits] at kept
        cases kept
  · rintro ⟨result, fits⟩
    exact checked_of_fits result fits

theorem bmod_bounds (e : Int) : -0x8000000000000000 ≤ e.bmod 0x10000000000000000 ∧
    e.bmod 0x10000000000000000 < 0x8000000000000000 := by
  constructor
  · exact Int.le_bmod (by decide)
  · exact Int.bmod_lt (by decide)

/-- Checked arithmetic on small integers. The flag stays down exactly when there is a result that is
again a small integer, and then it is what is kept. Otherwise the flag is raised over the low 64
bits of the result, read with their sign, or over zero where there is none. No bit is lost on the
way, a disjunction never overflows, and the word of the outcome carries the only small integer with
the same low 63 bits. -/
theorem checked_exact (op : Arith) {l r : Int} (left : Word.Fits l) (right : Word.Fits r) :
    (∀ e, op.checked l r = (e, false) ↔ op.result? l r = some e ∧ Word.Fits e) ∧
    (∀ e, op.result? l r = some e → ¬Word.Fits e → ∃ v, op.checked l r = (v, true) ∧
      v ≡ e [ZMOD 0x10000000000000000] ∧ -0x8000000000000000 ≤ v ∧ v < 0x8000000000000000) ∧
    (op.result? l r = none → op.checked l r = (0, true)) ∧
    (op.wide? l r).map BitVec.toInt = op.result? l r ∧
    (or.result? l r = some (l.lor r) ∧ (or.checked l r).2 = false) ∧
    ∃ m, (Word.int (op.checked l r).1).int? = some m ∧
      ∀ k, Word.Fits k ∧ k ≡ (op.checked l r).1 [ZMOD 0x8000000000000000] ↔ k = m := by
  have disjunction : or.result? l r = some (l.lor r) :=
    congrArg some (Bits.join_eq_lor left right)
  constructor
  · intro e
    exact checked_eq_false_iff left right
  constructor
  · intro e result large
    obtain ⟨lower, upper⟩ := bmod_bounds e
    exact ⟨_, checked_of_large left right result large, Int.bmod_emod, lower, upper⟩
  constructor
  · exact checked_of_none
  constructor
  · exact wide?_exact op left right
  constructor
  · rw [checked_of_fits disjunction (Bits.lor_fits left right)]
    exact ⟨disjunction, rfl⟩
  · exact ⟨_, Word.int?_carried _, fun k => Word.eq_carried_iff⟩

/-- The square of the largest small integer takes 124 bits, and what is kept of it is negative. -/
theorem largest_square_checked :
    Word.Fits Word.maxInt ∧
    (∃ v, mul.checked Word.maxInt Word.maxInt = (v, true) ∧
      v ≡ Word.maxInt * Word.maxInt [ZMOD 0x10000000000000000] ∧
      -0x8000000000000000 ≤ v ∧ v < 0x8000000000000000) ∧
    mul.checked Word.maxInt Word.maxInt = (-0x7FFFFFFFFFFFFFFF, true) := by
  have largest : Word.Fits Word.maxInt := by decide
  have overflow := (checked_exact mul largest largest).2.1 (Word.maxInt * Word.maxInt) rfl
  constructor
  · exact largest
  constructor
  · exact overflow (by decide)
  · decide

end Arith

end FastPath

import FastPath.Word
import Mathlib.Data.Int.ModEq

/-! Words and what they carry. Every word has one reading, as a small integer or as an even address,
and encoding what was read gives the word back. An integer that is too large is encoded as the small
one with the same low 63 bits. -/

namespace FastPath

namespace Word

variable {w : Word} {m n : Int} {a : Nat}

theorem isInt_aligned (aligned : w.toNat % 8 = 0) : w.isInt = false := by
  rw [isInt, beq_eq_false_iff_ne]
  omega

theorem address?_aligned (aligned : w.toNat % 8 = 0) : w.address? = some w.toNat := by
  rw [address?, isInt_aligned aligned]
  rfl

theorem toNat_pointer (small : a < 0x10000000000000000) : (pointer a).toNat = a := by
  rw [pointer, toNat_ofNat, Nat.mod_eq_of_lt small]

theorem isInt_pointer (even : a % 2 = 0) : (pointer a).isInt = false := by
  rw [isInt, pointer, toNat_ofNat, beq_eq_false_iff_ne]
  omega

theorem int_of_int? (read : w.int? = some n) : w = int n := by
  unfold int? at read
  split at read
  next odd =>
    cases read
    apply ext_toNat
    have small := w.toNat_lt
    rw [isInt, beq_iff_eq] at odd
    rw [toNat_int, signed]
    split <;> omega
  next => cases read

theorem int?_fits (read : w.int? = some n) : Fits n := by
  unfold int? at read
  split at read
  next =>
    cases read
    have small := w.toNat_lt
    simp only [Fits, minInt, maxInt, signed]
    split <;> omega
  next => cases read

/-- The small integer that a word carries for `n`. -/
def carried (n : Int) : Int := n.bmod 0x8000000000000000

theorem carried_of_fits (fits : Fits n) : carried n = n := by
  obtain ⟨lower, upper⟩ := fits
  simp only [minInt, maxInt] at lower upper
  simp only [carried, Int.bmod_def]
  split <;> omega

theorem fits_carried (n : Int) : Fits (carried n) := by
  simp only [Fits, minInt, maxInt, carried, Int.bmod_def]
  split <;> omega

theorem int?_carried (n : Int) : (int n).int? = some (carried n) := by
  simp only [int?, isInt_int, if_true, toNat_int, signed]
  congr 1
  simp only [carried, Int.bmod_def]
  split <;> split <;> omega

theorem int_carried (n : Int) : int (carried n) = int n := by
  apply ext_toNat
  rw [toNat_int, toNat_int]
  simp only [carried, Int.bmod_def]
  split <;> omega

/-- No other small integer has the same low 63 bits. -/
theorem eq_carried_iff : Fits m ∧ m ≡ n [ZMOD 0x8000000000000000] ↔ m = carried n := by
  constructor
  · rintro ⟨⟨lower, upper⟩, same⟩
    simp only [minInt, maxInt] at lower upper
    simp only [Int.ModEq] at same
    simp only [carried, Int.bmod_def]
    split <;> omega
  · rintro rfl
    constructor
    · exact fits_carried n
    · simp only [Int.ModEq, carried, Int.bmod_def]
      split <;> omega

theorem carried_congr (same : m ≡ n [ZMOD 0x8000000000000000]) : carried m = carried n :=
  eq_carried_iff.mp ⟨fits_carried m, (eq_carried_iff.mpr rfl).2.trans same⟩

theorem ofInt?_eq_some_iff : ofInt? n = some w ↔ w.int? = some n := by
  constructor
  · intro encoded
    unfold ofInt? at encoded
    split at encoded
    next fits =>
      cases encoded
      exact int?_int fits
    next => cases encoded
  · intro read
    rw [ofInt?, if_pos (int?_fits read), ← int_of_int? read]

theorem address?_eq_some_iff : w.address? = some a ↔ w.isInt = false ∧ w.toNat = a := by
  unfold address?
  cases w.isInt <;> simp

theorem pointer_of_address? (read : w.address? = some a) : pointer a = w := by
  obtain ⟨_, rfl⟩ := address?_eq_some_iff.mp read
  exact ofNat_toNat w

theorem address?_of_int? (read : w.int? = some n) : w.address? = none := by
  rw [int_of_int? read, address?, isInt_int]
  rfl

/-- A word is read as an integer or as an address and never as both. -/
theorem reads_once (w : Word) : w.address?.isSome = !w.int?.isSome := by
  unfold int? address?
  cases w.isInt <;> rfl

/-- What a word can carry. -/
inductive Payload where
  | int (n : Int) (fits : Fits n)
  | address (a : Nat) (even : a % 2 = 0) (small : a < 0x10000000000000000)

def Payload.encode : Payload → Word
  | .int n _ => Word.int n
  | .address a _ _ => pointer a

theorem Payload.encode_injective : Function.Injective encode := by
  intro p q same
  cases p with
  | int m fits =>
    cases q with
    | int n fits' =>
      have read : (Word.int m).int? = (Word.int n).int? := congrArg Word.int? same
      rw [int?_int fits, int?_int fits'] at read
      cases read
      rfl
    | address b even' small' =>
      have tag : (Word.int m).isInt = (pointer b).isInt := congrArg isInt same
      rw [isInt_int, isInt_pointer even'] at tag
      cases tag
  | address a even small =>
    cases q with
    | int n fits' =>
      have tag : (pointer a).isInt = (Word.int n).isInt := congrArg isInt same
      rw [isInt_int, isInt_pointer even] at tag
      cases tag
    | address b even' small' =>
      have read : (pointer a).toNat = (pointer b).toNat := congrArg toNat same
      rw [toNat_pointer small, toNat_pointer small'] at read
      cases read
      rfl

theorem Payload.encode_surjective : Function.Surjective encode := by
  intro w
  cases tag : w.isInt with
  | true =>
    have read : w.int? = some (signed (w.toNat / 2)) := if_pos tag
    exact ⟨.int _ (int?_fits read), (int_of_int? read).symm⟩
  | false =>
    have even : w.toNat % 2 = 0 := by
      rw [isInt, beq_eq_false_iff_ne] at tag
      omega
    exact ⟨.address w.toNat even w.toNat_lt, ofNat_toNat w⟩

section

/-! In bits, the payload of an integer stands above the tag and is shifted down with its sign. -/

theorem raw_int (n : Int64) : (int n.toInt).raw = n.toUInt64 <<< 1 ||| 1 := by
  have payload : n.toInt = (n.toUInt64.toNat : Int).bmod 0x10000000000000000 :=
    BitVec.toInt_eq_toNat_bmod n.toBitVec
  have small := n.toUInt64.toNat_lt
  have shifted : n.toUInt64.toNat <<< 1 % 0x10000000000000000 =
      2 * (n.toUInt64.toNat % 0x8000000000000000) := by
    rw [Nat.shiftLeft_eq]
    omega
  have tagged (k : Nat) : 2 * k ||| 1 = 2 * k + 1 :=
    (Nat.two_pow_add_eq_or_of_lt (i := 1) (by decide) k).symm
  rw [← UInt64.toNat_inj, UInt64.toNat_or, UInt64.toNat_shiftLeft]
  change (int n.toInt).toNat = n.toUInt64.toNat <<< 1 % 0x10000000000000000 ||| 1
  rw [toNat_int, shifted, tagged, payload, Int.bmod_def]
  split <;> omega

theorem isInt_iff_tagged : w.isInt = true ↔ w.raw &&& 1 = 1 := by
  rw [isInt, beq_iff_eq, ← UInt64.toNat_inj, UInt64.toNat_and, toNat]
  exact (Nat.and_one_is_mod _).symm ▸ Iff.rfl

theorem int?_tagged (tagged : w.raw &&& 1 = 1) : w.int? = some (w.raw.toInt64 >>> 1).toInt := by
  have payload : w.raw.toInt64.toInt = (w.toNat : Int).bmod 0x10000000000000000 :=
    BitVec.toInt_eq_toNat_bmod w.raw.toBitVec
  have shifted : (w.raw.toInt64 >>> 1).toInt = w.raw.toInt64.toInt / 2 := by
    have one : ((1 : Int64).toBitVec.smod 64).toNat = 1 := by decide
    rw [← Int64.toInt_toBitVec, Int64.toBitVec_shiftRight, BitVec.sshiftRight', one,
      BitVec.toInt_sshiftRight, Int.shiftRight_eq_div_pow]
    rfl
  have small := w.toNat_lt
  have read : w.int? = some (signed (w.toNat / 2)) := if_pos (isInt_iff_tagged.mpr tagged)
  rw [read, shifted, payload]
  apply congrArg some
  simp only [signed, Int.bmod_def]
  split <;> split <;> omega

theorem address?_untagged (untagged : w.raw &&& 1 ≠ 1) : w.address? = some w.raw.toNat := by
  apply if_neg
  rwa [isInt_iff_tagged]

end

/-- Words and their readings correspond. A word is read either as a small integer or as an address,
and encoding the reading gives the word back. Exactly the integers of 63 bits are accepted, and are
read back; any other one is carried as the small one that it is congruent to. Different integers and
addresses have different words, which are made and read by shifting past a tag. -/
theorem words_round_trip :
    (∀ w : Word, w.address?.isSome = !w.int?.isSome ∧
      (∀ n, w.int? = some n → ofInt? n = some w) ∧ ∀ a, w.address? = some a → pointer a = w) ∧
    (∀ n, ((ofInt? n).isSome = true ↔ -0x4000000000000000 ≤ n ∧ n < 0x4000000000000000) ∧
      ∀ w, ofInt? n = some w → w.int? = some n ∧ w.address? = none) ∧
    (∀ n, (∃ m, (int n).int? = some m ∧
        ∀ k, Fits k ∧ k ≡ n [ZMOD 0x8000000000000000] ↔ k = m) ∧
      (Fits n → ofInt? n = some (int n))) ∧
    (∀ k : Int32, ofInt? k.toInt = some (int k.toInt)) ∧
    Function.Bijective Payload.encode ∧
    (∀ n : Int64, (int n.toInt).raw = n.toUInt64 <<< 1 ||| 1) ∧
    ∀ w : Word, (w.raw &&& 1 = 1 → w.int? = some (w.raw.toInt64 >>> 1).toInt) ∧
      (w.raw &&& 1 ≠ 1 → w.address? = some w.raw.toNat) := by
  have accepted (n : Int) :
      (ofInt? n).isSome = true ↔ -0x4000000000000000 ≤ n ∧ n < 0x4000000000000000 := by
    rw [ofInt?, Option.isSome_ite, Fits, minInt, maxInt]
    omega
  have short (k : Int32) : Fits k.toInt := by
    have lower := BitVec.le_two_mul_toInt (x := k.toBitVec)
    have upper := BitVec.two_mul_toInt_lt (x := k.toBitVec)
    rw [Int32.toInt_toBitVec] at lower upper
    simp only [Fits, minInt, maxInt]
    omega
  constructor
  · intro w
    exact ⟨w.reads_once, fun n => ofInt?_eq_some_iff.mpr, fun a => pointer_of_address?⟩
  constructor
  · intro n
    refine ⟨accepted n, fun w encoded => ?_⟩
    have read := ofInt?_eq_some_iff.mp encoded
    exact ⟨read, address?_of_int? read⟩
  constructor
  · intro n
    exact ⟨⟨carried n, int?_carried n, fun k => eq_carried_iff⟩, fun fits => if_pos fits⟩
  constructor
  · intro k
    exact if_pos (short k)
  constructor
  · exact ⟨Payload.encode_injective, Payload.encode_surjective⟩
  constructor
  · exact raw_int
  · intro w
    exact ⟨int?_tagged, address?_untagged⟩

/-- The least integer and the one above the greatest, which is carried as the least. -/
theorem extremes_round_trip :
    ofInt? minInt = some (int minInt) ∧ (int minInt).int? = some minInt ∧
      (int minInt).address? = none ∧ ofInt? (maxInt + 1) = none ∧
      (int (maxInt + 1)).int? = some minInt := by
  obtain ⟨_, accepted, wrapped, _⟩ := words_round_trip
  have encoded : ofInt? minInt = some (int minInt) := (wrapped minInt).2 (by decide)
  obtain ⟨read, apart⟩ := (accepted minInt).2 _ encoded
  obtain ⟨m, carried, only⟩ := (wrapped (maxInt + 1)).1
  have least : minInt = m := (only minInt).mp (by decide)
  constructor
  · exact encoded
  constructor
  · exact read
  constructor
  · exact apart
  constructor
  · rw [← Option.not_isSome_iff_eq_none, (accepted (maxInt + 1)).1]
    decide
  · rw [carried, least]

end Word

end FastPath

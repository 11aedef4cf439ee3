import Mathlib

/-! # Signed 32-bit words

Order, absolute value and shifts of `Int32`, read off the integer a word stands for.
`abs` keeps the least word: it has no positive counterpart.
-/
namespace SignedWords

variable {a b x : Int32}

/-! ## The smaller and the greater of two -/

theorem min_of_le (h : a ≤ b) : min a b = a := if_pos h

theorem min_of_ge (h : b ≤ a) : min a b = b := by
  show (if a ≤ b then a else b) = b
  split
  · exact Int32.le_antisymm ‹_› h
  · rfl

theorem max_of_le (h : a ≤ b) : max a b = b := if_pos h

theorem max_of_ge (h : b ≤ a) : max a b = a := by
  show (if a ≤ b then b else a) = a
  split
  · exact Int32.le_antisymm h ‹_›
  · rfl

theorem min_eq_ite (a b : Int32) : min a b = if a < b then a else b := by
  split
  · exact min_of_le (Int32.le_of_lt ‹_›)
  · exact min_of_ge (Int32.not_lt.1 ‹_›)

theorem max_eq_ite (a b : Int32) : max a b = if a > b then a else b := by
  split
  · exact max_of_ge (Int32.le_of_lt ‹_›)
  · exact max_of_le (Int32.not_lt.1 ‹_›)

/-- A running extreme moves where the new value passes it. -/
theorem min_held (a b : Int32) : min a b = if b < a then b else a := by
  split
  · exact min_of_ge (Int32.le_of_lt ‹_›)
  · exact min_of_le (Int32.not_lt.1 ‹_›)

theorem max_held (a b : Int32) : max a b = if b > a then b else a := by
  split
  · exact max_of_le (Int32.le_of_lt ‹_›)
  · exact max_of_ge (Int32.not_lt.1 ‹_›)

theorem toInt_min (a b : Int32) : (min a b).toInt = min a.toInt b.toInt := by
  rw [min_eq_ite]
  split
  · exact (min_eq_left (Int32.lt_iff_toInt_lt.1 ‹_›).le).symm
  · exact (min_eq_right (Int32.le_iff_toInt_le.1 (Int32.not_lt.1 ‹_›))).symm

theorem toInt_max (a b : Int32) : (max a b).toInt = max a.toInt b.toInt := by
  rw [max_eq_ite]
  split
  · exact (max_eq_left (Int32.lt_iff_toInt_lt.1 ‹_›).le).symm
  · exact (max_eq_right (Int32.le_iff_toInt_le.1 (Int32.not_lt.1 ‹_›))).symm

/-! ## Absolute value -/

theorem msb_eq : x.toBitVec.msb = decide (x.toInt < 0) :=
  BitVec.msb_eq_toInt

theorem abs_of_nonneg (h : x ≥ 0) : x.abs = x := by
  have nonneg : 0 ≤ x.toInt := Int32.le_iff_toInt_le.1 h
  have msb : x.toBitVec.msb = false := by
    rw [msb_eq]
    exact decide_eq_false (not_lt.2 nonneg)
  apply Int32.toBitVec_inj.1
  show x.toBitVec.abs = x.toBitVec
  rw [BitVec.abs, msb]
  rfl

theorem abs_of_neg (h : ¬x ≥ 0) : x.abs = -x := by
  have neg : x.toInt < 0 := not_le.1 fun nonneg => h (Int32.le_iff_toInt_le.2 nonneg)
  have msb : x.toBitVec.msb = true := by
    rw [msb_eq]
    exact decide_eq_true neg
  apply Int32.toBitVec_inj.1
  show x.toBitVec.abs = -x.toBitVec
  rw [BitVec.abs, msb]
  rfl

theorem ne_intMin (h : x ≠ Int32.minValue) : x.toBitVec ≠ BitVec.intMin 32 :=
  fun eq => h (Int32.toBitVec_inj.1 eq)

theorem toInt_abs (h : x ≠ Int32.minValue) : x.abs.toInt = x.toInt.natAbs :=
  BitVec.toInt_abs_eq_natAbs_of_ne_intMin (ne_intMin h)

theorem abs_nonneg (h : x ≠ Int32.minValue) : x.abs ≥ 0 := by
  apply Int32.le_iff_toInt_le.2
  rw [toInt_abs h]
  exact Int.natCast_nonneg _

theorem eq_zero_of_abs (h : x.abs = 0) : x = 0 := by
  by_cases least : x = Int32.minValue
  · subst least
    exact absurd h (by decide)
  · have zero := toInt_abs least
    rw [h] at zero
    exact Int32.toInt_inj.1 (Int.natAbs_eq_zero.1 (Int.natCast_eq_zero.1 zero.symm))

theorem ne_minValue_of_nonneg (h : x ≥ 0) : x ≠ Int32.minValue := by
  rintro rfl
  revert h
  decide

/-- The absolute value taken in 64 bits and narrowed. -/
theorem toInt64_abs (x : Int32) : x.toInt64.abs.toUInt64.toUInt32.toInt32 = x.abs := by
  apply Int32.toBitVec_inj.1
  have msb : (x.toBitVec.signExtend 64).msb = x.toBitVec.msb := by
    simp [BitVec.msb_signExtend]
  have low : (x.toBitVec.signExtend 64).setWidth 32 = x.toBitVec := by
    rw [← BitVec.signExtend_eq_setWidth_of_le _ (by decide)]
    exact congrArg Int32.toBitVec (Int32.toInt32_toInt64 x)
  show BitVec.setWidth 32 (BitVec.abs (x.toBitVec.signExtend 64)) = x.toBitVec.abs
  rw [BitVec.abs, BitVec.abs, msb]
  cases x.toBitVec.msb with
  | false => simpa using low
  | true =>
    show BitVec.setWidth 32 (-(x.toBitVec.signExtend 64)) = -x.toBitVec
    rw [BitVec.setWidth_neg_of_le (by decide), low]

/-! ## Shifts -/

/-- A shift right divides, rounding down; `n` is what the shift counts for. -/
theorem toInt_shiftRight {k : Int32} {n : Nat} (hk : (k.toBitVec.smod 32).toNat = n) :
    (x >>> k).toInt = x.toInt / 2 ^ n := by
  show (x.toBitVec.sshiftRight' (k.toBitVec.smod 32)).toInt = x.toBitVec.toInt / 2 ^ n
  rw [BitVec.sshiftRight', hk, BitVec.toInt_sshiftRight, Int.shiftRight_eq_div_pow]
  norm_cast

/-- Sixteen more bits always fit in 64. -/
theorem toInt_widen_shiftLeft (x : Int32) : (x.toInt64 <<< 16).toInt = x.toInt * 65536 := by
  have mul : x.toInt64 <<< 16 = x.toInt64 * 65536 := by
    apply Int64.toBitVec_inj.1
    show x.toInt64.toBitVec <<< (16 : BitVec 64) = x.toInt64.toBitVec * 65536#64
    rw [BitVec.shiftLeft_eq', BitVec.shiftLeft_eq_mul_twoPow]
    rfl
  have unit : Int64.toInt 65536 = 65536 := by decide
  have low := x.le_toInt
  have high := x.toInt_lt
  rw [mul, Int64.toInt_mul, Int32.toInt_toInt64, unit]
  apply Int.bmod_eq_of_le <;> norm_num <;> omega

/-- Keeping the low `n` bits leaves the remainder. -/
theorem toInt_and_mask {mask : Int32} {n : Nat} (hn : n < 32)
    (hmask : mask.toBitVec.toNat = 2 ^ n - 1) : (x &&& mask).toInt = x.toInt % 2 ^ n := by
  have unsigned : (x.toBitVec &&& mask.toBitVec).toNat = x.toBitVec.toNat % 2 ^ n := by
    rw [BitVec.toNat_and, hmask, Nat.and_two_pow_sub_one_eq_mod]
  have small : 2 ^ n ≤ 2 ^ 31 := Nat.pow_le_pow_right (by decide) (by omega)
  have less : x.toBitVec.toNat % 2 ^ n < 2 ^ n := Nat.mod_lt _ (by positivity)
  have turns : ((2 : Int) ^ n) ∣ 4294967296 := pow_dvd_pow 2 hn.le
  show (x.toBitVec &&& mask.toBitVec).toInt = x.toBitVec.toInt % 2 ^ n
  rw [BitVec.toInt_eq_toNat_of_lt (by omega), unsigned, BitVec.toInt_eq_toNat_bmod, Int.bmod_def]
  push_cast
  split
  · rw [Int.emod_emod_of_dvd _ turns]
  · rw [Int.sub_emod, Int.emod_eq_zero_of_dvd turns, sub_zero, Int.emod_emod,
      Int.emod_emod_of_dvd _ turns]

/-! ## Words given by an integer -/

/-- An integer that 32 bits hold. -/
def Fits32 (n : Int) : Prop := -2147483648 ≤ n ∧ n < 2147483648

instance (n : Int) : Decidable (Fits32 n) := inferInstanceAs (Decidable (_ ∧ _))

theorem toInt_ofInt {n : Int} (h : Fits32 n) : (Int32.ofInt n).toInt = n :=
  Int32.toInt_ofInt_of_le h.1 h.2

theorem ofInt_sub (a b : Int32) : Int32.ofInt (a.toInt - b.toInt) = a - b := by
  rw [Int32.ofInt_sub, Int32.ofInt_toInt, Int32.ofInt_toInt]

theorem toInt_add {a b : Int32} (fits : Fits32 (a.toInt + b.toInt)) :
    (a + b).toInt = a.toInt + b.toInt := by
  rw [← toInt_ofInt fits, Int32.ofInt_add, Int32.ofInt_toInt, Int32.ofInt_toInt]

theorem toInt_sub {a b : Int32} (fits : Fits32 (a.toInt - b.toInt)) :
    (a - b).toInt = a.toInt - b.toInt := by
  rw [← toInt_ofInt fits, ofInt_sub]

/-- An absolute value that may need one bit more than a word has. -/
theorem ofInt_abs {n : Int} (h : Fits32 n) : Int32.ofInt |n| = (Int32.ofInt n).abs := by
  have value := toInt_ofInt h
  by_cases nonneg : 0 ≤ n
  · have word : Int32.ofInt n ≥ 0 := Int32.le_iff_toInt_le.2 (by rw [value]; exact nonneg)
    rw [abs_of_nonneg word, abs_eq_self.2 nonneg]
  · have word : ¬Int32.ofInt n ≥ 0 := fun le =>
      nonneg (by rw [← value]; exact Int32.le_iff_toInt_le.1 le)
    rw [abs_of_neg word, abs_eq_neg_self.2 (not_le.1 nonneg).le, Int32.neg_ofInt]

/-! ## Widening -/

/-- A difference that 32 bits hold. -/
def NoWrap (a b : Int32) : Prop := (a - b).toInt = a.toInt - b.toInt

instance (a b : Int32) : Decidable (NoWrap a b) := inferInstanceAs (Decidable (_ = _))

theorem widen_sub (h : NoWrap a b) : a.toInt64 - b.toInt64 = (a - b).toInt64 := by
  apply Int64.toInt_inj.1
  have low := (a - b).le_toInt
  have high := (a - b).toInt_lt
  rw [Int64.toInt_sub, Int32.toInt_toInt64, Int32.toInt_toInt64, Int32.toInt_toInt64, ← h]
  generalize (a - b).toInt = difference at low high
  apply Int.bmod_eq_of_le <;> norm_num <;> omega

theorem widen_inj : a.toInt64 = b.toInt64 ↔ a = b := by
  rw [← Int64.toInt_inj, Int32.toInt_toInt64, Int32.toInt_toInt64, Int32.toInt_inj]

theorem widen_le : a.toInt64 ≤ b.toInt64 ↔ a ≤ b := by
  rw [Int64.le_iff_toInt_le, Int32.toInt_toInt64, Int32.toInt_toInt64, Int32.le_iff_toInt_le]

theorem widen_lt : a.toInt64 < b.toInt64 ↔ a < b := by
  rw [Int64.lt_iff_toInt_lt, Int32.toInt_toInt64, Int32.toInt_toInt64, Int32.lt_iff_toInt_lt]

theorem widen_zero : (0 : Int32).toInt64 = 0 := rfl

theorem toInt_shiftRight64 {x k : Int64} {n : Nat} (hk : (k.toBitVec.smod 64).toNat = n) :
    (x >>> k).toInt = x.toInt / 2 ^ n := by
  show (x.toBitVec.sshiftRight' (k.toBitVec.smod 64)).toInt = x.toBitVec.toInt / 2 ^ n
  rw [BitVec.sshiftRight', hk, BitVec.toInt_sshiftRight, Int.shiftRight_eq_div_pow]
  norm_cast

theorem widen_shiftRight (x : Int32) {k : Int32} {k' : Int64} {n : Nat}
    (hk : (k.toBitVec.smod 32).toNat = n) (hk' : (k'.toBitVec.smod 64).toNat = n) :
    x.toInt64 >>> k' = (x >>> k).toInt64 := by
  apply Int64.toInt_inj.1
  rw [toInt_shiftRight64 hk', Int32.toInt_toInt64, Int32.toInt_toInt64, toInt_shiftRight hk]

end SignedWords

import ClickDoom.Base.Bytes

/-! # Bit fields of a word

A field is read by a shift and a mask, put in place by a shift, and joined with
others by `|||`.  The lemmas say what each of these is as a number, so that two
ways of gathering the same bits are compared by arithmetic.
-/
namespace BitField

variable {w : Nat}

/-! ## Masks -/

/-- Shifting the low bits out and back clears them. -/
theorem and_shifted_ones (x : BitVec w) (k : Nat) :
    x &&& (BitVec.allOnes w <<< k) = (x >>> k) <<< k := by
  apply BitVec.eq_of_getLsbD_eq
  intro i hi
  rw [BitVec.getLsbD_and, BitVec.getLsbD_shiftLeft, BitVec.getLsbD_shiftLeft,
    BitVec.getLsbD_ushiftRight, BitVec.getLsbD_allOnes]
  by_cases hk : i < k
  · simp [hk]
  · have hpos : k + (i - k) = i := by omega
    have hlt : i - k < w := by omega
    simp [hk, hi, hpos, hlt]

theorem toNat_shifted (x : BitVec w) (k : Nat) :
    ((x >>> k) <<< k).toNat = x.toNat / 2 ^ k * 2 ^ k := by
  rw [BitVec.toNat_shiftLeft, BitVec.toNat_ushiftRight, Nat.shiftLeft_eq, Nat.shiftRight_eq_div_pow]
  apply Nat.mod_eq_of_lt
  exact lt_of_le_of_lt (Nat.div_mul_le_self _ _) x.isLt

/-- A run of ones selects the field under it, in its place. -/
theorem land_shifted_ones (n j k : Nat) :
    n &&& ((2 ^ k - 1) * 2 ^ j) = n / 2 ^ j % 2 ^ k * 2 ^ j := by
  apply Nat.eq_of_testBit_eq
  intro i
  rw [Nat.testBit_and, Nat.testBit_mul_two_pow, Nat.testBit_mul_two_pow, Nat.testBit_two_pow_sub_one,
    Nat.testBit_mod_two_pow, Nat.testBit_div_two_pow]
  by_cases hj : j ≤ i
  · rw [Nat.sub_add_cancel hj]
    simp [hj, Bool.and_comm]
  · simp [hj]

/-- The number a field holds. -/
theorem toNat_field (x : BitVec w) (j k : Nat) {m : BitVec w} (hm : m.toNat = 2 ^ k - 1) :
    ((x >>> j) &&& m).toNat = x.toNat / 2 ^ j % 2 ^ k := by
  rw [BitVec.toNat_and, BitVec.toNat_ushiftRight, hm, Nat.and_two_pow_sub_one_eq_mod,
    Nat.shiftRight_eq_div_pow]

/-- A field left in its place. -/
theorem toNat_field_inPlace (x : BitVec w) (s j k : Nat) {m : BitVec w}
    (hm : m.toNat = (2 ^ k - 1) * 2 ^ j) :
    ((x >>> s) &&& m).toNat = x.toNat / 2 ^ (s + j) % 2 ^ k * 2 ^ j := by
  rw [BitVec.toNat_and, BitVec.toNat_ushiftRight, hm, land_shifted_ones,
    Nat.shiftRight_eq_div_pow, Nat.div_div_eq_div_mul, ← Nat.pow_add]

/-- A field moved to another place. -/
theorem toNat_field_shifted (x : BitVec w) (j k i : Nat) {m : BitVec w}
    (hm : m.toNat = 2 ^ k - 1) (hfit : k + i ≤ w) :
    (((x >>> j) &&& m) <<< i).toNat = x.toNat / 2 ^ j % 2 ^ k * 2 ^ i := by
  rw [BitVec.toNat_shiftLeft, toNat_field x j k hm, Nat.shiftLeft_eq]
  apply Nat.mod_eq_of_lt
  calc x.toNat / 2 ^ j % 2 ^ k * 2 ^ i
      < 2 ^ k * 2 ^ i :=
        Nat.mul_lt_mul_of_pos_right (Nat.mod_lt _ (Nat.two_pow_pos k)) (Nat.two_pow_pos i)
    _ = 2 ^ (k + i) := (Nat.pow_add 2 k i).symm
    _ ≤ 2 ^ w := Nat.pow_le_pow_right (by omega) hfit

/-- Joining a field below to what stands above it adds them. -/
theorem toNat_or {x y : BitVec w} (i : Nat) (hx : 2 ^ i ∣ x.toNat) (hy : y.toNat < 2 ^ i) :
    (x ||| y).toNat = x.toNat + y.toNat := by
  obtain ⟨c, hc⟩ := hx
  rw [BitVec.toNat_or, hc]
  exact (Nat.two_pow_add_eq_or_of_lt hy c).symm

/-! ## Sign extension -/

/-- Sign-extends the low `bits` of a value by shifting them up and back. -/
def sext (value : BitVec w) (bits : Nat) : BitVec w :=
  (value <<< (w - bits)).sshiftRight (w - bits)

/-- A value of `bits` bits whose top bit is set stands for itself less
`2 ^ bits`. -/
theorem sext_eq {x : BitVec w} {bits : Nat} (hbits : bits ≤ w) (hpos : 0 < bits)
    (hx : x.toNat < 2 ^ bits) :
    sext x bits = if x.toNat < 2 ^ (bits - 1) then x else x - BitVec.ofNat w (2 ^ bits) := by
  have hw : 2 ^ w = 2 ^ bits * 2 ^ (w - bits) := by
    rw [← Nat.pow_add, Nat.add_sub_cancel' hbits]
  have hhalf : 2 ^ bits = 2 * 2 ^ (bits - 1) := by
    rw [← Nat.pow_succ', Nat.succ_eq_add_one, Nat.sub_add_cancel hpos]
  have hP : 0 < 2 ^ (w - bits) := Nat.two_pow_pos _
  have hshift : (x <<< (w - bits)).toNat = x.toNat * 2 ^ (w - bits) := by
    rw [BitVec.toNat_shiftLeft, Nat.shiftLeft_eq]
    apply Nat.mod_eq_of_lt
    rw [hw]
    exact Nat.mul_lt_mul_of_pos_right hx hP
  have hsigned : (sext x bits).toInt =
      if x.toNat < 2 ^ (bits - 1) then (x.toNat : Int) else x.toNat - (2 ^ bits : Nat) := by
    have hP' : ((2 ^ (w - bits) : Nat) : Int) ≠ 0 := by exact_mod_cast hP.ne'
    rw [sext, BitVec.toInt_sshiftRight, BitVec.toInt_eq_toNat_cond, hshift,
      Int.shiftRight_eq_div_pow]
    by_cases h : x.toNat < 2 ^ (bits - 1)
    · have hsmall : 2 * (x.toNat * 2 ^ (w - bits)) < 2 ^ w := by
        rw [hw, ← Nat.mul_assoc]
        exact Nat.mul_lt_mul_of_pos_right (by omega) hP
      rw [if_pos hsmall, if_pos h, Nat.cast_mul, Int.mul_ediv_cancel _ hP']
    · have hlarge : ¬2 * (x.toNat * 2 ^ (w - bits)) < 2 ^ w := by
        rw [hw, ← Nat.mul_assoc, not_lt]
        exact Nat.mul_le_mul_right _ (by omega)
      rw [if_neg hlarge, if_neg h, hw, Nat.cast_mul, Nat.cast_mul, ← Int.sub_mul,
        Int.mul_ediv_cancel _ hP']
  rw [← BitVec.ofInt_toInt (x := sext x bits), hsigned]
  split_ifs with h
  · rw [BitVec.ofInt_natCast, BitVec.ofNat_toNat, BitVec.setWidth_eq]
  · rw [Int.sub_eq_add_neg, BitVec.ofInt_add, BitVec.ofInt_neg, BitVec.ofInt_natCast,
      BitVec.ofInt_natCast, BitVec.ofNat_toNat, BitVec.setWidth_eq, ← BitVec.sub_eq_add_neg]

/-- The sign apart from the bits below it: a set sign takes its weight off. -/
theorem sext_sign {x rest : BitVec w} {bits s : Nat} (hbits : bits < w) (hs : s ≤ 1)
    (hrest : rest.toNat < 2 ^ bits) (hx : x.toNat = s * 2 ^ bits + rest.toNat) :
    sext x (bits + 1) = rest - if s = 1 then BitVec.ofNat w (2 ^ bits) else 0 := by
  have hsucc : 2 ^ (bits + 1) = 2 ^ bits + 2 ^ bits := by rw [Nat.pow_succ, Nat.mul_two]
  have hlt : x.toNat < 2 ^ (bits + 1) := by
    rcases Nat.le_one_iff_eq_zero_or_eq_one.mp hs with rfl | rfl <;> omega
  rw [sext_eq (show bits + 1 ≤ w from hbits) (by omega) hlt, Nat.add_sub_cancel]
  rcases Nat.le_one_iff_eq_zero_or_eq_one.mp hs with rfl | rfl
  · have hxrest : x = rest := BitVec.eq_of_toNat_eq (by omega)
    rw [if_pos (by omega), if_neg (by omega), hxrest, sub_zero]
  · have hxrest : x = rest + BitVec.ofNat w (2 ^ bits) := by
      apply BitVec.eq_of_toNat_eq
      have hpow : 2 ^ (bits + 1) ≤ 2 ^ w := Nat.pow_le_pow_right (by omega) hbits
      rw [BitVec.toNat_add, BitVec.toNat_ofNat, Nat.mod_eq_of_lt (by omega : 2 ^ bits < 2 ^ w),
        Nat.mod_eq_of_lt (by omega), hx]
      omega
    rw [if_neg (by omega), if_pos rfl, hxrest, hsucc, BitVec.ofNat_add]
    exact add_sub_add_right_eq_sub _ _ _

end BitField

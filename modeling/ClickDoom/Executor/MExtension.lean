import ClickDoom.Executor.Arms
import ClickDoom.Executor.Variants

/-! # Multiplication and division

The M extension in both engines, against the integers: the halves of the products,
the quotients and remainders with their two special cases, and the divisors the step
evaluates in every arm whatever the operands.
-/
namespace ClickDoom
open ClickHouse

/-! ## Products -/

/-- A double word is its high and its low word. -/
theorem append_halves (x : BitVec 64) :
    ((x.sshiftRight 32).setWidth 32 ++ x.setWidth 32 : BitVec 64) = x := by
  apply BitVec.eq_of_getLsbD_eq
  intro i hi
  rw [BitVec.getLsbD_append]
  by_cases hlow : i < 32
  · simp [hlow]
  · have hsum : 32 + (i - 32) = i := by omega
    simp only [hlow, if_false, BitVec.getLsbD_setWidth, BitVec.getLsbD_sshiftRight, hsum]
    simp [hi, show i - 32 < 32 by omega, show ¬64 ≤ i - 32 by omega]

theorem append_halves_unsigned (x : BitVec 64) :
    ((x >>> 32).setWidth 32 ++ x.setWidth 32 : BitVec 64) = x := by
  apply BitVec.eq_of_getLsbD_eq
  intro i hi
  rw [BitVec.getLsbD_append]
  by_cases hlow : i < 32
  · simp [hlow]
  · simp [hlow, show i - 32 < 32 by omega, show 32 + (i - 32) = i by omega]

/-- A product that fits is exact. -/
theorem toInt_mul_of_natAbs_le {x y : BitVec 64} {m n : Nat} (hx : x.toInt.natAbs ≤ m)
    (hy : y.toInt.natAbs ≤ n) (h : m * n < 2 ^ 63) : (x * y).toInt = x.toInt * y.toInt := by
  have habs : (x.toInt * y.toInt).natAbs ≤ m * n := by
    rw [Int.natAbs_mul]
    exact Nat.mul_le_mul hx hy
  rw [BitVec.toInt_mul]
  apply Int.bmod_eq_of_le <;> omega

theorem setWidth_signExtend (a : Word) : (a.signExtend 64).setWidth 32 = a := by
  apply BitVec.eq_of_getLsbD_eq
  intro i hi
  rw [BitVec.getLsbD_setWidth, BitVec.getLsbD_signExtend]
  simp [hi, show i < 64 by omega]

section
variable (a b : Word)

theorem natAbs_signExtend_le : (a.signExtend 64).toInt.natAbs ≤ 2 ^ 31 := by
  rw [BitVec.toInt_signExtend_of_le (by decide)]
  have hlo := a.le_toInt
  have hhi := a.toInt_lt
  omega

theorem toInt_setWidth_64 : (a.setWidth 64).toInt = a.toNat := by
  have := a.isLt
  rw [BitVec.toInt_eq_toNat_of_lt, BitVec.toNat_setWidth_of_le (by decide)]
  rw [BitVec.toNat_setWidth_of_le (by decide)]
  omega

/-- The high and the low word of the signed product. -/
theorem append_mulh_mul (pc imm : Word) :
    (aluValue .mulh pc a b imm ++ aluValue .mul pc a b imm).toInt = a.toInt * b.toInt := by
  have hlow : a * b = (a.signExtend 64 * b.signExtend 64).setWidth 32 := by
    rw [BitVec.setWidth_mul _ _ (by decide), setWidth_signExtend, setWidth_signExtend]
  change (((a.signExtend 64 * b.signExtend 64).sshiftRight 32).setWidth 32 ++ a * b).toInt = _
  rw [hlow, append_halves, toInt_mul_of_natAbs_le (natAbs_signExtend_le a) (natAbs_signExtend_le b)
    (by decide), BitVec.toInt_signExtend_of_le (by decide), BitVec.toInt_signExtend_of_le (by decide)]

/-- The high and the low word of the product of a signed and an unsigned word. -/
theorem append_mulhsu_mul (pc imm : Word) :
    (aluValue .mulhsu pc a b imm ++ aluValue .mul pc a b imm).toInt = a.toInt * b.toNat := by
  have hlow : a * b = (a.signExtend 64 * b.setWidth 64).setWidth 32 := by
    rw [BitVec.setWidth_mul _ _ (by decide), setWidth_signExtend]
    simp
  have hb : (b.setWidth 64).toInt.natAbs ≤ 2 ^ 32 - 1 := by
    have := b.isLt
    rw [toInt_setWidth_64]
    omega
  change (((a.signExtend 64 * b.setWidth 64).sshiftRight 32).setWidth 32 ++ a * b).toInt = _
  rw [hlow, append_halves, toInt_mul_of_natAbs_le (natAbs_signExtend_le a) hb (by decide),
    BitVec.toInt_signExtend_of_le (by decide), toInt_setWidth_64]

/-- The high and the low word of the unsigned product. -/
theorem append_mulhu_mul (pc imm : Word) :
    (aluValue .mulhu pc a b imm ++ aluValue .mul pc a b imm).toNat = a.toNat * b.toNat := by
  have hlow : a * b = (a.setWidth 64 * b.setWidth 64).setWidth 32 := by
    rw [BitVec.setWidth_mul _ _ (by decide)]
    simp
  have hlt : a.toNat * b.toNat < 2 ^ 64 := by
    have hle : a.toNat * b.toNat ≤ (2 ^ 32 - 1) * (2 ^ 32 - 1) :=
      Nat.mul_le_mul (Nat.le_sub_one_of_lt a.isLt) (Nat.le_sub_one_of_lt b.isLt)
    omega
  change (((a.setWidth 64 * b.setWidth 64) >>> 32).setWidth 32 ++ a * b).toNat = _
  rw [hlow, append_halves_unsigned, BitVec.toNat_mul, BitVec.toNat_setWidth_of_le (by decide),
    BitVec.toNat_setWidth_of_le (by decide), Nat.mod_eq_of_lt hlt]

end

/-! ## Quotients and remainders -/

/-- A remainder has the size of the divisor and the sign of the dividend. -/
structure IsRemainder (a b rem : Int) : Prop where
  lt : rem.natAbs < b.natAbs
  nonneg : 0 ≤ a → 0 ≤ rem
  nonpos : a ≤ 0 → rem ≤ 0

theorem isRemainder_tmod {b : Int} (a : Int) (hb : b ≠ 0) : IsRemainder a b (a.tmod b) where
  lt := by
    rw [Int.natAbs_tmod]
    exact Nat.mod_lt _ (Int.natAbs_pos.mpr hb)
  nonneg ha := Int.tmod_nonneg b ha
  nonpos ha := by
    have hneg := Int.tmod_nonneg b (Int.neg_nonneg_of_nonpos ha)
    rw [Int.neg_tmod] at hneg
    omega

section
variable {a b : Word} (pc imm : Word) (hb : b ≠ 0)
include hb

theorem signed_division (hfits : ¬(a = intMin ∧ b = minusOne)) :
    a.toInt = (aluValue .div pc a b imm).toInt * b.toInt + (aluValue .rem pc a b imm).toInt ∧
      IsRemainder a.toInt b.toInt (aluValue .rem pc a b imm).toInt := by
  have hdiv : aluValue .div pc a b imm = a.sdiv b := by
    rw [aluValue, if_neg hb, if_neg hfits]
  have hrem : aluValue .rem pc a b imm = a.srem b := by
    rw [aluValue, if_neg hb, if_neg hfits]
  have hne : b.toInt ≠ 0 := fun hzero => hb (BitVec.eq_of_toInt_eq hzero)
  have hfits' : a ≠ BitVec.intMin 32 ∨ b ≠ -1#32 := by
    rw [← not_and_or]
    exact hfits
  rw [hdiv, hrem, BitVec.toInt_sdiv_of_ne_or_ne a b hfits', BitVec.toInt_srem]
  refine ⟨?_, isRemainder_tmod _ hne⟩
  rw [Int.mul_comm, Int.mul_tdiv_add_tmod]

theorem unsigned_division :
    a.toNat = (aluValue .divu pc a b imm).toNat * b.toNat + (aluValue .remu pc a b imm).toNat ∧
      (aluValue .remu pc a b imm).toNat < b.toNat := by
  have hdiv : aluValue .divu pc a b imm = a / b := by rw [aluValue, if_neg hb]
  have hrem : aluValue .remu pc a b imm = a % b := by rw [aluValue, if_neg hb]
  have hpos : 0 < b.toNat := Nat.pos_of_ne_zero fun hzero => hb (BitVec.eq_of_toNat_eq hzero)
  rw [hdiv, hrem, BitVec.toNat_udiv, BitVec.toNat_umod]
  exact ⟨(Nat.div_add_mod' _ _).symm, Nat.mod_lt _ hpos⟩

end

/-! ## The arms of the step -/

def mOps : List Op := [.mul, .mulh, .mulhsu, .mulhu, .div, .divu, .rem, .remu]

/-- An arm of the step gives the reference emulator's word. -/
theorem result_mOps (v : Variant) (p : StepArgs) (keyqt : List (BitVec 16)) (e : Env) {op : Op}
    (hop : op ∈ mOps) (hid : e.d.id = dispatchId op) (pc imm : Word) :
    result v p keyqt e = aluValue op pc e.a e.b imm := by
  rw [result_eq v, result, hid]
  simp only [mOps, List.mem_cons, List.not_mem_nil, or_false] at hop
  rcases hop with rfl | rfl | rfl | rfl | rfl | rfl | rfl | rfl
  · rfl
  · rfl
  · rfl
  · rfl
  · exact signedQuotient_eq e
  · exact unsignedQuotient_eq e
  · exact signedRemainder_eq e
  · exact unsignedRemainder_eq e

/-- The dividend of the signed arms is never the least double word. -/
theorem signExtend_ne_intMin (a : Word) : a.signExtend 64 ≠ BitVec.intMin 64 := by
  intro h
  have habs := natAbs_signExtend_le a
  rw [h] at habs
  exact absurd habs (by decide)

/-- Both engines' multiplications and divisions are exact, with the special cases as
RISC-V has them, and no division of the step can fail, whichever row it is at. -/
theorem mExtension_exact (a b pc imm : Word) :
    ((aluValue .mulh pc a b imm ++ aluValue .mul pc a b imm).toInt = a.toInt * b.toInt ∧
        (aluValue .mulhsu pc a b imm ++ aluValue .mul pc a b imm).toInt = a.toInt * b.toNat ∧
        (aluValue .mulhu pc a b imm ++ aluValue .mul pc a b imm).toNat = a.toNat * b.toNat) ∧
      (b ≠ 0 → ¬(a = intMin ∧ b = minusOne) →
        a.toInt = (aluValue .div pc a b imm).toInt * b.toInt + (aluValue .rem pc a b imm).toInt ∧
          IsRemainder a.toInt b.toInt (aluValue .rem pc a b imm).toInt) ∧
      (b ≠ 0 →
        a.toNat = (aluValue .divu pc a b imm).toNat * b.toNat +
            (aluValue .remu pc a b imm).toNat ∧
          (aluValue .remu pc a b imm).toNat < b.toNat) ∧
      (b = 0 → aluValue .div pc a b imm = minusOne ∧ aluValue .divu pc a b imm = minusOne ∧
        aluValue .rem pc a b imm = a ∧ aluValue .remu pc a b imm = a) ∧
      (a = intMin → b = minusOne →
        aluValue .div pc a b imm = intMin ∧ aluValue .rem pc a b imm = 0) ∧
      ∀ (v : Variant) (p : StepArgs) (keyqt : List (BitVec 16)) (e : Env), e.a = a → e.b = b →
        (∀ op ∈ mOps, e.d.id = dispatchId op → result v p keyqt e = aluValue op pc a b imm) ∧
          (nzB e).val ≠ 0 ∧ (nzSb64 e).val ≠ 0 ∧ e.a.signExtend 64 ≠ BitVec.intMin 64 ∧
          p.ipms ≠ 0 := by
  refine ⟨⟨append_mulh_mul a b pc imm, append_mulhsu_mul a b pc imm, append_mulhu_mul a b pc imm⟩,
    fun hb hfits => signed_division pc imm hb hfits, fun hb => unsigned_division pc imm hb, ?_, ?_, ?_⟩
  · rintro rfl
    exact ⟨rfl, rfl, rfl, rfl⟩
  · rintro rfl rfl
    exact ⟨rfl, rfl⟩
  · rintro v p keyqt e rfl rfl
    exact ⟨fun op hop hid => result_mOps v p keyqt e hop hid pc imm, (nzB e).property,
      (nzSb64 e).property, signExtend_ne_intMin e.a, p.ipms_ne_zero⟩

end ClickDoom

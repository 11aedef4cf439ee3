import ClickDoom.Executor.MExtension

/-! # The flag columns of the decode table

`sqlcpu/schema.sql` says what a multiplication, a division, a branch or a jump is in
terms of the columns `m_sg1`, `m_sg2`, `m_hi`, `d_sg`, `cmp_sel`, `neg` and `tgt_mis`.
That computation gives the reference emulator's result, and the step's, which
dispatches on the id and reads none of these columns.
-/
namespace ClickDoom
open ClickHouse

/-! ## What the columns say -/

namespace Decoded
variable (r : Decoded) (a b : Word)

/-- An operand as a double word. -/
def widen (signed : Byte) (x : Word) : BitVec 64 :=
  if signed = 1 then x.signExtend 64 else x.setWidth 64

/-- The product of the operands, each signed as its column says, and the half of it
that `m_hi` says. -/
def multiply : Word :=
  let product := widen r.mSg1 a * widen r.mSg2 b
  if r.mHi = 1 then (product >>> 32).setWidth 32 else product.setWidth 32

/-- The division in double words, brought back. -/
def quotient : Word :=
  if b = 0 then minusOne else ((widen r.dSg a).sdiv (widen r.dSg b)).setWidth 32

def remainder : Word :=
  if b = 0 then a else ((widen r.dSg a).srem (widen r.dSg b)).setWidth 32

/-- The comparison that `cmp_sel` selects. -/
def compare : Bool :=
  if r.cmpSel = 0 then a = b else if r.cmpSel = 1 then a.slt b else a.ult b

/-- Whether a branch is taken: the comparison, negated where `neg` says. -/
def takes : Bool := (r.compare a b).xor (r.neg = 1)

end Decoded

/-! ## The fields behind an id -/

/-- What holds of the value of every arm that may be taken holds of the result. -/
theorem multiIf_of_holding {α : Type} {P : α → Prop} {l : List (Bool × α)} {x : α} (hx : P x)
    (hl : ∀ arm ∈ l, arm.1 = true → P arm.2) : P (multiIf l x) := by
  induction l with
  | nil => exact hx
  | cons arm l ih =>
    obtain ⟨c, y⟩ := arm
    rw [multiIf_cons]
    cases c with
    | true => exact hl (true, y) List.mem_cons_self rfl
    | false => exact ih fun arm harm => hl arm (List.mem_cons_of_mem _ harm)

/-- What the ids of the M extension, of the branches and of `jal` say of the fields. -/
structure Fields.IdOf (f : Fields) (id : Byte) : Prop where
  m : 10#8 ≤ id → id ≤ 17#8 → f.op = 51 ∧ f.f7 = 1 ∧ f.f3 = (id - 10#8).setWidth 32
  branch : 20#8 ≤ id → id ≤ 25#8 → f.op = 99 ∧
    f.f3 = if id < 22#8 then (id - 20#8).setWidth 32 else (id - 18#8).setWidth 32

theorem idOf_decodedId (f : Fields) : f.IdOf (decodedId f) := by
  refine multiIf_of_holding ?_ ?_
  · constructor <;> simp
  · simp only [List.forall_mem_cons, Bool.and_eq_true, beq_iff_eq, List.not_mem_nil,
      decide_eq_true_eq]
    repeat' apply And.intro
    all_goals
      intros
      constructor <;> simp_all

/-- The opcode of an id that is one opcode's alone. -/
theorem op_of_dispatchId {op : Op} {i : Byte} (h : dispatchId op = i) :
    (i = 10 → op = .mul) ∧ (i = 11 → op = .mulh) ∧ (i = 12 → op = .mulhsu) ∧ (i = 13 → op = .mulhu) ∧
    (i = 14 → op = .div) ∧ (i = 15 → op = .divu) ∧ (i = 16 → op = .rem) ∧ (i = 17 → op = .remu) ∧
    (i = 20 → op = .beq) ∧ (i = 21 → op = .bne) ∧ (i = 22 → op = .blt) ∧ (i = 23 → op = .bge) ∧
    (i = 24 → op = .bltu) ∧ (i = 25 → op = .bgeu) ∧ (i = 26 → op = .jal) := by
  subst h
  cases op <;> decide

section
variable (wordAddr w : Word)

theorem dispatchId_decode : dispatchId (decode w).op = (decodedRow wordAddr w).dec.id := by
  have hid := (rowAgrees wordAddr w).id
  rw [hid, rowOf]
  cases (decode w).op <;> rfl

end

/-! ## Halves, quotients and remainders of double words -/

/-- The halves of a double word, without a sign. -/
theorem setWidth_ushiftRight (x : BitVec 64) :
    (x >>> 32).setWidth 32 = (x.sshiftRight 32).setWidth 32 := by
  apply BitVec.eq_of_getLsbD_eq
  intro i hi
  rw [BitVec.getLsbD_setWidth, BitVec.getLsbD_setWidth, BitVec.getLsbD_ushiftRight,
    BitVec.getLsbD_sshiftRight]
  simp [show 32 + i < 64 by omega, show ¬64 ≤ i by omega]

section
variable (a b : Word)

theorem msb_setWidth_64 : (a.setWidth 64).msb = false := by
  rw [BitVec.msb_eq_false_iff_two_mul_lt, BitVec.toNat_setWidth_of_le (by decide)]
  have := a.isLt
  omega

/-- Unsigned division, of double words that are not negative. -/
theorem setWidth_udiv : ((a.setWidth 64).sdiv (b.setWidth 64)).setWidth 32 = a / b := by
  have := (a / b).isLt
  apply BitVec.eq_of_toNat_eq
  rw [BitVec.sdiv_eq, msb_setWidth_64, msb_setWidth_64, BitVec.toNat_setWidth]
  change (a.setWidth 64 / b.setWidth 64).toNat % 2 ^ 32 = _
  rw [BitVec.toNat_udiv] at *
  rw [BitVec.toNat_udiv, BitVec.toNat_setWidth_of_le (by decide),
    BitVec.toNat_setWidth_of_le (by decide), Nat.mod_eq_of_lt this]

theorem setWidth_umod : ((a.setWidth 64).srem (b.setWidth 64)).setWidth 32 = a % b := by
  have := (a % b).isLt
  apply BitVec.eq_of_toNat_eq
  rw [BitVec.srem_eq, msb_setWidth_64, msb_setWidth_64, BitVec.toNat_setWidth]
  change (a.setWidth 64 % b.setWidth 64).toNat % 2 ^ 32 = _
  rw [BitVec.toNat_umod] at *
  rw [BitVec.toNat_umod, BitVec.toNat_setWidth_of_le (by decide),
    BitVec.toNat_setWidth_of_le (by decide), Nat.mod_eq_of_lt this]

end

/-! ## The columns of an id -/

section
variable (wordAddr w : Word)

/-- The columns of a multiplication or a division, from its id. -/
theorem flags_m {k : Nat} (hk : k < 8)
    (hid : (decodedRow wordAddr w).dec.id = BitVec.ofNat 8 (10 + k)) :
    (decodedRow wordAddr w).mSg1 = flag (k < 3) ∧ (decodedRow wordAddr w).mSg2 = flag (k < 2) ∧
      (decodedRow wordAddr w).mHi = flag (1 ≤ k ∧ k < 4) ∧
      (decodedRow wordAddr w).dSg = flag (k = 4 ∨ k = 6) := by
  have hid' : decodedId (fields wordAddr w) = BitVec.ofNat 8 (10 + k) := hid
  have hm := (idOf_decodedId (fields wordAddr w)).m
  rw [hid'] at hm
  interval_cases k <;>
  · obtain ⟨hop, hf7, hf3⟩ := hm (by decide) (by decide)
    simp [decodedRow, hop, hf7, hf3, flag]

theorem flags_branch {k : Nat} (hk : k < 6)
    (hid : (decodedRow wordAddr w).dec.id = BitVec.ofNat 8 (20 + k)) :
    (decodedRow wordAddr w).cmpSel = (if k < 2 then 0 else if k < 4 then 1 else 2) ∧
      (decodedRow wordAddr w).neg = flag (k % 2 = 1) := by
  have hid' : decodedId (fields wordAddr w) = BitVec.ofNat 8 (20 + k) := hid
  have hm := (idOf_decodedId (fields wordAddr w)).branch
  rw [hid'] at hm
  interval_cases k <;>
  · obtain ⟨hop, hf3⟩ := hm (by decide) (by decide)
    simp [decodedRow, hop, hf3, flag]

end

/-! ## What the columns compute -/

section
variable (wordAddr w a b pc imm : Word)

/-- The ids between two. -/
theorem id_cases {i : Byte} {lo n : Nat} (h : lo ≤ i.toNat) (h' : i.toNat < lo + n) :
    ∃ k < n, i = BitVec.ofNat 8 (lo + k) := by
  refine ⟨i.toNat - lo, by omega, ?_⟩
  rw [Nat.add_sub_cancel' h]
  simp

theorem multiply_eq (h : 10#8 ≤ (decodedRow wordAddr w).dec.id)
    (h' : (decodedRow wordAddr w).dec.id ≤ 13#8) :
    (decodedRow wordAddr w).multiply a b = aluValue (decode w).op pc a b imm := by
  obtain ⟨k, hk, hid⟩ := id_cases (n := 4) h (Nat.lt_succ_of_le h')
  obtain ⟨h1, h2, h3, -⟩ := flags_m wordAddr w (by omega) hid
  have hop := op_of_dispatchId ((dispatchId_decode wordAddr w).trans hid)
  rw [Decoded.multiply, h1, h2, h3]
  interval_cases k
  · rw [hop.1 rfl]
    change (a.signExtend 64 * b.signExtend 64).setWidth 32 = a * b
    rw [BitVec.setWidth_mul _ _ (by decide), setWidth_signExtend, setWidth_signExtend]
  · rw [hop.2.1 rfl]
    exact setWidth_ushiftRight _
  · rw [hop.2.2.1 rfl]
    exact setWidth_ushiftRight _
  · rw [hop.2.2.2.1 rfl]
    rfl

theorem quotient_eq (h : 14#8 ≤ (decodedRow wordAddr w).dec.id)
    (h' : (decodedRow wordAddr w).dec.id ≤ 15#8) :
    (decodedRow wordAddr w).quotient a b = aluValue (decode w).op pc a b imm := by
  obtain ⟨k, hk, hid⟩ := id_cases (n := 2) h (Nat.lt_succ_of_le h')
  obtain ⟨-, -, -, h4⟩ := flags_m wordAddr w (k := 4 + k) (by omega) (by rw [hid, ← Nat.add_assoc]; rfl)
  have hop := op_of_dispatchId ((dispatchId_decode wordAddr w).trans hid)
  rw [Decoded.quotient, h4]
  by_cases hb : b = 0
  · rw [if_pos hb]
    interval_cases k
    · rw [hop.2.2.2.2.1 rfl, aluValue, if_pos hb]
    · rw [hop.2.2.2.2.2.1 rfl, aluValue, if_pos hb]
  · rw [if_neg hb]
    interval_cases k
    · rw [hop.2.2.2.2.1 rfl, aluValue, if_neg hb]
      change ((a.signExtend 64).sdiv (b.signExtend 64)).setWidth 32 = _
      rw [setWidth_sdiv]
      split_ifs with hover
      · rw [hover.1, hover.2, sdiv_intMin_minusOne]
      · rfl
    · rw [hop.2.2.2.2.2.1 rfl, aluValue, if_neg hb]
      exact setWidth_udiv a b

theorem remainder_eq (h : 16#8 ≤ (decodedRow wordAddr w).dec.id)
    (h' : (decodedRow wordAddr w).dec.id ≤ 17#8) :
    (decodedRow wordAddr w).remainder a b = aluValue (decode w).op pc a b imm := by
  obtain ⟨k, hk, hid⟩ := id_cases (n := 2) h (Nat.lt_succ_of_le h')
  obtain ⟨-, -, -, h4⟩ := flags_m wordAddr w (k := 6 + k) (by omega) (by rw [hid, ← Nat.add_assoc]; rfl)
  have hop := op_of_dispatchId ((dispatchId_decode wordAddr w).trans hid)
  rw [Decoded.remainder, h4]
  by_cases hb : b = 0
  · rw [if_pos hb]
    interval_cases k
    · rw [hop.2.2.2.2.2.2.1 rfl, aluValue, if_pos hb]
    · rw [hop.2.2.2.2.2.2.2.1 rfl, aluValue, if_pos hb]
  · rw [if_neg hb]
    interval_cases k
    · rw [hop.2.2.2.2.2.2.1 rfl, aluValue, if_neg hb]
      change ((a.signExtend 64).srem (b.signExtend 64)).setWidth 32 = _
      rw [setWidth_srem]
      split_ifs with hover
      · rw [hover.1, hover.2, srem_intMin_minusOne]
      · rfl
    · rw [hop.2.2.2.2.2.2.2.1 rfl, aluValue, if_neg hb]
      exact setWidth_umod a b

theorem takes_eq (h : 20#8 ≤ (decodedRow wordAddr w).dec.id)
    (h' : (decodedRow wordAddr w).dec.id ≤ 25#8) :
    (decodedRow wordAddr w).takes a b = taken (decode w).op a b := by
  obtain ⟨k, hk, hid⟩ := id_cases (n := 6) h (Nat.lt_succ_of_le h')
  obtain ⟨hsel, hneg⟩ := flags_branch wordAddr w hk hid
  have hop := op_of_dispatchId ((dispatchId_decode wordAddr w).trans hid)
  obtain ⟨-, -, -, -, -, -, -, -, hop⟩ := hop
  rw [Decoded.takes, Decoded.compare, hsel, hneg]
  interval_cases k
  · rw [hop.1 rfl]
    simp [flag, taken, beq_eq_decide]
  · rw [hop.2.1 rfl]
    simp [flag, taken, bne, beq_eq_decide]
  · rw [hop.2.2.1 rfl]
    simp [flag, taken]
  · rw [hop.2.2.2.1 rfl]
    simp [flag, taken]
  · rw [hop.2.2.2.2.1 rfl]
    simp [flag, taken]
  · rw [hop.2.2.2.2.2.1 rfl]
    simp [flag, taken]

end

/-! ## Targets -/

section
variable (wordAddr w : Word)

theorem tgt_eq (h : 20#8 ≤ (decodedRow wordAddr w).dec.id)
    (h' : (decodedRow wordAddr w).dec.id ≤ 26#8) :
    (decodedRow wordAddr w).dec.tgt = wordAddr * 4#32 + (decode w).imm := by
  have hid := dispatchId_decode wordAddr w
  have hlt : (decodedRow wordAddr w).dec.id < opEcall :=
    Nat.lt_of_le_of_lt h' (show (26#8).toNat < opEcall.toNat by decide)
  rw [(rowAgrees wordAddr w).id] at hlt
  rw [(rowAgrees wordAddr w).row hlt]
  rw [← hid] at h h'
  rw [rowOf]
  cases hop : (decode w).op <;> rw [hop] at h h' <;> first
    | rfl
    | exact absurd h (by decide)
    | exact absurd h' (by decide)

theorem tgtMis_eq : (decodedRow wordAddr w).tgtMis = 1 ↔
    (decodedRow wordAddr w).dec.tgt.toNat % 4 ≠ 0 := by
  have hmod : ((decodedRow wordAddr w).dec.tgt &&& 3#32).toNat =
      (decodedRow wordAddr w).dec.tgt.toNat % 4 := by
    rw [BitVec.toNat_and]
    exact Nat.and_two_pow_sub_one_eq_mod _ 2
  change flag ((decodedRow wordAddr w).dec.tgt &&& 3#32 ≠ 0) = 1 ↔ _
  rw [← hmod]
  by_cases hzero : (decodedRow wordAddr w).dec.tgt &&& 3#32 = 0
  · rw [hzero]
    decide
  · have hne : ((decodedRow wordAddr w).dec.tgt &&& 3#32).toNat ≠ 0 := fun h =>
      hzero (BitVec.eq_of_toNat_eq h)
    rw [decide_eq_true hzero]
    exact iff_of_true rfl hne

end

/-! ## The result -/

theorem mem_mOps {op : Op} (h : 10#8 ≤ dispatchId op) (h' : dispatchId op ≤ 17#8) : op ∈ mOps := by
  revert h h'
  cases op <;> decide

/-- The columns of a row compute what the reference emulator does for the instruction
`insn` of the word `w` at `pc`, and what the step does for the row. -/
structure Decoded.Collapses (r : Decoded) (pc w : Word) (insn : Instruction) (a b : Word) : Prop where
  multiply : 10#8 ≤ r.dec.id → r.dec.id ≤ 13#8 → r.multiply a b = aluValue insn.op pc a b insn.imm
  quotient : 14#8 ≤ r.dec.id → r.dec.id ≤ 15#8 → r.quotient a b = aluValue insn.op pc a b insn.imm
  remainder : 16#8 ≤ r.dec.id → r.dec.id ≤ 17#8 → r.remainder a b = aluValue insn.op pc a b insn.imm
  takes : 20#8 ≤ r.dec.id → r.dec.id ≤ 25#8 → r.takes a b = taken insn.op a b
  target : 20#8 ≤ r.dec.id → r.dec.id ≤ 26#8 → checkTarget (pc + insn.imm) pc w =
    if r.tgtMis = 1 then .error (.at' .misaligned pc w (pc + insn.imm)) else .ok ()
  result : ∀ v p keyqt (e : Env), e.d = r.dec → e.a = a → e.b = b → 10#8 ≤ r.dec.id →
    r.dec.id ≤ 17#8 → result v p keyqt e =
      if r.dec.id ≤ 13#8 then r.multiply a b else if r.dec.id ≤ 15#8 then r.quotient a b
      else r.remainder a b
  branch : ∀ v (e : Env), e.d = r.dec → e.a = a → e.b = b → 20#8 ≤ r.dec.id → r.dec.id ≤ 25#8 →
    wouldJump e = r.takes a b ∧ jumpMisaligned v e = (r.takes a b && r.tgtMis = 1)
  jal : ∀ v (e : Env), e.d = r.dec → r.dec.id = 26#8 → jumpMisaligned v e = decide (r.tgtMis = 1)

section
variable (wordAddr w a b : Word)

theorem checkTarget_eq (h : 20#8 ≤ (decodedRow wordAddr w).dec.id)
    (h' : (decodedRow wordAddr w).dec.id ≤ 26#8) :
    checkTarget (wordAddr * 4#32 + (decode w).imm) (wordAddr * 4#32) w =
      if (decodedRow wordAddr w).tgtMis = 1 then
        .error (.at' .misaligned (wordAddr * 4#32) w (wordAddr * 4#32 + (decode w).imm))
      else .ok () := by
  rw [checkTarget, ← tgt_eq wordAddr w h h']
  exact if_congr (tgtMis_eq wordAddr w).symm rfl rfl

theorem wouldJump_eq {e : Env} (hd : e.d = (decodedRow wordAddr w).dec)
    (h : 20#8 ≤ (decodedRow wordAddr w).dec.id) (h' : (decodedRow wordAddr w).dec.id ≤ 25#8) :
    wouldJump e = taken (decode w).op e.a e.b := by
  obtain ⟨k, hk, hid⟩ := id_cases (n := 6) h (Nat.lt_succ_of_le h')
  obtain ⟨-, -, -, -, -, -, -, -, hop⟩ :=
    op_of_dispatchId ((dispatchId_decode wordAddr w).trans hid)
  rw [wouldJump, hd, hid]
  interval_cases k
  · rw [hop.1 rfl]
    simp [taken, beq_eq_decide]
  · rw [hop.2.1 rfl]
    simp [taken, bne, beq_eq_decide]
  · rw [hop.2.2.1 rfl]
    simp [taken]
  · rw [hop.2.2.2.1 rfl]
    simp [taken]
  · rw [hop.2.2.2.2.1 rfl]
    simp [taken, BitVec.ult, BitVec.lt_def]
  · rw [hop.2.2.2.2.2.1 rfl]
    change decide (e.b ≤ e.a) = !decide (e.a.toNat < e.b.toNat)
    rw [← decide_not]
    exact decide_eq_decide.mpr Nat.not_lt.symm

theorem jumpMisaligned_eq_tgtMis (v : Variant) {e : Env} (hd : e.d = (decodedRow wordAddr w).dec)
    (h : 20#8 ≤ (decodedRow wordAddr w).dec.id) (h' : (decodedRow wordAddr w).dec.id ≤ 26#8) :
    jumpMisaligned v e = (wouldJump e && (decodedRow wordAddr w).tgtMis = 1) := by
  have hjump : isJumpOp e = true := by
    rw [isJumpOp, hd, Bool.and_eq_true, decide_eq_true_eq, decide_eq_true_eq]
    exact ⟨h, Nat.le_trans h' (by decide)⟩
  have hjalr : e.d.id ≠ 27 := by
    rw [hd]
    rintro heq
    rw [heq] at h'
    exact absurd h' (by decide)
  have hmis : decide (e.d.tgt &&& 3#32 ≠ 0) = decide ((decodedRow wordAddr w).tgtMis = 1) := by
    rw [hd]
    refine decide_eq_decide.mpr ?_
    rw [tgtMis_eq, ne_eq, ne_eq, not_iff_not, ← BitVec.toNat_inj, BitVec.toNat_and]
    change _ &&& (2 ^ 2 - 1) = 0 ↔ _
    rw [Nat.and_two_pow_sub_one_eq_mod]
  rw [jumpMisaligned, jumpTargetIfTaken, if_neg hjalr, hjump, Bool.true_and, hmis]

end

/-- The flag columns preserve the meaning of every multiplication, division, branch and
`jal`: what they compute is what the reference emulator computes for the instruction and
what the step computes for the row, whatever the operands. -/
theorem collapse_flags (wordAddr w a b : Word) :
    (decodedRow wordAddr w).Collapses (wordAddr * 4#32) w (decode w) a b where
  multiply h h' := multiply_eq wordAddr w a b _ _ h h'
  quotient h h' := quotient_eq wordAddr w a b _ _ h h'
  remainder h h' := remainder_eq wordAddr w a b _ _ h h'
  takes h h' := takes_eq wordAddr w a b h h'
  target h h' := checkTarget_eq wordAddr w h h'
  result := by
    rintro v p keyqt e hd rfl rfl h h'
    have hid : e.d.id = dispatchId (decode w).op := by rw [hd, dispatchId_decode wordAddr w]
    have hop : (decode w).op ∈ mOps := by
      refine mem_mOps ?_ ?_
      · rw [dispatchId_decode wordAddr w]
        exact h
      · rw [dispatchId_decode wordAddr w]
        exact h'
    rw [result_mOps v p keyqt e hop hid (wordAddr * 4#32) (decode w).imm]
    split_ifs with h13 h15
    · exact (multiply_eq wordAddr w _ _ _ _ h h13).symm
    · refine (quotient_eq wordAddr w _ _ _ _ ?_ h15).symm
      exact Nat.lt_of_not_le h13
    · refine (remainder_eq wordAddr w _ _ _ _ ?_ h').symm
      exact Nat.lt_of_not_le h15
  branch := by
    rintro v e hd rfl rfl h h'
    have hjump : wouldJump e = (decodedRow wordAddr w).takes e.a e.b := by
      rw [wouldJump_eq wordAddr w hd h h', takes_eq wordAddr w e.a e.b h h']
    refine ⟨hjump, ?_⟩
    rw [jumpMisaligned_eq_tgtMis wordAddr w v hd h (Nat.le_trans h' (by decide)), hjump]
  jal := by
    intro v e hd hid
    have hjump : wouldJump e = true := by
      rw [wouldJump, hd, hid]
      rfl
    rw [jumpMisaligned_eq_tgtMis wordAddr w v hd (by rw [hid]; decide) (by rw [hid]; decide), hjump,
      Bool.true_and]

end ClickDoom

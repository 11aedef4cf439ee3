import ClickDoom.Executor.WriteLog
import ClickDoom.Sqlcpu.Agrees

/-! # The arms of the step

The step evaluates every arm for every row.  For a row of the decode table only
one matters: here are the halt code, the result and the next program counter of
each kind of row, in the reference emulator's terms, and the tuple a step leaves
when it halts and when it retires.
-/
namespace ClickDoom
open ClickHouse

/-! ## Signed division in 64 bits -/

theorem toInt_setWidth_32 (x : BitVec 64) : (x.setWidth 32).toInt = x.toInt.bmod (2 ^ 32) := by
  rw [BitVec.toInt_setWidth, BitVec.toInt_eq_toNat_bmod, Int.bmod_bmod_of_dvd (by decide)]

/-- Signed division in 64 bits, brought back to 32, is division in 32: the one
quotient that does not fit wraps to the dividend. -/
theorem setWidth_sdiv (a b : Word) :
    ((a.signExtend 64).sdiv (b.signExtend 64)).setWidth 32 = a.sdiv b := by
  apply BitVec.eq_of_toInt_eq
  rw [toInt_setWidth_32, BitVec.toInt_sdiv, BitVec.toInt_sdiv,
    BitVec.toInt_signExtend_of_le (by omega), BitVec.toInt_signExtend_of_le (by omega),
    Int.bmod_bmod_of_dvd (by decide)]

theorem setWidth_srem (a b : Word) :
    ((a.signExtend 64).srem (b.signExtend 64)).setWidth 32 = a.srem b := by
  apply BitVec.eq_of_toInt_eq
  have h := (a.srem b).toInt_eq_toNat_bmod
  rw [toInt_setWidth_32, BitVec.toInt_srem, BitVec.toInt_signExtend_of_le (by omega),
    BitVec.toInt_signExtend_of_le (by omega), ← BitVec.toInt_srem, h,
    Int.bmod_bmod_of_dvd (Nat.dvd_refl _)]

theorem sdiv_intMin_minusOne : intMin.sdiv minusOne = intMin := by decide

theorem srem_intMin_minusOne : intMin.srem minusOne = 0 := by decide

/-! ## Registers and immediates -/

/-- The operands of a step, from the register file and the row. -/
structure Env.Reads (e : Env) (regs : List Word) : Prop where
  a : e.a = readReg regs e.d.rs1
  b : e.b = readReg regs e.d.rs2 + e.d.imm
  rs2v : e.rs2v = readReg regs e.d.rs2
  addr : e.addr = readReg regs e.d.rs1 + e.d.imm

/-- A register file without `x0` that agrees with the machine's. -/
def FileOf (regs : List Word) (c : Cpu) : Prop :=
  ∀ r : BitVec 5, readReg regs (r.setWidth 8) = c.reg r

@[simp] theorem readReg_zero (regs : List Word) : readReg regs 0#8 = 0 := rfl

/-! ## The result of an arm that only writes a register -/

section
variable (e : Env)

/-- A zero divisor is answered before the division, so what the step divides by
instead changes no result. -/
theorem signedQuotient_eq :
    (if e.b = 0 then 4294967295 else (intDivSigned (e.a.signExtend 64) (nzSb64 e)).setWidth 32) =
      if e.b = 0 then minusOne
      else if e.a = intMin ∧ e.b = minusOne then intMin else e.a.sdiv e.b := by
  by_cases hb : e.b = 0
  · rw [if_pos hb, if_pos hb]
    rfl
  · rw [if_neg hb, if_neg hb, intDivSigned, nzSb64, dif_neg hb, setWidth_sdiv]
    split_ifs with h
    · rw [h.1, h.2, sdiv_intMin_minusOne]
    · rfl

theorem signedRemainder_eq :
    (if e.b = 0 then e.a else (moduloSigned (e.a.signExtend 64) (nzSb64 e)).setWidth 32) =
      if e.b = 0 then e.a
      else if e.a = intMin ∧ e.b = minusOne then 0 else e.a.srem e.b := by
  by_cases hb : e.b = 0
  · rw [if_pos hb, if_pos hb]
  · rw [if_neg hb, if_neg hb, moduloSigned, nzSb64, dif_neg hb, setWidth_srem]
    split_ifs with h
    · rw [h.1, h.2, srem_intMin_minusOne]
    · rfl

theorem unsignedQuotient_eq :
    (if e.b = 0 then 4294967295 else intDiv e.a (nzB e)) =
      if e.b = 0 then minusOne else e.a / e.b := by
  by_cases hb : e.b = 0
  · rw [if_pos hb, if_pos hb]
    rfl
  · rw [if_neg hb, if_neg hb, intDiv, nzB, dif_neg hb]

theorem unsignedRemainder_eq :
    (if e.b = 0 then e.a else modulo e.a (nzB e)) = if e.b = 0 then e.a else e.a % e.b := by
  by_cases hb : e.b = 0
  · rw [if_pos hb, if_pos hb]
  · rw [if_neg hb, if_neg hb, modulo, nzB, dif_neg hb]

end

section
variable {e : Env} {regs : List Word} {c : Cpu} {pc word : Word} {insn : Instruction}

/-- Every arm below the loads computes what the reference emulator's does. -/
theorem result_alu (p : StepArgs) (keyqt : List (BitVec 16)) (hr : e.Reads regs)
    (hf : FileOf regs c) (hd : e.d = rowOf pc word insn) (halu : dispatchId insn.op < opLoad)
    (hfence : insn.op ≠ .fence) :
    result .baseline p keyqt e = aluValue insn.op pc (c.reg insn.rs1) (c.reg insn.rs2) insn.imm := by
  have ha := hr.a
  have hb := hr.b
  have h1 := hf insn.rs1
  have h2 := hf insn.rs2
  cases hop : insn.op with
  | jal | jalr | beq | bne | blt | bge | bltu | bgeu | lb | lh | lw | lbu | lhu | sb | sh | sw
  | ecall | ebreak | csr | illegal =>
    rw [hop] at halu
    exact absurd halu (by decide)
  | fence => exact absurd hop hfence
  | lui | auipc =>
    simp only [hd, rowOf, hop] at ha hb
    simp only [result, hd, rowOf, hop, dispatchId, aluValue]
    simp [ha, hb]
  | addi | slti | sltiu | xori | ori | andi | slli | srli | srai =>
    simp only [hd, rowOf, hop] at ha hb
    simp only [result, hd, rowOf, hop, dispatchId, aluValue]
    simp [ha, hb, h1, boolUInt32, boolWord, BitVec.ult, BitVec.lt_def]
  | add | sub | sll | slt | sltu | xor | srl | sra | or | and | mul | mulh | mulhsu | mulhu =>
    simp only [hd, rowOf, hop] at ha hb
    simp only [result, hd, rowOf, hop, dispatchId, aluValue]
    simp [ha, hb, h1, h2, boolUInt32, boolWord, BitVec.ult, BitVec.lt_def]
  | div | divu | rem | remu =>
    have hid : e.d.id = dispatchId insn.op := by simp only [hd, rowOf, hop]
    simp only [hd, rowOf, hop, h1, h2] at ha hb
    replace hb : e.b = c.reg insn.rs2 := hb.trans (add_zero _)
    rw [hop] at hid
    rw [← ha, ← hb, result, hid]
    first
    | exact signedQuotient_eq e
    | exact unsignedQuotient_eq e
    | exact signedRemainder_eq e
    | exact unsignedRemainder_eq e

end
/-! ## The halt code of each kind of row -/

section
variable {v : Variant} {p : StepArgs} {e : Env}

theorem haltCode_outside (h : pcOutOfText p e.acc.pc = true) : haltCode v p e = haltBadAddr := by
  rw [haltCode, h]
  rfl

variable (hpc : pcOutOfText p e.acc.pc = false)
include hpc

theorem haltCode_illegal (hid : e.d.id = opIllegal) : haltCode v p e = haltIllegalInsn := by
  rw [haltCode, hpc, hid]
  rfl

theorem haltCode_ecall (hid : e.d.id = opEcall) : haltCode v p e = haltEcall := by
  rw [haltCode, hpc, hid]
  rfl

theorem haltCode_ebreak (hid : e.d.id = opEbreak) : haltCode v p e = haltEbreak := by
  rw [haltCode, hpc, hid]
  rfl

theorem haltCode_csr (hid : e.d.id = opCsr) : haltCode v p e = haltCsr := by
  rw [haltCode, hpc, hid]
  rfl

omit hpc in
theorem jumpMisaligned_of_lt (hid : e.d.id < 20#8) : jumpMisaligned v e = false := by
  have h : ¬20#8 ≤ e.d.id := by
    rw [BitVec.not_le]
    exact hid
  simp [jumpMisaligned, isJumpOp, h]

omit hpc in
/-- An id that is not a store's leaves every store's arm off. -/
theorem not_store (hid : e.d.id ≠ opStore) :
    isFbOrPalStore e = false ∧ selfModify v p e = false ∧ isMmioStore v e = false := by
  refine ⟨?_, ?_, ?_⟩
  · simp [isFbOrPalStore, hid]
  · simp [selfModify, isStore, hid]
  · simp [isMmioStore, hid]

theorem haltCode_plain (hid : e.d.id < opLoad) : haltCode v p e = haltNone := by
  have hne : ∀ i : Byte, ¬i < opLoad → e.d.id ≠ i := by
    rintro i hi rfl
    exact hi hid
  have hmem : isMem e = false := by
    simp [isMem, isLoad, isStore, hne opLoad (by decide), hne opStore (by decide)]
  obtain ⟨hwindow, hself, hdevice⟩ := not_store (v := v) (p := p) (hne opStore (by decide))
  have hjump : jumpMisaligned v e = false :=
    jumpMisaligned_of_lt (Nat.lt_trans hid (by decide : opLoad.toNat < (20#8).toNat))
  rw [haltCode, hpc, hjump, hmem, hwindow, hself, hdevice]
  simp [hne opIllegal (by decide), hne opEcall (by decide), hne opEbreak (by decide),
    hne opCsr (by decide)]

theorem haltCode_jump (hlow : (20 : Byte) ≤ e.d.id) (hhigh : e.d.id ≤ (27 : Byte)) :
    haltCode v p e = if jumpMisaligned v e then haltMisaligned else haltNone := by
  have hne : ∀ i : Byte, ¬((20 : Byte) ≤ i ∧ i ≤ (27 : Byte)) → e.d.id ≠ i := by
    rintro i hi rfl
    exact hi ⟨hlow, hhigh⟩
  have hmem : isMem e = false := by
    simp [isMem, isLoad, isStore, hne opLoad (by decide), hne opStore (by decide)]
  obtain ⟨hwindow, hself, hdevice⟩ := not_store (v := v) (p := p) (hne opStore (by decide))
  rw [haltCode, hpc, hmem, hwindow, hself, hdevice]
  simp [hne opIllegal (by decide), hne opEcall (by decide), hne opEbreak (by decide),
    hne opCsr (by decide)]

theorem haltCode_load (hid : e.d.id = opLoad) :
    haltCode v p e =
      if misaligned v e then haltMisaligned else if badAddr v p e then haltBadAddr else haltNone := by
  have hmem : isMem e = true := by simp [isMem, isLoad, hid]
  have hstore : e.d.id ≠ opStore := by rw [hid]; decide
  obtain ⟨hwindow, hself, hdevice⟩ := not_store (v := v) (p := p) hstore
  have hjump : jumpMisaligned v e = false := jumpMisaligned_of_lt (by rw [hid]; decide)
  rw [haltCode, hpc, hjump, hmem, hwindow, hself, hdevice, hid]
  simp [opLoad, opIllegal, opEcall, opEbreak, opCsr]

theorem haltCode_store (hid : e.d.id = opStore) :
    haltCode v p e =
      if misaligned v e then haltMisaligned
      else if badAddr v p e then haltBadAddr
      else if isFbOrPalStore e && e.d.mk ≠ 4294967295 then haltBadAddr
      else if selfModify v p e then haltSelfModify
      else if isMmioStore v e && mmioIs v e Mmio.exit then haltExit
      else haltNone := by
  have hmem : isMem e = true := by simp [isMem, isStore, hid]
  have hjump : jumpMisaligned v e = false := jumpMisaligned_of_lt (by rw [hid]; decide)
  rw [haltCode, hpc, hjump, hmem, hid]
  cases hmis : misaligned v e <;> simp [opStore, opIllegal, opEcall, opEbreak, opCsr]

end

/-! ### The word a halt carries -/

section
variable {p : StepArgs} {e : Env} (hpc : pcOutOfText p e.acc.pc = false)
include hpc

theorem haltExtra_illegal : haltExtra .baseline p e haltIllegalInsn = e.d.raw := by
  change haltExtraCalc _ _ _ _ = _
  rw [haltExtraCalc, hpc]
  rfl

theorem haltExtra_exit : haltExtra .baseline p e haltExit = e.rs2v := by
  change haltExtraCalc _ _ _ _ = _
  rw [haltExtraCalc, hpc]
  rfl

theorem haltExtra_jump (hjump : jumpMisaligned .baseline e = true) :
    haltExtra .baseline p e haltMisaligned = jumpTargetIfTaken .baseline e := by
  change haltExtraCalc _ _ _ _ = _
  rw [haltExtraCalc, hpc, hjump]
  rfl

/-- A load or a store carries its address. -/
theorem haltExtra_access (hjump : jumpMisaligned .baseline e = false) {hc : Byte}
    (hhc : hc = haltBadAddr ∨ hc = haltMisaligned ∨ hc = haltSelfModify) :
    haltExtra .baseline p e hc = e.addr := by
  change haltExtraCalc _ _ _ _ = _
  rw [haltExtraCalc, hpc, hjump]
  rcases hhc with rfl | rfl | rfl <;> rfl

theorem haltExtra_system (hjump : jumpMisaligned .baseline e = false) {hc : Byte}
    (hhc : hc = haltEcall ∨ hc = haltEbreak ∨ hc = haltCsr) :
    haltExtra .baseline p e hc = 0 := by
  change haltExtraCalc _ _ _ _ = _
  rw [haltExtraCalc, hpc, hjump]
  rcases hhc with rfl | rfl | rfl <;> rfl

end

theorem jumpMisaligned_of_gt {v : Variant} {e : Env} (hid : 27#8 < e.d.id) :
    jumpMisaligned v e = false := by
  have h : ¬e.d.id ≤ 27#8 := by
    rw [BitVec.not_le]
    exact hid
  simp [jumpMisaligned, isJumpOp, h]

/-! ## What a step leaves -/

section
variable {v : Variant} {p : StepArgs} {keyqt : List (BitVec 16)} {e : Env} {hc : Byte}
  (hact : e.acc.control.stopped = 0)
include hact

/-- A step that halts changes the control fields, and records a checkpoint that
was due. -/
theorem stepTuple_halts (hhc : hc ≠ 0#8) :
    stepTuple v p keyqt e hc =
      { e.acc with control := ⟨1, 1, hc, e.acc.pc, haltExtra v p e hc⟩, cp := newCp e } := by
  have hactive : active e = true := decide_eq_true hact
  have hhalts : stepHaltsNow e hc = true := by simp [stepHaltsNow, hactive, hhc]
  have hretires : stepRetires e hc = false := by simp [stepRetires, hhc]
  simp [stepTuple, newRegs, newWl, newControl, newMmio, newConsole, newKeyqPos, newFbWl, newPalWl,
    isRetiringStore, frameCommittedNow, hhalts, hretires]

/-- A step that retires anything but a store. -/
theorem stepTuple_retires (hstore : e.d.id ≠ opStore) :
    stepTuple v p keyqt e haltNone =
      { e.acc with
        pc := next v e
        regs := newRegs v p keyqt e haltNone
        icount := e.acc.icount + 1
        mmio := { e.acc.mmio with keyqPos := newKeyqPos v keyqt e haltNone }
        cp := newCp e } := by
  have hactive : active e = true := decide_eq_true hact
  have hhalts : stepHaltsNow e haltNone = false := by simp [stepHaltsNow, haltNone]
  have hretires : stepRetires e haltNone = true := by simp [stepRetires, hactive, haltNone]
  have hdevice : isMmioStore v e = false := (not_store (v := v) (p := p) hstore).2.2
  have hst : isStore e = false := by simp [isStore, hstore]
  simp [stepTuple, newWl, newControl, newMmio, newConsole, newFbWl, newPalWl, hitsHwm,
    isRetiringStore, frameCommittedNow, hhalts, hretires, hdevice, hst]

omit hact in
/-- Only a load from the device window moves the queue. -/
theorem newKeyqPos_of_ne (hload : e.d.id ≠ opLoad) :
    newKeyqPos v keyqt e haltNone = e.acc.mmio.keyqPos := by
  simp [newKeyqPos, isMmioLoad, hload]

end
end ClickDoom

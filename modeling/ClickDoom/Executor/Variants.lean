import ClickDoom.Base.Fields
import ClickDoom.Executor.Fold

/-! # The formulations of the step agree

Each formulation rewrites which expressions are bound, inlined or derived from
another constant.  Four of them only bind; `MoreConstants` adds arms no halt code
reaches; `FewerConstants` derives its conditions another way, which agrees with
the baseline's unless RAM ends exactly at `2 ^ 32`: the baseline's end of RAM is a
32-bit sum and is zero there.
-/
namespace ClickDoom
open ClickHouse
open BitField (and_shifted_ones toNat_shifted)

/-! ## Conditions derived another way -/

theorem isMmio_eq (v : Variant) (e : Env) : isMmio v e = isMmio .baseline e := by
  by_cases hv : v = .fewerConstants
  · subst hv
    have hmask : (0xFFFFFFFF#32 ^^^ (mmioSize - 1#32)) = BitVec.allOnes 32 <<< 12 := by decide
    have hbase : (mmioBase : Word).toNat = 0x10000000 := rfl
    have hsize : (mmioSize : Word).toNat = 4096 := rfl
    have hlt := e.addr.isLt
    rw [Bool.eq_iff_iff]
    simp only [isMmio, reduceCtorEq, if_true, if_false, decide_eq_true_eq]
    rw [mmioOff, hmask, and_shifted_ones, ← BitVec.toNat_inj, toNat_shifted, BitVec.lt_def, BitVec.toNat_sub,
      hbase, hsize]
    omega
  · simp [isMmio, hv]

theorem mmioIs_eq (v : Variant) (e : Env) (reg : Word) : mmioIs v e reg = mmioIs .baseline e reg := by
  by_cases hv : v = .fewerConstants
  · subst hv
    rw [Bool.eq_iff_iff]
    simp only [mmioIs, reduceCtorEq, if_true, if_false, decide_eq_true_eq]
    rw [mmioOff]
    constructor
    · rintro rfl
      exact (add_sub_cancel _ _).symm
    · intro h
      rw [h]
      exact add_sub_cancel_left _ _
  · simp [mmioIs, hv]

theorem jalrTarget_eq (v : Variant) (e : Env) : jalrTarget v e = jalrTarget .baseline e := by
  by_cases hv : v = .fewerConstants
  · subst hv
    have hmask : 4294967294#32 = BitVec.allOnes 32 <<< 1 := by decide
    simp only [jalrTarget, reduceCtorEq, if_true, if_false]
    rw [hmask, and_shifted_ones]
  · simp [jalrTarget, hv]

/-- The masks the decode table writes. -/
def FewerConstantsAssumesMk (mk : Word) : Prop := mk = 0 ∨ mk = 255 ∨ mk = 65535 ∨ mk = 4294967295

theorem alignMask_eq (v : Variant) {mk : Word} (h : FewerConstantsAssumesMk mk) :
    alignMask v mk = alignMask .baseline mk := by
  by_cases hv : v = .fewerConstants
  · subst hv
    rcases h with rfl | rfl | rfl | rfl <;> decide
  · simp [alignMask, hv]

/-- A formulation whose RAM bounds are the baseline's. -/
def StepArgs.EndsBelow (p : StepArgs) (v : Variant) : Prop :=
  v ≠ .fewerConstants ∨ p.ramBase.toNat + p.ramWords.toNat * 4 ≠ 2 ^ 32

theorem textUpper_eq {v : Variant} {p : StepArgs} (hp : p.Accepts v) (e : Env) :
    textUpper v p e = textUpper .baseline p e := by
  by_cases hv : v = .fewerConstants
  · have h1 := (hp hv).1
    subst hv
    have hle : (1 : Word) ≤ p.textEndWidx := h1
    rw [Bool.eq_iff_iff]
    simp only [textUpper, reduceCtorEq, if_true, if_false, decide_eq_true_eq]
    rw [BitVec.le_def, BitVec.lt_def, BitVec.toNat_sub_of_le hle]
    have : (1 : Word).toNat = 1 := rfl
    omega
  · simp [textUpper, hv]

theorem addrOutsideRam_eq {v : Variant} {p : StepArgs} (hp : p.Accepts v) (hend : p.EndsBelow v)
    (addr : Word) : addrOutsideRam v p addr = addrOutsideRam .baseline p addr := by
  by_cases hv : v = .fewerConstants
  · obtain ⟨h1, h2⟩ := hp hv
    have hne := hend.resolve_left (fun h => h hv)
    subst hv
    have hwords : 1 ≤ p.ramWords.toNat := le_trans h1 p.text_inside
    have hone : (1 : Word) ≤ p.ramWords := hwords
    have hbase := p.ramBase.isLt
    have haddr := addr.isLt
    have hpalette : (paletteBase : Word).toNat < p.ramBase.toNat := p.palette_below
    have hfour : (p.ramWords * 4).toNat = p.ramWords.toNat * 4 := by
      rw [BitVec.toNat_mul, show (4 : Word).toNat = 4 from rfl]
      omega
    have hsum : (p.ramBase + p.ramWords * 4).toNat = p.ramBase.toNat + p.ramWords.toNat * 4 := by
      rw [BitVec.toNat_add, hfour]
      omega
    rw [Bool.eq_iff_iff]
    simp only [addrOutsideRam, reduceCtorEq, if_true, if_false, decide_eq_true_eq, Bool.or_eq_true]
    rw [ramOff, BitVec.lt_def, BitVec.lt_def, BitVec.le_def, hsum,
      BitVec.toNat_sub_of_le hone, BitVec.toNat_ushiftRight, Nat.shiftRight_eq_div_pow,
      BitVec.toNat_sub, show (1 : Word).toNat = 1 from rfl]
    omega
  · simp [addrOutsideRam, hv]

/-! ## The halt code -/

/-- Every halt code is one of the nine the configuration names. -/
theorem haltCode_le (v : Variant) (p : StepArgs) (e : Env) : (haltCode v p e).toNat ≤ 8 := by
  apply multiIf_of_forall (P := fun hc : Byte => hc.toNat ≤ 8)
  · decide
  · simp only [List.forall_mem_cons]
    exact ⟨by decide, by decide, by decide, by decide, by decide, by decide, by decide, by decide,
      by decide, by decide, by decide, List.forall_mem_nil _⟩

theorem haltExtra_eq_calc (v : Variant) (p : StepArgs) (e : Env) {hc : Byte} (h : hc.toNat ≤ 8) :
    haltExtra v p e hc = haltExtraCalc v p e hc := by
  have hdead : ((List.range 60).any fun n => hc = BitVec.ofNat 8 (33 + n)) = false := by
    rw [List.any_eq_false]
    intro n hn
    rw [List.mem_range] at hn
    rw [decide_eq_true_eq]
    rintro rfl
    rw [BitVec.toNat_ofNat] at h
    omega
  unfold haltExtra
  split_ifs with hv hany
  · rw [hdead] at hany
    cases hany
  · rfl
  · rfl

section
variable (v : Variant) (p : StepArgs) (e : Env)

theorem jumpTargetIfTaken_eq : jumpTargetIfTaken v e = jumpTargetIfTaken .baseline e := by
  rw [jumpTargetIfTaken, jumpTargetIfTaken, jalrTarget_eq v]

theorem jumpMisaligned_eq : jumpMisaligned v e = jumpMisaligned .baseline e := by
  rw [jumpMisaligned, jumpMisaligned, jumpTargetIfTaken_eq v]

theorem isMmioLoad_eq : isMmioLoad v e = isMmioLoad .baseline e := by
  rw [isMmioLoad, isMmioLoad, isMmio_eq v]

theorem isMmioStore_eq : isMmioStore v e = isMmioStore .baseline e := by
  rw [isMmioStore, isMmioStore, isMmio_eq v]

theorem next_eq : next v e = next .baseline e := by
  rw [next, next, jalrTarget_eq v]

theorem result_eq (keyqt : List (BitVec 16)) : result v p keyqt e = result .baseline p keyqt e := by
  have hread : mmioRead v p keyqt e = mmioRead .baseline p keyqt e := by
    rw [mmioRead, mmioRead, mmioIs_eq v, mmioIs_eq v]
  have hload : loadv v p keyqt e = loadv .baseline p keyqt e := by
    rw [loadv, loadv, isMmio_eq v, hread]
  rw [result, result, hload]

theorem isRetiringStore_eq (hc : Byte) : isRetiringStore v e hc = isRetiringStore .baseline e hc := by
  rw [isRetiringStore, isRetiringStore, isMmio_eq v]

theorem frameCommittedNow_eq (hc : Byte) :
    frameCommittedNow v e hc = frameCommittedNow .baseline e hc := by
  rw [frameCommittedNow, frameCommittedNow, isMmioStore_eq v, mmioIs_eq v]

theorem newControl_eq {hc : Byte} (hhc : hc.toNat ≤ 8) :
    newControl v p e hc = newControl .baseline p e hc := by
  have hhwm : hitsHwm v p e hc = hitsHwm .baseline p e hc := by
    rw [hitsHwm, hitsHwm, isRetiringStore_eq v]
  have hextra : haltExtra v p e hc = haltExtra .baseline p e hc := by
    rw [haltExtra_eq_calc v p e hhc, haltExtra_eq_calc .baseline p e hhc, haltExtraCalc,
      haltExtraCalc, jumpMisaligned_eq v, jumpTargetIfTaken_eq v]
  rw [newControl, newControl, hhwm, hextra, frameCommittedNow_eq v]

theorem newMmio_eq (keyqt : List (BitVec 16)) (hc : Byte) :
    newMmio v keyqt e hc = newMmio .baseline keyqt e hc := by
  have hconsole : newConsole v e hc = newConsole .baseline e hc := by
    rw [newConsole, newConsole, isMmioStore_eq v, mmioIs_eq v]
  have hkeyq : newKeyqPos v keyqt e hc = newKeyqPos .baseline keyqt e hc := by
    rw [newKeyqPos, newKeyqPos, isMmioLoad_eq v, mmioIs_eq v]
  rw [newMmio, newMmio, hconsole, hkeyq, frameCommittedNow_eq v]

theorem stepTuple_eq (keyqt : List (BitVec 16)) {hc : Byte} (hhc : hc.toNat ≤ 8) :
    stepTuple v p keyqt e hc = stepTuple .baseline p keyqt e hc := by
  have hregs : newRegs v p keyqt e hc = newRegs .baseline p keyqt e hc := by
    rw [newRegs, newRegs, result_eq v]
  have hwl : newWl v e hc = newWl .baseline e hc := by
    rw [newWl, newWl, isRetiringStore_eq v]
  rw [stepTuple, stepTuple, next_eq v, hregs, hwl, newControl_eq v p e hhc, newMmio_eq v]

end

theorem haltCode_eq {v : Variant} {p : StepArgs} {e : Env} (hp : p.Accepts v) (hend : p.EndsBelow v)
    (hmk : FewerConstantsAssumesMk e.d.mk) : haltCode v p e = haltCode .baseline p e := by
  have hmis : misaligned v e = misaligned .baseline e := by
    rw [misaligned, misaligned, alignMask_eq v hmk]
  have hbad : badAddr v p e = badAddr .baseline p e := by
    rw [badAddr, badAddr, addrOutsideRam_eq hp hend, isMmio_eq v]
  have hself : selfModify v p e = selfModify .baseline p e := by
    rw [selfModify, selfModify, hbad, hmis, isMmio_eq v, textUpper_eq hp]
  rw [haltCode, haltCode, jumpMisaligned_eq v, hmis, hbad, hself, isMmioStore_eq v, mmioIs_eq v]

/-- A row of the table, or the default row outside it, has one of its masks. -/
theorem env_mk {p : StepArgs} {cap : Captures} {acc : Acc} {i : Nat}
    (h : ∀ row ∈ cap.dec, FewerConstantsAssumesMk row.mk) :
    FewerConstantsAssumesMk (env p cap acc i).d.mk := by
  change FewerConstantsAssumesMk (arrayElement cap.dec (decIdx p acc.pc)).mk
  rw [decIdx, arrayElement_succ, List.getD_eq_getElem?_getD]
  cases hrow : cap.dec[min (pcWidx p acc.pc).toNat (p.decn - 1).toNat]? with
  | none => exact Or.inl rfl
  | some row => exact h row (List.mem_of_getElem? hrow)

/-- One step of any formulation is the baseline's, as long as RAM ends below
`2 ^ 32`. -/
theorem buildStep_eq_baseline {v : Variant} {p : StepArgs} (hp : p.Accepts v) (hend : p.EndsBelow v)
    {cap : Captures} (hmk : ∀ row ∈ cap.dec, FewerConstantsAssumesMk row.mk) (acc : Acc) (i : Nat) :
    buildStep v p cap acc i = buildStep .baseline p cap acc i := by
  have he : FewerConstantsAssumesMk (env p cap acc i).d.mk := env_mk hmk
  rw [buildStep_eq, buildStep_eq, haltCode_eq hp hend he,
    stepTuple_eq v p _ cap.keyqt (haltCode_le .baseline p _)]

/-! ## RAM that ends at `2 ^ 32` -/

/-- A word load from the last word of the address space. -/
def lastWordLoad : DecRow := .row opLoad 0 0 0 0xFFFFFFFC#32 0 4294967295 0 0

/-- The accumulator about to run the first word of the text. -/
def atTextStart (p : StepArgs) : Acc :=
  initAcc (p.ramBase + p.textStartWidx * 4) [] .empty 0 0

/-- A table that holds the load wherever the step looks. -/
def lastWordTable (p : StepArgs) : Captures where
  ramt := []
  dec := List.replicate (decIdx p (atTextStart p).pc) lastWordLoad
  keyqt := []

section
variable {p : StepArgs}

theorem env_lastWord : (env p (lastWordTable p) (atTextStart p) 0).d = lastWordLoad ∧
    (env p (lastWordTable p) (atTextStart p) 0).addr = 0xFFFFFFFC#32 := by
  have hd : (env p (lastWordTable p) (atTextStart p) 0).d = lastWordLoad := by
    change arrayElement (lastWordTable p).dec (decIdx p (atTextStart p).pc) = lastWordLoad
    rw [lastWordTable, decIdx, arrayElement_succ, List.getD_replicate _ (by omega)]
  refine ⟨hd, ?_⟩
  change readReg (atTextStart p).regs (env p (lastWordTable p) (atTextStart p) 0).d.rs1 +
    (env p (lastWordTable p) (atTextStart p) 0).d.imm = _
  rw [hd]
  simp [lastWordLoad, readReg]

/-- The load halts exactly when the formulation finds the address outside RAM. -/
theorem haltCode_lastWordLoad (v : Variant) {e : Env} (hd : e.d = lastWordLoad)
    (haddr : e.addr = 0xFFFFFFFC#32) (hpc : pcOutOfText p e.acc.pc = false) :
    haltCode v p e = if addrOutsideRam v p 0xFFFFFFFC#32 then haltBadAddr else haltNone := by
  have hmk : FewerConstantsAssumesMk e.d.mk := by
    rw [hd]
    exact Or.inr (Or.inr (Or.inr rfl))
  have hmis : misaligned v e = false := by
    rw [misaligned, alignMask_eq v hmk, hd, haddr]
    decide
  have hmmio : isMmio v e = false := by
    rw [isMmio_eq v, isMmio, haddr, if_neg (by decide)]
    decide
  have hid : e.d.id = 18 := by rw [hd]; rfl
  have hstore : isStore e = false := by simp [isStore, hid, opStore]
  have hwindow : isFbOrPalStore e = false := by simp [isFbOrPalStore, hid, opStore]
  have hmem : isMem e = true := by simp [isMem, isLoad, hid, opLoad]
  have hjump : jumpMisaligned v e = false := by simp [jumpMisaligned, isJumpOp, hid]
  have hself : selfModify v p e = false := by simp [selfModify, hstore]
  have hdevice : isMmioStore v e = false := by simp [isMmioStore, hmmio]
  rw [haltCode, hpc, hjump, hmis, badAddr, hmmio, hwindow, hself, hdevice, hmem, hid, haddr]
  simp [opIllegal, opEcall, opEbreak, opCsr]

theorem pcOutOfText_atTextStart (h : p.textStartWidx.toNat < 2 ^ 30) :
    pcOutOfText p (atTextStart p).pc = false := by
  have hstart : p.textStartWidx.toNat ≤ p.textEndWidx.toNat := p.text_le
  have hwidx : pcWidx p (atTextStart p).pc = p.textStartWidx := by
    apply BitVec.eq_of_toNat_eq
    change ((p.ramBase + p.textStartWidx * 4 - p.ramBase) >>> 2).toNat = _
    rw [show p.ramBase + p.textStartWidx * 4 - p.ramBase = p.textStartWidx * 4 from
      add_sub_cancel_left _ _, BitVec.toNat_ushiftRight, Nat.shiftRight_eq_div_pow, BitVec.toNat_mul,
      show (4 : Word).toNat = 4 from rfl]
    omega
  unfold pcOutOfText
  rw [hwidx]
  have hlt : p.textEndWidx ≠ p.textStartWidx → ¬p.textEndWidx ≤ p.textStartWidx := by
    intro hne hle
    exact hne (BitVec.eq_of_toNat_eq (le_antisymm hle hstart))
  split_ifs with h1 h2
  · rfl
  · simpa using hlt h1
  · simpa using hlt h1

variable (hend : p.ramBase.toNat + p.ramWords.toNat * 4 = 2 ^ 32)
include hend

theorem addrOutsideRam_lastWord :
    addrOutsideRam .baseline p 0xFFFFFFFC#32 = true ∧
      addrOutsideRam .fewerConstants p 0xFFFFFFFC#32 = false := by
  have hbase := p.ramBase.isLt
  have hpalette : (paletteBase : Word).toNat < p.ramBase.toNat := p.palette_below
  have hfour : (p.ramWords * 4).toNat = p.ramWords.toNat * 4 := by
    rw [BitVec.toNat_mul, show (4 : Word).toNat = 4 from rfl]
    omega
  have hsum : p.ramBase + p.ramWords * 4 = 0 := by
    apply BitVec.eq_of_toNat_eq
    rw [BitVec.toNat_add, hfour, hend, Nat.mod_self]
    rfl
  have hone : (1 : Word) ≤ p.ramWords := by
    rw [BitVec.le_def, show (1 : Word).toNat = 1 from rfl]
    omega
  constructor
  · simp only [addrOutsideRam, reduceCtorEq, if_false, hsum]
    simp
  · simp only [addrOutsideRam, if_true, decide_eq_false_iff_not]
    rw [ramOff, BitVec.lt_def, BitVec.toNat_sub_of_le hone, BitVec.toNat_ushiftRight,
      Nat.shiftRight_eq_div_pow, BitVec.toNat_sub, show (1 : Word).toNat = 1 from rfl,
      show (0xFFFFFFFC#32 : Word).toNat = 4294967292 from rfl]
    omega

/-- The baseline halts on the load and `FewerConstants` retires it. -/
theorem haltCode_lastWord :
    haltCode .baseline p (env p (lastWordTable p) (atTextStart p) 0) = haltBadAddr ∧
      haltCode .fewerConstants p (env p (lastWordTable p) (atTextStart p) 0) = haltNone := by
  obtain ⟨hd, haddr⟩ := env_lastWord (p := p)
  obtain ⟨hbad, hgood⟩ := addrOutsideRam_lastWord hend
  have hstart : p.textStartWidx.toNat < 2 ^ 30 := by
    have hle : p.textStartWidx.toNat ≤ p.textEndWidx.toNat := p.text_le
    have hinside : p.textEndWidx.toNat ≤ p.ramWords.toNat := p.text_inside
    have hpalette : (paletteBase : Word).toNat < p.ramBase.toNat := p.palette_below
    omega
  have hpc : pcOutOfText p (env p (lastWordTable p) (atTextStart p) 0).acc.pc = false :=
    pcOutOfText_atTextStart hstart
  constructor
  · rw [haltCode_lastWordLoad .baseline hd haddr hpc, hbad, if_pos rfl]
  · rw [haltCode_lastWordLoad .fewerConstants hd haddr hpc, hgood, if_neg Bool.false_ne_true]

theorem buildStep_lastWord_ne :
    buildStep .fewerConstants p (lastWordTable p) (atTextStart p) 0 ≠
      buildStep .baseline p (lastWordTable p) (atTextStart p) 0 := by
  obtain ⟨hbase, hfewer⟩ := haltCode_lastWord hend
  obtain ⟨hd, -⟩ := env_lastWord (p := p)
  have hactive : active (env p (lastWordTable p) (atTextStart p) 0) = true := rfl
  have hstopped : (env p (lastWordTable p) (atTextStart p) 0).acc.control.stopped = 0 := rfl
  intro h
  have hcontrol := congrArg (·.control.stopped) h
  rw [buildStep_eq, buildStep_eq, hbase, hfewer] at hcontrol
  simp only [stepTuple, newControl, stepHaltsNow, stepRetires, hitsHwm, frameCommittedNow,
    isRetiringStore, isMmioStore, isStore, hd, hactive, lastWordLoad] at hcontrol
  simp [haltNone, haltBadAddr, opLoad, opStore, hstopped] at hcontrol

end

/-- **When the formulations agree.**  For the arguments a formulation accepts,
its step is the baseline's on every accumulator, every RAM array and every table
with the decode table's masks, exactly when it is not `FewerConstants` or RAM
does not end at `2 ^ 32`. -/
theorem buildStep_eq_baseline_iff {v : Variant} {p : StepArgs} (hp : p.Accepts v) :
    (∀ cap : Captures, (∀ row ∈ cap.dec, FewerConstantsAssumesMk row.mk) → ∀ acc i,
      buildStep v p cap acc i = buildStep .baseline p cap acc i) ↔ p.EndsBelow v := by
  constructor
  · intro h
    by_contra hend
    simp only [StepArgs.EndsBelow, not_or, not_not] at hend
    obtain ⟨rfl, hedge⟩ := hend
    refine buildStep_lastWord_ne hedge (h (lastWordTable p) ?_ (atTextStart p) 0)
    intro row hrow
    rw [List.eq_of_mem_replicate hrow]
    exact Or.inr (Or.inr (Or.inr rfl))
  · intro hend cap hmk acc i
    exact buildStep_eq_baseline hp hend hmk acc i

/-- One word of text at the start of RAM. -/
def StepArgs.oneWordText (ramWords : Word) (h : 1 ≤ ramWords) : StepArgs where
  textStartWidx := 0
  textEndWidx := 1
  decn := 1
  ramWords := ramWords
  ramBase := ClickDoom.ramBase
  hwm := 1
  ipms := ipmsDefault
  text_le := textEnd_one
  text_inside := h
  ipms_ne_zero := ipmsDefault_ne_zero
  framebuffer_below := framebufferBase_lt_ramBase
  palette_below := paletteBase_lt_ramBase

/-- RAM up to the end of the address space, which `FewerConstants` accepts. -/
def StepArgs.toTheEnd : StepArgs := .oneWordText 0x20000000#32 (by decide)

/-- A one-word text in the default RAM. -/
def StepArgs.defaultRam : StepArgs := .oneWordText ramWordsDefault (by decide)

theorem buildStep_eq_baseline_defaultRam :
    StepArgs.defaultRam.Accepts .fewerConstants ∧
      ∀ cap : Captures, (∀ row ∈ cap.dec, FewerConstantsAssumesMk row.mk) → ∀ acc i,
        buildStep .fewerConstants .defaultRam cap acc i =
          buildStep .baseline .defaultRam cap acc i := by
  have hbelow : StepArgs.defaultRam.ramBase.toNat + StepArgs.defaultRam.ramWords.toNat * 4 < 2 ^ 32 := by
    simp [StepArgs.defaultRam, StepArgs.oneWordText, ramBase, ramWordsDefault]
  have haccepts : StepArgs.defaultRam.Accepts .fewerConstants := fun _ =>
    ⟨Nat.le_refl 1, hbelow.le⟩
  exact ⟨haccepts, (buildStep_eq_baseline_iff haccepts).mpr (Or.inr hbelow.ne)⟩

/-- With RAM up to the end of the address space, both constructions pass their
asserts and a word load from the last word tells the two steps apart. -/
theorem fewerConstants_differs_toTheEnd :
    StepArgs.toTheEnd.Accepts .fewerConstants ∧
      (∀ row ∈ (lastWordTable .toTheEnd).dec, FewerConstantsAssumesMk row.mk) ∧
      buildStep .fewerConstants .toTheEnd (lastWordTable .toTheEnd) (atTextStart .toTheEnd) 0 ≠
        buildStep .baseline .toTheEnd (lastWordTable .toTheEnd) (atTextStart .toTheEnd) 0 := by
  have hend : StepArgs.toTheEnd.ramBase.toNat + StepArgs.toTheEnd.ramWords.toNat * 4 = 2 ^ 32 := by
    simp [StepArgs.toTheEnd, StepArgs.oneWordText, ramBase]
  refine ⟨fun _ => ⟨Nat.le_refl 1, hend.le⟩, ?_, buildStep_lastWord_ne hend⟩
  intro row hrow
  rw [List.eq_of_mem_replicate hrow]
  exact Or.inr (Or.inr (Or.inr rfl))

end ClickDoom

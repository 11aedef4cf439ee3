import ClickDoom.Executor.Variants
import ClickDoom.Executor.Agreement

/-! # The text window and the decode table

The fetch is three expressions: an index into the decode table, a clamp of it, and the
test that the program counter is inside the text window.  The test counts words from
the base of RAM and so does the index, but the table's first row is the window's first
word: they agree for a window at the base of RAM.
-/
namespace ClickDoom
open ClickHouse

namespace StepArgs
variable (p : StepArgs)

/-- The addresses of the window's first word and of the first after it. -/
def textStart : Word := p.ramBase + p.textStartWidx * 4
def textStop : Word := p.ramBase + p.textEndWidx * 4

/-- The rows of the window's words, in the order of their addresses. -/
def windowRows (words : Nat → Word) : List DecRow :=
  (List.range' p.textStartWidx.toNat (p.textEndWidx.toNat - p.textStartWidx.toNat)).map fun n =>
    (decodedRow (p.ramBase >>> 2 + BitVec.ofNat 32 n) (words n)).dec

/-- What the step captures of a RAM with these words. -/
def provisioned (words : Nat → Word) (keyqt : List (BitVec 16)) : Captures where
  ramt := (List.range p.ramWords.toNat).map words
  dec := p.windowRows words
  keyqt := keyqt

end StepArgs

/-- Inside the window the step takes the row of the word at the program counter, and
outside it halts as the reference emulator does. -/
structure FetchesWindow (v : Variant) (p : StepArgs) : Prop where
  inside : ∀ words keyqt acc i n, p.textStartWidx.toNat ≤ n → n < p.textEndWidx.toNat →
    acc.pc.toNat = p.ramBase.toNat + 4 * n →
    (env p (p.provisioned words keyqt) acc i).d = (decodedRow (acc.pc >>> 2) (words n)).dec
  outside : ∀ words keyqt acc i (c : Cpu), acc.control.stopped = 0 →
    c.memory.text = some (p.textStart, p.textStop) → c.pc = acc.pc →
    ¬(p.textStart ≤ acc.pc ∧ acc.pc < p.textStop) →
    ∃ halt, c.step = (.error halt, c) ∧
      (buildStep v p (p.provisioned words keyqt) acc i).control = .ofHalt halt

section
variable {v : Variant} {p : StepArgs}

/-- The row at an index of the table. -/
theorem getD_windowRows (words : Nat → Word) {j : Nat}
    (h : j < p.textEndWidx.toNat - p.textStartWidx.toNat) :
    (p.windowRows words).getD j default =
      (decodedRow (p.ramBase >>> 2 + BitVec.ofNat 32 (p.textStartWidx.toNat + j))
        (words (p.textStartWidx.toNat + j))).dec := by
  rw [List.getD_eq_getElem?_getD, StepArgs.windowRows, List.getElem?_map, List.getElem?_range' h]
  simp

theorem toNat_pcWidx {pc : Word} {n : Nat} (h : pc.toNat = p.ramBase.toNat + 4 * n) :
    (pcWidx p pc).toNat = n := by
  have := pc.isLt
  rw [pcWidx, BitVec.toNat_ushiftRight, Nat.shiftRight_eq_div_pow, BitVec.toNat_sub, h]
  omega

/-- The row the step takes at a word of the window: that many rows from the base of RAM,
as far as there are rows. -/
theorem env_d_window (hdecn : p.decn = p.textEndWidx - p.textStartWidx) (words : Nat → Word)
    (keyqt : List (BitVec 16)) (acc : Acc) (i : Nat) {n : Nat} (hlo : p.textStartWidx.toNat ≤ n)
    (hhi : n < p.textEndWidx.toNat) (hpc : acc.pc.toNat = p.ramBase.toNat + 4 * n) :
    ∃ j, j = min n (p.textEndWidx.toNat - p.textStartWidx.toNat - 1) ∧
      (env p (p.provisioned words keyqt) acc i).d =
        (decodedRow (p.ramBase >>> 2 + BitVec.ofNat 32 (p.textStartWidx.toNat + j))
          (words (p.textStartWidx.toNat + j))).dec := by
  have hend := p.textEndWidx.isLt
  have hrows : (p.decn - 1).toNat = p.textEndWidx.toNat - p.textStartWidx.toNat - 1 := by
    rw [hdecn, BitVec.toNat_sub, BitVec.toNat_sub, show (1 : Word).toNat = 1 from rfl]
    omega
  refine ⟨_, rfl, ?_⟩
  change arrayElement (p.windowRows words) (decIdx p acc.pc) = _
  rw [decIdx, arrayElement_succ, toNat_pcWidx hpc, hrows, getD_windowRows]
  omega

theorem pc_ushiftRight {pc : Word} {n : Nat} (h : pc.toNat = p.ramBase.toNat + 4 * n) :
    pc >>> 2 = p.ramBase >>> 2 + BitVec.ofNat 32 n := by
  have := pc.isLt
  apply BitVec.eq_of_toNat_eq
  rw [BitVec.toNat_add, BitVec.toNat_ushiftRight, BitVec.toNat_ushiftRight, BitVec.toNat_ofNat,
    Nat.shiftRight_eq_div_pow, Nat.shiftRight_eq_div_pow, h]
  omega

/-- A window at the base of RAM, or of one word. -/
theorem inside_of (hdecn : p.decn = p.textEndWidx - p.textStartWidx)
    (h : p.textStartWidx = 0 ∨ p.textEndWidx.toNat = p.textStartWidx.toNat + 1) (words : Nat → Word)
    (keyqt : List (BitVec 16)) (acc : Acc) (i n : Nat) (hlo : p.textStartWidx.toNat ≤ n)
    (hhi : n < p.textEndWidx.toNat) (hpc : acc.pc.toNat = p.ramBase.toNat + 4 * n) :
    (env p (p.provisioned words keyqt) acc i).d = (decodedRow (acc.pc >>> 2) (words n)).dec := by
  obtain ⟨j, hj, hd⟩ := env_d_window hdecn words keyqt acc i hlo hhi hpc
  have hn : p.textStartWidx.toNat + j = n := by
    rcases h with hzero | hone
    · have hzero' : p.textStartWidx.toNat = 0 := by rw [hzero]; rfl
      omega
    · omega
  rw [hd, hn, pc_ushiftRight hpc]

section
variable (hfits : p.ramBase.toNat + 4 * p.textEndWidx.toNat < 2 ^ 32)
include hfits

theorem toNat_textStart : p.textStart.toNat = p.ramBase.toNat + 4 * p.textStartWidx.toNat := by
  have hle : p.textStartWidx.toNat ≤ p.textEndWidx.toNat := p.text_le
  rw [StepArgs.textStart, BitVec.toNat_add, BitVec.toNat_mul, show (4 : Word).toNat = 4 from rfl]
  omega

theorem toNat_textStop : p.textStop.toNat = p.ramBase.toNat + 4 * p.textEndWidx.toNat := by
  rw [StepArgs.textStop, BitVec.toNat_add, BitVec.toNat_mul, show (4 : Word).toNat = 4 from rfl]
  omega

theorem pcOutOfText_of_outside (hne : p.textStartWidx ≠ p.textEndWidx) {pc : Word}
    (h : ¬(p.textStart ≤ pc ∧ pc < p.textStop)) : pcOutOfText p pc = true := by
  have hstart := toNat_textStart hfits
  have hstop := toNat_textStop hfits
  have hout : ¬(p.textStart.toNat ≤ pc.toNat ∧ pc.toNat < p.textStop.toNat) := h
  have hpc := pc.isLt
  have hwidx : (pcWidx p pc).toNat < p.textStartWidx.toNat ∨
      p.textEndWidx.toNat ≤ (pcWidx p pc).toNat := by
    rw [pcWidx, BitVec.toNat_ushiftRight, Nat.shiftRight_eq_div_pow, BitVec.toNat_sub]
    omega
  rw [pcOutOfText, if_neg (Ne.symm hne)]
  split
  · rename_i hzero
    have hzero' : p.textStartWidx.toNat = 0 := by rw [hzero]; rfl
    have hpast : p.textEndWidx ≤ pcWidx p pc := hwidx.resolve_left (by omega)
    exact decide_eq_true hpast
  · rw [Bool.or_eq_true, decide_eq_true_eq, decide_eq_true_eq]
    exact hwidx

/-- Outside the window both machines halt with the program counter as the address. -/
theorem outside_of (hne : p.textStartWidx ≠ p.textEndWidx) (cap : Captures) (acc : Acc) (i : Nat)
    (c : Cpu) (hactive : acc.control.stopped = 0)
    (htext : c.memory.text = some (p.textStart, p.textStop)) (hpc : c.pc = acc.pc)
    (h : ¬(p.textStart ≤ acc.pc ∧ acc.pc < p.textStop)) :
    ∃ halt, c.step = (.error halt, c) ∧ (buildStep v p cap acc i).control = .ofHalt halt := by
  refine ⟨.onFetch .badAddr acc.pc acc.pc, ?_, ?_⟩
  · have hout : c.outsideText = true := by
      rw [Cpu.outsideText, htext, hpc, Bool.not_eq_true', ← Bool.not_eq_true, Bool.and_eq_true,
        decide_eq_true_eq, decide_eq_true_eq]
      exact h
    rw [Cpu.step, Cpu.stepReporting, if_pos hout, hpc]
    rfl
  · have hpcOut : pcOutOfText p (env p cap acc i).acc.pc = true :=
      pcOutOfText_of_outside hfits hne h
    have hcode : haltCode v p (env p cap acc i) = haltBadAddr := by
      rw [haltCode, multiIf_cons, if_pos hpcOut]
    have hhalts : stepHaltsNow (env p cap acc i) haltBadAddr = true := by
      rw [stepHaltsNow, active, show (env p cap acc i).acc = acc from rfl, hactive]
      rfl
    rw [buildStep_eq, hcode]
    change newControl v p (env p cap acc i) haltBadAddr = _
    rw [newControl, if_pos hhalts, haltExtra_eq_calc v p _ (by decide), haltExtraCalc, if_pos hpcOut]
    rfl

end

/-! ## A window away from the base of RAM -/

/-- Every word zero but one. -/
def oneWord (n : Nat) (m : Nat) : Word := if m = n then 0x13 else 0

theorem raw_decodedRow (wordAddr value : Word) : (decodedRow wordAddr value).dec.raw = value := rfl

/-- The first word of such a window is not what the step takes there. -/
theorem not_inside (hdecn : p.decn = p.textEndWidx - p.textStartWidx)
    (hfits : p.ramBase.toNat + 4 * p.textEndWidx.toNat < 2 ^ 32) (hpos : p.textStartWidx ≠ 0)
    (hmore : p.textStartWidx.toNat + 1 < p.textEndWidx.toNat) : ¬FetchesWindow v p := by
  intro h
  have hstart : 0 < p.textStartWidx.toNat :=
    Nat.pos_of_ne_zero fun hzero => hpos (BitVec.eq_of_toNat_eq hzero)
  have hpc : (atTextStart p).pc.toNat = p.ramBase.toNat + 4 * p.textStartWidx.toNat :=
    toNat_textStart hfits
  obtain ⟨j, hj, hd⟩ := env_d_window hdecn (oneWord p.textStartWidx.toNat) [] (atTextStart p) 0
    (Nat.le_refl _) (by omega) hpc
  have hrow := h.inside (oneWord p.textStartWidx.toNat) [] (atTextStart p) 0 _ (Nat.le_refl _)
    (by omega) hpc
  have hraw := congrArg DecRow.raw (hd.symm.trans hrow)
  rw [raw_decodedRow, raw_decodedRow, oneWord, oneWord, if_pos rfl, if_neg (by omega)] at hraw
  exact absurd hraw (by decide)

/-- The row an empty table gives adds zero to `x0`. -/
theorem control_default {cap : Captures} {acc : Acc} {i : Nat} (hd : (env p cap acc i).d = default)
    (hcontrol : (env p cap acc i).acc.control = .running) (hpc : pcOutOfText p acc.pc = false) :
    (buildStep v p cap acc i).control = .running := by
  have hid : (env p cap acc i).d.id = 0 := by rw [hd]; rfl
  have hstore : isStore (env p cap acc i) = false := by simp [isStore, hid, opStore]
  have hload : isLoad (env p cap acc i) = false := by simp [isLoad, hid, opLoad]
  have hdevice : isMmioStore v (env p cap acc i) = false := by simp [isMmioStore, hid, opStore]
  have hwindow : isFbOrPalStore (env p cap acc i) = false := by
    simp [isFbOrPalStore, hid, opStore]
  have hjump : jumpMisaligned v (env p cap acc i) = false := by
    simp [jumpMisaligned, isJumpOp, hid]
  have hcode : haltCode v p (env p cap acc i) = haltNone := by
    rw [haltCode, show (env p cap acc i).acc = acc from rfl, hpc, hid, hjump, isMem, hload, hstore,
      hwindow, selfModify, hstore, hdevice]
    simp [opIllegal, opEcall, opEbreak, opCsr]
  rw [buildStep_eq, hcode, stepTuple, newControl, stepHaltsNow, hitsHwm, isRetiringStore, hstore, frameCommittedNow, hdevice]
  simpa [haltNone] using hcontrol

/-- A machine that stands at the start of its window. -/
def Cpu.atTextStart (p : StepArgs) : Cpu :=
  .new ((Memory.new MemoryMap.clickdoom (.registers (.new 1 one_ipms_ne_zero))).setTextRegion
    (some (p.textStart, p.textStop))) p.textStart

/-- An empty window has nothing to be outside of. -/
theorem not_outside (hempty : p.textStartWidx = p.textEndWidx) : ¬FetchesWindow v p := by
  intro h
  have hstop : p.textStop = p.textStart := by rw [StepArgs.textStop, StepArgs.textStart, hempty]
  obtain ⟨halt, -, hcontrol⟩ := h.outside (fun _ => 0) [] (atTextStart p) 0 (.atTextStart p) rfl rfl
    rfl fun hin => by
      rw [hstop] at hin
      exact absurd hin.2 (Nat.not_lt.mpr hin.1)
  have hd : (env p (p.provisioned (fun _ => 0) []) (atTextStart p) 0).d = default := by
    change arrayElement (p.windowRows fun _ => 0) (decIdx p (atTextStart p).pc) = default
    rw [StepArgs.windowRows, hempty, Nat.sub_self, decIdx, arrayElement_succ]
    rfl
  have hpc : pcOutOfText p (atTextStart p).pc = false := by rw [pcOutOfText, if_pos hempty.symm]
  have hrunning : (buildStep v p (p.provisioned (fun _ => 0) []) (atTextStart p) 0).control = .running :=
    control_default hd rfl hpc
  exact absurd (hcontrol.symm.trans hrunning) (by simp [Control.ofHalt, Control.running])

end

/-- The fetch is right exactly for a window at the base of RAM, or of one word. -/
theorem fetchesWindow_iff {v : Variant} {p : StepArgs}
    (hdecn : p.decn = p.textEndWidx - p.textStartWidx)
    (hfits : p.ramBase.toNat + 4 * p.textEndWidx.toNat < 2 ^ 32) :
    FetchesWindow v p ↔ p.textStartWidx ≠ p.textEndWidx ∧
      (p.textStartWidx = 0 ∨ p.textEndWidx.toNat = p.textStartWidx.toNat + 1) := by
  have hle : p.textStartWidx.toNat ≤ p.textEndWidx.toNat := p.text_le
  constructor
  · intro h
    have hne : p.textStartWidx ≠ p.textEndWidx := fun hempty => not_outside hempty h
    refine ⟨hne, ?_⟩
    by_contra hnot
    rw [not_or] at hnot
    have hlt : p.textStartWidx.toNat ≠ p.textEndWidx.toNat := fun heq => hne (BitVec.eq_of_toNat_eq heq)
    exact not_inside hdecn hfits hnot.1 (by omega) h
  · rintro ⟨hne, h⟩
    exact
      { inside := inside_of hdecn h
        outside := fun words keyqt acc i c => outside_of hfits hne (p.provisioned words keyqt) acc i c }

/-- A window of `textWords` words, `textStart` words into a RAM of sixteen. -/
def StepArgs.sixteen (textStart textWords : Word) (h : textStart ≤ textStart + textWords)
    (h' : textStart + textWords ≤ 16) : StepArgs where
  textStartWidx := textStart
  textEndWidx := textStart + textWords
  decn := textWords
  ramWords := 16
  ramBase := ClickDoom.ramBase
  hwm := 8
  ipms := 1
  text_le := h
  text_inside := h'
  ipms_ne_zero := one_ipms_ne_zero
  framebuffer_below := framebufferBase_lt_ramBase
  palette_below := paletteBase_lt_ramBase

/-- Eight words at the base of RAM. -/
theorem fetchesWindow_base : FetchesWindow .baseline (.sixteen 0 8 (by decide) (by decide)) :=
  (fetchesWindow_iff (by decide) (by decide)).mpr ⟨by decide, .inl rfl⟩

/-- Two words from the second on: at the first of them the step takes the row of the
second. -/
theorem wrong_row_second_word :
    let p : StepArgs := .sixteen 1 2 (by decide) (by decide)
    (atTextStart p).pc = ramBase + 4 ∧
      (env p (p.provisioned (oneWord 1) []) (atTextStart p) 0).d =
        (decodedRow (ramBaseWord + 2) (oneWord 1 2)).dec ∧
      (env p (p.provisioned (oneWord 1) []) (atTextStart p) 0).d ≠
        (decodedRow (ramBaseWord + 1) (oneWord 1 1)).dec := by
  decide +kernel

end ClickDoom

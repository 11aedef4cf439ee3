import ClickDoom.Executor.Variants

/-! # The guard of the self-modify arm

A framebuffer or palette address lies below RAM, so that its word index wraps and is
clamped.  Where the builder finds that it cannot be clamped into the text window it
leaves out the guard against such a store.  It looks at the first address of each
region only: a region may run past the start of RAM.
-/
namespace ClickDoom
open ClickHouse

/-! ## The halt code with the guard given -/

/-- `haltCode` with `guard` in the self-modify arm. -/
def haltCodeGuarded (v : Variant) (p : StepArgs) (guard : Bool) (e : Env) : Byte :=
  multiIf
    ([ (pcOutOfText p e.acc.pc, haltBadAddr)
    , (e.d.id = opIllegal, haltIllegalInsn)
    , (e.d.id = opEcall, haltEcall)
    , (e.d.id = opEbreak, haltEbreak)
    , (e.d.id = opCsr, haltCsr)
    , (jumpMisaligned v e, haltMisaligned)
    , (isMem e && misaligned v e, haltMisaligned)
    , (isMem e && badAddr v p e, haltBadAddr)
    , (isFbOrPalStore e && e.d.mk ≠ 4294967295, haltBadAddr) ] ++
    [ (isStore e && !badAddr v p e && !misaligned v e && !isMmio v e && guard &&
        p.textStartWidx ≤ e.wa && textUpper v p e, haltSelfModify)
    , (isMmioStore v e && !misaligned v e && mmioIs v e Mmio.exit, haltExit) ])
    haltNone

/-- The builder's halt code is the one with its choice of a guard. -/
theorem haltCode_eq_guarded (v : Variant) (p : StepArgs) (e : Env) :
    haltCode v p e = haltCodeGuarded v p (selfModifyExtraGuard p e) e := rfl

/-- The condition without the guard decides as the one with it, whatever store of a
framebuffer or palette address the step takes. -/
def GuardDroppable (v : Variant) (p : StepArgs) : Prop :=
  ∀ cap acc i, isFbOrPalStore (env p cap acc i) = true →
    haltCodeGuarded v p true (env p cap acc i) =
      haltCodeGuarded v p (!isFbOrPalStore (env p cap acc i)) (env p cap acc i)

/-- The text window is empty, or no whole word of it lies below the palette's end. -/
def StepArgs.TextPastPalette (p : StepArgs) : Prop :=
  p.textStartWidx = p.textEndWidx ∨
    paletteBase.toNat + paletteSize.toNat < p.ramBase.toNat + 4 * p.textStartWidx.toNat + 4

/-- An arm counts only where none before it holds. -/
theorem multiIf_append_congr {α : Type} {arms : List (Bool × α)} {c c' : Bool} {y x : α}
    {rest : List (Bool × α)} (h : (∀ arm ∈ arms, arm.1 = false) → c = c') :
    multiIf (arms ++ (c, y) :: rest) x = multiIf (arms ++ (c', y) :: rest) x := by
  induction arms with
  | nil => rw [List.nil_append, List.nil_append, h (by simp)]
  | cons arm arms ih =>
    obtain ⟨first, value⟩ := arm
    rw [List.cons_append, List.cons_append, multiIf_cons, multiIf_cons]
    cases first with
    | true => rfl
    | false =>
      refine ih fun harms => h fun arm harm => ?_
      rcases List.mem_cons.mp harm with rfl | harm
      · rfl
      · exact harms arm harm

/-! ## Where a store lands -/

section
variable {v : Variant} {p : StepArgs}

/-- What the builder has found. -/
theorem toNat_of_outsideText (h : fbPalWaProvablyOutsideText p = true) :
    (p.ramWords - 1).toNat ≤ (2 ^ 32 - (p.ramBase.toNat - framebufferBase.toNat)) / 4 ∧
      p.textEndWidx.toNat ≤ (p.ramWords - 1).toNat := by
  have hfb : framebufferBase.toNat < p.ramBase.toNat := p.framebuffer_below
  have hfbBase : framebufferBase.toNat = 285212672 := rfl
  simp only [fbPalWaProvablyOutsideText, List.all_cons, Bool.and_eq_true, Bool.not_eq_true',
    Bool.or_eq_false_iff, decide_eq_false_iff_not, Nat.not_lt] at h
  obtain ⟨⟨hshifted, htext⟩, -⟩ := h
  refine ⟨?_, htext⟩
  omega

theorem toNat_waSafe (addr : Word) :
    (waSafe p addr).toNat = min ((addr - p.ramBase).toNat / 4) (p.ramWords - 1).toNat := by
  have hoff : (ramOff p addr).toNat = (addr - p.ramBase).toNat / 4 := by
    rw [ramOff, BitVec.toNat_ushiftRight, Nat.shiftRight_eq_div_pow]
  rw [waSafe]
  split
  · rename_i hle
    rw [hoff, min_eq_left]
    rw [← hoff]
    exact hle
  · rename_i hle
    rw [min_eq_right]
    rw [← hoff]
    exact (Nat.lt_of_not_le hle).le

/-- The addresses of the two regions. -/
theorem toNat_of_fbOrPal {e : Env} (h : isFbOrPalStore e = true) :
    e.d.id = opStore ∧ (285212672 ≤ e.addr.toNat ∧ e.addr.toNat < 285276672 ∨
      285278208 ≤ e.addr.toNat ∧ e.addr.toNat < 285278976) := by
  rw [isFbOrPalStore, Bool.and_eq_true, Bool.or_eq_true, decide_eq_true_eq] at h
  refine ⟨h.1, h.2.imp (fun hfb => ?_) fun hpal => ?_⟩
  · have hlt : (e.addr - framebufferBase).toNat < 64000 := of_decide_eq_true hfb
    rw [BitVec.toNat_sub, show framebufferBase.toNat = 285212672 from rfl] at hlt
    have := e.addr.isLt
    omega
  · have hlt : (e.addr - paletteBase).toNat < 768 := of_decide_eq_true hpal
    rw [BitVec.toNat_sub, show paletteBase.toNat = 285278208 from rfl] at hlt
    have := e.addr.isLt
    omega

/-- An aligned store below RAM is clamped past the text, and one above its start falls
short of it. -/
theorem wa_outside_text (h : fbPalWaProvablyOutsideText p = true) {e : Env}
    (hstore : isFbOrPalStore e = true) (hwa : e.wa = waSafe p e.addr)
    (haligned : e.addr.toNat % 4 = 0) (hpast : p.TextPastPalette) :
    ¬(p.textStartWidx.toNat ≤ e.wa.toNat ∧ e.wa.toNat < p.textEndWidx.toNat) := by
  obtain ⟨hclamp, htext⟩ := toNat_of_outsideText h
  obtain ⟨-, hregion⟩ := toNat_of_fbOrPal hstore
  have hpal : paletteBase.toNat < p.ramBase.toNat := p.palette_below
  have haddr := e.addr.isLt
  have hbase := p.ramBase.isLt
  rw [hwa, toNat_waSafe, BitVec.toNat_sub]
  rw [show framebufferBase.toNat = 285212672 from rfl] at hclamp
  rw [show paletteBase.toNat = 285278208 from rfl] at hpal
  rcases hpast with hempty | hpast
  · rw [hempty]
    omega
  · rw [show paletteBase.toNat = 285278208 from rfl, show paletteSize.toNat = 768 from rfl] at hpast
    omega

theorem toNat_mod_of_aligned {e : Env} (hmk : e.d.mk = 4294967295) (h : misaligned v e = false) :
    e.addr.toNat % 4 = 0 := by
  rw [misaligned, alignMask_eq v (Or.inr (Or.inr (Or.inr hmk))), hmk] at h
  have hand : e.addr &&& 3#32 = 0 := by simpa [alignMask] using h
  have hmod : (e.addr &&& 3#32).toNat = e.addr.toNat % 4 := by
    rw [BitVec.toNat_and]
    exact Nat.and_two_pow_sub_one_eq_mod e.addr.toNat 2
  rw [← hmod, hand]
  rfl

theorem guardDroppable_of_past (hp : p.Accepts v) (h : fbPalWaProvablyOutsideText p = true)
    (hpast : p.TextPastPalette) : GuardDroppable v p := by
  intro cap acc i hstore
  have hwa : (env p cap acc i).wa = waSafe p (env p cap acc i).addr := rfl
  generalize env p cap acc i = e at *
  refine multiIf_append_congr fun harms => ?_
  simp only [List.mem_cons, List.not_mem_nil, or_false, forall_eq_or_imp, forall_eq] at harms
  obtain ⟨-, -, -, -, -, -, hmis, -, hnarrow⟩ := harms
  have hmk : e.d.mk = 4294967295 := by simpa [hstore] using hnarrow
  have hmem : isMem e = true := by simp [isMem, isStore, (toNat_of_fbOrPal hstore).1]
  rw [hmem, Bool.true_and] at hmis
  have hout := wa_outside_text h hstore hwa (toNat_mod_of_aligned hmk hmis) hpast
  rw [hstore, textUpper_eq hp]
  have hwindow : (decide (p.textStartWidx ≤ e.wa) && textUpper .baseline p e) = false := by
    rw [Bool.eq_false_iff]
    intro htrue
    rw [Bool.and_eq_true, decide_eq_true_eq] at htrue
    exact hout ⟨htrue.1, of_decide_eq_true htrue.2⟩
  rw [Bool.and_assoc, hwindow]
  simp

/-! ## A store into the palette's end -/

/-- The first word of the text, rounded up to a word address. -/
def textWordAddr (p : StepArgs) : Word :=
  BitVec.ofNat 32 ((p.ramBase.toNat + 4 * p.textStartWidx.toNat + 3) / 4 * 4)

/-- A word store there. -/
def textWordStore (p : StepArgs) : DecRow := .row opStore 0 0 0 (textWordAddr p) 0 4294967295 0 0

/-- A table that holds the store wherever the step looks. -/
def textWordTable (p : StepArgs) : Captures where
  ramt := []
  dec := List.replicate (decIdx p (atTextStart p).pc) (textWordStore p)
  keyqt := []

/-- That store, at the start of the text. -/
def textWordEnv (p : StepArgs) : Env := env p (textWordTable p) (atTextStart p) 0

theorem textWordEnv_d : (textWordEnv p).d = textWordStore p := by
  change arrayElement (textWordTable p).dec (decIdx p (atTextStart p).pc) = textWordStore p
  rw [textWordTable, decIdx, arrayElement_succ, List.getD_replicate _ (by omega)]

theorem textWordEnv_addr : (textWordEnv p).addr = textWordAddr p := by
  change readReg (atTextStart p).regs (textWordEnv p).d.rs1 + (textWordEnv p).d.imm = _
  rw [textWordEnv_d]
  simp [textWordStore, readReg]

/-- An aligned word store of the palette that is executed halts in the self-modify arm or
not at all. -/
theorem haltCodeGuarded_palette (hp : p.Accepts v) (guard : Bool) {e : Env} (hid : e.d.id = opStore)
    (hmk : e.d.mk = 4294967295) (hpal : isPal e = true) (haligned : e.addr.toNat % 4 = 0)
    (hpc : pcOutOfText p e.acc.pc = false) (hlo : p.textStartWidx ≤ e.wa)
    (hhi : e.wa < p.textEndWidx) :
    haltCodeGuarded v p guard e = if guard then haltSelfModify else haltNone := by
  have hstore : isFbOrPalStore e = true := by
    rw [isFbOrPalStore, hpal, Bool.or_true, Bool.and_true]
    exact decide_eq_true hid
  obtain ⟨-, hregion⟩ := toNat_of_fbOrPal hstore
  have hmis : misaligned v e = false := by
    rw [misaligned, alignMask_eq v (Or.inr (Or.inr (Or.inr hmk))), hmk]
    have hand : e.addr &&& 3#32 = 0 := by
      apply BitVec.eq_of_toNat_eq
      rw [BitVec.toNat_and]
      exact (Nat.and_two_pow_sub_one_eq_mod e.addr.toNat 2).trans haligned
    simpa [alignMask] using hand
  have hmmio : isMmio v e = false := by
    rw [isMmio_eq v, ← isMmio_eq .fewerConstants, isMmio, if_pos rfl, mmioOff]
    refine decide_eq_false fun hlt => ?_
    have hlt : (e.addr - mmioBase).toNat < 4096 := hlt
    rw [BitVec.toNat_sub, show mmioBase.toNat = 268435456 from rfl] at hlt
    omega
  have hisStore : isStore e = true := decide_eq_true hid
  have hbad : badAddr v p e = false := by rw [badAddr, hstore, Bool.not_true, Bool.and_false]
  have hjump : jumpMisaligned v e = false := by simp [jumpMisaligned, isJumpOp, hid, opStore]
  have hdevice : isMmioStore v e = false := by simp [isMmioStore, hmmio]
  have hupper : textUpper v p e = true := by
    rw [textUpper_eq hp]
    exact decide_eq_true hhi
  rw [haltCodeGuarded, hpc, hjump, hmis, hbad, hmmio, hdevice, hupper, hisStore, hmk,
    decide_eq_true hlo, hid]
  cases guard <;> simp [opStore, opIllegal, opEcall, opEbreak, opCsr]

theorem not_guardDroppable (hp : p.Accepts v) (h : fbPalWaProvablyOutsideText p = true)
    (hpast : ¬p.TextPastPalette) : ¬GuardDroppable v p := by
  obtain ⟨hclamp, htext⟩ := toNat_of_outsideText h
  rw [StepArgs.TextPastPalette, not_or, Nat.not_lt, show paletteBase.toNat = 285278208 from rfl,
    show paletteSize.toNat = 768 from rfl] at hpast
  obtain ⟨hne, hbelow⟩ := hpast
  have hpal : paletteBase.toNat < p.ramBase.toNat := p.palette_below
  rw [show paletteBase.toNat = 285278208 from rfl] at hpal
  have hlt : p.textStartWidx.toNat < p.textEndWidx.toNat :=
    lt_of_le_of_ne p.text_le fun heq => hne (BitVec.eq_of_toNat_eq heq)
  have haddr : (textWordAddr p).toNat =
      (p.ramBase.toNat + 4 * p.textStartWidx.toNat + 3) / 4 * 4 := by
    rw [textWordAddr, BitVec.toNat_ofNat]
    omega
  have hwa : (waSafe p (textWordAddr p)).toNat = p.textStartWidx.toNat := by
    rw [toNat_waSafe, BitVec.toNat_sub, haddr]
    have := p.ramBase.isLt
    omega
  have hstart : p.textStartWidx.toNat < 2 ^ 30 := by
    omega
  have hpal' : isPal (textWordEnv p) = true := by
    rw [isPal, textWordEnv_addr]
    refine decide_eq_true ?_
    change (textWordAddr p - paletteBase).toNat < 768
    rw [BitVec.toNat_sub, haddr, show paletteBase.toNat = 285278208 from rfl]
    omega
  have hcode : ∀ guard, haltCodeGuarded v p guard (textWordEnv p) =
      if guard then haltSelfModify else haltNone := by
    intro guard
    refine haltCodeGuarded_palette hp guard ?_ ?_ hpal' ?_ (pcOutOfText_atTextStart hstart) ?_ ?_
    · rw [textWordEnv_d]
      rfl
    · rw [textWordEnv_d]
      rfl
    · rw [textWordEnv_addr, haddr]
      omega
    · change p.textStartWidx.toNat ≤ (waSafe p (textWordEnv p).addr).toNat
      rw [textWordEnv_addr, hwa]
    · change (waSafe p (textWordEnv p).addr).toNat < p.textEndWidx.toNat
      rw [textWordEnv_addr, hwa]
      exact hlt
  have hstore : isFbOrPalStore (textWordEnv p) = true := by
    rw [isFbOrPalStore, hpal', Bool.or_true, Bool.and_true, textWordEnv_d]
    rfl
  intro hdrop
  have hsame := hdrop (textWordTable p) (atTextStart p) 0 hstore
  rw [show env p (textWordTable p) (atTextStart p) 0 = textWordEnv p from rfl, hcode, hcode, hstore]
    at hsame
  exact absurd hsame (by decide)

end

/-- The builder drops the guard soundly exactly where the text window is empty or starts
past the palette. -/
theorem guardDroppable_iff {v : Variant} {p : StepArgs} (hp : p.Accepts v)
    (h : fbPalWaProvablyOutsideText p = true) : GuardDroppable v p ↔ p.TextPastPalette :=
  ⟨fun hdrop => not_not.mp fun hpast => not_guardDroppable hp h hpast hdrop,
    guardDroppable_of_past hp h⟩

/-- With the default RAM the text starts far above the palette. -/
theorem guardDroppable_defaultRam :
    fbPalWaProvablyOutsideText .defaultRam = true ∧ GuardDroppable .baseline .defaultRam := by
  have h : fbPalWaProvablyOutsideText .defaultRam = true := by decide
  exact ⟨h, (guardDroppable_iff (fun hv => by cases hv) h).mpr (.inr (by decide))⟩

/-- Four words of RAM, the first of them text, one word into the palette. -/
def StepArgs.inPalette : StepArgs where
  textStartWidx := 0
  textEndWidx := 1
  decn := 1
  ramWords := 4
  ramBase := paletteBase + 4
  hwm := 8
  ipms := 1
  text_le := textEnd_one
  text_inside := by decide
  ipms_ne_zero := one_ipms_ne_zero
  framebuffer_below := by decide
  palette_below := by decide

/-- A word store at the palette's second word halts without the guard and retires with
it, and the builder leaves the guard out. -/
theorem guard_needed_inPalette :
    fbPalWaProvablyOutsideText .inPalette = true ∧
      isFbOrPalStore (textWordEnv .inPalette) = true ∧
      haltCodeGuarded .baseline .inPalette true (textWordEnv .inPalette) = haltSelfModify ∧
      haltCodeGuarded .baseline .inPalette (!isFbOrPalStore (textWordEnv .inPalette))
        (textWordEnv .inPalette) = haltNone := by
  decide +kernel

end ClickDoom

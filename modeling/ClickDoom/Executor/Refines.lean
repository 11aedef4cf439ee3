import ClickDoom.Executor.StoreSteps

/-! # The fold refines the reference emulator

Each step keeps the two machines in agreement, a batch that has ended is left
alone, and so the fold of a whole batch agrees with the reference machine run for
as long: until its instructions have retired, a halt, a frame commit or a full
log.
-/
namespace ClickDoom
open ClickHouse

/-! ## Every step -/

section
variable {o : Origin} {acc : Acc} {c : Cpu} {r : Registers} (h : Agrees o acc c r)
  (hrun : acc.control = .running) (hwm : Word) (i : Nat) (hlen : acc.wl.addr.length < 2 ^ 32)
include h hrun hlen

theorem stepAgrees (hpixels : ¬c.LoadsPixels) : StepAgrees o hwm acc (o.step hwm acc i) c r := by
  by_cases hout : c.outsideText = true
  · exact stepAgrees_outside h hrun hwm i hout
  rw [Bool.not_eq_true] at hout
  by_cases halu : dispatchId (decode c.textWord).op < opLoad
  · exact stepAgrees_alu h hrun hwm i hout halu
  by_cases hload : Cpu.isLoadOp (decode c.textWord).op = true
  · exact stepAgrees_load h hrun hwm i hout hload hpixels
  by_cases hstore : Cpu.isStoreOp (decode c.textWord).op = true
  · exact stepAgrees_store h hrun hwm i hout hlen hstore
  by_cases hjump : isJump (decode c.textWord).op = true
  · exact stepAgrees_jump h hrun hwm i hout hjump
  · refine stepAgrees_fatal h hrun hwm i hout ?_
    cases hop : (decode c.textWord).op <;> rw [hop] at halu hload hstore hjump <;> first
      | decide
      | exact absurd (by decide) halu
      | exact absurd (by decide) hload
      | exact absurd (by decide) hstore
      | exact absurd (by decide) hjump

end

/-! ## A batch that has ended -/

/-- A stopped accumulator goes through a step unchanged: every arm is behind the
stop. -/
theorem buildStep_stopped {v : Variant} {p : StepArgs} {cap : Captures} {acc : Acc} (i : Nat)
    (hstopped : acc.control.stopped ≠ 0) : buildStep v p cap acc i = acc := by
  rw [buildStep_eq]
  have hactive : active (env p cap acc i) = false := decide_eq_false hstopped
  generalize haltCode v p (env p cap acc i) = hc
  have hhalts : stepHaltsNow (env p cap acc i) hc = false := by simp [stepHaltsNow, hactive]
  have hretires : stepRetires (env p cap acc i) hc = false := by simp [stepRetires, hactive]
  have hcp : atCheckpoint (env p cap acc i) = false := by simp [atCheckpoint, hactive]
  have hacc : (env p cap acc i).acc = acc := rfl
  simp [stepTuple, newRegs, newWl, newControl, newMmio, newConsole, newKeyqPos, newFbWl, newPalWl,
    newCp, hitsHwm, isRetiringStore, frameCommittedNow, hhalts, hretires, hcp, hacc]

theorem foldl_stopped {v : Variant} {p : StepArgs} {cap : Captures} {acc : Acc}
    (hstopped : acc.control.stopped ≠ 0) (steps : List Nat) :
    steps.foldl (buildStep v p cap) acc = acc := by
  induction steps with
  | nil => rfl
  | cons i rest ih => rw [List.foldl_cons, buildStep_stopped i hstopped, ih]

/-! ## A whole batch -/

/-- How the fold's control fields spell the end of the machine's batch. -/
def Cpu.BatchRun.control (run : Cpu.BatchRun) : Control :=
  match run.halt with
  | some halt => .ofHalt halt
  | none => if run.stopped then .ended else .running

/-- A step the machine takes is one it reaches. -/
theorem Cpu.Reaches.step {c c' : Cpu} {word : Word} {insn : Instruction}
    (hstep : c.stepReporting = (.ok (word, insn), c')) : c.Reaches c' := by
  apply Relation.ReflTransGen.single
  rw [Cpu.step, hstep]
  rfl

theorem Cpu.icount_stepReporting {c c' : Cpu} {word : Word} {insn : Instruction}
    (hstep : c.stepReporting = (.ok (word, insn), c')) : c'.icount = c.icount + 1 := by
  have hok : c.step = (.ok (), c') := by
    rw [Cpu.step, hstep]
    rfl
  have := (Cpu.step_ok_advances (c := c) (by rw [hok])).1
  rwa [hok] at this

/-- What the fold from `acc` to `acc'` has in common with the machine's run from
`c`: where the machine stands, how the run ended, how far it came, the frame it
announced and the words of the pixels it stored into. -/
structure RunAgrees (o : Origin) (acc acc' : Acc) (c : Cpu) (run : Cpu.BatchRun) (r : Registers) :
    Prop where
  agrees : Agrees o acc' run.cpu r
  control : acc'.control = run.control
  commits : run.cpu.frames = c.frames ∨ ∃ commit, run.cpu.frames = c.frames ++ [commit]
  icount_le : c.icount ≤ run.cpu.icount
  reaches : c.Reaches run.cpu
  framebuffer : acc'.fbWl.addr =
    acc.fbWl.addr ++ c.touched .framebuffer (run.cpu.icount - c.icount)
  palette : acc'.palWl.addr = acc.palWl.addr ++ c.touched .palette (run.cpu.icount - c.icount)

/-- A run that goes nowhere. -/
theorem RunAgrees.stay {o : Origin} {acc acc' : Acc} {c : Cpu} {run : Cpu.BatchRun} {r : Registers}
    (hcpu : run.cpu = c) (h : Agrees o acc' c r) (hcontrol : acc'.control = run.control)
    (hfb : acc'.fbWl.addr = acc.fbWl.addr) (hpal : acc'.palWl.addr = acc.palWl.addr) :
    RunAgrees o acc acc' c run r := by
  subst hcpu
  refine ⟨h, hcontrol, Or.inl rfl, Nat.le_refl _, .refl, ?_, ?_⟩ <;> rw [Nat.sub_self]
  · rw [Cpu.touched, List.append_nil, hfb]
  · rw [Cpu.touched, List.append_nil, hpal]

/-- One step in front of a run. -/
theorem RunAgrees.cons {o : Origin} {acc acc₁ acc' : Acc} {c c₁ : Cpu} {word : Word}
    {insn : Instruction} {run : Cpu.BatchRun} {r : Registers}
    (hstep : c.stepReporting = (.ok (word, insn), c₁))
    (hfb : acc₁.fbWl.addr = acc.fbWl.addr ++ c.storedWord .framebuffer insn)
    (hpal : acc₁.palWl.addr = acc.palWl.addr ++ c.storedWord .palette insn)
    (h : RunAgrees o acc₁ acc' c₁ run r)
    (hcommits : run.cpu.frames = c.frames ∨ ∃ commit, run.cpu.frames = c.frames ++ [commit]) :
    RunAgrees o acc acc' c run r := by
  have hcount := Cpu.icount_stepReporting hstep
  have hle := h.icount_le
  have hsub : run.cpu.icount - c.icount = (run.cpu.icount - c₁.icount) + 1 := by omega
  refine ⟨h.agrees, h.control, hcommits, by omega, (Cpu.Reaches.step hstep).trans h.reaches, ?_, ?_⟩ <;>
    rw [hsub]
  · rw [Cpu.touched, hstep, h.framebuffer, hfb, List.append_assoc]
  · rw [Cpu.touched, hstep, h.palette, hpal, List.append_assoc]

/-- The fold of the steps from `i` on, against the machine run for as many. -/
theorem foldl_agrees {o : Origin} (hwm : Word) (k : Nat) (i : Nat) {acc : Acc} {c : Cpu}
    {r : Registers} (h : Agrees o acc c r) (hrun : acc.control = .running)
    (hlen : acc.wl.addr.length + k ≤ 2 ^ 32) (hpixels : ∀ d, c.Reaches d → ¬d.LoadsPixels) :
    ∃ r', RunAgrees o acc ((List.range' i k).foldl (o.step hwm) acc) c
      (c.runBatch hwm.toNat k acc.wl.addr.length) r' := by
  induction k generalizing i acc c r with
  | zero => exact ⟨r, .stay rfl h hrun rfl rfl⟩
  | succ k ih =>
    rw [List.range'_succ, List.foldl_cons]
    cases stepAgrees h hrun hwm i (by omega) (hpixels c .refl) with
    | halts halt hstep hagrees hcontrol hfb hpal =>
      have hfrozen : (o.step hwm acc i).control.stopped ≠ 0 := by
        rw [hcontrol]
        exact (by decide : (1 : Byte) ≠ 0)
      have hfold : (List.range' (i + 1) k).foldl (o.step hwm) (o.step hwm acc i) = o.step hwm acc i :=
        foldl_stopped hfrozen _
      have hmachine : c.runBatch hwm.toNat (k + 1) acc.wl.addr.length = ⟨c, some halt, true⟩ := by
        rw [Cpu.runBatch, hstep]
      rw [hfold, hmachine]
      exact ⟨r, .stay rfl hagrees hcontrol hfb hpal⟩
    | retires word insn c' r' hstep hagrees hstores hcontrol hcommits hfb hpal =>
      by_cases hend : (c.storesToRam insn && decide (hwm.toNat ≤ acc.wl.addr.length + 1) ||
          decide (c'.frames ≠ c.frames)) = true
      · -- the batch ends here, and the rest of the fold leaves it alone
        rw [if_pos hend] at hcontrol
        have hfrozen : (o.step hwm acc i).control.stopped ≠ 0 := by
          rw [hcontrol]
          exact (by decide : (1 : Byte) ≠ 0)
        have hfold : (List.range' (i + 1) k).foldl (o.step hwm) (o.step hwm acc i) =
            o.step hwm acc i := foldl_stopped hfrozen _
        have hmachine : c.runBatch hwm.toNat (k + 1) acc.wl.addr.length = ⟨c', none, true⟩ := by
          rw [Cpu.runBatch, hstep]
          exact if_pos hend
        rw [hfold, hmachine]
        have hstay : RunAgrees o (o.step hwm acc i) (o.step hwm acc i) c' ⟨c', none, true⟩ r' :=
          .stay rfl hagrees hcontrol rfl rfl
        exact ⟨r', hstay.cons hstep hfb hpal hcommits⟩
      · rw [if_neg hend] at hcontrol
        have hmachine : c.runBatch hwm.toNat (k + 1) acc.wl.addr.length =
            c'.runBatch hwm.toNat k (o.step hwm acc i).wl.addr.length := by
          rw [Cpu.runBatch, hstep, hstores]
          exact if_neg hend
        have hframes : c'.frames = c.frames := by
          by_contra hne
          exact hend (by rw [decide_eq_true hne, Bool.or_true])
        rw [hmachine]
        have hlen' : (o.step hwm acc i).wl.addr.length + k ≤ 2 ^ 32 := by
          rw [hstores]
          split <;> omega
        obtain ⟨r'', hrest⟩ := ih (i + 1) hagrees hcontrol hlen' fun d hd =>
          hpixels d ((Cpu.Reaches.step hstep).trans hd)
        exact ⟨r'', hrest.cons hstep hfb hpal (hframes ▸ hrest.commits)⟩

/-- Folding the step over a batch leaves what running the reference emulator
leaves. -/
theorem foldBatch_agrees (o : Origin) (hwm k : Word)
    (hpixels : ∀ d, o.cpu.Reaches d → ¬d.LoadsPixels) :
    ∃ r, RunAgrees o o.acc (foldBatch .baseline (o.layout.args hwm) o.cap k.toNat o.acc) o.cpu
      (o.cpu.runBatch hwm.toNat k.toNat 0) r := by
  have hk := k.isLt
  rw [foldBatch, arrayFold, List.range_eq_range']
  refine foldl_agrees hwm k.toNat 0 (agrees_start o) rfl ?_ hpixels
  change 0 + k.toNat ≤ 2 ^ 32
  omega

/-- How many keys a batch has consumed, from what is left of the queue. -/
theorem Agrees.keys_consumed {o : Origin} {acc : Acc} {c : Cpu} {r : Registers}
    (h : Agrees o acc c r) :
    acc.mmio.keyqPos.toNat + r.keyQueue.length = o.popped.length + o.registers.keyQueue.length := by
  have hlen := congrArg List.length h.keys
  have hle := h.keyqPos_le
  have hall : o.cap.keyqt.length = o.popped.length + o.registers.keyQueue.length := by
    change (o.popped ++ o.registers.keyQueue.map KeyEvent.row).length = _
    rw [List.length_append, List.length_map]
  rw [List.length_map, List.length_drop] at hlen
  omega

/-- The fold of a batch against the reference emulator, field by field: with
`acc` the accumulator the fold leaves and `run` the machine's run, the same
program counter, registers, count and halt, the same console, key events and
frame number, and the same words of RAM, framebuffer and palette, each log laid
over the words the batch began with. -/
theorem foldBatch_refines_runBatch (o : Origin) (hwm k : Word)
    (hpixels : ∀ d, o.cpu.Reaches d → ¬d.LoadsPixels) :
    let acc := foldBatch .baseline (o.layout.args hwm) o.cap k.toNat o.acc
    let run := o.cpu.runBatch hwm.toNat k.toNat 0
    acc.pc = run.cpu.pc ∧ acc.regs = run.cpu.regFile ∧ acc.icount = run.cpu.icount ∧
      acc.control = run.control ∧
      (∀ i < o.layout.ramWords, lookupWord acc.wl o.cap.ramt (BitVec.ofNat 32 i) =
        LittleEndian.wordAt run.cpu.memory.ram i) ∧
      (∀ i < 16000, lookupWord acc.fbWl (wordsOf o.cpu.memory.framebuffer) (BitVec.ofNat 32 i) =
        LittleEndian.wordAt run.cpu.memory.framebuffer i) ∧
      (∀ i < 192, lookupWord acc.palWl (wordsOf o.cpu.memory.palette) (BitVec.ofNat 32 i) =
        LittleEndian.wordAt run.cpu.memory.palette i) ∧
      ∃ r commits, run.cpu.memory.devices = .registers r ∧
        r.console = o.registers.console ++ acc.mmio.consoleBytes ∧
        acc.mmio.keyqPos.toNat + r.keyQueue.length =
          o.popped.length + o.registers.keyQueue.length ∧
        r.frameCommits = o.registers.frameCommits ++ commits ∧
        acc.mmio.frameNo = (commits.getLast?.map (·.frameNo)).getD o.frameNo ∧
        acc.mmio.frameCommitted = if commits = [] then 0 else 1 := by
  intro acc run
  obtain ⟨r, hrun⟩ := foldBatch_agrees o hwm k hpixels
  have hagrees := hrun.agrees
  obtain ⟨commits, hcommits, hno, hcommitted⟩ := hagrees.frames
  exact ⟨hagrees.pc, hagrees.regs, hagrees.icount, hrun.control, hagrees.ram, hagrees.framebuffer,
    hagrees.palette, r, commits, hagrees.fits.devices, hagrees.console, hagrees.keys_consumed,
    hcommits, hno, hcommitted⟩

/-! ### A program of two instructions -/

/-- A text without loads reads no pixels. -/
theorem Cpu.Fits.never_loadsPixels {c : Cpu} {L : Layout} {r : Registers} (h : c.Fits L r)
    (hop : ∀ i < L.textWords,
      Cpu.isLoadOp (decode (LittleEndian.wordAt c.memory.ram i)).op = false)
    (d : Cpu) (hd : c.Reaches d) : ¬d.LoadsPixels := by
  rintro ⟨hin, word, insn, region, offset, hfetch, hload, -⟩
  obtain ⟨r', hfits, htext⟩ := h.reaches hd
  rw [hfits.fetch_eq hin] at hfetch
  obtain ⟨rfl, rfl⟩ := Prod.mk.inj (Except.ok.inj hfetch)
  obtain ⟨hlt, -⟩ := hfits.textIndex_lt hin
  rw [htext _ hlt, hop _ hlt] at hload
  exact absurd hload (by decide)

/-- Four words of RAM, two of them text. -/
def Layout.four : Layout where
  ramWords := 4
  textWords := 2
  ipms := 1
  text_pos := by decide
  text_le := by decide
  ram_lt := ram_lt_four
  ipms_ne_zero := one_ipms_ne_zero

/-- `addi x1, x0, 5` and `ebreak`. -/
def Cpu.addsThenBreaks : Cpu :=
  .new (((Memory.new Layout.four.map (.registers (.new 1 one_ipms_ne_zero))).loadImage
    [0x93, 0x00, 0x50, 0x00, 0x73, 0x00, 0x10, 0x00] ramBase).2.setTextRegion
      (some (ramBase, Layout.four.textStop))) ramBase

def Origin.addsThenBreaks : Origin where
  layout := .four
  cpu := .addsThenBreaks
  registers := .new 1 one_ipms_ne_zero
  popped := []
  frameNo := 0
  fits :=
    { map := rfl
      text := rfl
      devices := rfl
      ipms := rfl
      fresh := Cpu.cacheFresh_of_none rfl
      aligned := rfl }
  keys_lt := by decide

/-- Neither instruction loads anything. -/
theorem addsThenBreaks_never_loads (d : Cpu) (hd : Origin.addsThenBreaks.cpu.Reaches d) :
    ¬d.LoadsPixels := by
  refine Origin.addsThenBreaks.fits.never_loadsPixels ?_ d hd
  decide

theorem foldBatch_refines_addsThenBreaks :
    (∀ d, Origin.addsThenBreaks.cpu.Reaches d → ¬d.LoadsPixels) ∧
      (foldBatch .baseline (Layout.four.args 8) Origin.addsThenBreaks.cap 3
        Origin.addsThenBreaks.acc).pc = (Cpu.addsThenBreaks.runBatch 8 3 0).cpu.pc :=
  ⟨addsThenBreaks_never_loads,
    (foldBatch_refines_runBatch .addsThenBreaks 8 3 addsThenBreaks_never_loads).1⟩

end ClickDoom

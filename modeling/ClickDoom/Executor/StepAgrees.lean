import ClickDoom.Executor.Agreement

/-! # One step keeps the two machines in agreement

A step of the fold and a step of the reference emulator, from machines that
agree: they halt alike, or both retire and agree again.  Here are the fetch, the
arms that always halt, the arms that only write a register, and the jumps; loads
and stores are in a module of their own.
-/
namespace ClickDoom
open ClickHouse
open LittleEndian (wordAt)

/-! ## One step -/

/-- What a step from `acc` to `acc'` has to have in common with the machine's. -/
inductive StepAgrees (o : Origin) (hwm : Word) (acc acc' : Acc) (c : Cpu) (r : Registers) : Prop
  | halts (halt : Halt) (step : c.stepReporting = (.error halt, c)) (agrees : Agrees o acc' c r)
      (control : acc'.control = .ofHalt halt) (fbWl : acc'.fbWl.addr = acc.fbWl.addr)
      (palWl : acc'.palWl.addr = acc.palWl.addr)
  | retires (word : Word) (insn : Instruction) (c' : Cpu) (r' : Registers)
      (step : c.stepReporting = (.ok (word, insn), c')) (agrees : Agrees o acc' c' r')
      (stores : acc'.wl.addr.length =
        if c.storesToRam insn then acc.wl.addr.length + 1 else acc.wl.addr.length)
      (control : acc'.control =
        if (c.storesToRam insn && hwm.toNat ≤ acc.wl.addr.length + 1) || c'.frames ≠ c.frames then
          .ended
        else .running)
      (commits : c'.frames = c.frames ∨ ∃ commit, c'.frames = c.frames ++ [commit])
      (fbWl : acc'.fbWl.addr = acc.fbWl.addr ++ c.storedWord .framebuffer insn)
      (palWl : acc'.palWl.addr = acc.palWl.addr ++ c.storedWord .palette insn)

section
variable {o : Origin} {acc : Acc} {c : Cpu} {r : Registers}

/-- The control fields and the checkpoints are no part of the machine. -/
theorem Agrees.setControl (h : Agrees o acc c r) (control : Control) (cp : Checkpoints) :
    Agrees o { acc with control, cp } c r :=
  ⟨h.fits, h.pc, h.regs, h.icount, h.icount_le, h.ram, h.framebuffer, h.palette, h.wl, h.fbWl,
    h.palWl, h.text, h.console, h.keys, h.keyqPos_le, h.frames⟩

variable (h : Agrees o acc c r) (hrun : acc.control = .running) (hwm : Word) (i : Nat)

/-- The fold's step in the environment of the batch. -/
def Origin.step (o : Origin) (hwm : Word) (acc : Acc) (i : Nat) : Acc :=
  buildStep .baseline (o.layout.args hwm) o.cap acc i

theorem step_eq : o.step hwm acc i =
    stepTuple .baseline (o.layout.args hwm) o.cap.keyqt (o.env hwm acc i)
      (haltCode .baseline (o.layout.args hwm) (o.env hwm acc i)) :=
  buildStep_eq _ _ _ _ _

include h in
theorem pcOutOfText_env :
    pcOutOfText (o.layout.args hwm) (o.env hwm acc i).acc.pc = c.outsideText := by
  change pcOutOfText _ acc.pc = _
  rw [h.pc]
  exact h.fits.pcOutOfText_eq hwm

include h hrun

/-- A step that halts in the fold, for a reason the machine also has. -/
theorem stepAgrees_halt (halt : Halt) (hstep : c.stepReporting = (.error halt, c))
    (hcode : haltCode .baseline (o.layout.args hwm) (o.env hwm acc i) = halt.reason.code)
    (hpc : halt.pc = c.pc)
    (hextra : haltExtra .baseline (o.layout.args hwm) (o.env hwm acc i) halt.reason.code =
      halt.extra) :
    StepAgrees o hwm acc (o.step hwm acc i) c r := by
  have hact : (o.env hwm acc i).acc.control.stopped = 0 := by
    change acc.control.stopped = 0
    rw [hrun]
    rfl
  have hne : halt.reason.code ≠ 0#8 := by cases halt.reason <;> decide
  have hacc : o.step hwm acc i =
      { acc with control := .ofHalt halt, cp := newCp (o.env hwm acc i) } := by
    rw [step_eq, hcode, stepTuple_halts hact hne, hextra]
    change ({ acc with control := ⟨1, 1, halt.reason.code, acc.pc, halt.extra⟩, cp := _ } : Acc) = _
    rw [h.pc, ← hpc]
    rfl
  refine .halts halt hstep ?_ ?_ ?_ ?_
  · rw [hacc]
    exact h.setControl _ _
  · rw [hacc]
  · rw [hacc]
  · rw [hacc]

/-- Outside the text both machines halt at the fetch. -/
theorem stepAgrees_outside (hout : c.outsideText = true) :
    StepAgrees o hwm acc (o.step hwm acc i) c r := by
  have hpc := pcOutOfText_env h hwm i
  rw [hout] at hpc
  apply stepAgrees_halt h hrun hwm i (.onFetch .badAddr c.pc c.pc)
  · rw [Cpu.stepReporting, if_pos hout]
  · exact haltCode_outside hpc
  · rfl
  · change haltExtraCalc _ _ _ _ = c.pc
    rw [haltExtraCalc, hpc, if_pos rfl]
    exact h.pc

end

/-! ### Inside the text -/

/-- The word at the program counter. -/
def Cpu.textWord (c : Cpu) : Word := wordAt c.memory.ram (Cpu.textIndex c.pc)

namespace Cpu
variable {c : Cpu} {L : Layout} {r : Registers} (h : c.Fits L r) (hin : c.outsideText = false)
include h hin

theorem stepReporting_error {halt : Halt} {d : Cpu}
    (he : c.execute c.pc c.textWord (decode c.textWord) = (.error halt, d)) :
    c.stepReporting = (.error halt, d) := by
  rw [stepReporting, hin, h.fetch_eq hin]
  simp only [Bool.false_eq_true, if_false]
  rw [show wordAt c.memory.ram (textIndex c.pc) = c.textWord from rfl, he]

theorem stepReporting_ok {next : Word} {d : Cpu}
    (he : c.execute c.pc c.textWord (decode c.textWord) = (.ok next, d)) :
    c.stepReporting = (.ok (c.textWord, decode c.textWord),
      { d with icount := d.icount + 1, pc := next }) := by
  rw [stepReporting, hin, h.fetch_eq hin]
  simp only [Bool.false_eq_true, if_false]
  rw [show wordAt c.memory.ram (textIndex c.pc) = c.textWord from rfl, he]

end Cpu

section
variable {o : Origin} {acc : Acc} {c : Cpu} {r : Registers} (h : Agrees o acc c r)
  (hrun : acc.control = .running) (hwm : Word) (i : Nat) (hin : c.outsideText = false)
include h hin

theorem pcInText : pcOutOfText (o.layout.args hwm) (o.env hwm acc i).acc.pc = false := by
  rw [pcOutOfText_env h hwm i, hin]

theorem row_same :
    (o.env hwm acc i).d.Same (rowOf c.pc c.textWord (decode c.textWord)) :=
  env_row h hwm i hin

theorem row_id : (o.env hwm acc i).d.id = dispatchId (decode c.textWord).op := by
  rw [(row_same h hwm i hin).id]
  unfold rowOf
  split <;> rfl

/-- The row of an instruction that does not always halt. -/
theorem row_eq (hlt : dispatchId (decode c.textWord).op < opEcall) :
    (o.env hwm acc i).d = rowOf c.pc c.textWord (decode c.textWord) := by
  apply (row_same h hwm i hin).row
  rw [← (row_same h hwm i hin).id, row_id h hwm i hin]
  exact hlt

include hrun

/-- The arms that always halt. -/
theorem stepAgrees_fatal (hfatal : ¬dispatchId (decode c.textWord).op < opEcall) :
    StepAgrees o hwm acc (o.step hwm acc i) c r := by
  have hpc := pcInText h hwm i hin
  have hid := row_id h hwm i hin
  have hjump : jumpMisaligned .baseline (o.env hwm acc i) = false := by
    apply jumpMisaligned_of_gt
    rw [hid]
    cases hop : (decode c.textWord).op <;> rw [hop] at hfatal <;> first
      | decide
      | exact absurd (by decide) hfatal
  have hhalt : ∀ reason : HaltReason,
      c.execute c.pc c.textWord (decode c.textWord) = (.error (.withInsn reason c.pc c.textWord), c) →
      haltCode .baseline (o.layout.args hwm) (o.env hwm acc i) = reason.code →
      haltExtra .baseline (o.layout.args hwm) (o.env hwm acc i) reason.code =
        (Halt.withInsn reason c.pc c.textWord).extra →
      StepAgrees o hwm acc (o.step hwm acc i) c r := fun reason he hcode hextra =>
    stepAgrees_halt h hrun hwm i (.withInsn reason c.pc c.textWord)
      (Cpu.stepReporting_error h.fits hin he) hcode rfl hextra
  cases hop : (decode c.textWord).op with
  | ecall =>
    rw [hop] at hid
    exact hhalt .ecall (by simp only [Cpu.execute, hop]) (haltCode_ecall hpc hid)
      (haltExtra_system hpc hjump (Or.inl rfl))
  | ebreak =>
    rw [hop] at hid
    exact hhalt .ebreak (by simp only [Cpu.execute, hop]) (haltCode_ebreak hpc hid)
      (haltExtra_system hpc hjump (Or.inr (Or.inl rfl)))
  | csr =>
    rw [hop] at hid
    exact hhalt .csr (by simp only [Cpu.execute, hop]) (haltCode_csr hpc hid)
      (haltExtra_system hpc hjump (Or.inr (Or.inr rfl)))
  | illegal =>
    rw [hop] at hid
    refine hhalt .illegalInsn (by simp only [Cpu.execute, hop]) (haltCode_illegal hpc hid) ?_
    refine (haltExtra_illegal hpc).trans ((row_same h hwm i hin).raw.trans ?_)
    unfold rowOf
    split <;> rfl
  | _ =>
    rw [hop] at hfatal
    exact absurd (by decide) hfatal

end

/-! ### Retiring -/

theorem Cpu.stepReporting_of_step {c d : Cpu} (h : c.step = (.ok (), d)) :
    ∃ word insn, c.stepReporting = (.ok (word, insn), d) := by
  rw [Cpu.step] at h
  obtain ⟨h1, h2⟩ := Prod.mk.inj h
  cases hs : c.stepReporting.1 with
  | error halt =>
    rw [hs] at h1
    cases h1
  | ok p => exact ⟨p.1, p.2, Prod.ext hs h2⟩

section
variable {o : Origin} {acc : Acc} {c : Cpu} {r : Registers}

/-- A step keeps the shape of the machine. -/
theorem Cpu.Fits.step {L : Layout} (h : c.Fits L r) {word : Word} {insn : Instruction} {c' : Cpu}
    {r' : Registers} (hstep : c.stepReporting = (.ok (word, insn), c'))
    (hdevices : c'.memory.devices = .registers r') (hipms : r'.ipms = r.ipms) : c'.Fits L r' := by
  have hkeeps := c.stepReporting_keepsText
  have hfresh := h.fresh.stepReporting
  have hok : c.step = (.ok (), c') := by rw [Cpu.step, hstep]; rfl
  have haligned := (Cpu.step_ok_advances (c := c) (by rw [hok])).2.2
  rw [hstep] at hkeeps hfresh
  rw [hok] at haligned
  exact
    { map := hkeeps.1.trans h.map
      text := hkeeps.2.1.trans h.text
      devices := hdevices
      ipms := hipms.trans h.ipms
      fresh := hfresh
      aligned := haligned }

/-- A step leaves the words of the text alone. -/
theorem Cpu.Fits.step_text {L : Layout} (h : c.Fits L r) {word : Word} {insn : Instruction}
    {c' : Cpu} (hstep : c.stepReporting = (.ok (word, insn), c')) {i : Nat} (hi : i < L.textWords) :
    wordAt c'.memory.ram i = wordAt c.memory.ram i := by
  have hkeeps := c.stepReporting_keepsText
  rw [hstep] at hkeeps
  have hbyte : ∀ j < 4, c'.memory.ram.getD (4 * i + j) 0 = c.memory.ram.getD (4 * i + j) 0 := by
    intro j hj
    have hbase : c.memory.map.ramBase.toNat = 2147483648 := by rw [h.map]; rfl
    have := hkeeps.2.2 ramBase L.textStop h.text (4 * i + j)
      (by rw [hbase, toNat_ramBase]; omega) (by rw [hbase, L.toNat_textStop]; omega)
    rw [List.getD_eq_getElem?_getD, List.getD_eq_getElem?_getD, this]
  have h0 := hbyte 0 (by omega)
  have h1 := hbyte 1 (by omega)
  have h2 := hbyte 2 (by omega)
  have h3 := hbyte 3 (by omega)
  rw [Nat.add_zero] at h0
  rw [wordAt, wordAt, h0, h1, h2, h3]

/-- Whatever the machine does, its device window stays the registers it had. -/
theorem Cpu.stepReporting_registers (c : Cpu) {r : Registers} (h : c.memory.devices = .registers r) :
    ∃ r', c.stepReporting.2.memory.devices = .registers r' ∧ r'.ipms = r.ipms := by
  refine c.stepReporting_memory (R := fun m m' => ∀ r, m.devices = .registers r →
    ∃ r', m'.devices = .registers r' ∧ r'.ipms = r.ipms) (fun m r hr => ⟨r, hr, rfl⟩) ?_ ?_ ?_ r h
  · intro m₁ m₂ m₃ h12 h23 r hr
    obtain ⟨r', hr', hipms⟩ := h12 r hr
    obtain ⟨r'', hr'', hipms'⟩ := h23 r' hr'
    exact ⟨r'', hr'', hipms'.trans hipms⟩
  · intro m addr width icount r hr
    unfold Memory.read
    split
    · exact ⟨r, hr, rfl⟩
    · split
      · exact ⟨r, hr, rfl⟩
      · exact ⟨r, hr, rfl⟩
      · refine ⟨_, by simp only [hr, Devices.read]; rfl, ?_⟩
        unfold Registers.read
        split_ifs
        · rfl
        · rfl
        · split <;> rfl
        · rfl
      · exact ⟨r, hr, rfl⟩
      · exact ⟨r, hr, rfl⟩
  · intro m addr width value icount r hr
    unfold Memory.write
    split
    · exact ⟨r, hr, rfl⟩
    · split
      · exact ⟨r, hr, rfl⟩
      · split_ifs <;> exact ⟨r, hr, rfl⟩
      · rename_i offset _
        have hipms : (r.write offset width value icount).2.ipms = r.ipms := by
          unfold Registers.write
          split_ifs <;> rfl
        simp only [hr, Devices.write]
        split <;> exact ⟨_, rfl, hipms⟩
      · split_ifs <;> exact ⟨r, hr, rfl⟩
      · split_ifs <;> exact ⟨r, hr, rfl⟩

/-- The shape and the text of a machine are those of every machine it reaches. -/
theorem Cpu.Fits.reaches {L : Layout} (h : c.Fits L r) {d : Cpu} (hd : c.Reaches d) :
    ∃ r', d.Fits L r' ∧ ∀ i < L.textWords, wordAt d.memory.ram i = wordAt c.memory.ram i := by
  induction hd with
  | refl => exact ⟨r, h, fun _ _ => rfl⟩
  | tail _ hstep ih =>
    obtain ⟨r', hfits, htext⟩ := ih
    obtain ⟨word, insn, hs⟩ := Cpu.stepReporting_of_step hstep
    obtain ⟨r'', hdevices, hipms⟩ := Cpu.stepReporting_registers _ hfits.devices
    rw [hs] at hdevices
    exact ⟨r'', hfits.step hs hdevices hipms, fun i hi =>
      (hfits.step_text hs hi).trans (htext i hi)⟩

/-- What is left to show of a step that retires: the shape, the text and the
count come with the step. -/
theorem Agrees.advance (h : Agrees o acc c r) {word : Word} {insn : Instruction} {c' : Cpu}
    {r' : Registers} {acc' : Acc} (hstep : c.stepReporting = (.ok (word, insn), c'))
    (hdevices : c'.memory.devices = .registers r') (hipms : r'.ipms = r.ipms)
    (hpc : acc'.pc = c'.pc) (hregs : acc'.regs = c'.regFile) (hicount : acc'.icount = acc.icount + 1)
    (hram : ∀ i < o.layout.ramWords,
      lookupWord acc'.wl o.cap.ramt (BitVec.ofNat 32 i) = wordAt c'.memory.ram i)
    (hfb : ∀ i < 16000, lookupWord acc'.fbWl (wordsOf o.cpu.memory.framebuffer)
      (BitVec.ofNat 32 i) = wordAt c'.memory.framebuffer i)
    (hpal : ∀ i < 192, lookupWord acc'.palWl (wordsOf o.cpu.memory.palette)
      (BitVec.ofNat 32 i) = wordAt c'.memory.palette i)
    (hwl : acc'.wl.Stamped o.cpu.icount (c.icount + 1))
    (hfbWl : acc'.fbWl.Stamped o.cpu.icount (c.icount + 1))
    (hpalWl : acc'.palWl.Stamped o.cpu.icount (c.icount + 1))
    (hconsole : r'.console = o.registers.console ++ acc'.mmio.consoleBytes)
    (hkeys : r'.keyQueue.map KeyEvent.row = o.cap.keyqt.drop acc'.mmio.keyqPos.toNat)
    (hpos : acc'.mmio.keyqPos.toNat ≤ o.cap.keyqt.length)
    (hframes : ∃ commits, r'.frameCommits = o.registers.frameCommits ++ commits ∧
      acc'.mmio.frameNo = (commits.getLast?.map (·.frameNo)).getD o.frameNo ∧
      acc'.mmio.frameCommitted = if commits = [] then 0 else 1) :
    Agrees o acc' c' r' := by
  have hok : c.step = (.ok (), c') := by rw [Cpu.step, hstep]; rfl
  have hc' : c'.icount = c.icount + 1 := by
    have := (Cpu.step_ok_advances (c := c) (by rw [hok])).1
    rwa [hok] at this
  have hle : o.cpu.icount ≤ c'.icount := by
    have := h.icount_le
    omega
  exact
    { fits := h.fits.step hstep hdevices hipms
      pc := hpc
      regs := hregs
      icount := by rw [hicount, h.icount, hc']
      icount_le := hle
      ram := hram
      framebuffer := hfb
      palette := hpal
      wl := hc' ▸ hwl
      fbWl := hc' ▸ hfbWl
      palWl := hc' ▸ hpalWl
      text := fun i hi => (h.fits.step_text hstep hi).trans (h.text i hi)
      console := hconsole
      keys := hkeys
      keyqPos_le := hpos
      frames := hframes }

variable (h : Agrees o acc c r) (hrun : acc.control = .running) (hwm : Word) (i : Nat)

/-- The devices of a machine, put back as they are. -/
theorem setDevices_self {L : Layout} (h : c.Fits L r) : c.memory.setDevices (.registers r) = c.memory := by
  rw [← h.devices]
  rfl

/-- A register the step writes. -/
theorem newRegs_eq (hregs : acc.regs = c.regFile) (hrun : acc.control = .running) {rd : BitVec 5}
    (hrd : (o.env hwm acc i).d.rd = rd.setWidth 8) :
    newRegs .baseline (o.layout.args hwm) o.cap.keyqt (o.env hwm acc i) haltNone =
      (c.setReg rd (result .baseline (o.layout.args hwm) o.cap.keyqt (o.env hwm acc i))).regFile := by
  have hact : stepRetires (o.env hwm acc i) haltNone = true := by
    change (decide (acc.control.stopped = 0) && decide (haltNone = 0)) = true
    rw [hrun]
    rfl
  have hacc : (o.env hwm acc i).acc = acc := rfl
  rw [newRegs, hact, hrd, hacc, hregs, Cpu.regFile_setReg]
  simp

/-- No register is written. -/
theorem newRegs_none (hrd : (o.env hwm acc i).d.rd = 0) :
    newRegs .baseline (o.layout.args hwm) o.cap.keyqt (o.env hwm acc i) haltNone = acc.regs := by
  rw [newRegs, hrd]
  simp
  rfl

include h hrun

/-- A step that retires anything but a store: the program counter moves, a
register is written, and at most a key is popped. -/
theorem stepAgrees_retires (hin : c.outsideText = false) {next keyqPos : Word} {d : Cpu}
    {r' : Registers} (he : c.execute c.pc c.textWord (decode c.textWord) = (.ok next, d))
    (hmem : d.memory = c.memory.setDevices (.registers r')) (hipms : r'.ipms = r.ipms)
    (hconsole : r'.console = r.console) (hframes : r'.frameCommits = r.frameCommits)
    (hkeys : r'.keyQueue.map KeyEvent.row = o.cap.keyqt.drop keyqPos.toNat)
    (hpos : keyqPos.toNat ≤ o.cap.keyqt.length)
    (hcode : haltCode .baseline (o.layout.args hwm) (o.env hwm acc i) = haltNone)
    (hstore : (o.env hwm acc i).d.id ≠ opStore)
    (hkeyq : newKeyqPos .baseline o.cap.keyqt (o.env hwm acc i) haltNone = keyqPos)
    (hnext : ClickDoom.next .baseline (o.env hwm acc i) = next)
    (hregs : newRegs .baseline (o.layout.args hwm) o.cap.keyqt (o.env hwm acc i) haltNone = d.regFile)
    (hop : Cpu.isStoreOp (decode c.textWord).op = false) :
    StepAgrees o hwm acc (o.step hwm acc i) c r := by
  have hact : (o.env hwm acc i).acc.control.stopped = 0 := by
    change acc.control.stopped = 0
    rw [hrun]
    rfl
  have hstep := Cpu.stepReporting_ok h.fits hin he
  have hacc : o.step hwm acc i =
      { acc with
        pc := next
        regs := d.regFile
        icount := acc.icount + 1
        mmio := { acc.mmio with keyqPos }
        cp := newCp (o.env hwm acc i) } := by
    rw [step_eq, hcode, stepTuple_retires hact hstore, hkeyq, hnext, hregs]
    rfl
  have hle : c.icount ≤ c.icount + 1 := Nat.le_succ _
  have hram : c.storesToRam (decode c.textWord) = false := by simp [Cpu.storesToRam, hop]
  have hsame : ({ d with icount := d.icount + 1, pc := next } : Cpu).frames = c.frames := by
    simp only [Cpu.frames, hmem, Memory.setDevices, Devices.registersRef, h.fits.devices,
      Option.map_some, hframes]
  have hwords : ∀ region, c.storedWord region (decode c.textWord) = [] := by
    intro region
    simp [Cpu.storedWord, hop]
  refine .retires c.textWord (decode c.textWord) _ r' hstep ?_ ?_ ?_ (Or.inl hsame) ?_ ?_
  · rw [hacc]
    refine h.advance hstep (by rw [hmem]; rfl) hipms rfl rfl rfl ?_ ?_ ?_ (h.wl.mono hle)
      (h.fbWl.mono hle) (h.palWl.mono hle) (hconsole.trans h.console) hkeys hpos ?_
    · rw [hmem]
      exact h.ram
    · rw [hmem]
      exact h.framebuffer
    · rw [hmem]
      exact h.palette
    · rw [hframes]
      exact h.frames
  · rw [hacc, hram]
    rfl
  · rw [hacc, hram, hsame, hrun]
    simp
  · rw [hacc, hwords, List.append_nil]
  · rw [hacc, hwords, List.append_nil]

/-- A step that retires an instruction without touching memory. -/
theorem stepAgrees_retire (hin : c.outsideText = false) {next : Word} {d : Cpu}
    (he : c.execute c.pc c.textWord (decode c.textWord) = (.ok next, d))
    (hd : d = c ∨ ∃ rd value, d = c.setReg rd value)
    (hcode : haltCode .baseline (o.layout.args hwm) (o.env hwm acc i) = haltNone)
    (hstore : (o.env hwm acc i).d.id ≠ opStore) (hload : (o.env hwm acc i).d.id ≠ opLoad)
    (hnext : ClickDoom.next .baseline (o.env hwm acc i) = next)
    (hregs : newRegs .baseline (o.layout.args hwm) o.cap.keyqt (o.env hwm acc i) haltNone = d.regFile)
    (hop : Cpu.isStoreOp (decode c.textWord).op = false) :
    StepAgrees o hwm acc (o.step hwm acc i) c r := by
  have hmem : d.memory = c.memory.setDevices (.registers r) := by
    rw [setDevices_self h.fits]
    rcases hd with rfl | ⟨rd, value, rfl⟩ <;> rfl
  exact stepAgrees_retires h hrun hwm i hin he hmem rfl rfl rfl h.keys h.keyqPos_le hcode hstore
    (newKeyqPos_of_ne hload) hnext hregs hop

end

/-! ### Arms that only write a register -/

theorem execute_alu (c : Cpu) (pc word : Word) {insn : Instruction}
    (halu : dispatchId insn.op < opLoad) (hfence : insn.op ≠ .fence) :
    c.execute pc word insn = (.ok (pc + 4),
      c.setReg insn.rd (aluValue insn.op pc (c.reg insn.rs1) (c.reg insn.rs2) insn.imm)) := by
  cases hop : insn.op <;> rw [hop] at halu hfence <;> first
    | exact absurd halu (by decide)
    | exact absurd rfl hfence
    | simp only [Cpu.execute, hop]

theorem rowOf_rd_alu (pc word : Word) {insn : Instruction} (halu : dispatchId insn.op < opLoad)
    (hfence : insn.op ≠ .fence) : (rowOf pc word insn).rd = insn.rd.setWidth 8 := by
  cases hop : insn.op <;> rw [hop] at halu hfence <;> first
    | exact absurd halu (by decide)
    | exact absurd rfl hfence
    | simp only [rowOf, hop]

/-- No arm below the branches changes the program counter's course. -/
theorem next_of_lt {v : Variant} {e : Env} (hid : e.d.id < 20#8) : next v e = e.acc.pc + 4 := by
  have hne : ∀ n : Nat, 20 ≤ n → n ≤ 27 → e.d.id ≠ BitVec.ofNat 8 n := by
    intro n hlow hhigh heq
    rw [heq, BitVec.lt_def, BitVec.toNat_ofNat, show (20#8).toNat = 20 from rfl] at hid
    omega
  have h20 := hne 20 (by omega) (by omega)
  have h21 := hne 21 (by omega) (by omega)
  have h22 := hne 22 (by omega) (by omega)
  have h23 := hne 23 (by omega) (by omega)
  have h24 := hne 24 (by omega) (by omega)
  have h25 := hne 25 (by omega) (by omega)
  have h26 := hne 26 (by omega) (by omega)
  have h27 := hne 27 (by omega) (by omega)
  simp [next, fallthrough, h20, h21, h22, h23, h24, h25, h26, h27]

theorem not_store_of_alu {op : Op} (halu : dispatchId op < opLoad) : Cpu.isStoreOp op = false := by
  cases op <;> first
    | rfl
    | exact absurd halu (by decide)

section
variable {o : Origin} {acc : Acc} {c : Cpu} {r : Registers} (h : Agrees o acc c r)
  (hrun : acc.control = .running) (hwm : Word) (i : Nat) (hin : c.outsideText = false)
include h hrun hin

theorem stepAgrees_alu (halu : dispatchId (decode c.textWord).op < opLoad) :
    StepAgrees o hwm acc (o.step hwm acc i) c r := by
  have hid := row_id h hwm i hin
  have hlt : (o.env hwm acc i).d.id < opLoad := hid ▸ halu
  have hstore : (o.env hwm acc i).d.id ≠ opStore := by
    intro heq
    rw [heq] at hlt
    exact absurd hlt (by decide)
  have hload : (o.env hwm acc i).d.id ≠ opLoad := by
    intro heq
    rw [heq] at hlt
    exact absurd hlt (by decide)
  have hrow := row_eq h hwm i hin (Nat.lt_trans halu (by decide))
  have hcode : haltCode .baseline (o.layout.args hwm) (o.env hwm acc i) = haltNone :=
    haltCode_plain (pcInText h hwm i hin) hlt
  have hnext : next .baseline (o.env hwm acc i) = c.pc + 4 := by
    rw [next_of_lt (Nat.lt_trans hlt (by decide))]
    change acc.pc + 4 = _
    rw [h.pc]
  have hop := not_store_of_alu halu
  by_cases hfence : (decode c.textWord).op = .fence
  · have he : c.execute c.pc c.textWord (decode c.textWord) = (.ok (c.pc + 4), c) := by
      simp only [Cpu.execute, hfence]
    have hrd : (o.env hwm acc i).d.rd = 0 := by
      rw [hrow]
      simp only [rowOf, hfence]
    exact stepAgrees_retire h hrun hwm i hin he (Or.inl rfl) hcode hstore hload hnext
      ((newRegs_none hwm i hrd).trans h.regs) hop
  · have he := execute_alu c c.pc c.textWord halu hfence
    have hrd : (o.env hwm acc i).d.rd = (decode c.textWord).rd.setWidth 8 := by
      rw [hrow]
      exact rowOf_rd_alu _ _ halu hfence
    have hresult := result_alu (o.layout.args hwm) o.cap.keyqt (env_reads hwm i h)
      (Cpu.fileOf_regFile c) hrow halu hfence
    refine stepAgrees_retire h hrun hwm i hin he (Or.inr ⟨_, _, rfl⟩) hcode hstore hload hnext ?_ hop
    rw [newRegs_eq hwm i h.regs hrun hrd, hresult]

end
/-! ### Jumps and branches -/

theorem and_three_ne_zero (x : Word) : x &&& 3#32 ≠ 0#32 ↔ x.toNat % 4 ≠ 0 := by
  have hfield := BitField.toNat_field x 0 2 (m := 3#32) rfl
  rw [BitVec.ushiftRight_zero, Nat.pow_zero, Nat.div_one] at hfield
  rw [Ne.eq_def, ← BitVec.toNat_inj, hfield]
  rfl

def isJump : Op → Bool
  | .jal | .jalr | .beq | .bne | .blt | .bge | .bltu | .bgeu => true
  | _ => false

/-- Whether the machine leaves the straight course at this instruction. -/
def Cpu.takes (c : Cpu) (insn : Instruction) : Bool :=
  match insn.op with
  | .jal | .jalr => true
  | op => taken op (c.reg insn.rs1) (c.reg insn.rs2)

/-- Where it goes then. -/
def Cpu.target (c : Cpu) (pc : Word) (insn : Instruction) : Word :=
  match insn.op with
  | .jalr => (c.reg insn.rs1 + insn.imm) &&& ~~~1#32
  | _ => pc + insn.imm

/-- The machine with the link written, for the two arms that link. -/
def Cpu.linked (c : Cpu) (pc : Word) (insn : Instruction) : Cpu :=
  match insn.op with
  | .jal | .jalr => c.setReg insn.rd (pc + 4)
  | _ => c

theorem execute_jump (c : Cpu) (pc word : Word) {insn : Instruction} (hjump : isJump insn.op = true) :
    c.execute pc word insn =
      if c.takes insn then c.jump pc word (c.target pc insn) (c.linked pc insn)
      else (.ok (pc + 4), c) := by
  cases hop : insn.op <;> rw [hop] at hjump <;> first
    | exact absurd hjump (by decide)
    | simp only [Cpu.execute, Cpu.takes, Cpu.target, Cpu.linked, hop, if_true]

section
variable {e : Env} {c : Cpu} {pc word : Word} {insn : Instruction} (hr : e.Reads c.regFile)
  (hd : e.d = rowOf pc word insn) (hjump : isJump insn.op = true)
include hr hd hjump

/-- The fold's test and target are the machine's. -/
theorem jump_arms :
    wouldJump e = c.takes insn ∧ jumpTargetIfTaken .baseline e = c.target pc insn ∧
      next .baseline e = (if c.takes insn then c.target pc insn else e.acc.pc + 4) := by
  have ha := hr.a
  have hb := hr.b
  have haddr := hr.addr
  have h1 := c.fileOf_regFile insn.rs1
  have h2 := c.fileOf_regFile insn.rs2
  have hmask : (4294967294#32 : Word) = ~~~1#32 := by decide
  have hge : ∀ x y : Nat, (!decide (x < y)) = decide (y ≤ x) := by
    intro x y
    rw [← decide_not, decide_eq_decide, not_lt]
  cases hop : insn.op <;> rw [hop] at hjump <;> first
    | exact absurd hjump (by decide)
    | (simp only [hd, rowOf, hop, h1, h2] at ha hb haddr
       simp only [wouldJump, jumpTargetIfTaken, next, hd, rowOf, hop, dispatchId, Cpu.takes,
         Cpu.target, taken, jalrTarget, fallthrough, haddr, hmask]
       simp [ha, hb, beq_eq_decide, bne, BitVec.ult, BitVec.lt_def, BitVec.le_def, hge])

omit hr in
theorem jump_id : (20 : Byte) ≤ e.d.id ∧ e.d.id ≤ (27 : Byte) ∧ e.d.id ≠ opStore ∧ e.d.id ≠ opLoad := by
  have hid : e.d.id = dispatchId insn.op := by
    rw [hd]
    unfold rowOf
    split <;> rfl
  rw [hid]
  cases hop : insn.op <;> rw [hop] at hjump <;> first
    | exact absurd hjump (by decide)
    | decide

end

section
variable {o : Origin} {acc : Acc} {c : Cpu} {r : Registers} (h : Agrees o acc c r)
  (hrun : acc.control = .running) (hwm : Word) (i : Nat) (hin : c.outsideText = false)
include h hrun hin

/-- The link, written or not. -/
theorem newRegs_jump (hjump : isJump (decode c.textWord).op = true)
    (hrow : (o.env hwm acc i).d = rowOf c.pc c.textWord (decode c.textWord)) :
    newRegs .baseline (o.layout.args hwm) o.cap.keyqt (o.env hwm acc i) haltNone =
      (c.linked c.pc (decode c.textWord)).regFile := by
  have hpc : (o.env hwm acc i).acc.pc = c.pc := h.pc
  cases hop : (decode c.textWord).op with
  | jal | jalr =>
    have hrd : (o.env hwm acc i).d.rd = (decode c.textWord).rd.setWidth 8 := by
      rw [hrow]
      simp only [rowOf, hop]
    have hid : (o.env hwm acc i).d.id = dispatchId (decode c.textWord).op :=
      row_id h hwm i hin
    have hresult : result .baseline (o.layout.args hwm) o.cap.keyqt (o.env hwm acc i) = c.pc + 4 := by
      rw [result, hid, hop]
      change (o.env hwm acc i).acc.pc + 4 = _
      rw [hpc]
    rw [newRegs_eq hwm i h.regs hrun hrd, hresult]
    simp only [Cpu.linked, hop]
  | beq | bne | blt | bge | bltu | bgeu =>
    have hrd : (o.env hwm acc i).d.rd = 0 := by
      rw [hrow]
      simp only [rowOf, hop]
    rw [newRegs_none hwm i hrd, h.regs]
    simp only [Cpu.linked, hop]
  | _ =>
    rw [hop] at hjump
    exact absurd hjump (by decide)

theorem stepAgrees_jump (hjump : isJump (decode c.textWord).op = true) :
    StepAgrees o hwm acc (o.step hwm acc i) c r := by
  have hlt : dispatchId (decode c.textWord).op < opEcall := by
    cases hop : (decode c.textWord).op <;> rw [hop] at hjump <;> first
      | exact absurd hjump (by decide)
      | decide
  have hst : Cpu.isStoreOp (decode c.textWord).op = false := by
    cases hop : (decode c.textWord).op <;> rw [hop] at hjump <;> first
      | exact absurd hjump (by decide)
      | decide
  have hrow := row_eq h hwm i hin hlt
  have hpc := pcInText h hwm i hin
  obtain ⟨hwould, htarget, hnext⟩ := jump_arms (env_reads hwm i h) hrow hjump
  obtain ⟨hlow, hhigh, hstore, hload⟩ := jump_id hrow hjump
  have he := execute_jump c c.pc c.textWord hjump
  have hcode := haltCode_jump (v := .baseline) hpc hlow hhigh
  have hmis : jumpMisaligned .baseline (o.env hwm acc i) =
      (c.takes (decode c.textWord) &&
        decide ((c.target c.pc (decode c.textWord)).toNat % 4 ≠ 0)) := by
    rw [jumpMisaligned, hwould, htarget, isJumpOp, decide_eq_true hlow, decide_eq_true hhigh]
    simp only [Bool.true_and]
    congr 1
    exact decide_eq_decide.mpr (and_three_ne_zero _)
  have hregs := newRegs_jump h hrun hwm i hin hjump hrow
  have hpc' : (o.env hwm acc i).acc.pc = c.pc := h.pc
  by_cases ht : c.takes (decode c.textWord) = true
  · rw [if_pos ht] at he hnext
    by_cases ha : (c.target c.pc (decode c.textWord)).toNat % 4 ≠ 0
    · -- a misaligned target halts at the jump
      have hmis' : jumpMisaligned .baseline (o.env hwm acc i) = true := by
        rw [hmis, ht, decide_eq_true ha]
        rfl
      refine stepAgrees_halt h hrun hwm i
        (.at' .misaligned c.pc c.textWord (c.target c.pc (decode c.textWord))) ?_ ?_ rfl ?_
      · apply Cpu.stepReporting_error h.fits hin
        rw [he, Cpu.jump, checkTarget, if_pos ha]
      · rw [hcode, if_pos hmis']
        rfl
      · exact (haltExtra_jump hpc hmis').trans htarget
    · have hmis' : jumpMisaligned .baseline (o.env hwm acc i) = false := by
        rw [hmis, decide_eq_false ha, Bool.and_false]
      have he' : c.execute c.pc c.textWord (decode c.textWord) =
          (.ok (c.target c.pc (decode c.textWord)), c.linked c.pc (decode c.textWord)) := by
        rw [he, Cpu.jump, checkTarget, if_neg ha]
      refine stepAgrees_retire h hrun hwm i hin he' ?_ ?_ hstore hload hnext hregs hst
      · unfold Cpu.linked
        split
        · exact Or.inr ⟨_, _, rfl⟩
        · exact Or.inr ⟨_, _, rfl⟩
        · exact Or.inl rfl
      · rw [hcode, hmis', if_neg Bool.false_ne_true]
  · -- a branch that is not taken writes no register
    rw [if_neg ht] at he hnext
    have hmis' : jumpMisaligned .baseline (o.env hwm acc i) = false := by
      rw [hmis, Bool.eq_false_iff.mpr ht, Bool.false_and]
    have hlinked : c.linked c.pc (decode c.textWord) = c := by
      cases hop : (decode c.textWord).op <;> simp [Cpu.takes, hop] at ht <;>
        simp only [Cpu.linked, hop]
    rw [hlinked] at hregs
    rw [hpc'] at hnext
    exact stepAgrees_retire h hrun hwm i hin he (Or.inl rfl)
      (by rw [hcode, hmis', if_neg Bool.false_ne_true]) hstore hload hnext hregs hst

end
end ClickDoom

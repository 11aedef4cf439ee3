import ClickDoom.Executor.StepAgrees

/-! # Loads and stores keep the two machines in agreement

The address decides which of the two machines' branches are taken: alignment
first, then the region, then the width.  A load from the framebuffer or the
palette is where they part, since the fold keeps no copy of either to read.
-/
namespace ClickDoom
open ClickHouse
open LittleEndian (wordAt mergeBytes)

/-! ## The device window -/

theorem mmioIs_iff (e : Env) (reg : Word) :
    mmioIs .baseline e reg = true ↔ e.addr - mmioBase = reg := by
  have hbaseline : mmioIs .baseline e reg = decide (e.addr = mmioBase + reg) := rfl
  rw [hbaseline, decide_eq_true_eq]
  constructor
  · rintro h
    rw [h]
    exact add_sub_cancel_left _ _
  · rintro rfl
    exact (add_sub_cancel _ _).symm

theorem widthMask_eq_word (width : Width) : widthMask width = 4294967295 ↔ width = .word := by
  cases width <;> decide

theorem KeyEvent.setWidth_row (event : KeyEvent) : event.row.setWidth 32 = event.code := by
  apply BitVec.eq_of_toNat_eq
  have hlt : event.code.toNat < 2 ^ 16 := by
    rw [KeyEvent.code, keyEvent, BitVec.toNat_or]
    apply Nat.or_lt_two_pow
    · cases event.pressed <;> decide
    · rw [BitVec.toNat_setWidth]
      have := event.doomkey.isLt
      omega
  rw [KeyEvent.row, BitVec.toNat_setWidth, BitVec.toNat_setWidth]
  omega

theorem length_keyqt (o : Origin) : o.cap.keyqt.length < 2 ^ 32 := by
  have := o.keys_lt
  change (o.popped ++ o.registers.keyQueue.map KeyEvent.row).length < _
  rw [List.length_append, List.length_map]
  exact this

section
variable {o : Origin} {acc : Acc} {c : Cpu} {r : Registers} (h : Agrees o acc c r) (hwm : Word)
  (i : Nat)
include h

theorem keyqHas_iff : keyqHas o.cap.keyqt (o.env hwm acc i) = true ↔ r.keyQueue ≠ [] := by
  have hlen := length_keyqt o
  have hdrop := congrArg List.length h.keys
  rw [List.length_map, List.length_drop] at hdrop
  have hhas : keyqHas o.cap.keyqt (o.env hwm acc i) =
      decide (acc.mmio.keyqPos < BitVec.ofNat 32 o.cap.keyqt.length) := rfl
  rw [hhas, decide_eq_true_eq, BitVec.lt_def, BitVec.toNat_ofNat, Nat.mod_eq_of_lt hlen, Ne.eq_def,
    ← List.length_eq_zero_iff]
  omega

/-- The key a read finds, and the queue it leaves. -/
theorem keyq_pop {event : KeyEvent} {rest : List KeyEvent} (hq : r.keyQueue = event :: rest) :
    keyqVal o.cap.keyqt (o.env hwm acc i) = event.code ∧
      rest.map KeyEvent.row = o.cap.keyqt.drop (acc.mmio.keyqPos + 1).toNat ∧
      (acc.mmio.keyqPos + 1).toNat ≤ o.cap.keyqt.length := by
  have hlen := length_keyqt o
  have hkeys := h.keys
  rw [hq, List.map_cons] at hkeys
  have hlt : acc.mmio.keyqPos.toNat < o.cap.keyqt.length := by
    have := congrArg List.length hkeys
    rw [List.length_cons, List.length_drop] at this
    omega
  have hsucc : (acc.mmio.keyqPos + 1).toNat = acc.mmio.keyqPos.toNat + 1 := by
    rw [BitVec.toNat_add, show (1 : Word).toNat = 1 from rfl]
    omega
  rw [List.drop_eq_getElem_cons hlt, List.cons.injEq] at hkeys
  refine ⟨?_, ?_, ?_⟩
  · have hhas := (keyqHas_iff h hwm i).mpr (by rw [hq]; exact List.cons_ne_nil _ _)
    rw [keyqVal, if_pos hhas, arrayElement_succ]
    change (o.cap.keyqt.getD acc.mmio.keyqPos.toNat default).setWidth 32 = _
    rw [List.getD_eq_getElem?_getD, List.getElem?_eq_getElem hlt, Option.getD_some, ← hkeys.1,
      KeyEvent.setWidth_row]
  · rw [hsucc]
    exact hkeys.2
  · omega

end
/-- What a word load from the device window leaves: the registers' answer, and a
queue position that has moved with the queue. -/
structure DeviceRead (o : Origin) (r r' : Registers) (value keyqPos : Word) (answer : Word) : Prop where
  value : value = answer
  keys : r'.keyQueue.map KeyEvent.row = o.cap.keyqt.drop keyqPos.toNat
  keyqPos_le : keyqPos.toNat ≤ o.cap.keyqt.length
  ipms : r'.ipms = r.ipms
  console : r'.console = r.console
  frames : r'.frameCommits = r.frameCommits

section
variable {o : Origin} {acc : Acc} {c : Cpu} {r : Registers} (h : Agrees o acc c r) (hwm : Word)
  (i : Nat)
include h

theorem deviceRead (hretires : stepRetires (o.env hwm acc i) haltNone = true)
    (hload : isMmioLoad .baseline (o.env hwm acc i) = true) :
    DeviceRead o r (r.read ((o.env hwm acc i).addr - mmioBase) .word c.icount).2
      (mmioRead .baseline (o.layout.args hwm) o.cap.keyqt (o.env hwm acc i))
      (newKeyqPos .baseline o.cap.keyqt (o.env hwm acc i) haltNone)
      (r.read ((o.env hwm acc i).addr - mmioBase) .word c.icount).1 := by
  have hticks := mmioIs_iff (o.env hwm acc i) Mmio.ticksMs
  have hkeyq := mmioIs_iff (o.env hwm acc i) Mmio.keyq
  have hsame : (o.env hwm acc i).acc = acc := rfl
  generalize hoff : (o.env hwm acc i).addr - mmioBase = off at hticks hkeyq
  -- the position moves exactly when a key is read and one is waiting
  have hposition : newKeyqPos .baseline o.cap.keyqt (o.env hwm acc i) haltNone =
      if off = Mmio.keyq ∧ r.keyQueue ≠ [] then acc.mmio.keyqPos + 1 else acc.mmio.keyqPos := by
    rw [newKeyqPos, hretires, hload, hsame]
    simp only [Bool.true_and, Bool.and_eq_true, hkeyq, keyqHas_iff h hwm i]
  by_cases ht : off = Mmio.ticksMs
  · have hne : off ≠ Mmio.keyq := by
      rw [ht]
      decide
    have hread : r.read off .word c.icount = (BitVec.ofNat 32 (c.icount / r.ipms.toNat), r) := by
      simp [Registers.read, ht]
    rw [hposition, if_neg (fun hk => hne hk.1), hread]
    refine ⟨?_, h.keys, h.keyqPos_le, rfl, rfl, rfl⟩
    rw [mmioRead, if_pos (hticks.mpr ht), ticksMs, hsame, h.icount, h.fits.ipms]
    rfl
  · by_cases hk : off = Mmio.keyq
    · have hmmio : mmioRead .baseline (o.layout.args hwm) o.cap.keyqt (o.env hwm acc i) =
          keyqVal o.cap.keyqt (o.env hwm acc i) := by
        rw [mmioRead, if_neg (fun htrue => ht (hticks.mp htrue)), if_pos (hkeyq.mpr hk)]
      cases hq : r.keyQueue with
      | nil =>
        have hread : r.read off .word c.icount = (0, r) := by
          rw [Registers.read, if_neg (not_not.mpr rfl), if_neg ht, if_pos hk, hq]
        have hhas : keyqHas o.cap.keyqt (o.env hwm acc i) = false := by
          rw [Bool.eq_false_iff, Ne.eq_def, keyqHas_iff h hwm i]
          exact not_not.mpr hq
        rw [hposition, if_neg (fun hk => hk.2 hq), hread]
        refine ⟨?_, h.keys, h.keyqPos_le, rfl, rfl, rfl⟩
        rw [hmmio, keyqVal, hhas]
        rfl
      | cons event rest =>
        have hread : r.read off .word c.icount = (event.code, { r with keyQueue := rest }) := by
          rw [Registers.read, if_neg (not_not.mpr rfl), if_neg ht, if_pos hk, hq]
        obtain ⟨hval, hkeys, hpos⟩ := keyq_pop h hwm i hq
        have hwaiting : r.keyQueue ≠ [] := by
          rw [hq]
          exact List.cons_ne_nil _ _
        rw [hposition, if_pos ⟨hk, hwaiting⟩, hread]
        exact ⟨hmmio.trans hval, hkeys, hpos, rfl, rfl, rfl⟩
    · have hread : r.read off .word c.icount = (0, r) := by
        rw [Registers.read, if_neg (not_not.mpr rfl), if_neg ht, if_neg hk]
      rw [hposition, if_neg (fun hboth => hk hboth.1), hread]
      refine ⟨?_, h.keys, h.keyqPos_le, rfl, rfl, rfl⟩
      rw [mmioRead, if_neg (fun htrue => ht (hticks.mp htrue)),
        if_neg (fun htrue => hk (hkeyq.mp htrue))]

end

/-! ## What the machine's memory answers -/

section
variable {c : Cpu} {addr : Word} {width : Width} (icount : Nat)

theorem read_misaligned (ha : addr.toNat % width.size ≠ 0) :
    c.memory.read addr width icount = (.error (.misaligned addr width), c.memory) := by
  rw [Memory.read, checkAlign_eq, if_pos ha]

theorem write_misaligned (value : Word) (ha : addr.toNat % width.size ≠ 0) :
    c.memory.write addr width value icount = (.error (.misaligned addr width), c.memory) := by
  rw [Memory.write, checkAlign_eq, if_pos ha]

variable {L : Layout} {r : Registers} (h : c.Fits L r)
include h

theorem classify_of_holds {region : Region} (hh : L.map.Holds region addr width) :
    c.memory.map.classify addr width = some (region, addr - (L.map.bounds region).1) := by
  rw [h.map]
  exact L.separate.classify_eq hh

variable (ha : addr.toNat % width.size = 0)
include ha

theorem read_ram (hh : L.map.Holds .ram addr width) :
    c.memory.read addr width icount =
      (.ok (readLe c.memory.ram (addr - ramBase) width), c.memory) := by
  rw [Memory.read, checkAlign_eq, if_neg (not_not.mpr ha), classify_of_holds h hh]
  rfl

theorem read_mmio (hh : L.map.Holds .mmio addr width) :
    c.memory.read addr width icount =
      (.ok (r.read (addr - mmioBase) width icount).1,
        c.memory.setDevices (.registers (r.read (addr - mmioBase) width icount).2)) := by
  rw [Memory.read, checkAlign_eq, if_neg (not_not.mpr ha), classify_of_holds h hh]
  simp only [h.devices, Devices.read]
  rfl

theorem read_nowhere (hh : ∀ region, ¬L.map.Holds region addr width) :
    c.memory.read addr width icount = (.error (.badAddr addr), c.memory) := by
  rw [Memory.read, checkAlign_eq, if_neg (not_not.mpr ha), h.map, MemoryMap.classify_eq_none hh]

end

/-! ## Loads -/

theorem execute_load (c : Cpu) (pc word : Word) {insn : Instruction}
    (hop : Cpu.isLoadOp insn.op = true) :
    c.execute pc word insn = c.executeLoad pc word insn.rd (c.accessAddr insn)
      (loadShape insn.op).1 (loadShape insn.op).2 := by
  cases hc : insn.op <;> rw [hc] at hop <;> first
    | exact absurd hop (by decide)
    | simp only [Cpu.execute, hc, Cpu.accessAddr]

theorem rowOf_load (pc word : Word) {insn : Instruction} (hop : Cpu.isLoadOp insn.op = true) :
    rowOf pc word insn = .row opLoad (insn.rd.setWidth 8) (insn.rs1.setWidth 8) 0 insn.imm 0
      (widthMask (loadShape insn.op).1) (signColumn insn.op) word := by
  cases hc : insn.op <;> rw [hc] at hop <;> first
    | exact absurd hop (by decide)
    | simp only [rowOf, hc, dispatchId]

section
variable {o : Origin} {acc : Acc} {c : Cpu} {r : Registers} (h : Agrees o acc c r)
  (hrun : acc.control = .running) (hwm : Word) (i : Nat) (hin : c.outsideText = false)

/-- The row of a load, in the environment of its step. -/
structure LoadRow (e : Env) (c : Cpu) (insn : Instruction) : Prop where
  id : e.d.id = opLoad
  rd : e.d.rd = insn.rd.setWidth 8
  mask : e.d.mk = widthMask (loadShape insn.op).1
  sg : e.d.sg = signColumn insn.op
  addr : e.addr = c.accessAddr insn
  not_store : Cpu.isStoreOp insn.op = false

include h hin in
theorem loadRow (hop : Cpu.isLoadOp (decode c.textWord).op = true) :
    LoadRow (o.env hwm acc i) c (decode c.textWord) := by
  have hlt : dispatchId (decode c.textWord).op < opEcall := by
    cases hc : (decode c.textWord).op <;> rw [hc] at hop <;> first
      | exact absurd hop (by decide)
      | decide
  have hrow := row_eq h hwm i hin hlt
  rw [rowOf_load _ _ hop] at hrow
  have haddr := (env_reads hwm i h).addr
  rw [hrow] at haddr
  have hreg := c.fileOf_regFile (decode c.textWord).rs1
  refine ⟨by rw [hrow], by rw [hrow], by rw [hrow], by rw [hrow], ?_, ?_⟩
  · rw [haddr, hreg]
    rfl
  · cases hc : (decode c.textWord).op <;> rw [hc] at hop <;> first
      | exact absurd hop (by decide)
      | rfl

/-- The region a fold's load is in, for an aligned address. -/
theorem badAddr_load {e : Env} {insn : Instruction} (hrow : LoadRow e c insn) {L : Layout}
    (ha : (c.accessAddr insn).toNat % (loadShape insn.op).1.size = 0) :
    badAddr .baseline (L.args hwm) e = true ↔
      ¬L.map.Holds .ram (c.accessAddr insn) (loadShape insn.op).1 ∧
        ¬L.map.Holds .mmio (c.accessAddr insn) (loadShape insn.op).1 := by
  have hstore : isFbOrPalStore e = false :=
    (not_store (v := .baseline) (p := L.args hwm) (by rw [hrow.id]; decide)).1
  rw [badAddr, hstore, Bool.and_eq_true, Bool.and_eq_true, Bool.not_eq_true', Bool.not_eq_true',
    hrow.addr, addrOutsideRam_iff ha, ← Bool.not_eq_true, isMmio_iff (L := L) ha hrow.addr]
  simp

include h hrun hin

/-- A load that faults. -/
theorem stepAgrees_load_fault (hop : Cpu.isLoadOp (decode c.textWord).op = true) {reason : HaltReason}
    (hreason : reason = .badAddr ∨ reason = .misaligned)
    (he : c.execute c.pc c.textWord (decode c.textWord) =
      (.error (.at' reason c.pc c.textWord (c.accessAddr (decode c.textWord))), c))
    (hcode : haltCode .baseline (o.layout.args hwm) (o.env hwm acc i) = reason.code) :
    StepAgrees o hwm acc (o.step hwm acc i) c r := by
  have hrow := loadRow h hwm i hin hop
  have hjump : jumpMisaligned .baseline (o.env hwm acc i) = false :=
    jumpMisaligned_of_lt (by rw [hrow.id]; decide)
  refine stepAgrees_halt h hrun hwm i _ (Cpu.stepReporting_error h.fits hin he) hcode rfl ?_
  refine (haltExtra_access (pcInText h hwm i hin) hjump ?_).trans (hrow.addr.trans ?_)
  · rcases hreason with rfl | rfl
    · exact Or.inl rfl
    · exact Or.inr (Or.inl rfl)
  · rcases hreason with rfl | rfl <;> rfl

/-- A load that retires, from RAM or from the device window. -/
theorem stepAgrees_load_ok (hop : Cpu.isLoadOp (decode c.textWord).op = true) {raw keyqPos : Word}
    {r' : Registers}
    (hread : c.memory.read (c.accessAddr (decode c.textWord)) (loadShape (decode c.textWord).op).1
      c.icount = (.ok raw, c.memory.setDevices (.registers r')))
    (hipms : r'.ipms = r.ipms) (hconsole : r'.console = r.console)
    (hframes : r'.frameCommits = r.frameCommits)
    (hkeys : r'.keyQueue.map KeyEvent.row = o.cap.keyqt.drop keyqPos.toNat)
    (hpos : keyqPos.toNat ≤ o.cap.keyqt.length)
    (hcode : haltCode .baseline (o.layout.args hwm) (o.env hwm acc i) = haltNone)
    (hkeyq : newKeyqPos .baseline o.cap.keyqt (o.env hwm acc i) haltNone = keyqPos)
    (hvalue : loadv .baseline (o.layout.args hwm) o.cap.keyqt (o.env hwm acc i) =
      if (loadShape (decode c.textWord).op).2 then
        signExtend raw ((loadShape (decode c.textWord).op).1.size * 8)
      else raw) :
    StepAgrees o hwm acc (o.step hwm acc i) c r := by
  have hrow := loadRow h hwm i hin hop
  have he := execute_load c c.pc c.textWord hop
  rw [Cpu.executeLoad, hread] at he
  have hresult : result .baseline (o.layout.args hwm) o.cap.keyqt (o.env hwm acc i) =
      loadv .baseline (o.layout.args hwm) o.cap.keyqt (o.env hwm acc i) := by
    rw [result, hrow.id]
    rfl
  refine stepAgrees_retires h hrun hwm i hin he rfl hipms hconsole hframes hkeys hpos hcode
    (by rw [hrow.id]; decide) hkeyq ?_ ?_ hrow.not_store
  · rw [next_of_lt (by rw [hrow.id]; decide)]
    change acc.pc + 4 = _
    rw [h.pc]
  · rw [newRegs_eq hwm i h.regs hrun hrow.rd, hresult, hvalue]
    rfl

/-- A load from RAM finds the machine's bytes, through the log. -/
theorem stepAgrees_load_ram (hop : Cpu.isLoadOp (decode c.textWord).op = true)
    (ha : (c.accessAddr (decode c.textWord)).toNat % (loadShape (decode c.textWord).op).1.size = 0)
    (hh : o.layout.map.Holds .ram (c.accessAddr (decode c.textWord))
      (loadShape (decode c.textWord).op).1) :
    StepAgrees o hwm acc (o.step hwm acc i) c r := by
  have hrow := loadRow h hwm i hin hop
  have hplace := inRam ha hh
  have hread := (read_ram c.icount h.fits ha hh).trans
    (congrArg (Prod.mk _) (setDevices_self h.fits).symm)
  have hmis : misaligned .baseline (o.env hwm acc i) = false := by
    rw [Bool.eq_false_iff, Ne.eq_def, misaligned_iff hrow.mask, hrow.addr]
    exact not_not.mpr ha
  have hbad : badAddr .baseline (o.layout.args hwm) (o.env hwm acc i) = false := by
    rw [Bool.eq_false_iff, Ne.eq_def, badAddr_load hwm hrow ha]
    exact fun hnot => hnot.1 hh
  have hmmio : isMmio .baseline (o.env hwm acc i) = false := by
    rw [Bool.eq_false_iff, Ne.eq_def, isMmio_iff (L := o.layout) ha hrow.addr]
    intro hm
    cases o.layout.separate _ _ _ hh.byte hm.byte
  -- the word of the log is the machine's, and the load takes the same bytes of it
  have hlw : (o.env hwm acc i).lw =
      wordAt c.memory.ram ((c.accessAddr (decode c.textWord) - ramBase).toNat / 4) := by
    rw [← h.ram _ hplace.word_lt, ← hplace.waSafe_eq hwm, ← hrow.addr]
    rfl
  have hraw : extracted (o.env hwm acc i) =
      readLe c.memory.ram (c.accessAddr (decode c.textWord) - ramBase)
        (loadShape (decode c.textWord).op).1 := by
    rw [extracted_eq, readLe_eq _ _ hplace.byte_le, hlw, hrow.mask, widthMask_eq,
      hplace.shiftOf_eq hrow.addr]
  refine stepAgrees_load_ok h hrun hwm i hin hop hread rfl rfl rfl h.keys h.keyqPos_le ?_ ?_ ?_
  · rw [haltCode_load (pcInText h hwm i hin) hrow.id, hmis, hbad]
    rfl
  · simp [newKeyqPos, isMmioLoad, hmmio]
    rfl
  · rw [← hraw, ← ramLoad_eq hop hrow.mask hrow.sg, loadv, hmmio]
    simp

/-- A load from the device window. -/
theorem stepAgrees_load_mmio (hop : Cpu.isLoadOp (decode c.textWord).op = true)
    (ha : (c.accessAddr (decode c.textWord)).toNat % (loadShape (decode c.textWord).op).1.size = 0)
    (hh : o.layout.map.Holds .mmio (c.accessAddr (decode c.textWord))
      (loadShape (decode c.textWord).op).1) :
    StepAgrees o hwm acc (o.step hwm acc i) c r := by
  have hrow := loadRow h hwm i hin hop
  have hread := read_mmio c.icount h.fits ha hh
  have hmis : misaligned .baseline (o.env hwm acc i) = false := by
    rw [Bool.eq_false_iff, Ne.eq_def, misaligned_iff hrow.mask, hrow.addr]
    exact not_not.mpr ha
  have hbad : badAddr .baseline (o.layout.args hwm) (o.env hwm acc i) = false := by
    rw [Bool.eq_false_iff, Ne.eq_def, badAddr_load hwm hrow ha]
    exact fun hnot => hnot.2 hh
  have hmmio : isMmio .baseline (o.env hwm acc i) = true :=
    (isMmio_iff ha hrow.addr).mpr hh
  have hcode : haltCode .baseline (o.layout.args hwm) (o.env hwm acc i) = haltNone := by
    rw [haltCode_load (pcInText h hwm i hin) hrow.id, hmis, hbad]
    rfl
  have hretires : stepRetires (o.env hwm acc i) haltNone = true := by
    change (decide (acc.control.stopped = 0) && decide (haltNone = 0)) = true
    rw [hrun]
    rfl
  have hload : isMmioLoad .baseline (o.env hwm acc i) =
      decide ((loadShape (decode c.textWord).op).1 = .word) := by
    rw [isMmioLoad, hmmio, hrow.id, hrow.mask, decide_eq_decide.mpr (widthMask_eq_word _)]
    rfl
  by_cases hw : (loadShape (decode c.textWord).op).1 = .word
  · -- a word: the register named by the offset answers
    rw [decide_eq_true hw] at hload
    have hmask : (o.env hwm acc i).d.mk = 4294967295 := hrow.mask.trans ((widthMask_eq_word _).mpr hw)
    have hloadv : loadv .baseline (o.layout.args hwm) o.cap.keyqt (o.env hwm acc i) =
        mmioRead .baseline (o.layout.args hwm) o.cap.keyqt (o.env hwm acc i) := by
      rw [loadv, hmmio, hmask]
      rfl
    have hdevice := deviceRead h hwm i hretires hload
    rw [hrow.addr] at hdevice
    rw [hw] at hread
    refine stepAgrees_load_ok h hrun hwm i hin hop (by rw [hw]; exact hread) hdevice.ipms
      hdevice.console hdevice.frames hdevice.keys hdevice.keyqPos_le hcode rfl ?_
    rw [hloadv, hdevice.value, hw]
    simp [signExtend, Width.size]
  · -- a narrower load reads zero and pops nothing
    rw [decide_eq_false hw] at hload
    have hmask : (o.env hwm acc i).d.mk ≠ 4294967295 := by
      rw [hrow.mask, Ne.eq_def, widthMask_eq_word]
      exact hw
    have hread' : r.read (c.accessAddr (decode c.textWord) - mmioBase)
        (loadShape (decode c.textWord).op).1 c.icount = (0, r) := by
      rw [Registers.read, if_pos hw]
    rw [hread'] at hread
    refine stepAgrees_load_ok h hrun hwm i hin hop hread rfl rfl rfl h.keys h.keyqPos_le hcode ?_ ?_
    · rw [newKeyqPos, hload]
      simp
      rfl
    · rw [loadv, hmmio, decide_eq_false hmask]
      simp [signExtend]

/-- Every load but one from the framebuffer or the palette. -/
theorem stepAgrees_load (hop : Cpu.isLoadOp (decode c.textWord).op = true)
    (hpixels : ¬c.LoadsPixels) : StepAgrees o hwm acc (o.step hwm acc i) c r := by
  have hrow := loadRow h hwm i hin hop
  have hmis := misaligned_iff hrow.mask
  rw [hrow.addr] at hmis
  have hcode := haltCode_load (v := .baseline) (pcInText h hwm i hin) hrow.id
  have he := execute_load c c.pc c.textWord hop
  by_cases ha : (c.accessAddr (decode c.textWord)).toNat %
      (loadShape (decode c.textWord).op).1.size = 0
  swap
  · refine stepAgrees_load_fault h hrun hwm i hin hop (Or.inr rfl) ?_ ?_
    · rw [he, Cpu.executeLoad, read_misaligned c.icount ha]
      rfl
    · rw [hcode, if_pos (hmis.mpr ha)]
      rfl
  -- a load of pixels is what the hypothesis excludes
  have hnever : ∀ region, region = .framebuffer ∨ region = .palette →
      ¬o.layout.map.Holds region (c.accessAddr (decode c.textWord))
        (loadShape (decode c.textWord).op).1 := by
    intro region hregion hh
    refine hpixels ⟨hin, c.textWord, decode c.textWord, region, _, ?_, hop, ?_,
      classify_of_holds h.fits hh, hregion⟩
    · rw [h.fits.fetch_eq hin]
      rfl
    · rw [checkAlign_eq, if_neg (not_not.mpr ha)]
  cases placed o.layout (c.accessAddr (decode c.textWord)) (loadShape (decode c.textWord).op).1 with
  | ram hh => exact stepAgrees_load_ram h hrun hwm i hin hop ha hh
  | mmio hh => exact stepAgrees_load_mmio h hrun hwm i hin hop ha hh
  | framebuffer hh => exact absurd hh (hnever _ (Or.inl rfl))
  | palette hh => exact absurd hh (hnever _ (Or.inr rfl))
  | nowhere hh =>
    refine stepAgrees_load_fault h hrun hwm i hin hop (Or.inl rfl) ?_ ?_
    · rw [he, Cpu.executeLoad, read_nowhere c.icount h.fits ha hh]
      rfl
    · have hbad := (badAddr_load hwm hrow ha).mpr ⟨hh .ram, hh .mmio⟩
      rw [hcode, if_neg (fun hm => hmis.mp hm ha), if_pos hbad]
      rfl

end
end ClickDoom

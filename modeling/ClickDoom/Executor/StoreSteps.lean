import ClickDoom.Executor.MemorySteps

/-! # Stores keep the two machines in agreement

A store goes to RAM through the write log, to the device window, or to the
framebuffer and the palette through logs of their own.  A store into the text is
refused by both machines, and so is one narrower than a word into the pixels.
-/
namespace ClickDoom
open ClickHouse
open LittleEndian (wordAt mergeBytes)

/-! ## What the machine's memory answers -/

section
variable {c : Cpu} {addr : Word} {width : Width} (icount : Nat) (value : Word)
variable {L : Layout} {r : Registers} (h : c.Fits L r) (ha : addr.toNat % width.size = 0)
include h ha

theorem write_ram (hh : L.map.Holds .ram addr width) :
    c.memory.write addr width value icount =
      if c.memory.inText addr width then (.error (.selfModify addr), c.memory)
      else (.ok (), (c.memory.writeRam (addr - ramBase) width value).record .ram
        (addr - ramBase) width) := by
  rw [Memory.write, checkAlign_eq, if_neg (not_not.mpr ha), classify_of_holds h hh]
  rfl

theorem write_mmio (hh : L.map.Holds .mmio addr width) :
    c.memory.write addr width value icount =
      match (r.write (addr - mmioBase) width value icount).1 with
      | .error code => (.error (.exit code),
          c.memory.setDevices (.registers (r.write (addr - mmioBase) width value icount).2))
      | .ok () => (.ok (),
          (c.memory.setDevices (.registers (r.write (addr - mmioBase) width value icount).2)).record
            .mmio (addr - mmioBase) width) := by
  rw [Memory.write, checkAlign_eq, if_neg (not_not.mpr ha), classify_of_holds h hh]
  simp only [h.devices, Devices.write]
  rfl

theorem write_framebuffer (hh : L.map.Holds .framebuffer addr width) :
    c.memory.write addr width value icount =
      if width ≠ .word then (.error (.badAddr addr), c.memory)
      else (.ok (), (c.memory.writeFramebuffer (addr - framebufferBase) value).record .framebuffer
        (addr - framebufferBase) width) := by
  rw [Memory.write, checkAlign_eq, if_neg (not_not.mpr ha), classify_of_holds h hh]
  rfl

theorem write_palette (hh : L.map.Holds .palette addr width) :
    c.memory.write addr width value icount =
      if width ≠ .word then (.error (.badAddr addr), c.memory)
      else (.ok (), (c.memory.writePalette (addr - paletteBase) value).record .palette
        (addr - paletteBase) width) := by
  rw [Memory.write, checkAlign_eq, if_neg (not_not.mpr ha), classify_of_holds h hh]
  rfl

theorem write_nowhere (hh : ∀ region, ¬L.map.Holds region addr width) :
    c.memory.write addr width value icount = (.error (.badAddr addr), c.memory) := by
  rw [Memory.write, checkAlign_eq, if_neg (not_not.mpr ha), h.map, MemoryMap.classify_eq_none hh]

/-- A store touches the text exactly when its word is one of the text's. -/
theorem inText_iff (hh : L.map.Holds .ram addr width) :
    c.memory.inText addr width = true ↔ (addr - ramBase).toNat / 4 < L.textWords := by
  have hplace := inRam ha hh
  have hto := hplace.toNat_addr
  have hbyte := hplace.byte_le
  have hsize := width.size_cases
  simp only [Memory.inText, h.text, Bool.not_eq_true', Bool.or_eq_false_iff,
    decide_eq_false_iff_not]
  rw [L.toNat_textStop, toNat_ramBase, hto]
  rcases hsize with hs | hs | hs <;> rw [hs] at hbyte ⊢ <;> omega

end

/-! ## The row of a store -/

theorem execute_store (c : Cpu) (pc word : Word) {insn : Instruction}
    (hop : Cpu.isStoreOp insn.op = true) :
    c.execute pc word insn = c.executeStore pc word (c.accessAddr insn) (storeWidth insn.op)
      (c.reg insn.rs2) := by
  cases hc : insn.op <;> rw [hc] at hop <;> first
    | exact absurd hop (by decide)
    | simp only [Cpu.execute, hc, Cpu.accessAddr]

theorem rowOf_store (pc word : Word) {insn : Instruction} (hop : Cpu.isStoreOp insn.op = true) :
    rowOf pc word insn = .row opStore 0 (insn.rs1.setWidth 8) (insn.rs2.setWidth 8) insn.imm 0
      (widthMask (storeWidth insn.op)) 0 word := by
  cases hc : insn.op <;> rw [hc] at hop <;> first
    | exact absurd hop (by decide)
    | simp only [rowOf, hc, dispatchId]

/-- The row of a store, in the environment of its step. -/
structure StoreRow (e : Env) (c : Cpu) (insn : Instruction) : Prop where
  id : e.d.id = opStore
  rd : e.d.rd = 0
  mask : e.d.mk = widthMask (storeWidth insn.op)
  addr : e.addr = c.accessAddr insn
  rs2v : e.rs2v = c.reg insn.rs2

section
variable {o : Origin} {acc : Acc} {c : Cpu} {r : Registers} (h : Agrees o acc c r)
  (hrun : acc.control = .running) (hwm : Word) (i : Nat) (hin : c.outsideText = false)

include h hin in
theorem storeRow (hop : Cpu.isStoreOp (decode c.textWord).op = true) :
    StoreRow (o.env hwm acc i) c (decode c.textWord) := by
  have hlt : dispatchId (decode c.textWord).op < opEcall := by
    cases hc : (decode c.textWord).op <;> rw [hc] at hop <;> first
      | exact absurd hop (by decide)
      | decide
  have hrow := row_eq h hwm i hin hlt
  rw [rowOf_store _ _ hop] at hrow
  have hreads := env_reads hwm i h
  have haddr := hreads.addr
  have hrs2v := hreads.rs2v
  rw [hrow] at haddr hrs2v
  have h1 := c.fileOf_regFile (decode c.textWord).rs1
  have h2 := c.fileOf_regFile (decode c.textWord).rs2
  refine ⟨by rw [hrow], by rw [hrow], by rw [hrow], ?_, ?_⟩
  · rw [haddr, h1]
    rfl
  · rw [hrs2v, h2]

/-- The places a fold's store may go, for an aligned address. -/
theorem badAddr_store {e : Env} {insn : Instruction} (hrow : StoreRow e c insn) {L : Layout}
    (ha : (c.accessAddr insn).toNat % (storeWidth insn.op).size = 0) :
    badAddr .baseline (L.args hwm) e = true ↔
      ∀ region, ¬L.map.Holds region (c.accessAddr insn) (storeWidth insn.op) := by
  have hfb := isFb_iff (L := L) ha hrow.addr
  have hpal := isPal_iff (L := L) ha hrow.addr
  have hram := addrOutsideRam_iff (L := L) ha hwm
  have hmmio := isMmio_iff (L := L) ha hrow.addr
  rw [badAddr, isFbOrPalStore, hrow.id, decide_eq_true rfl, Bool.true_and, Bool.and_eq_true,
    Bool.and_eq_true, Bool.not_eq_true', Bool.not_eq_true', Bool.or_eq_false_iff, hrow.addr, hram,
    ← Bool.not_eq_true, hmmio, ← Bool.not_eq_true, hfb, ← Bool.not_eq_true, hpal]
  constructor
  · rintro ⟨⟨hr, hm⟩, hf, hp⟩ region
    cases region with
    | ram => exact hr
    | mmio => exact hm
    | framebuffer => exact hf
    | palette => exact hp
  · intro hnone
    exact ⟨⟨hnone _, hnone _⟩, hnone _, hnone _⟩

/-! ## A store that faults -/

include h hrun hin

theorem stepAgrees_store_fault (hop : Cpu.isStoreOp (decode c.textWord).op = true)
    {reason : HaltReason}
    (hreason : reason = .badAddr ∨ reason = .misaligned ∨ reason = .selfModify)
    (he : c.execute c.pc c.textWord (decode c.textWord) =
      (.error (.at' reason c.pc c.textWord (c.accessAddr (decode c.textWord))), c))
    (hcode : haltCode .baseline (o.layout.args hwm) (o.env hwm acc i) = reason.code) :
    StepAgrees o hwm acc (o.step hwm acc i) c r := by
  have hrow := storeRow h hwm i hin hop
  have hjump : jumpMisaligned .baseline (o.env hwm acc i) = false :=
    jumpMisaligned_of_lt (by rw [hrow.id]; decide)
  refine stepAgrees_halt h hrun hwm i _ (Cpu.stepReporting_error h.fits hin he) hcode rfl ?_
  refine (haltExtra_access (pcInText h hwm i hin) hjump ?_).trans (hrow.addr.trans ?_)
  · rcases hreason with rfl | rfl | rfl
    · exact Or.inl rfl
    · exact Or.inr (Or.inl rfl)
    · exact Or.inr (Or.inr rfl)
  · rcases hreason with rfl | rfl | rfl <;> rfl

end

/-! ## A store that retires -/

/-- The tuple a retiring store leaves: it writes no register and reads no key. -/
theorem stepTuple_stores {v : Variant} {p : StepArgs} {keyqt : List (BitVec 16)} {e : Env}
    (hact : e.acc.control.stopped = 0) (hid : e.d.id = opStore) (hrd : e.d.rd = 0) :
    stepTuple v p keyqt e haltNone =
      { e.acc with
        pc := e.acc.pc + 4
        wl := newWl v e haltNone
        control := if hitsHwm v p e haltNone || frameCommittedNow v e haltNone then
          { e.acc.control with stopped := 1 } else e.acc.control
        icount := e.acc.icount + 1
        mmio :=
          { consoleBytes := newConsole v e haltNone
            keyqPos := e.acc.mmio.keyqPos
            frameNo := if frameCommittedNow v e haltNone then e.rs2v else e.acc.mmio.frameNo
            frameCommitted :=
              if frameCommittedNow v e haltNone then 1 else e.acc.mmio.frameCommitted }
        fbWl := newFbWl e haltNone
        palWl := newPalWl e haltNone
        cp := newCp e } := by
  have hactive : active e = true := decide_eq_true hact
  have hhalts : stepHaltsNow e haltNone = false := by simp [stepHaltsNow, haltNone]
  have hretires : stepRetires e haltNone = true := by simp [stepRetires, hactive, haltNone]
  have hnext : next v e = e.acc.pc + 4 := next_of_lt (by rw [hid]; decide)
  have hkeyq : newKeyqPos v keyqt e haltNone = e.acc.mmio.keyqPos :=
    newKeyqPos_of_ne (by rw [hid]; decide)
  simp [stepTuple, newRegs, newControl, newMmio, hhalts, hretires, hnext, hkeyq, hrd]

section
variable {o : Origin} {acc : Acc} {c : Cpu} {r : Registers} (h : Agrees o acc c r)
  (hrun : acc.control = .running) (hwm : Word) (i : Nat) (hin : c.outsideText = false)
  (hlen : acc.wl.addr.length < 2 ^ 32)

/-- A log that takes one more write, or none. -/
theorem stamped_pushed {l : Lanes} {lo hi : Nat} (hl : l.Stamped lo hi) (hlo : lo ≤ hi) (b : Bool)
    (addr val : Word) : (if b then l.push addr val (hi + 1) else l).Stamped lo (hi + 1) := by
  cases b with
  | true => exact hl.push hlo addr val
  | false => exact hl.mono (Nat.le_succ _)

include h hrun hin hlen

/-- What is left to show of a store that retires: the words the three logs spell,
and what the devices took. -/
theorem stepAgrees_store_ok (hop : Cpu.isStoreOp (decode c.textWord).op = true) {m' : Memory}
    {r' : Registers}
    (hwrite : c.memory.write (c.accessAddr (decode c.textWord)) (storeWidth (decode c.textWord).op)
      (c.reg (decode c.textWord).rs2) c.icount = (.ok (), m'))
    (hdevices : m'.devices = .registers r') (hipms : r'.ipms = r.ipms)
    (hcode : haltCode .baseline (o.layout.args hwm) (o.env hwm acc i) = haltNone)
    (hram : ∀ j < o.layout.ramWords, lookupWord (newWl .baseline (o.env hwm acc i) haltNone)
      o.cap.ramt (BitVec.ofNat 32 j) = wordAt m'.ram j)
    (hfb : ∀ j < 16000, lookupWord (newFbWl (o.env hwm acc i) haltNone)
      (wordsOf o.cpu.memory.framebuffer) (BitVec.ofNat 32 j) = wordAt m'.framebuffer j)
    (hpal : ∀ j < 192, lookupWord (newPalWl (o.env hwm acc i) haltNone)
      (wordsOf o.cpu.memory.palette) (BitVec.ofNat 32 j) = wordAt m'.palette j)
    (hstores : isRetiringStore .baseline (o.env hwm acc i) haltNone =
      c.storesToRam (decode c.textWord))
    (hconsole : r'.console =
      o.registers.console ++ newConsole .baseline (o.env hwm acc i) haltNone)
    (hkeys : r'.keyQueue = r.keyQueue)
    (hframes : r'.frameCommits = r.frameCommits ++
      if frameCommittedNow .baseline (o.env hwm acc i) haltNone then
        [⟨c.reg (decode c.textWord).rs2, BitVec.ofNat 64 c.icount⟩] else [])
    (hfbAddr : (newFbWl (o.env hwm acc i) haltNone).addr =
      acc.fbWl.addr ++ c.storedWord .framebuffer (decode c.textWord))
    (hpalAddr : (newPalWl (o.env hwm acc i) haltNone).addr =
      acc.palWl.addr ++ c.storedWord .palette (decode c.textWord)) :
    StepAgrees o hwm acc (o.step hwm acc i) c r := by
  have hrow := storeRow h hwm i hin hop
  have hact : (o.env hwm acc i).acc.control.stopped = 0 := by
    change acc.control.stopped = 0
    rw [hrun]
    rfl
  have he := execute_store c c.pc c.textWord hop
  rw [Cpu.executeStore, hwrite] at he
  have hstep := Cpu.stepReporting_ok h.fits hin he
  have hacc : o.step hwm acc i = _ := step_eq hwm i
  rw [hcode, stepTuple_stores hact hrow.id hrow.rd] at hacc
  have hsame : (o.env hwm acc i).acc = acc := rfl
  rw [hsame] at hacc
  have hle := h.icount_le
  have hstamp : acc.icount + 1 = c.icount + 1 := by rw [h.icount]
  have hc : c.frames = r.frameCommits := by
    rw [Cpu.frames, h.fits.devices]
    rfl
  have hc' : ({ c.setMemory m' with icount := c.icount + 1, pc := c.pc + 4 } : Cpu).frames =
      r'.frameCommits := by
    change (m'.devices.registersRef.map _).getD [] = _
    rw [hdevices]
    rfl
  refine .retires c.textWord (decode c.textWord) _ r' hstep ?_ ?_ ?_ ?_ (by rw [hacc]; exact hfbAddr)
    (by rw [hacc]; exact hpalAddr)
  · rw [hacc]
    refine h.advance hstep hdevices hipms (by rw [h.pc]) h.regs rfl hram hfb hpal ?_ ?_ ?_ hconsole
      (by rw [hkeys]; exact h.keys) h.keyqPos_le ?_
    · rw [newWl, hsame, hstamp]
      exact stamped_pushed h.wl hle _ _ _
    · rw [newFbWl, hsame, hstamp]
      exact stamped_pushed h.fbWl hle _ _ _
    · rw [newPalWl, hsame, hstamp]
      exact stamped_pushed h.palWl hle _ _ _
    · obtain ⟨commits, hc, hno, hcommitted⟩ := h.frames
      refine ⟨commits ++ _, by rw [hframes, hc, List.append_assoc], ?_, ?_⟩
      · cases frameCommittedNow .baseline (o.env hwm acc i) haltNone with
        | true => simpa using hrow.rs2v
        | false => simpa using hno
      · cases frameCommittedNow .baseline (o.env hwm acc i) haltNone with
        | true => simp
        | false => simpa using hcommitted
  · rw [hacc, ← hstores]
    change (newWl .baseline (o.env hwm acc i) haltNone).addr.length = _
    rw [newWl, hsame]
    split <;> simp [Lanes.push, arrayPushBack]
  · have hhits : hitsHwm .baseline (o.layout.args hwm) (o.env hwm acc i) haltNone =
        (c.storesToRam (decode c.textWord) && decide (hwm.toNat ≤ acc.wl.addr.length + 1)) := by
      rw [hitsHwm, hstores, hsame, BitVec.toNat_ofNat, Nat.mod_eq_of_lt hlen]
      rfl
    have hcommits : decide (({ c.setMemory m' with icount := c.icount + 1, pc := c.pc + 4 } : Cpu).frames
        ≠ c.frames) = frameCommittedNow .baseline (o.env hwm acc i) haltNone := by
      rw [hc, hc', hframes]
      cases frameCommittedNow .baseline (o.env hwm acc i) haltNone <;> simp
    rw [hacc, hrun]
    change (if hitsHwm _ _ _ _ || frameCommittedNow _ _ _ then Control.ended else Control.running) = _
    rw [hhits, ← hcommits]
    rfl
  · rw [hc]
    cases hnow : frameCommittedNow .baseline (o.env hwm acc i) haltNone with
    | true =>
      rw [hnow] at hframes
      exact Or.inr ⟨_, hc'.trans hframes⟩
    | false =>
      rw [hnow] at hframes
      exact Or.inl (hc'.trans (hframes.trans (List.append_nil _)))

end

/-! ### Where a store goes -/

/-- What the fold makes of an aligned store into a region. -/
structure StoreFlags (e : Env) (L : Layout) (hwm : Word) (region : Region) : Prop where
  misaligned : misaligned .baseline e = false
  badAddr : badAddr .baseline (L.args hwm) e = false
  isMmio : isMmio .baseline e = decide (region = .mmio)
  isFb : isFb e = decide (region = .framebuffer)
  isPal : isPal e = decide (region = .palette)

theorem storeFlags {e : Env} {c : Cpu} {insn : Instruction} (hrow : StoreRow e c insn) {L : Layout}
    (hwm : Word) (ha : (c.accessAddr insn).toNat % (storeWidth insn.op).size = 0) {region : Region}
    (hh : L.map.Holds region (c.accessAddr insn) (storeWidth insn.op)) :
    StoreFlags e L hwm region := by
  have honly : ∀ s, L.map.Holds s (c.accessAddr insn) (storeWidth insn.op) ↔ region = s := by
    intro s
    constructor
    · intro hs
      exact L.separate _ _ _ hh.byte hs.byte
    · rintro rfl
      exact hh
  refine ⟨?_, ?_, ?_, ?_, ?_⟩
  · rw [Bool.eq_false_iff, Ne.eq_def, misaligned_iff hrow.mask, hrow.addr]
    exact not_not.mpr ha
  · rw [Bool.eq_false_iff, Ne.eq_def, badAddr_store hwm hrow ha]
    exact fun hnone => hnone _ hh
  · rw [Bool.eq_iff_iff, decide_eq_true_eq, isMmio_iff (L := L) ha hrow.addr, honly]
  · rw [Bool.eq_iff_iff, decide_eq_true_eq, isFb_iff (L := L) ha hrow.addr, honly]
  · rw [Bool.eq_iff_iff, decide_eq_true_eq, isPal_iff (L := L) ha hrow.addr, honly]

theorem StoreFlags.isFbOrPalStore {e : Env} {L : Layout} {hwm : Word} {region : Region}
    (hf : StoreFlags e L hwm region) (hid : e.d.id = opStore) :
    isFbOrPalStore e = decide (region = .framebuffer ∨ region = .palette) := by
  rw [ClickDoom.isFbOrPalStore, hid, hf.isFb, hf.isPal]
  simp

/-- A store to the pixels never lands in the text: its word is clamped to the
last of RAM, and where that is text the guard is there. -/
theorem selfModify_pixels {e : Env} {L : Layout} {hwm : Word} {region : Region}
    (hf : StoreFlags e L hwm region) (hid : e.d.id = opStore) (hwa : e.wa = waSafe (L.args hwm) e.addr)
    (hlow : 285212672 ≤ e.addr.toNat) (hhigh : e.addr.toNat < 2147483648)
    (hregion : region = .framebuffer ∨ region = .palette) :
    selfModify .baseline (L.args hwm) e = false := by
  have hlt := L.ramWords_lt
  have hpos := lt_of_lt_of_le L.text_pos L.text_le
  have hlast : ((L.args hwm).ramWords - 1).toNat = L.ramWords - 1 := by
    change (BitVec.ofNat 32 L.ramWords - 1).toNat = _
    rw [BitVec.toNat_sub_of_le, L.toNat_ramWords]
    · rfl
    · rw [BitVec.le_def, L.toNat_ramWords]
      exact hpos
  have hstore := hf.isFbOrPalStore hid
  rw [decide_eq_true hregion] at hstore
  by_cases hp : fbPalWaProvablyOutsideText (L.args hwm) = true
  · have hend : L.textWords ≤ L.ramWords - 1 := by
      simp only [fbPalWaProvablyOutsideText, List.all_cons, Bool.and_eq_true, Bool.not_eq_true',
        Bool.or_eq_false_iff, decide_eq_false_iff_not, hlast] at hp
      have := hp.1.2
      change ¬L.ramWords - 1 < (BitVec.ofNat 32 L.textWords).toNat at this
      rw [L.toNat_textWords] at this
      omega
    have hoff : (ramOff (L.args hwm) e.addr).toNat = (e.addr.toNat + 2147483648) / 4 := by
      change ((e.addr - ramBase) >>> 2).toNat = _
      rw [BitVec.toNat_ushiftRight, Nat.shiftRight_eq_div_pow, BitVec.toNat_sub, toNat_ramBase]
      omega
    have hclamp : e.wa = (L.args hwm).ramWords - 1 := by
      rw [hwa, waSafe, if_neg]
      rw [BitVec.le_def, hlast, hoff]
      omega
    have hupper : textUpper .baseline (L.args hwm) e = false := by
      change decide (e.wa < BitVec.ofNat 32 L.textWords) = false
      rw [decide_eq_false_iff_not, BitVec.lt_def, hclamp, hlast, L.toNat_textWords]
      omega
    rw [selfModify, hupper, Bool.and_false]
  · have hguard : selfModifyExtraGuard (L.args hwm) e = false := by
      rw [selfModifyExtraGuard, if_neg hp, hstore]
      rfl
    rw [selfModify, hguard]
    simp

/-- A log that spells a store goes on spelling it: what the log takes is what the
store's word becomes. -/
theorem lookupWord_written {l : Lanes} {base : List Word} {store : List Byte} {n : Nat}
    (hl : l.val.length = l.addr.length) (hlen : store.length = 4 * n) (hn : n ≤ 536870912)
    (hwords : ∀ j < n, lookupWord l base (BitVec.ofNat 32 j) = wordAt store j) {offset : Word}
    (width : Width) {value wa val : Word} (hbyte : offset.toNat % 4 + width.size ≤ 4)
    (hin : offset.toNat + width.size ≤ 4 * n) (hwa : wa = BitVec.ofNat 32 (offset.toNat / 4))
    (hval : val = mergeBytes (wordAt store (offset.toNat / 4)) value (widthMask width)
      (8 * (offset.toNat % 4))) (count : Nat) {j : Nat} (hj : j < n) :
    lookupWord (l.push wa val count) base (BitVec.ofNat 32 j) =
      wordAt (writeLe store offset width value) j := by
  have hiff : wa = BitVec.ofNat 32 j ↔ j = offset.toNat / 4 := by
    have hsize := width.size_cases
    rw [hwa, ← BitVec.toNat_inj, BitVec.toNat_ofNat, BitVec.toNat_ofNat]
    omega
  rw [Lanes.lookupWord_push hl, wordAt_writeLe _ _ _ _ hbyte (by rw [hlen]; exact hin),
    if_congr hiff rfl rfl]
  split_ifs with heq
  · rw [hval, heq]
  · exact hwords j hj

section
variable {o : Origin} {acc : Acc} {c : Cpu} {r : Registers} (h : Agrees o acc c r)
  (hrun : acc.control = .running) (hwm : Word) (i : Nat) (hin : c.outsideText = false)
  (hlen : acc.wl.addr.length < 2 ^ 32)

include hrun in
theorem stepRetires_running : stepRetires (o.env hwm acc i) haltNone = true := by
  change (decide (acc.control.stopped = 0) && decide (haltNone = 0)) = true
  rw [hrun]
  rfl

include h in
theorem storesToRam_eq {insn : Instruction} (hop : Cpu.isStoreOp insn.op = true) {region : Region}
    (hh : o.layout.map.Holds region (c.accessAddr insn) (storeWidth insn.op)) :
    c.storesToRam insn = decide (region = .ram) := by
  rw [Cpu.storesToRam, hop, classify_of_holds h.fits hh]
  simp

include hrun in
/-- Which logs a store that retires is pushed to. -/
theorem store_logs {region : Region} (hf : StoreFlags (o.env hwm acc i) o.layout hwm region)
    (hid : (o.env hwm acc i).d.id = opStore) :
    isRetiringStore .baseline (o.env hwm acc i) haltNone = decide (region = .ram) ∧
      (region ≠ .framebuffer → newFbWl (o.env hwm acc i) haltNone = acc.fbWl) ∧
      (region ≠ .palette → newPalWl (o.env hwm acc i) haltNone = acc.palWl) := by
  have hretires := stepRetires_running (o := o) hrun hwm i
  have hstore : isStore (o.env hwm acc i) = true := decide_eq_true hid
  refine ⟨?_, ?_, ?_⟩
  · rw [isRetiringStore, hretires, hstore, hf.isMmio, hf.isFbOrPalStore hid]
    cases region <;> rfl
  · intro hne
    rw [newFbWl, hf.isFb, decide_eq_false hne, Bool.and_false]
    rfl
  · intro hne
    rw [newPalWl, hf.isPal, decide_eq_false hne, Bool.and_false]
    rfl

include h hrun in
/-- The words the two pixel logs take are the ones the machine stores into. -/
theorem store_words {insn : Instruction} (hop : Cpu.isStoreOp insn.op = true)
    (hrow : StoreRow (o.env hwm acc i) c insn) {region : Region}
    (hf : StoreFlags (o.env hwm acc i) o.layout hwm region)
    (hh : o.layout.map.Holds region (c.accessAddr insn) (storeWidth insn.op)) :
    (newFbWl (o.env hwm acc i) haltNone).addr = acc.fbWl.addr ++ c.storedWord .framebuffer insn ∧
      (newPalWl (o.env hwm acc i) haltNone).addr = acc.palWl.addr ++ c.storedWord .palette insn := by
  have hretires := stepRetires_running (o := o) hrun hwm i
  have hstore : isStore (o.env hwm acc i) = true := decide_eq_true hrow.id
  have hclass := classify_of_holds h.fits hh
  have hsame : (o.env hwm acc i).acc = acc := rfl
  rw [newFbWl, newPalWl, hretires, hstore, hf.isFb, hf.isPal, Cpu.storedWord, Cpu.storedWord, hop,
    hclass, hsame, hrow.addr]
  cases region <;> simp [Lanes.push, arrayPushBack] <;> rfl

/-- Outside the device window a store leaves the devices alone. -/
theorem store_devices {region : Region} (hf : StoreFlags (o.env hwm acc i) o.layout hwm region)
    (hne : region ≠ .mmio) :
    isMmioStore .baseline (o.env hwm acc i) = false ∧
      newConsole .baseline (o.env hwm acc i) haltNone = acc.mmio.consoleBytes ∧
      frameCommittedNow .baseline (o.env hwm acc i) haltNone = false := by
  have hstore : isMmioStore .baseline (o.env hwm acc i) = false := by
    rw [isMmioStore, hf.isMmio, decide_eq_false hne]
    rfl
  refine ⟨hstore, ?_, ?_⟩
  · rw [newConsole, hstore]
    simp
    rfl
  · rw [frameCommittedNow, hstore]
    simp

include h hrun hin hlen

theorem stepAgrees_store_ram (hop : Cpu.isStoreOp (decode c.textWord).op = true)
    (ha : (c.accessAddr (decode c.textWord)).toNat % (storeWidth (decode c.textWord).op).size = 0)
    (hh : o.layout.map.Holds .ram (c.accessAddr (decode c.textWord))
      (storeWidth (decode c.textWord).op)) :
    StepAgrees o hwm acc (o.step hwm acc i) c r := by
  have hrow := storeRow h hwm i hin hop
  have hf := storeFlags hrow hwm ha hh
  have hwords := store_words h hrun hwm i hop hrow hf hh
  have hplace := inRam ha hh
  have hltRam := o.layout.ramWords_lt
  have hltText := o.layout.textWords_lt
  have hword := hplace.word_lt
  have hwindow := hf.isFbOrPalStore hrow.id
  obtain ⟨hdevice, hconsole, hframe⟩ := store_devices hwm i hf (by decide)
  obtain ⟨hretiring, hfbWl, hpalWl⟩ := store_logs hrun hwm i hf hrow.id
  have hwa : (o.env hwm acc i).wa =
      BitVec.ofNat 32 ((c.accessAddr (decode c.textWord) - ramBase).toNat / 4) := by
    rw [← hplace.waSafe_eq hwm, ← hrow.addr]
    rfl
  have hself : selfModify .baseline (o.layout.args hwm) (o.env hwm acc i) =
      c.memory.inText (c.accessAddr (decode c.textWord)) (storeWidth (decode c.textWord).op) := by
    have hguard : selfModifyExtraGuard (o.layout.args hwm) (o.env hwm acc i) = true := by
      rw [selfModifyExtraGuard, hwindow]
      simp
    have hupper : textUpper .baseline (o.layout.args hwm) (o.env hwm acc i) =
        decide ((o.env hwm acc i).wa < BitVec.ofNat 32 o.layout.textWords) := rfl
    rw [selfModify, hf.badAddr, hf.misaligned, hf.isMmio, hguard, hupper, hwa,
      show isStore (o.env hwm acc i) = true from decide_eq_true hrow.id, Bool.eq_iff_iff,
      inText_iff h.fits ha hh]
    change (true && decide (0#32 ≤ _) && decide _) = true ↔ _
    rw [Bool.and_eq_true, decide_eq_true_eq, BitVec.lt_def, o.layout.toNat_textWords,
      BitVec.toNat_ofNat, Nat.mod_eq_of_lt (by omega)]
    simp
  have hcode := haltCode_store (v := .baseline) (pcInText h hwm i hin) hrow.id
  rw [hf.misaligned, hf.badAddr, hwindow, hself, hdevice] at hcode
  have hwrite := write_ram c.icount (c.reg (decode c.textWord).rs2) h.fits ha hh
  by_cases ht : c.memory.inText (c.accessAddr (decode c.textWord))
      (storeWidth (decode c.textWord).op) = true
  · rw [ht] at hcode hwrite
    refine stepAgrees_store_fault h hrun hwm i hin hop (Or.inr (Or.inr rfl)) ?_ hcode
    rw [execute_store c c.pc c.textWord hop, Cpu.executeStore, hwrite]
    rfl
  · rw [Bool.not_eq_true] at ht
    rw [ht] at hcode hwrite
    -- the word of the log is the machine's, and the store merges the same bytes into it
    have hlw : (o.env hwm acc i).lw =
        wordAt c.memory.ram ((c.accessAddr (decode c.textWord) - ramBase).toNat / 4) := by
      rw [← h.ram _ hplace.word_lt, ← hplace.waSafe_eq hwm, ← hrow.addr]
      rfl
    have hwl : newWl .baseline (o.env hwm acc i) haltNone =
        acc.wl.push (o.env hwm acc i).wa (sval (o.env hwm acc i)) (acc.icount + 1) := by
      rw [newWl, hretiring]
      rfl
    refine stepAgrees_store_ok h hrun hwm i hin hlen hop hwrite h.fits.devices rfl hcode ?_ ?_ ?_
      (hretiring.trans (storesToRam_eq h hop hh).symm) (by rw [hconsole]; exact h.console) rfl
      (by rw [hframe]; simp) hwords.1 hwords.2
    · intro j hj
      rw [hwl]
      refine lookupWord_written h.wl.length_val (length_ram h.fits) hltRam.le h.ram _ hplace.byte_le
        hplace.fits hwa ?_ _ hj
      rw [sval_eq, hlw, hrow.mask, hrow.rs2v, hplace.shiftOf_eq hrow.addr]
    · rw [hfbWl (by decide)]
      exact h.framebuffer
    · rw [hpalWl (by decide)]
      exact h.palette

omit h hrun hin hlen in
/-- A write to the device window that does not stop the machine. -/
theorem registers_write_ok {r : Registers} {offset : Word} (value : Word) {width : Width} (icount : Nat)
    (hstop : ¬(width = .word ∧ offset = Mmio.exit)) :
    ∃ r', r.write offset width value icount = (.ok (), r') ∧ r'.ipms = r.ipms ∧
      r'.keyQueue = r.keyQueue ∧
      r'.console = r.console ++
        (if width = .word ∧ offset = Mmio.putchar then [value.setWidth 8] else []) ∧
      r'.frameCommits = r.frameCommits ++
        (if width = .word ∧ offset = Mmio.frameCommit then [⟨value, BitVec.ofNat 64 icount⟩]
          else []) := by
  by_cases hw : width = .word
  · have hne : offset ≠ Mmio.exit := fun heq => hstop ⟨hw, heq⟩
    by_cases hp : offset = Mmio.putchar
    · refine ⟨{ r with console := r.console ++ [value.setWidth 8] }, ?_, rfl, rfl, ?_⟩
      · rw [Registers.write, if_neg (not_not.mpr hw), if_neg hne, if_pos hp]
      · simp [hw, hp, Mmio.putchar, Mmio.frameCommit]
    · by_cases hf : offset = Mmio.frameCommit
      · refine ⟨{ r with frameCommits := r.frameCommits ++ [⟨value, BitVec.ofNat 64 icount⟩] }, ?_,
          rfl, rfl, ?_⟩
        · rw [Registers.write, if_neg (not_not.mpr hw), if_neg hne, if_neg hp, if_pos hf]
        · simp [hw, hf, Mmio.putchar, Mmio.frameCommit]
      · refine ⟨r, ?_, rfl, rfl, ?_⟩
        · rw [Registers.write, if_neg (not_not.mpr hw), if_neg hne, if_neg hp, if_neg hf]
        · simp [hp, hf]
  · refine ⟨r, ?_, rfl, rfl, ?_⟩
    · rw [Registers.write, if_pos hw]
    · simp [hw]

/-- A word of the device window: the register named by the offset takes it. -/
theorem stepAgrees_store_mmio (hop : Cpu.isStoreOp (decode c.textWord).op = true)
    (ha : (c.accessAddr (decode c.textWord)).toNat % (storeWidth (decode c.textWord).op).size = 0)
    (hh : o.layout.map.Holds .mmio (c.accessAddr (decode c.textWord))
      (storeWidth (decode c.textWord).op)) :
    StepAgrees o hwm acc (o.step hwm acc i) c r := by
  have hrow := storeRow h hwm i hin hop
  have hf := storeFlags hrow hwm ha hh
  have hwords := store_words h hrun hwm i hop hrow hf hh
  obtain ⟨hretiring, hfbWl, hpalWl⟩ := store_logs hrun hwm i hf hrow.id
  have hretires := stepRetires_running (o := o) hrun hwm i
  have hself : selfModify .baseline (o.layout.args hwm) (o.env hwm acc i) = false := by
    rw [selfModify, hf.isMmio]
    simp
  have hstore : isMmioStore .baseline (o.env hwm acc i) =
      decide (storeWidth (decode c.textWord).op = .word) := by
    rw [isMmioStore, hf.isMmio, hrow.id, hrow.mask, decide_eq_decide.mpr (widthMask_eq_word _)]
    rfl
  have hcode := haltCode_store (v := .baseline) (pcInText h hwm i hin) hrow.id
  rw [hf.misaligned, hf.badAddr, hf.isFbOrPalStore hrow.id, hself, hstore] at hcode
  have hexit := mmioIs_iff (o.env hwm acc i) Mmio.exit
  have hputchar := mmioIs_iff (o.env hwm acc i) Mmio.putchar
  have hcommit := mmioIs_iff (o.env hwm acc i) Mmio.frameCommit
  rw [hrow.addr] at hexit hputchar hcommit
  have hwrite := write_mmio c.icount (c.reg (decode c.textWord).rs2) h.fits ha hh
  -- nothing is logged, whatever the register
  have hwl : newWl .baseline (o.env hwm acc i) haltNone = acc.wl := by
    rw [newWl, hretiring]
    rfl
  have hram := (hretiring.trans (storesToRam_eq h hop hh).symm)
  have hconsole : newConsole .baseline (o.env hwm acc i) haltNone =
      if storeWidth (decode c.textWord).op = .word ∧
          c.accessAddr (decode c.textWord) - mmioBase = Mmio.putchar then
        acc.mmio.consoleBytes ++ [(c.reg (decode c.textWord).rs2).setWidth 8]
      else acc.mmio.consoleBytes := by
    rw [newConsole, hretires, hstore, hrow.rs2v]
    simp only [Bool.true_and, Bool.and_eq_true, decide_eq_true_eq, hputchar]
    rfl
  have hframe : frameCommittedNow .baseline (o.env hwm acc i) haltNone =
      decide (storeWidth (decode c.textWord).op = .word ∧
        c.accessAddr (decode c.textWord) - mmioBase = Mmio.frameCommit) := by
    rw [frameCommittedNow, hretires, hstore, Bool.eq_iff_iff]
    simp only [Bool.true_and, Bool.and_eq_true, decide_eq_true_eq, hcommit]
  by_cases hstop : storeWidth (decode c.textWord).op = .word ∧
      c.accessAddr (decode c.textWord) - mmioBase = Mmio.exit
  · -- the exit register halts, and the halt carries the value
    have hw : r.write (c.accessAddr (decode c.textWord) - mmioBase)
        (storeWidth (decode c.textWord).op) (c.reg (decode c.textWord).rs2) c.icount =
        (.error (c.reg (decode c.textWord).rs2), r) := by
      rw [Registers.write, if_neg (not_not.mpr hstop.1), if_pos hstop.2]
    rw [decide_eq_true hstop.1, hexit.mpr hstop.2] at hcode
    rw [hw, setDevices_self h.fits] at hwrite
    refine stepAgrees_halt h hrun hwm i
      (.exit c.pc c.textWord (c.reg (decode c.textWord).rs2))
      (Cpu.stepReporting_error h.fits hin ?_) hcode rfl ?_
    · rw [execute_store c c.pc c.textWord hop, Cpu.executeStore, hwrite]
      rfl
    · exact (haltExtra_exit (pcInText h hwm i hin)).trans hrow.rs2v
  · obtain ⟨r', hw, hipms, hkeys, hconsole', hframes⟩ :=
      registers_write_ok (r := r) (c.reg (decode c.textWord).rs2) c.icount hstop
    rw [hw] at hwrite
    have hgo : (decide (storeWidth (decode c.textWord).op = .word) &&
        mmioIs .baseline (o.env hwm acc i) Mmio.exit) = false := by
      rw [Bool.eq_false_iff, Ne.eq_def, Bool.and_eq_true, decide_eq_true_eq, hexit]
      exact hstop
    rw [hgo] at hcode
    refine stepAgrees_store_ok h hrun hwm i hin hlen hop hwrite rfl hipms hcode ?_ ?_ ?_ hram ?_
      hkeys ?_ hwords.1 hwords.2
    · rw [hwl]
      exact h.ram
    · rw [hfbWl (by decide)]
      exact h.framebuffer
    · rw [hpalWl (by decide)]
      exact h.palette
    · rw [hconsole, hconsole', h.console]
      split_ifs <;> simp
    · rw [hframes, hframe]
      simp only [decide_eq_true_eq]

omit hlen hrun in
/-- What a store to the pixels halts with: only a word may go there. -/
theorem haltCode_pixels (hop : Cpu.isStoreOp (decode c.textWord).op = true)
    (ha : (c.accessAddr (decode c.textWord)).toNat % (storeWidth (decode c.textWord).op).size = 0)
    {region : Region} (hregion : region = .framebuffer ∨ region = .palette)
    (hh : o.layout.map.Holds region (c.accessAddr (decode c.textWord))
      (storeWidth (decode c.textWord).op)) :
    haltCode .baseline (o.layout.args hwm) (o.env hwm acc i) =
      if storeWidth (decode c.textWord).op = .word then haltNone else haltBadAddr := by
  have hrow := storeRow h hwm i hin hop
  have hf := storeFlags hrow hwm ha hh
  have hne : region ≠ .mmio := by rcases hregion with rfl | rfl <;> decide
  have hbounds : 285212672 ≤ (c.accessAddr (decode c.textWord)).toNat ∧
      (c.accessAddr (decode c.textWord)).toNat < 2147483648 := by
    obtain ⟨hlow, hhigh⟩ := hh.byte
    rcases hregion with rfl | rfl
    · change 285212672 ≤ _ at hlow
      change _ ≤ 285212672 + 64000 at hhigh
      omega
    · change 285278208 ≤ _ at hlow
      change _ ≤ 285278208 + 768 at hhigh
      omega
  rw [← hrow.addr] at hbounds
  have hself := selfModify_pixels hf hrow.id rfl hbounds.1 hbounds.2 hregion
  have hdevice := (store_devices hwm i hf hne).1
  have hmask : decide ((o.env hwm acc i).d.mk ≠ 4294967295) =
      !decide (storeWidth (decode c.textWord).op = .word) := by
    rw [hrow.mask, decide_not, decide_eq_decide.mpr (widthMask_eq_word _)]
  have hcode := haltCode_store (v := .baseline) (pcInText h hwm i hin) hrow.id
  rw [hf.misaligned, hf.badAddr, hf.isFbOrPalStore hrow.id, decide_eq_true hregion, hself, hdevice,
    hmask] at hcode
  rw [hcode]
  by_cases hw : storeWidth (decode c.textWord).op = .word <;> simp [hw]

omit hlen in
/-- A store to the pixels narrower than a word. -/
theorem stepAgrees_store_narrow (hop : Cpu.isStoreOp (decode c.textWord).op = true)
    (hw : storeWidth (decode c.textWord).op ≠ .word)
    (hcode : haltCode .baseline (o.layout.args hwm) (o.env hwm acc i) =
      if storeWidth (decode c.textWord).op = .word then haltNone else haltBadAddr)
    (hwrite : c.memory.write (c.accessAddr (decode c.textWord)) (storeWidth (decode c.textWord).op)
      (c.reg (decode c.textWord).rs2) c.icount =
        (.error (.badAddr (c.accessAddr (decode c.textWord))), c.memory)) :
    StepAgrees o hwm acc (o.step hwm acc i) c r := by
  refine stepAgrees_store_fault h hrun hwm i hin hop (Or.inl rfl) ?_ ?_
  · rw [execute_store c c.pc c.textWord hop, Cpu.executeStore, hwrite]
    rfl
  · rw [hcode, if_neg hw]
    rfl

theorem stepAgrees_store_framebuffer (hop : Cpu.isStoreOp (decode c.textWord).op = true)
    (ha : (c.accessAddr (decode c.textWord)).toNat % (storeWidth (decode c.textWord).op).size = 0)
    (hh : o.layout.map.Holds .framebuffer (c.accessAddr (decode c.textWord))
      (storeWidth (decode c.textWord).op)) :
    StepAgrees o hwm acc (o.step hwm acc i) c r := by
  have hrow := storeRow h hwm i hin hop
  have hf := storeFlags hrow hwm ha hh
  have hwords := store_words h hrun hwm i hop hrow hf hh
  have hcode := haltCode_pixels h hwm i hin hop ha (Or.inl rfl) hh
  have hwrite := write_framebuffer c.icount (c.reg (decode c.textWord).rs2) h.fits ha hh
  by_cases hw : storeWidth (decode c.textWord).op = .word
  swap
  · rw [if_pos hw] at hwrite
    exact stepAgrees_store_narrow h hrun hwm i hin hop hw hcode hwrite
  rw [if_neg (not_not.mpr hw)] at hwrite
  rw [if_pos hw] at hcode
  obtain ⟨-, hconsole, hframe⟩ := store_devices hwm i hf (by decide)
  obtain ⟨hretiring, -, hpalWl⟩ := store_logs hrun hwm i hf hrow.id
  have hretires := stepRetires_running (o := o) hrun hwm i
  have hwl : newWl .baseline (o.env hwm acc i) haltNone = acc.wl := by
    rw [newWl, hretiring]
    rfl
  have hfbWl : newFbWl (o.env hwm acc i) haltNone = acc.fbWl.push
      ((c.accessAddr (decode c.textWord) - framebufferBase) >>> 2) (c.reg (decode c.textWord).rs2)
      (acc.icount + 1) := by
    rw [newFbWl, hretires, hf.isFb, show isStore (o.env hwm acc i) = true from decide_eq_true hrow.id,
      hrow.addr, hrow.rs2v]
    rfl
  -- the offset of an aligned word
  have hstores := hretiring.trans (storesToRam_eq h hop hh).symm
  obtain ⟨hlow, hhigh⟩ := hh
  change 285212672 ≤ _ at hlow
  change _ ≤ 285212672 + 64000 at hhigh
  have hsub : (c.accessAddr (decode c.textWord) - framebufferBase).toNat =
      (c.accessAddr (decode c.textWord)).toNat - 285212672 := BitVec.toNat_sub_of_le hlow
  rw [hw] at ha hhigh
  simp only [Width.size] at ha hhigh
  have hzero : (c.accessAddr (decode c.textWord) - framebufferBase).toNat % 4 = 0 := by omega
  refine stepAgrees_store_ok h hrun hwm i hin hlen hop hwrite h.fits.devices rfl hcode ?_ ?_ ?_
    hstores (by rw [hconsole]; exact h.console) rfl (by rw [hframe]; simp) hwords.1 hwords.2
  · rw [hwl]
    exact h.ram
  · intro j hj
    rw [hfbWl]
    refine lookupWord_written h.fbWl.length_val (n := 16000)
      (length_framebuffer h.fits) (by omega) h.framebuffer .word ?_ ?_ ?_ ?_ _ hj
    · rw [hzero]
      decide
    · simp only [Width.size]
      omega
    · apply BitVec.eq_of_toNat_eq
      rw [BitVec.toNat_ushiftRight, Nat.shiftRight_eq_div_pow, BitVec.toNat_ofNat]
      omega
    · rw [hzero, Nat.mul_zero, mergeBytes_word]
  · rw [hpalWl (by decide)]
    exact h.palette

theorem stepAgrees_store_palette (hop : Cpu.isStoreOp (decode c.textWord).op = true)
    (ha : (c.accessAddr (decode c.textWord)).toNat % (storeWidth (decode c.textWord).op).size = 0)
    (hh : o.layout.map.Holds .palette (c.accessAddr (decode c.textWord))
      (storeWidth (decode c.textWord).op)) :
    StepAgrees o hwm acc (o.step hwm acc i) c r := by
  have hrow := storeRow h hwm i hin hop
  have hf := storeFlags hrow hwm ha hh
  have hwords := store_words h hrun hwm i hop hrow hf hh
  have hcode := haltCode_pixels h hwm i hin hop ha (Or.inr rfl) hh
  have hwrite := write_palette c.icount (c.reg (decode c.textWord).rs2) h.fits ha hh
  by_cases hw : storeWidth (decode c.textWord).op = .word
  swap
  · rw [if_pos hw] at hwrite
    exact stepAgrees_store_narrow h hrun hwm i hin hop hw hcode hwrite
  rw [if_neg (not_not.mpr hw)] at hwrite
  rw [if_pos hw] at hcode
  obtain ⟨-, hconsole, hframe⟩ := store_devices hwm i hf (by decide)
  obtain ⟨hretiring, hfbWl, -⟩ := store_logs hrun hwm i hf hrow.id
  have hretires := stepRetires_running (o := o) hrun hwm i
  have hwl : newWl .baseline (o.env hwm acc i) haltNone = acc.wl := by
    rw [newWl, hretiring]
    rfl
  have hpalWl : newPalWl (o.env hwm acc i) haltNone = acc.palWl.push
      ((c.accessAddr (decode c.textWord) - paletteBase) >>> 2) (c.reg (decode c.textWord).rs2)
      (acc.icount + 1) := by
    rw [newPalWl, hretires, hf.isPal, show isStore (o.env hwm acc i) = true from decide_eq_true hrow.id,
      hrow.addr, hrow.rs2v]
    rfl
  have hstores := hretiring.trans (storesToRam_eq h hop hh).symm
  obtain ⟨hlow, hhigh⟩ := hh
  change 285278208 ≤ _ at hlow
  change _ ≤ 285278208 + 768 at hhigh
  have hsub : (c.accessAddr (decode c.textWord) - paletteBase).toNat =
      (c.accessAddr (decode c.textWord)).toNat - 285278208 := BitVec.toNat_sub_of_le hlow
  rw [hw] at ha hhigh
  simp only [Width.size] at ha hhigh
  have hzero : (c.accessAddr (decode c.textWord) - paletteBase).toNat % 4 = 0 := by omega
  refine stepAgrees_store_ok h hrun hwm i hin hlen hop hwrite h.fits.devices rfl hcode ?_ ?_ ?_
    hstores (by rw [hconsole]; exact h.console) rfl (by rw [hframe]; simp) hwords.1 hwords.2
  · rw [hwl]
    exact h.ram
  · rw [hfbWl (by decide)]
    exact h.framebuffer
  · intro j hj
    rw [hpalWl]
    refine lookupWord_written h.palWl.length_val (n := 192)
      (length_palette h.fits) (by omega) h.palette .word ?_ ?_ ?_ ?_ _ hj
    · rw [hzero]
      decide
    · simp only [Width.size]
      omega
    · apply BitVec.eq_of_toNat_eq
      rw [BitVec.toNat_ushiftRight, Nat.shiftRight_eq_div_pow, BitVec.toNat_ofNat]
      omega
    · rw [hzero, Nat.mul_zero, mergeBytes_word]

theorem stepAgrees_store (hop : Cpu.isStoreOp (decode c.textWord).op = true) :
    StepAgrees o hwm acc (o.step hwm acc i) c r := by
  have hrow := storeRow h hwm i hin hop
  have hmis := misaligned_iff hrow.mask
  rw [hrow.addr] at hmis
  have hcode := haltCode_store (v := .baseline) (pcInText h hwm i hin) hrow.id
  have he := execute_store c c.pc c.textWord hop
  by_cases ha : (c.accessAddr (decode c.textWord)).toNat %
      (storeWidth (decode c.textWord).op).size = 0
  swap
  · refine stepAgrees_store_fault h hrun hwm i hin hop (Or.inr (Or.inl rfl)) ?_ ?_
    · rw [he, Cpu.executeStore, write_misaligned c.icount _ ha]
      rfl
    · rw [hcode, if_pos (hmis.mpr ha)]
      rfl
  cases placed o.layout (c.accessAddr (decode c.textWord)) (storeWidth (decode c.textWord).op) with
  | ram hh => exact stepAgrees_store_ram h hrun hwm i hin hlen hop ha hh
  | mmio hh => exact stepAgrees_store_mmio h hrun hwm i hin hlen hop ha hh
  | framebuffer hh => exact stepAgrees_store_framebuffer h hrun hwm i hin hlen hop ha hh
  | palette hh => exact stepAgrees_store_palette h hrun hwm i hin hlen hop ha hh
  | nowhere hh =>
    refine stepAgrees_store_fault h hrun hwm i hin hop (Or.inl rfl) ?_ ?_
    · rw [he, Cpu.executeStore, write_nowhere c.icount _ h.fits ha hh]
      rfl
    · have hbad := (badAddr_store hwm hrow ha).mpr hh
      rw [hcode, if_neg (fun hm => hmis.mp hm ha), if_pos hbad]
      rfl

end
end ClickDoom

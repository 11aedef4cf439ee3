import ClickDoom.Executor.Access

/-! # The accumulator and the machine

The relation between an accumulator of the fold and a machine of the reference
emulator: the accumulator stands for the machine that the captured arrays and its
own logs spell.  A batch starts in agreement, and while the program counter is in
the text the step dispatches on the row of the word the machine fetches.
-/
namespace ClickDoom
open ClickHouse
open LittleEndian (wordAt)

/-! ## A batch of a machine -/

/-- The word address RAM begins at. -/
def ramBaseWord : Word := ramBase >>> 2

/-- A key event as the input table keeps it. -/
def KeyEvent.row (event : KeyEvent) : BitVec 16 := event.code.setWidth 16

/-- The rows of `ram FINAL`, in the order of their addresses. -/
def ramTable (L : Layout) (c : Cpu) : List (Word × Word) :=
  (List.range L.ramWords).map fun i => (ramBaseWord + BitVec.ofNat 32 i, wordAt c.memory.ram i)

/-- The arrays a batch of the machine captures, when `popped` are the events it
has already consumed. -/
def captures (L : Layout) (c : Cpu) (r : Registers) (popped : List (BitVec 16)) : Captures where
  ramt := (ramTable L c).map (·.2)
  dec := (decodeSql ramBaseWord (ramBaseWord + BitVec.ofNat 32 L.textWords) (ramTable L c)).map (·.dec)
  keyqt := popped ++ r.keyQueue.map KeyEvent.row

/-- The accumulator a batch of the machine starts from, with the frame number
given. -/
def startAcc (c : Cpu) (popped : List (BitVec 16)) (frameNo : Word) : Acc :=
  let acc := initAcc c.pc c.regFile .empty c.icount (BitVec.ofNat 32 popped.length)
  { acc with mmio := { acc.mmio with frameNo } }

/-- The words of a byte store. -/
def wordsOf (store : List Byte) : List Word := (List.range (store.length / 4)).map (wordAt store)

/-! ## The relation -/

/-- What a batch started from. -/
structure Origin where
  layout : Layout
  cpu : Cpu
  registers : Registers
  popped : List (BitVec 16)
  frameNo : Word
  fits : cpu.Fits layout registers
  keys_lt : popped.length + registers.keyQueue.length < 2 ^ 32

namespace Origin

def cap (o : Origin) : Captures := captures o.layout o.cpu o.registers o.popped

def acc (o : Origin) : Acc := startAcc o.cpu o.popped o.frameNo

end Origin

/-- The accumulator stands for the machine: its own fields are the machine's,
and what the logs overlay on the captured words is the machine's memory. -/
structure Agrees (o : Origin) (acc : Acc) (c : Cpu) (r : Registers) : Prop where
  fits : c.Fits o.layout r
  pc : acc.pc = c.pc
  regs : acc.regs = c.regFile
  icount : acc.icount = c.icount
  icount_le : o.cpu.icount ≤ c.icount
  ram : ∀ i < o.layout.ramWords,
    lookupWord acc.wl o.cap.ramt (BitVec.ofNat 32 i) = wordAt c.memory.ram i
  framebuffer : ∀ i < 16000,
    lookupWord acc.fbWl (wordsOf o.cpu.memory.framebuffer) (BitVec.ofNat 32 i) =
      wordAt c.memory.framebuffer i
  palette : ∀ i < 192,
    lookupWord acc.palWl (wordsOf o.cpu.memory.palette) (BitVec.ofNat 32 i) =
      wordAt c.memory.palette i
  wl : acc.wl.Stamped o.cpu.icount c.icount
  fbWl : acc.fbWl.Stamped o.cpu.icount c.icount
  palWl : acc.palWl.Stamped o.cpu.icount c.icount
  text : ∀ i < o.layout.textWords, wordAt c.memory.ram i = wordAt o.cpu.memory.ram i
  console : r.console = o.registers.console ++ acc.mmio.consoleBytes
  keys : r.keyQueue.map KeyEvent.row = o.cap.keyqt.drop acc.mmio.keyqPos.toNat
  keyqPos_le : acc.mmio.keyqPos.toNat ≤ o.cap.keyqt.length
  frames : ∃ commits, r.frameCommits = o.registers.frameCommits ++ commits ∧
    acc.mmio.frameNo = (commits.getLast?.map (·.frameNo)).getD o.frameNo ∧
    acc.mmio.frameCommitted = if commits = [] then 0 else 1

/-! ### How a batch stands -/

namespace Control

def running : Control := ⟨0, 0, 0, 0, 0⟩

/-- Ended by a full log or a frame commit. -/
def ended : Control := ⟨1, 0, 0, 0, 0⟩

end Control

/-- The number the fold gives a reason. -/
def HaltReason.code : HaltReason → Byte
  | .illegalInsn => haltIllegalInsn
  | .selfModify => haltSelfModify
  | .badAddr => haltBadAddr
  | .misaligned => haltMisaligned
  | .ecall => haltEcall
  | .ebreak => haltEbreak
  | .csr => haltCsr
  | .exit => haltExit

/-- The one word a record keeps: the instruction, the exit code or the address. -/
def Halt.extra (halt : Halt) : Word :=
  match halt.reason with
  | .illegalInsn => halt.insn.getD 0
  | .exit => halt.exitCode.getD 0
  | .badAddr | .misaligned | .selfModify => halt.addr.getD 0
  | .ecall | .ebreak | .csr => 0

def Control.ofHalt (halt : Halt) : Control := ⟨1, 1, halt.reason.code, halt.pc, halt.extra⟩

/-! ## The captured arrays -/

theorem filter_range_lt {t n : Nat} (h : t ≤ n) :
    (List.range n).filter (fun i => decide (i < t)) = List.range t := by
  obtain ⟨d, rfl⟩ := Nat.exists_eq_add_of_le h
  rw [List.range_add, List.filter_append, List.filter_eq_self.mpr, List.filter_eq_nil_iff.mpr,
    List.append_nil]
  · intro i hi
    obtain ⟨j, -, rfl⟩ := List.mem_map.mp hi
    simp
  · intro i hi
    exact decide_eq_true (List.mem_range.mp hi)

section
variable (o : Origin)

theorem toNat_ramBaseWord_add {i : Nat} (hi : i < 536870912) :
    (ramBaseWord + BitVec.ofNat 32 i).toNat = 536870912 + i := by
  rw [BitVec.toNat_add, BitVec.toNat_ofNat, show ramBaseWord.toNat = 536870912 from rfl]
  omega

/-- The rows of the text. -/
theorem filter_ramTable (L : Layout) (c : Cpu) :
    (ramTable L c).filter (fun row => decide (ramBaseWord ≤ row.1 ∧
        row.1 < ramBaseWord + BitVec.ofNat 32 L.textWords)) =
      (List.range L.textWords).map fun i =>
        (ramBaseWord + BitVec.ofNat 32 i, wordAt c.memory.ram i) := by
  rw [ramTable, List.filter_map, ← filter_range_lt L.text_le]
  congr 1
  apply List.filter_congr
  intro j hj
  have hj' : j < 536870912 := lt_trans (List.mem_range.mp hj) L.ramWords_lt
  rw [Function.comp_apply, decide_eq_decide, BitVec.le_def, BitVec.lt_def,
    toNat_ramBaseWord_add hj', toNat_ramBaseWord_add L.textWords_lt,
    show ramBaseWord.toNat = 536870912 from rfl]
  omega

theorem dec_getElem {i : Nat} (hi : i < o.layout.textWords) :
    o.cap.dec[i]? =
      some (decodedRow (ramBaseWord + BitVec.ofNat 32 i) (wordAt o.cpu.memory.ram i)).dec := by
  change ((decodeSql _ _ _).map _)[i]? = _
  rw [decodeSql, filter_ramTable]
  simp [hi]

theorem ramt_getD {i : Nat} (hi : i < o.layout.ramWords) :
    o.cap.ramt.getD i default = wordAt o.cpu.memory.ram i := by
  change ((ramTable _ _).map _).getD i default = _
  simp [ramTable, List.getD_eq_getElem?_getD, hi]

theorem length_framebuffer {c : Cpu} {L : Layout} {r : Registers} (h : c.Fits L r) :
    c.memory.framebuffer.length = 64000 := by
  rw [c.memory.framebuffer_length, h.map]
  rfl

theorem length_palette {c : Cpu} {L : Layout} {r : Registers} (h : c.Fits L r) :
    c.memory.palette.length = 768 := by
  rw [c.memory.palette_length, h.map]
  rfl

theorem length_ram {c : Cpu} {L : Layout} {r : Registers} (h : c.Fits L r) :
    c.memory.ram.length = 4 * L.ramWords := by
  rw [c.memory.ram_length, h.map, L.toNat_ramSize]

/-- A word of a store, through an empty log. -/
theorem lookupWord_wordsOf {store : List Byte} {n i : Nat} (hlen : store.length = 4 * n)
    (hn : n ≤ 536870912) (hi : i < n) :
    lookupWord .empty (wordsOf store) (BitVec.ofNat 32 i) = wordAt store i := by
  have hto : (BitVec.ofNat 32 i).toNat = i := by
    rw [BitVec.toNat_ofNat]
    omega
  have hdiv : store.length / 4 = n := by omega
  rw [Lanes.lookupWord_empty, hto, arrayElement_succ, wordsOf, hdiv]
  simp [List.getD_eq_getElem?_getD, hi]

/-- A batch starts in agreement. -/
theorem agrees_start : Agrees o o.acc o.cpu o.registers where
  fits := o.fits
  pc := rfl
  regs := rfl
  icount := rfl
  icount_le := Nat.le_refl _
  ram := by
    intro i hi
    have hlt := o.layout.ramWords_lt
    have hto : (BitVec.ofNat 32 i).toNat = i := by
      rw [BitVec.toNat_ofNat]
      omega
    change lookupWord .empty _ _ = _
    rw [Lanes.lookupWord_empty, hto, arrayElement_succ, ramt_getD o hi]
  framebuffer i hi := lookupWord_wordsOf (length_framebuffer o.fits) (by omega) hi
  palette i hi := lookupWord_wordsOf (length_palette o.fits) (by omega) hi
  wl := Lanes.stamped_empty _ _
  fbWl := Lanes.stamped_empty _ _
  palWl := Lanes.stamped_empty _ _
  text _ _ := rfl
  console := (List.append_nil _).symm
  keys := by
    have hlt := o.keys_lt
    change _ = (o.popped ++ _).drop (BitVec.ofNat 32 o.popped.length).toNat
    rw [BitVec.toNat_ofNat, Nat.mod_eq_of_lt (by omega), List.drop_left]
  keyqPos_le := by
    have hlt := o.keys_lt
    change (BitVec.ofNat 32 o.popped.length).toNat ≤ (o.popped ++ _).length
    rw [BitVec.toNat_ofNat, Nat.mod_eq_of_lt (by omega), List.length_append]
    omega
  frames := ⟨[], (List.append_nil _).symm, rfl, rfl⟩

end

/-! ## The environment of a step -/

section
variable {o : Origin} {acc : Acc} {c : Cpu} {r : Registers} (h : Agrees o acc c r) (hwm : Word)
  (i : Nat)

/-- The environment of a step of the batch. -/
def Origin.env (o : Origin) (hwm : Word) (acc : Acc) (i : Nat) : Env :=
  ClickDoom.env (o.layout.args hwm) o.cap acc i

theorem env_reads (h : Agrees o acc c r) : (o.env hwm acc i).Reads c.regFile := by
  rw [← h.regs]
  exact ⟨rfl, rfl, rfl, rfl⟩

include h

/-- Inside the text the step dispatches on the row of the word the machine
fetches. -/
theorem env_row (hin : c.outsideText = false) :
    (o.env hwm acc i).d.Same (rowOf c.pc (wordAt c.memory.ram (Cpu.textIndex c.pc))
      (decode (wordAt c.memory.ram (Cpu.textIndex c.pc)))) := by
  obtain ⟨hlt, hpc⟩ := h.fits.textIndex_lt hin
  have htext := o.layout.textWords_lt
  have hwidx : (pcWidx (o.layout.args hwm) acc.pc).toNat = Cpu.textIndex c.pc := by
    rw [h.pc]
    rfl
  have hdecn : ((o.layout.args hwm).decn - 1).toNat = o.layout.textWords - 1 := by
    change (BitVec.ofNat 32 o.layout.textWords - 1).toNat = _
    rw [BitVec.toNat_sub, BitVec.toNat_ofNat, show (1 : Word).toNat = 1 from rfl]
    omega
  have haddr : (ramBaseWord + BitVec.ofNat 32 (Cpu.textIndex c.pc)) * 4#32 = c.pc := by
    apply BitVec.eq_of_toNat_eq
    rw [BitVec.toNat_mul, toNat_ramBaseWord_add (by omega), hpc, show (4#32).toNat = 4 from rfl]
    omega
  have hrow : (o.env hwm acc i).d =
      (decodedRow (ramBaseWord + BitVec.ofNat 32 (Cpu.textIndex c.pc))
        (wordAt c.memory.ram (Cpu.textIndex c.pc))).dec := by
    change arrayElement o.cap.dec (decIdx (o.layout.args hwm) acc.pc) = _
    rw [decIdx, arrayElement_succ, hwidx, hdecn, Nat.min_eq_left (by omega),
      List.getD_eq_getElem?_getD, dec_getElem o hlt, h.text _ hlt]
    rfl
  have hagree := rowAgrees (ramBaseWord + BitVec.ofNat 32 (Cpu.textIndex c.pc))
    (wordAt c.memory.ram (Cpu.textIndex c.pc))
  rw [RowAgrees, haddr] at hagree
  rw [hrow]
  exact hagree

end
end ClickDoom

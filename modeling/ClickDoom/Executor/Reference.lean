import ClickDoom.Base.Words
import ClickDoom.Executor.Fold
import ClickDoom.Refemu.CacheAgrees

/-! # The reference emulator run as a batch

What a batch of the fold is compared with: the reference machine stepped until
as many instructions have retired as the batch may run, a halt, a frame commit,
or as many stores into RAM as the high-water mark allows.

A `Layout` is the shape both engines are built for.  The text starts where RAM
does and is not empty, as the preflight demands, and RAM ends inside the address
space.
-/
namespace ClickDoom
open LittleEndian (wordAt)

/-- The shape of a machine. -/
structure Layout where
  ramWords : Nat
  textWords : Nat
  ipms : Word
  text_pos : 0 < textWords
  text_le : textWords ≤ ramWords
  ram_lt : ramBase.toNat + 4 * ramWords < 2 ^ 32
  ipms_ne_zero : ipms ≠ 0

theorem toNat_ramBase : ramBase.toNat = 2147483648 := rfl

namespace Layout

theorem ram_lt_four : ramBase.toNat + 4 * 4 < 2 ^ 32 := by decide

variable (L : Layout)

theorem ramWords_lt : L.ramWords < 536870912 := by
  have h := L.ram_lt
  rw [toNat_ramBase] at h
  omega

theorem textWords_lt : L.textWords < 536870912 := lt_of_le_of_lt L.text_le L.ramWords_lt

/-- The reference emulator's map. -/
def map : MemoryMap := MemoryMap.clickdoom.withRamSize (BitVec.ofNat 32 (4 * L.ramWords))

/-- The first address after the text. -/
def textStop : Word := ramBase + BitVec.ofNat 32 (4 * L.textWords)

theorem toNat_ramWords : (BitVec.ofNat 32 L.ramWords).toNat = L.ramWords := by
  have := L.ramWords_lt
  rw [BitVec.toNat_ofNat]
  omega

theorem toNat_textWords : (BitVec.ofNat 32 L.textWords).toNat = L.textWords := by
  have := L.textWords_lt
  rw [BitVec.toNat_ofNat]
  omega

theorem toNat_textStop : L.textStop.toNat = 2147483648 + 4 * L.textWords := by
  have := L.textWords_lt
  rw [textStop, BitVec.toNat_add, BitVec.toNat_ofNat, toNat_ramBase]
  omega

theorem toNat_ramSize : L.map.ramSize.toNat = 4 * L.ramWords := by
  have := L.ramWords_lt
  change (BitVec.ofNat 32 (4 * L.ramWords)).toNat = _
  rw [BitVec.toNat_ofNat]
  omega

/-- The arguments the step is built with. -/
def args (hwm : Word) : StepArgs where
  textStartWidx := 0
  textEndWidx := BitVec.ofNat 32 L.textWords
  decn := BitVec.ofNat 32 L.textWords
  ramWords := BitVec.ofNat 32 L.ramWords
  ramBase := ClickDoom.ramBase
  hwm := hwm
  ipms := L.ipms
  text_le := Nat.zero_le _
  text_inside := by
    rw [BitVec.le_def, toNat_textWords, toNat_ramWords]
    exact L.text_le
  ipms_ne_zero := L.ipms_ne_zero
  framebuffer_below := framebufferBase_lt_ramBase
  palette_below := paletteBase_lt_ramBase

theorem separate : L.map.Separate := MemoryMap.separate_clickdoom _

end Layout

namespace Cpu

/-- A machine of this shape, with these device registers, about to fetch from an
aligned address. -/
structure Fits (c : Cpu) (L : Layout) (r : Registers) : Prop where
  map : c.memory.map = L.map
  text : c.memory.text = some (ramBase, L.textStop)
  devices : c.memory.devices = .registers r
  ipms : r.ipms = L.ipms
  fresh : c.CacheFresh
  aligned : c.pc.toNat % 4 = 0

/-- The register file without `x0`. -/
def regFile (c : Cpu) : List Word := c.regs.toList.tail

/-- The frames the program has announced. -/
def frames (c : Cpu) : List FrameCommit := (c.memory.devices.registersRef.map (·.frameCommits)).getD []

def isLoadOp : Op → Bool
  | .lb | .lh | .lw | .lbu | .lhu => true
  | _ => false

def isStoreOp : Op → Bool
  | .sb | .sh | .sw => true
  | _ => false

/-- The address a load or a store names. -/
def accessAddr (c : Cpu) (insn : Instruction) : Word := c.reg insn.rs1 + insn.imm

/-- Whether the instruction stores into RAM. -/
def storesToRam (c : Cpu) (insn : Instruction) : Bool :=
  isStoreOp insn.op &&
    (c.memory.map.classify (c.accessAddr insn) (storeWidth insn.op)).any (·.1 = .ram)

/-- The word of a region the instruction stores into, if it does. -/
def storedWord (c : Cpu) (region : Region) (insn : Instruction) : List Word :=
  if isStoreOp insn.op then
    match c.memory.map.classify (c.accessAddr insn) (storeWidth insn.op) with
    | some (r, offset) => if r = region then [offset >>> 2] else []
    | none => []
  else []

/-- The next instruction is a load that reads the framebuffer or the palette. -/
def LoadsPixels (c : Cpu) : Prop :=
  c.outsideText = false ∧
  ∃ word insn region offset, c.fetch.1 = .ok (word, insn) ∧ isLoadOp insn.op = true ∧
    Memory.checkAlign (c.accessAddr insn) (loadShape insn.op).1 = .ok () ∧
    c.memory.map.classify (c.accessAddr insn) (loadShape insn.op).1 = some (region, offset) ∧
    (region = .framebuffer ∨ region = .palette)

/-- `d` is a state the machine passes through. -/
def Reaches : Cpu → Cpu → Prop := Relation.ReflTransGen fun c d => c.step = (.ok (), d)

/-- How a batch ended: the machine, the halt, and whether it ended before its
last step. -/
structure BatchRun where
  cpu : Cpu
  halt : Option Halt
  stopped : Bool

/-- Steps the machine until `k` instructions have retired, a halt, a frame
commit, or `hwm` stores into RAM, of which `stores` have retired. -/
def runBatch (hwm : Nat) : Nat → Nat → Cpu → BatchRun
  | 0, _, c => ⟨c, none, false⟩
  | k + 1, stores, c =>
    match c.stepReporting with
    | (.error halt, c') => ⟨c', some halt, true⟩
    | (.ok (_, insn), c') =>
      let full := c.storesToRam insn && hwm ≤ stores + 1
      if full || c'.frames ≠ c.frames then ⟨c', none, true⟩
      else runBatch hwm k (if c.storesToRam insn then stores + 1 else stores) c'

/-- The machine after `n` more steps. -/
def after (c : Cpu) : Nat → Cpu
  | 0 => c
  | n + 1 => c.step.2.after n

/-- The words of a region that the next `n` instructions store into. -/
def touched (region : Region) (c : Cpu) : Nat → List Word
  | 0 => []
  | n + 1 =>
    match c.stepReporting with
    | (.error _, _) => []
    | (.ok (_, insn), c') => c.storedWord region insn ++ c'.touched region n

/-! ## The fetch -/

section
variable {c : Cpu} {L : Layout} {r : Registers} (h : c.Fits L r)
include h

theorem Fits.textInRam : c.memory.TextInRam := by
  refine ⟨_, _, h.text, ?_, ?_⟩
  · rw [h.map]
    exact Nat.le_refl _
  · rw [h.map, L.toNat_textStop, L.toNat_ramSize]
    have := L.text_le
    change _ ≤ 2147483648 + _
    omega

theorem Fits.separate : c.memory.map.Separate := by
  rw [h.map]
  exact L.separate

/-- The fold's test of the program counter is the emulator's. -/
theorem Fits.pcOutOfText_eq (hwm : Word) : pcOutOfText (L.args hwm) c.pc = c.outsideText := by
  have htext := L.textWords_lt
  have hpos := L.text_pos
  have hpc := c.pc.isLt
  have hne : (L.args hwm).textEndWidx ≠ (L.args hwm).textStartWidx := by
    change BitVec.ofNat 32 L.textWords ≠ 0
    rw [Ne.eq_def, ← BitVec.toNat_inj, L.toNat_textWords]
    exact hpos.ne'
  have hwidx : (pcWidx (L.args hwm) c.pc).toNat =
      (2 ^ 32 - 2147483648 + c.pc.toNat) % 2 ^ 32 / 4 := by
    change ((c.pc - ramBase) >>> 2).toNat = _
    rw [BitVec.toNat_ushiftRight, Nat.shiftRight_eq_div_pow, BitVec.toNat_sub, toNat_ramBase]
  rw [Bool.eq_iff_iff, pcOutOfText, if_neg hne, if_pos (show (L.args hwm).textStartWidx = 0 from rfl),
    outsideText, h.text]
  simp only [decide_eq_true_eq, Bool.not_eq_true', Bool.and_eq_false_iff, decide_eq_false_iff_not,
    BitVec.le_def, BitVec.lt_def]
  rw [hwidx, L.toNat_textStop, toNat_ramBase]
  change (BitVec.ofNat 32 L.textWords).toNat ≤ _ ↔ _
  rw [L.toNat_textWords]
  have := h.aligned
  omega

/-- Where the program counter points, as a word of the text. -/
def textIndex (pc : Word) : Nat := ((pc - ramBase) >>> 2).toNat

theorem Fits.textIndex_lt (hin : c.outsideText = false) :
    textIndex c.pc < L.textWords ∧ c.pc.toNat = 2147483648 + 4 * textIndex c.pc := by
  have htext := L.textWords_lt
  have haligned := h.aligned
  rw [outsideText, h.text] at hin
  simp only [Bool.not_eq_false', Bool.and_eq_true, decide_eq_true_eq] at hin
  obtain ⟨hlow, hhigh⟩ := hin
  have hidx : textIndex c.pc = (c.pc.toNat - 2147483648) / 4 := by
    rw [textIndex, BitVec.toNat_ushiftRight, Nat.shiftRight_eq_div_pow, BitVec.toNat_sub_of_le hlow,
      toNat_ramBase]
  rw [BitVec.le_def, toNat_ramBase] at hlow
  rw [BitVec.lt_def, L.toNat_textStop] at hhigh
  omega

/-- A word of RAM is read where it lies. -/
theorem Fits.read_word {addr : Word} {i : Nat} (haddr : addr.toNat = 2147483648 + 4 * i)
    (hi : i < L.ramWords) (icount : Nat) :
    c.memory.read addr .word icount = (.ok (wordAt c.memory.ram i), c.memory) := by
  have halign : Memory.checkAlign addr .word = .ok () := by
    rw [Memory.checkAlign, if_neg]
    simp only [Width.size]
    omega
  have hbase : c.memory.map.ramBase = ramBase := by rw [h.map]; rfl
  have hholds : c.memory.map.Holds .ram addr .word := by
    rw [MemoryMap.Holds, h.map]
    change 2147483648 ≤ _ ∧ _ ≤ 2147483648 + L.map.ramSize.toNat
    rw [L.toNat_ramSize]
    simp only [Width.size]
    omega
  have hoff : (addr - ramBase).toNat = 4 * i := by
    rw [BitVec.toNat_sub_of_le (by rw [BitVec.le_def, toNat_ramBase]; omega), toNat_ramBase]
    omega
  simp only [Memory.read, halign, MemoryMap.classify_ram hholds, hbase, readLe, hoff, wordAt]

/-- Inside the text the machine fetches the word there, and changes nothing. -/
theorem Fits.fetch_eq (hin : c.outsideText = false) :
    c.fetch = (.ok (wordAt c.memory.ram (textIndex c.pc),
      decode (wordAt c.memory.ram (textIndex c.pc))), c) := by
  obtain ⟨hlt, hpc⟩ := h.textIndex_lt hin
  have hread := h.read_word hpc (lt_of_lt_of_le hlt L.text_le) c.icount
  have hdrop := fetch_dropCache h.fresh
  rw [fetch_of_no_cache (c := c.dropCache) rfl] at hdrop
  have hread' : c.dropCache.memory.read c.dropCache.pc .word c.dropCache.icount = _ := hread
  rw [hread'] at hdrop
  have hfirst := congrArg Prod.fst hdrop
  exact Prod.ext hfirst.symm (fetch_unchanged h.separate h.textInRam hin)

end
end Cpu
end ClickDoom

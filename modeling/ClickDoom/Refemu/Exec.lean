import ClickDoom.Refemu.Predecode

/-! # The machine

`refemu/src/exec.rs`: a register file, a program counter, and one instruction at
a time.  A step returns the machine it leaves behind beside its result, so that
what a halt leaves behind is something to prove and not something the types
grant.
-/
namespace ClickDoom
open LittleEndian (bytes)

/-- Why the machine stopped, and what the record carries. -/
structure Halt where
  reason : HaltReason
  pc : Word
  insn : Option Word
  addr : Option Word
  exitCode : Option Word
  deriving DecidableEq, Repr

namespace Halt

def new (reason : HaltReason) (pc : Word) : Halt := ⟨reason, pc, none, none, none⟩

def withInsn (reason : HaltReason) (pc insn : Word) : Halt :=
  { new reason pc with insn := some insn }

def at' (reason : HaltReason) (pc insn addr : Word) : Halt :=
  { new reason pc with insn := some insn, addr := some addr }

/-- The instruction word is absent: the fetch is what failed. -/
def onFetch (reason : HaltReason) (pc addr : Word) : Halt :=
  { new reason pc with addr := some addr }

def exit (pc insn code : Word) : Halt :=
  { new .exit pc with insn := some insn, exitCode := some code }

end Halt

def fetchHalt (pc : Word) : MemFault → Halt
  | .badAddr addr => .onFetch .badAddr pc addr
  | .misaligned addr _ => .onFetch .misaligned pc addr
  | .selfModify addr => .onFetch .selfModify pc addr
  | .exit code => { Halt.new .exit pc with exitCode := some code }

def accessHalt (pc word : Word) : MemFault → Halt
  | .badAddr addr => .at' .badAddr pc word addr
  | .misaligned addr _ => .at' .misaligned pc word addr
  | .selfModify addr => .at' .selfModify pc word addr
  | .exit code => .exit pc word code

/-- A jump target that is not four-byte aligned halts at the instruction that
computed it. -/
def checkTarget (target pc word : Word) : Except Halt Unit :=
  if target.toNat % 4 ≠ 0 then .error (.at' .misaligned pc word target) else .ok ()

/-! ## The value an arm computes -/

def intMin : Word := 0x80000000#32
def minusOne : Word := 0xFFFFFFFF#32

def signExtend (value : Word) (bits : Nat) : Word :=
  (value <<< (32 - bits)).sshiftRight (32 - bits)

def boolWord (b : Bool) : Word := if b then 1 else 0

/-- What the arms that only write `rd` write, from the program counter, the two
register operands and the immediate. -/
def aluValue (op : Op) (pc a b imm : Word) : Word :=
  match op with
  | .lui => imm
  | .auipc => pc + imm
  | .addi => a + imm
  | .slti => boolWord (a.slt imm)
  | .sltiu => boolWord (a.ult imm)
  | .xori => a ^^^ imm
  | .ori => a ||| imm
  | .andi => a &&& imm
  | .slli => a <<< (imm &&& 0x1F#32)
  | .srli => a >>> (imm &&& 0x1F#32)
  | .srai => a.sshiftRight' (imm &&& 0x1F#32)
  | .add => a + b
  | .sub => a - b
  | .sll => a <<< (b &&& 0x1F#32)
  | .slt => boolWord (a.slt b)
  | .sltu => boolWord (a.ult b)
  | .xor => a ^^^ b
  | .srl => a >>> (b &&& 0x1F#32)
  | .sra => a.sshiftRight' (b &&& 0x1F#32)
  | .or => a ||| b
  | .and => a &&& b
  | .mul => a * b
  | .mulh => ((a.signExtend 64 * b.signExtend 64).sshiftRight 32).setWidth 32
  | .mulhsu => ((a.signExtend 64 * b.setWidth 64).sshiftRight 32).setWidth 32
  | .mulhu => ((a.setWidth 64 * b.setWidth 64) >>> 32).setWidth 32
  | .div => if b = 0 then minusOne else if a = intMin ∧ b = minusOne then intMin else a.sdiv b
  | .divu => if b = 0 then minusOne else a / b
  | .rem => if b = 0 then a else if a = intMin ∧ b = minusOne then 0 else a.srem b
  | .remu => if b = 0 then a else a % b
  | _ => 0

/-- Whether a branch is taken. -/
def taken (op : Op) (a b : Word) : Bool :=
  match op with
  | .beq => a == b
  | .bne => a != b
  | .blt => a.slt b
  | .bge => !a.slt b
  | .bltu => a.ult b
  | _ => !a.ult b

/-- The width of a load, and whether it sign-extends. -/
def loadShape : Op → Width × Bool
  | .lb => (.byte, true)
  | .lh => (.half, true)
  | .lw => (.word, true)
  | .lbu => (.byte, false)
  | _ => (.half, false)

def storeWidth : Op → Width
  | .sb => .byte
  | .sh => .half
  | _ => .word

/-! ## The machine -/

/-- `x0` reads as zero. -/
structure Cpu where
  memory : Memory
  pc : Word
  regs : Vector Word 32
  icount : Nat
  cache : Option DecodeCache
  x0_eq_zero : regs[0] = 0

/-- One piece of a program, and where it goes. -/
structure Segment where
  vaddr : Word
  bytes : List Byte
  memLen : Word

/-- A program ready to load. -/
structure Image where
  entry : Word
  segments : List Segment

namespace Cpu

/-- Reset state: the program counter at the entry, every register zero. -/
def new (memory : Memory) (entry : Word) : Cpu where
  memory := memory
  pc := entry
  regs := Vector.replicate 32 0
  icount := 0
  cache := none
  x0_eq_zero := rfl

def reg (c : Cpu) (index : BitVec 5) : Word := c.regs.get index.toFin

/-- Writes a register.  The write lands and then zero is put back in `x0`. -/
def setReg (c : Cpu) (index : BitVec 5) (value : Word) : Cpu :=
  { c with
    regs := (c.regs.set index.toNat value index.isLt).set 0 0
    x0_eq_zero := Vector.getElem_set_self (by omega) }

theorem reg_setReg (c : Cpu) (i j : BitVec 5) (value : Word) :
    (c.setReg i value).reg j = if j = 0 then 0 else if j = i then value else c.reg j := by
  have hj : j.toNat < 32 := j.isLt
  change ((c.regs.set i.toNat value i.isLt).set 0 0)[j.toNat] =
    if j = 0 then 0 else if j = i then value else c.regs[j.toNat]
  simp only [Vector.getElem_set, ← BitVec.toNat_inj, eq_comm]
  simp [eq_comm]

@[simp] theorem reg_zero (c : Cpu) : c.reg 0 = 0 := c.x0_eq_zero

def setMemory (c : Cpu) (memory : Memory) : Cpu := { c with memory }

def setPc (c : Cpu) (pc : Word) : Cpu := { c with pc }

/-- Restores a machine captured mid-run. -/
def restore (c : Cpu) (pc : Word) (regs : Vector Word 32) (icount : Nat) : Cpu :=
  { c with
    pc
    regs := regs.set 0 0
    icount
    x0_eq_zero := Vector.getElem_set_self (by omega) }

/-- Loads an image, dropping any decoded instructions it invalidates. -/
def loadImage (c : Cpu) (data : List Byte) (loadAddr : Word) : Except LoadError Unit × Cpu :=
  ((c.memory.loadImage data loadAddr).1,
    { c with cache := none, memory := (c.memory.loadImage data loadAddr).2 })

/-- Loads one segment: its bytes, then the zero-filled tail. -/
def loadSegment (m : Memory) (segment : Segment) : Except LoadError Unit × Memory :=
  match m.loadImage segment.bytes segment.vaddr with
  | (.error e, m') => (.error e, m')
  | (.ok (), m') =>
    let tail := segment.memLen.toNat - segment.bytes.length
    if 0 < tail then
      m'.loadImage (List.replicate tail 0)
        (segment.vaddr + BitVec.ofNat 32 segment.bytes.length)
    else (.ok (), m')

/-- Loads segments in order, stopping at the first that does not fit. -/
def loadSegments (m : Memory) : List Segment → Except LoadError Unit × Memory
  | [] => (.ok (), m)
  | segment :: rest =>
    match loadSegment m segment with
    | (.error e, m') => (.error e, m')
    | (.ok (), m') => loadSegments m' rest

/-- Loads every piece of an image where the image says it goes, and points the
machine at its entry. -/
def load (c : Cpu) (image : Image) : Except LoadError Unit × Cpu :=
  match loadSegments c.memory image.segments with
  | (.error e, m) => (.error e, { c with cache := none, memory := m })
  | (.ok (), m) => (.ok (), { c with cache := none, memory := m, pc := image.entry })

/-- Puts memory back from a captured machine. -/
def restoreMemory (c : Cpu) (ram framebuffer palette : List Byte) : Cpu :=
  { c with cache := none, memory := c.memory.restoreRegions ram framebuffer palette }

/-- Declares the read-only region, dropping any decoded instructions. -/
def setTextRegion (c : Cpu) (region : Option (Word × Word)) : Cpu :=
  { c with cache := none, memory := c.memory.setTextRegion region }

/-- Decodes the read-only region up front.  Returns whether anything was
cached. -/
def enableDecodeCache (c : Cpu) : Bool × Cpu :=
  let cache := c.memory.text.bind fun (start, stop) => DecodeCache.build c.memory start stop
  (cache.isSome, { c with cache })

/-- Retires to a target, unless it is misaligned: then neither the program
counter nor the link register changes. -/
def jump (c : Cpu) (pc word target : Word) (retired : Cpu) : Except Halt Word × Cpu :=
  match checkTarget target pc word with
  | .error halt => (.error halt, c)
  | .ok () => (.ok target, retired)

def executeLoad (c : Cpu) (pc word : Word) (rd : BitVec 5) (addr : Word) (width : Width)
    (signed : Bool) : Except Halt Word × Cpu :=
  match c.memory.read addr width c.icount with
  | (.error fault, m) => (.error (accessHalt pc word fault), c.setMemory m)
  | (.ok raw, m) =>
    let value := if signed then signExtend raw (width.size * 8) else raw
    (.ok (pc + 4), (c.setMemory m).setReg rd value)

def executeStore (c : Cpu) (pc word addr : Word) (width : Width) (value : Word) :
    Except Halt Word × Cpu :=
  match c.memory.write addr width value c.icount with
  | (.error fault, m) => (.error (accessHalt pc word fault), c.setMemory m)
  | (.ok (), m) => (.ok (pc + 4), c.setMemory m)

/-- Executes one instruction, returning the next program counter. -/
def execute (c : Cpu) (pc word : Word) (insn : Instruction) : Except Halt Word × Cpu :=
  let a := c.reg insn.rs1
  let b := c.reg insn.rs2
  let next := pc + 4
  match insn.op with
  | .jal => c.jump pc word (pc + insn.imm) (c.setReg insn.rd next)
  | .jalr => c.jump pc word ((a + insn.imm) &&& ~~~1#32) (c.setReg insn.rd next)
  | .beq | .bne | .blt | .bge | .bltu | .bgeu =>
    if taken insn.op a b then c.jump pc word (pc + insn.imm) c else (.ok next, c)
  | .lb | .lh | .lw | .lbu | .lhu =>
    c.executeLoad pc word insn.rd (a + insn.imm) (loadShape insn.op).1 (loadShape insn.op).2
  | .sb | .sh | .sw => c.executeStore pc word (a + insn.imm) (storeWidth insn.op) b
  | .fence => (.ok next, c)
  | .ecall => (.error (.withInsn .ecall pc word), c)
  | .ebreak => (.error (.withInsn .ebreak pc word), c)
  | .csr => (.error (.withInsn .csr pc word), c)
  | .illegal => (.error (.withInsn .illegalInsn pc word), c)
  | op => (.ok next, c.setReg insn.rd (aluValue op pc a b insn.imm))

/-- The word at the program counter and its decoded form: from the cache when it
covers the address, from memory otherwise. -/
def fetch (c : Cpu) : Except Halt (Word × Instruction) × Cpu :=
  match c.cache.bind (·.get c.pc) with
  | some entry => (.ok (entry.word, entry.insn), c)
  | none =>
    match c.memory.read c.pc .word c.icount with
    | (.error fault, m) => (.error (fetchHalt c.pc fault), c.setMemory m)
    | (.ok word, m) => (.ok (word, decode word), c.setMemory m)

/-- Whether the program counter is outside a declared text region. -/
def outsideText (c : Cpu) : Bool :=
  match c.memory.text with
  | none => false
  | some (start, stop) => !(start ≤ c.pc && c.pc < stop)

/-- Fetches, decodes and executes one instruction, reporting the one that
retired. -/
def stepReporting (c : Cpu) : Except Halt (Word × Instruction) × Cpu :=
  if c.outsideText then (.error (.onFetch .badAddr c.pc c.pc), c)
  else
    match c.fetch with
    | (.error halt, c') => (.error halt, c')
    | (.ok (word, insn), c') =>
      match c'.execute c.pc word insn with
      | (.error halt, c'') => (.error halt, c'')
      | (.ok nextPc, c'') => (.ok (word, insn), { c'' with icount := c''.icount + 1, pc := nextPc })

def step (c : Cpu) : Except Halt Unit × Cpu :=
  (c.stepReporting.1.map fun _ => (), c.stepReporting.2)

/-- A machine on the shipped map whose RAM holds these words and `spare` bytes
after them, the words being its text. -/
def program (words : List Word) (spare : Nat) : Cpu :=
  let data := words.flatMap (bytes · 4)
  let map := MemoryMap.clickdoom.withRamSize (BitVec.ofNat 32 (data.length + spare))
  let machine := Cpu.new (Memory.new map (.registers (.new ipmsDefault ipmsDefault_ne_zero))) ramBase
  (machine.loadImage data ramBase).2.setTextRegion
    (some (ramBase, ramBase + BitVec.ofNat 32 data.length))

end Cpu
end ClickDoom

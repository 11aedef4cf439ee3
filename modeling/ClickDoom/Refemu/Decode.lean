import ClickDoom.Spec.Map

/-! # Instruction words to a decoded form

`refemu/src/decode.rs`.  Decoding computes nothing but the fields: an operand
read, an address, a branch outcome are all execution's job.  An encoding the
machine does not implement decodes to `illegal`.
-/
namespace ClickDoom

/-- Every arm the machine has.  `csr` covers all six CSR forms. -/
inductive Op
  | lui | auipc | jal | jalr
  | beq | bne | blt | bge | bltu | bgeu
  | lb | lh | lw | lbu | lhu
  | sb | sh | sw
  | addi | slti | sltiu | xori | ori | andi | slli | srli | srai
  | add | sub | sll | slt | sltu | xor | srl | sra | or | and
  | mul | mulh | mulhsu | mulhu | div | divu | rem | remu
  | fence | ecall | ebreak | csr | illegal
  deriving DecidableEq, Repr

/-- One decoded instruction.  A register number is the five bits its field
holds, and `imm` is the sign-extended immediate as a two's complement word. -/
structure Instruction where
  op : Op
  rd : BitVec 5
  rs1 : BitVec 5
  rs2 : BitVec 5
  imm : Word
  deriving DecidableEq, Repr

def Instruction.illegal : Instruction where
  op := .illegal
  rd := 0
  rs1 := 0
  rs2 := 0
  imm := 0

/-- Sign-extends the low `bits` of `value`. -/
def sext (value : Word) (bits : Nat) : Word := (value <<< (32 - bits)).sshiftRight (32 - bits)

/-- The immediate of a `JAL`, its bits gathered from the word. -/
def jImm (word : Word) : Word :=
  sext ((((word >>> 31) &&& 0x1#32) <<< 20) ||| (((word >>> 12) &&& 0xFF#32) <<< 12) |||
    (((word >>> 20) &&& 0x1#32) <<< 11) ||| (((word >>> 21) &&& 0x3FF#32) <<< 1)) 21

/-- The immediate of a branch. -/
def bImm (word : Word) : Word :=
  sext ((((word >>> 31) &&& 0x1#32) <<< 12) ||| (((word >>> 7) &&& 0x1#32) <<< 11) |||
    (((word >>> 25) &&& 0x3F#32) <<< 5) ||| (((word >>> 8) &&& 0xF#32) <<< 1)) 13

/-- The immediate of a store. -/
def sImm (word : Word) : Word :=
  sext ((((word >>> 25) &&& 0x7F#32) <<< 5) ||| ((word >>> 7) &&& 0x1F#32)) 12

def iImm (word : Word) : Word := sext (word >>> 20) 12

/-- The arm of a branch, by its function-three field. -/
def branchOp (funct3 : Word) : Option Op :=
  if funct3 = 0b000#32 then some .beq
  else if funct3 = 0b001#32 then some .bne
  else if funct3 = 0b100#32 then some .blt
  else if funct3 = 0b101#32 then some .bge
  else if funct3 = 0b110#32 then some .bltu
  else if funct3 = 0b111#32 then some .bgeu
  else none

def loadOp (funct3 : Word) : Option Op :=
  if funct3 = 0b000#32 then some .lb
  else if funct3 = 0b001#32 then some .lh
  else if funct3 = 0b010#32 then some .lw
  else if funct3 = 0b100#32 then some .lbu
  else if funct3 = 0b101#32 then some .lhu
  else none

def storeOp (funct3 : Word) : Option Op :=
  if funct3 = 0b000#32 then some .sb
  else if funct3 = 0b001#32 then some .sh
  else if funct3 = 0b010#32 then some .sw
  else none

def immOp (funct3 funct7 : Word) : Option Op :=
  if funct3 = 0b000#32 then some .addi
  else if funct3 = 0b010#32 then some .slti
  else if funct3 = 0b011#32 then some .sltiu
  else if funct3 = 0b100#32 then some .xori
  else if funct3 = 0b110#32 then some .ori
  else if funct3 = 0b111#32 then some .andi
  else if funct3 = 0b001#32 ∧ funct7 = 0x00#32 then some .slli
  else if funct3 = 0b101#32 ∧ funct7 = 0x00#32 then some .srli
  else if funct3 = 0b101#32 ∧ funct7 = 0x20#32 then some .srai
  else none

/-- The multiply extension's arm; every function-three value names one. -/
def mulOp (funct3 : Word) : Op :=
  if funct3 = 0b000#32 then .mul
  else if funct3 = 0b001#32 then .mulh
  else if funct3 = 0b010#32 then .mulhsu
  else if funct3 = 0b011#32 then .mulhu
  else if funct3 = 0b100#32 then .div
  else if funct3 = 0b101#32 then .divu
  else if funct3 = 0b110#32 then .rem
  else .remu

def regOp (funct3 funct7 : Word) : Option Op :=
  if funct3 = 0b000#32 ∧ funct7 = 0x00#32 then some .add
  else if funct3 = 0b000#32 ∧ funct7 = 0x20#32 then some .sub
  else if funct3 = 0b001#32 ∧ funct7 = 0x00#32 then some .sll
  else if funct3 = 0b010#32 ∧ funct7 = 0x00#32 then some .slt
  else if funct3 = 0b011#32 ∧ funct7 = 0x00#32 then some .sltu
  else if funct3 = 0b100#32 ∧ funct7 = 0x00#32 then some .xor
  else if funct3 = 0b101#32 ∧ funct7 = 0x00#32 then some .srl
  else if funct3 = 0b101#32 ∧ funct7 = 0x20#32 then some .sra
  else if funct3 = 0b110#32 ∧ funct7 = 0x00#32 then some .or
  else if funct3 = 0b111#32 ∧ funct7 = 0x00#32 then some .and
  else none

def systemOp (funct3 word : Word) : Option Op :=
  if funct3 = 0b000#32 then
    if word >>> 20 = 0 then some .ecall else if word >>> 20 = 1 then some .ebreak else none
  else if funct3 = 0b001#32 ∨ funct3 = 0b010#32 ∨ funct3 = 0b011#32 ∨ funct3 = 0b101#32 ∨
      funct3 = 0b110#32 ∨ funct3 = 0b111#32 then some .csr
  else none

/-- The instruction of a word whose arm is `op`, or the illegal one. -/
def insn (word : Word) (op : Option Op) (imm : Word) : Instruction :=
  match op with
  | none => .illegal
  | some op =>
    { op
      rd := ((word >>> 7) &&& 0x1F#32).setWidth 5
      rs1 := ((word >>> 15) &&& 0x1F#32).setWidth 5
      rs2 := ((word >>> 20) &&& 0x1F#32).setWidth 5
      imm }

def decode (word : Word) : Instruction :=
  let opcode := word &&& 0x7F#32
  let funct3 := (word >>> 12) &&& 0x7#32
  let funct7 := (word >>> 25) &&& 0x7F#32
  if opcode = 0x37#32 then insn word (some .lui) (word &&& 0xFFFFF000#32)
  else if opcode = 0x17#32 then insn word (some .auipc) (word &&& 0xFFFFF000#32)
  else if opcode = 0x6F#32 then insn word (some .jal) (jImm word)
  else if opcode = 0x67#32 then
    insn word (if funct3 = 0b000#32 then some .jalr else none) (iImm word)
  else if opcode = 0x63#32 then insn word (branchOp funct3) (bImm word)
  else if opcode = 0x03#32 then insn word (loadOp funct3) (iImm word)
  else if opcode = 0x23#32 then insn word (storeOp funct3) (sImm word)
  else if opcode = 0x13#32 then insn word (immOp funct3 funct7) (iImm word)
  else if opcode = 0x33#32 then
    if funct7 = 0x01#32 then insn word (some (mulOp funct3)) 0
    else insn word (regOp funct3 funct7) 0
  else if opcode = 0x0F#32 then insn word (some .fence) 0
  else if opcode = 0x73#32 then
    insn word (systemOp funct3 word) (if funct3 = 0b000#32 then 0 else iImm word)
  else .illegal

/-- `addi x1, x0, 1`. -/
example : decode 0x00100093#32 = ⟨.addi, 1, 0, 1, 1⟩ := by decide

end ClickDoom

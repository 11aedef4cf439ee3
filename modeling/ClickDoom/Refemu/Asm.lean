import ClickDoom.Base.Fields
import ClickDoom.Refemu.Decode

/-! # The assembler

`refemu/src/asm.rs`: one encoder for each instruction the tests and the fuzzer
build programs from.  Every format lays six fields side by side in the word, and
an immediate is cut into pieces that fill the fields its format does not use, so
one lemma about six fields serves all formats.  Decoding an encoded word gives
the fields back.
-/
namespace ClickDoom.Asm
open BitField (toNat_field toNat_field_shifted toNat_or)

/-! ## The formats -/

def immBits (value : Word) (bits : Nat) : Word := value &&& ((1#32 <<< bits) - 1#32)

def rType (opcode rd funct3 rs1 rs2 funct7 : Word) : Word :=
  (funct7 <<< 25) ||| (rs2 <<< 20) ||| (rs1 <<< 15) ||| (funct3 <<< 12) ||| (rd <<< 7) ||| opcode

def iType (opcode rd funct3 rs1 imm : Word) : Word :=
  (immBits imm 12 <<< 20) ||| (rs1 <<< 15) ||| (funct3 <<< 12) ||| (rd <<< 7) ||| opcode

def sType (opcode funct3 rs1 rs2 imm : Word) : Word :=
  let imm := immBits imm 12
  ((imm >>> 5) <<< 25) ||| (rs2 <<< 20) ||| (rs1 <<< 15) ||| (funct3 <<< 12) |||
    ((imm &&& 0x1F#32) <<< 7) ||| opcode

/-- Branch offsets are even, so bit 0 is not encoded. -/
def bType (opcode funct3 rs1 rs2 imm : Word) : Word :=
  let imm := immBits imm 13
  (((imm >>> 12) &&& 1#32) <<< 31) ||| (((imm >>> 5) &&& 0x3F#32) <<< 25) ||| (rs2 <<< 20) |||
    (rs1 <<< 15) ||| (funct3 <<< 12) ||| (((imm >>> 1) &&& 0xF#32) <<< 8) |||
    (((imm >>> 11) &&& 1#32) <<< 7) ||| opcode

def uType (opcode rd imm20 : Word) : Word := (immBits imm20 20 <<< 12) ||| (rd <<< 7) ||| opcode

/-- Jump offsets are even, so bit 0 is not encoded. -/
def jType (opcode rd imm : Word) : Word :=
  let imm := immBits imm 21
  (((imm >>> 20) &&& 1#32) <<< 31) ||| (((imm >>> 1) &&& 0x3FF#32) <<< 21) |||
    (((imm >>> 11) &&& 1#32) <<< 20) ||| (((imm >>> 12) &&& 0xFF#32) <<< 12) ||| (rd <<< 7) |||
    opcode

/-! ## The encoders -/

section
variable (rd rs1 rs2 imm imm20 shamt csr : Word)

def lui : Word := uType 0x37#32 rd imm20
def auipc : Word := uType 0x17#32 rd imm20
def jal : Word := jType 0x6F#32 rd imm
def jalr : Word := iType 0x67#32 rd 0b000#32 rs1 imm

def beq : Word := bType 0x63#32 0b000#32 rs1 rs2 imm
def bne : Word := bType 0x63#32 0b001#32 rs1 rs2 imm
def blt : Word := bType 0x63#32 0b100#32 rs1 rs2 imm
def bge : Word := bType 0x63#32 0b101#32 rs1 rs2 imm
def bltu : Word := bType 0x63#32 0b110#32 rs1 rs2 imm
def bgeu : Word := bType 0x63#32 0b111#32 rs1 rs2 imm

def lb : Word := iType 0x03#32 rd 0b000#32 rs1 imm
def lh : Word := iType 0x03#32 rd 0b001#32 rs1 imm
def lw : Word := iType 0x03#32 rd 0b010#32 rs1 imm
def lbu : Word := iType 0x03#32 rd 0b100#32 rs1 imm
def lhu : Word := iType 0x03#32 rd 0b101#32 rs1 imm

def sb : Word := sType 0x23#32 0b000#32 rs1 rs2 imm
def sh : Word := sType 0x23#32 0b001#32 rs1 rs2 imm
def sw : Word := sType 0x23#32 0b010#32 rs1 rs2 imm

def addi : Word := iType 0x13#32 rd 0b000#32 rs1 imm
def slti : Word := iType 0x13#32 rd 0b010#32 rs1 imm
def sltiu : Word := iType 0x13#32 rd 0b011#32 rs1 imm
def xori : Word := iType 0x13#32 rd 0b100#32 rs1 imm
def ori : Word := iType 0x13#32 rd 0b110#32 rs1 imm
def andi : Word := iType 0x13#32 rd 0b111#32 rs1 imm
def slli : Word := rType 0x13#32 rd 0b001#32 rs1 shamt 0x00#32
def srli : Word := rType 0x13#32 rd 0b101#32 rs1 shamt 0x00#32
def srai : Word := rType 0x13#32 rd 0b101#32 rs1 shamt 0x20#32

def add : Word := rType 0x33#32 rd 0b000#32 rs1 rs2 0x00#32
def sub : Word := rType 0x33#32 rd 0b000#32 rs1 rs2 0x20#32
def sll : Word := rType 0x33#32 rd 0b001#32 rs1 rs2 0x00#32
def slt : Word := rType 0x33#32 rd 0b010#32 rs1 rs2 0x00#32
def sltu : Word := rType 0x33#32 rd 0b011#32 rs1 rs2 0x00#32
def xor : Word := rType 0x33#32 rd 0b100#32 rs1 rs2 0x00#32
def srl : Word := rType 0x33#32 rd 0b101#32 rs1 rs2 0x00#32
def sra : Word := rType 0x33#32 rd 0b101#32 rs1 rs2 0x20#32
def or : Word := rType 0x33#32 rd 0b110#32 rs1 rs2 0x00#32
def and : Word := rType 0x33#32 rd 0b111#32 rs1 rs2 0x00#32

def mul : Word := rType 0x33#32 rd 0b000#32 rs1 rs2 0x01#32
def mulh : Word := rType 0x33#32 rd 0b001#32 rs1 rs2 0x01#32
def mulhsu : Word := rType 0x33#32 rd 0b010#32 rs1 rs2 0x01#32
def mulhu : Word := rType 0x33#32 rd 0b011#32 rs1 rs2 0x01#32
def div : Word := rType 0x33#32 rd 0b100#32 rs1 rs2 0x01#32
def divu : Word := rType 0x33#32 rd 0b101#32 rs1 rs2 0x01#32
def rem : Word := rType 0x33#32 rd 0b110#32 rs1 rs2 0x01#32
def remu : Word := rType 0x33#32 rd 0b111#32 rs1 rs2 0x01#32

def fence : Word := iType 0x0F#32 0 0b000#32 0 0
def ecall : Word := iType 0x73#32 0 0b000#32 0 0
def ebreak : Word := iType 0x73#32 0 0b000#32 0 1
def csrrw : Word := iType 0x73#32 rd 0b001#32 rs1 csr

end

/-! ## What an encoder is given -/

inductive Format
  | r | i | s | b | u | j | shift | bare
  deriving DecidableEq, Repr

/-- The arguments of an encoder; each format reads some of them.  An `i32` is its
two's complement word, and a shift amount stands in `imm`. -/
structure Args where
  rd : Word
  rs1 : Word
  rs2 : Word
  imm : Word
  deriving DecidableEq, Repr

structure Encoder where
  format : Format
  op : Op
  word : Args → Word

def encoders : List Encoder :=
  [ ⟨.u, .lui, fun a => lui a.rd a.imm⟩, ⟨.u, .auipc, fun a => auipc a.rd a.imm⟩
  , ⟨.j, .jal, fun a => jal a.rd a.imm⟩, ⟨.i, .jalr, fun a => jalr a.rd a.rs1 a.imm⟩
  , ⟨.b, .beq, fun a => beq a.rs1 a.rs2 a.imm⟩, ⟨.b, .bne, fun a => bne a.rs1 a.rs2 a.imm⟩
  , ⟨.b, .blt, fun a => blt a.rs1 a.rs2 a.imm⟩, ⟨.b, .bge, fun a => bge a.rs1 a.rs2 a.imm⟩
  , ⟨.b, .bltu, fun a => bltu a.rs1 a.rs2 a.imm⟩, ⟨.b, .bgeu, fun a => bgeu a.rs1 a.rs2 a.imm⟩
  , ⟨.i, .lb, fun a => lb a.rd a.rs1 a.imm⟩, ⟨.i, .lh, fun a => lh a.rd a.rs1 a.imm⟩
  , ⟨.i, .lw, fun a => lw a.rd a.rs1 a.imm⟩, ⟨.i, .lbu, fun a => lbu a.rd a.rs1 a.imm⟩
  , ⟨.i, .lhu, fun a => lhu a.rd a.rs1 a.imm⟩
  , ⟨.s, .sb, fun a => sb a.rs1 a.rs2 a.imm⟩, ⟨.s, .sh, fun a => sh a.rs1 a.rs2 a.imm⟩
  , ⟨.s, .sw, fun a => sw a.rs1 a.rs2 a.imm⟩
  , ⟨.i, .addi, fun a => addi a.rd a.rs1 a.imm⟩, ⟨.i, .slti, fun a => slti a.rd a.rs1 a.imm⟩
  , ⟨.i, .sltiu, fun a => sltiu a.rd a.rs1 a.imm⟩, ⟨.i, .xori, fun a => xori a.rd a.rs1 a.imm⟩
  , ⟨.i, .ori, fun a => ori a.rd a.rs1 a.imm⟩, ⟨.i, .andi, fun a => andi a.rd a.rs1 a.imm⟩
  , ⟨.shift, .slli, fun a => slli a.rd a.rs1 a.imm⟩
  , ⟨.shift, .srli, fun a => srli a.rd a.rs1 a.imm⟩
  , ⟨.shift, .srai, fun a => srai a.rd a.rs1 a.imm⟩
  , ⟨.r, .add, fun a => add a.rd a.rs1 a.rs2⟩, ⟨.r, .sub, fun a => sub a.rd a.rs1 a.rs2⟩
  , ⟨.r, .sll, fun a => sll a.rd a.rs1 a.rs2⟩, ⟨.r, .slt, fun a => slt a.rd a.rs1 a.rs2⟩
  , ⟨.r, .sltu, fun a => sltu a.rd a.rs1 a.rs2⟩, ⟨.r, .xor, fun a => xor a.rd a.rs1 a.rs2⟩
  , ⟨.r, .srl, fun a => srl a.rd a.rs1 a.rs2⟩, ⟨.r, .sra, fun a => sra a.rd a.rs1 a.rs2⟩
  , ⟨.r, .or, fun a => or a.rd a.rs1 a.rs2⟩, ⟨.r, .and, fun a => and a.rd a.rs1 a.rs2⟩
  , ⟨.r, .mul, fun a => mul a.rd a.rs1 a.rs2⟩, ⟨.r, .mulh, fun a => mulh a.rd a.rs1 a.rs2⟩
  , ⟨.r, .mulhsu, fun a => mulhsu a.rd a.rs1 a.rs2⟩
  , ⟨.r, .mulhu, fun a => mulhu a.rd a.rs1 a.rs2⟩
  , ⟨.r, .div, fun a => div a.rd a.rs1 a.rs2⟩, ⟨.r, .divu, fun a => divu a.rd a.rs1 a.rs2⟩
  , ⟨.r, .rem, fun a => rem a.rd a.rs1 a.rs2⟩, ⟨.r, .remu, fun a => remu a.rd a.rs1 a.rs2⟩
  , ⟨.bare, .fence, fun _ => fence⟩, ⟨.bare, .ecall, fun _ => ecall⟩
  , ⟨.bare, .ebreak, fun _ => ebreak⟩, ⟨.i, .csr, fun a => csrrw a.rd a.rs1 a.imm⟩ ]

/-- Register fields below 32 and the immediate in its format's range.  The upper
immediate of a `u` format is taken both as a signed and as an unsigned one. -/
def Args.InRange (a : Args) : Format → Prop
  | .r => a.rd.toNat < 32 ∧ a.rs1.toNat < 32 ∧ a.rs2.toNat < 32
  | .i => a.rd.toNat < 32 ∧ a.rs1.toNat < 32 ∧ -2 ^ 11 ≤ a.imm.toInt ∧ a.imm.toInt < 2 ^ 11
  | .s => a.rs1.toNat < 32 ∧ a.rs2.toNat < 32 ∧ -2 ^ 11 ≤ a.imm.toInt ∧ a.imm.toInt < 2 ^ 11
  | .b => a.rs1.toNat < 32 ∧ a.rs2.toNat < 32 ∧ -2 ^ 12 ≤ a.imm.toInt ∧ a.imm.toInt < 2 ^ 12 ∧
      2 ∣ a.imm.toInt
  | .u => a.rd.toNat < 32 ∧ -2 ^ 19 ≤ a.imm.toInt ∧ a.imm.toInt < 2 ^ 20
  | .j => a.rd.toNat < 32 ∧ -2 ^ 20 ≤ a.imm.toInt ∧ a.imm.toInt < 2 ^ 20 ∧ 2 ∣ a.imm.toInt
  | .shift => a.rd.toNat < 32 ∧ a.rs1.toNat < 32 ∧ a.imm.toNat < 32
  | .bare => True

/-- What an instruction says of the arguments its format encodes.  A shift's
immediate is the twelve bits above `rs1`, so the amount is the low five of it. -/
def Args.CarriedBy (a : Args) (insn : Instruction) : Format → Prop
  | .r => insn.rd.toNat = a.rd.toNat ∧ insn.rs1.toNat = a.rs1.toNat ∧
      insn.rs2.toNat = a.rs2.toNat ∧ insn.imm = 0
  | .i => insn.rd.toNat = a.rd.toNat ∧ insn.rs1.toNat = a.rs1.toNat ∧ insn.imm = a.imm
  | .s | .b => insn.rs1.toNat = a.rs1.toNat ∧ insn.rs2.toNat = a.rs2.toNat ∧ insn.imm = a.imm
  | .u => insn.rd.toNat = a.rd.toNat ∧ insn.imm = a.imm <<< 12
  | .j => insn.rd.toNat = a.rd.toNat ∧ insn.imm = a.imm
  | .shift => insn.rd.toNat = a.rd.toNat ∧ insn.rs1.toNat = a.rs1.toNat ∧
      insn.imm = (if insn.op = .srai then a.imm + 0x400#32 else a.imm)
  | .bare => insn.imm = 0

/-! ## Six fields side by side -/

/-- A word as the six fields of the formats, from the lowest. -/
structure Layout (w : Word) (opcode rd funct3 rs1 rs2 funct7 : Nat) : Prop where
  opcode_lt : opcode < 2 ^ 7
  rd_lt : rd < 2 ^ 5
  funct3_lt : funct3 < 2 ^ 3
  rs1_lt : rs1 < 2 ^ 5
  rs2_lt : rs2 < 2 ^ 5
  funct7_lt : funct7 < 2 ^ 7
  toNat_eq : w.toNat =
    funct7 * 2 ^ 25 + rs2 * 2 ^ 20 + rs1 * 2 ^ 15 + funct3 * 2 ^ 12 + rd * 2 ^ 7 + opcode

namespace Layout
variable {w : Word} {opcode rd funct3 rs1 rs2 funct7 : Nat}
  (h : Layout w opcode rd funct3 rs1 rs2 funct7)
include h

theorem opcode_eq : (w &&& 0x7F#32).toNat = opcode := by
  obtain ⟨_, _, _, _, _, _, hw⟩ := h
  have hf : (w &&& 0x7F#32).toNat = w.toNat % 2 ^ 7 := by
    simpa using toNat_field w 0 7 (m := 0x7F#32) rfl
  omega

theorem rd_eq : (((w >>> 7) &&& 0x1F#32).setWidth 5 : BitVec 5).toNat = rd := by
  obtain ⟨_, _, _, _, _, _, hw⟩ := h
  rw [BitVec.toNat_setWidth, toNat_field w 7 5 rfl]
  omega

theorem funct3_eq : ((w >>> 12) &&& 0x7#32).toNat = funct3 := by
  obtain ⟨_, _, _, _, _, _, hw⟩ := h
  rw [toNat_field w 12 3 rfl]
  omega

theorem rs1_eq : (((w >>> 15) &&& 0x1F#32).setWidth 5 : BitVec 5).toNat = rs1 := by
  obtain ⟨_, _, _, _, _, _, hw⟩ := h
  rw [BitVec.toNat_setWidth, toNat_field w 15 5 rfl]
  omega

theorem rs2_eq : (((w >>> 20) &&& 0x1F#32).setWidth 5 : BitVec 5).toNat = rs2 := by
  obtain ⟨_, _, _, _, _, _, hw⟩ := h
  rw [BitVec.toNat_setWidth, toNat_field w 20 5 rfl]
  omega

theorem funct7_eq : ((w >>> 25) &&& 0x7F#32).toNat = funct7 := by
  obtain ⟨_, _, _, _, _, _, hw⟩ := h
  rw [toNat_field w 25 7 rfl]
  omega

/-- The pieces of the word the immediates are gathered from. -/
theorem pieces_eq :
    w.toNat / 2 ^ 7 % 2 = rd % 2 ∧ w.toNat / 2 ^ 7 % 2 ^ 5 = rd ∧ w.toNat / 2 ^ 8 % 2 ^ 4 = rd / 2 ∧
    w.toNat / 2 ^ 12 % 2 ^ 8 = rs1 * 2 ^ 3 + funct3 ∧ w.toNat / 2 ^ 20 % 2 = rs2 % 2 ∧
    w.toNat / 2 ^ 21 % 2 ^ 10 = funct7 % 2 ^ 6 * 2 ^ 4 + rs2 / 2 ∧
    w.toNat / 2 ^ 25 % 2 ^ 6 = funct7 % 2 ^ 6 ∧ w.toNat / 2 ^ 25 % 2 ^ 7 = funct7 ∧
    w.toNat / 2 ^ 31 % 2 = funct7 / 2 ^ 6 := by
  obtain ⟨_, _, _, _, _, _, hw⟩ := h
  refine ⟨?_, ?_, ?_, ?_, ?_, ?_, ?_, ?_, ?_⟩ <;> omega

theorem top_eq : (w >>> 20).toNat = funct7 * 2 ^ 5 + rs2 := by
  obtain ⟨_, _, _, _, _, _, hw⟩ := h
  rw [BitVec.toNat_ushiftRight, Nat.shiftRight_eq_div_pow]
  omega

end Layout

/-! ## What each format fills the fields with -/

section
variable {opcode rd funct3 rs1 rs2 funct7 : Word}

theorem toNat_immBits (value : Word) (bits : Nat)
    (hm : ((1#32 <<< bits) - 1#32).toNat = 2 ^ bits - 1) :
    (immBits value bits).toNat = value.toNat % 2 ^ bits := by
  rw [immBits, BitVec.toNat_and, hm, Nat.and_two_pow_sub_one_eq_mod]

theorem toNat_shl {x : Word} (n k : Nat) (hx : x.toNat < 2 ^ k) (hfit : k + n ≤ 32) :
    (x <<< n).toNat = x.toNat * 2 ^ n := by
  rw [BitVec.toNat_shiftLeft, Nat.shiftLeft_eq]
  apply Nat.mod_eq_of_lt
  calc x.toNat * 2 ^ n < 2 ^ k * 2 ^ n := Nat.mul_lt_mul_of_pos_right hx (Nat.two_pow_pos n)
    _ = 2 ^ (k + n) := (Nat.pow_add 2 k n).symm
    _ ≤ 2 ^ 32 := Nat.pow_le_pow_right (by omega) hfit

/-- Joining a field of `k` bits at bit `n` below what stands above it. -/
theorem toNat_or_shl {x y : Word} (n k : Nat) (hx : 2 ^ (k + n) ∣ x.toNat) (hy : y.toNat < 2 ^ k)
    (hfit : k + n ≤ 32) : (x ||| y <<< n).toNat = x.toNat + y.toNat * 2 ^ n := by
  have hshl := toNat_shl n k hy hfit
  rw [toNat_or (k + n) hx, hshl]
  rw [hshl, Nat.pow_add]
  exact Nat.mul_lt_mul_of_pos_right hy (Nat.two_pow_pos n)

theorem layout_rType (hop : opcode.toNat < 2 ^ 7) (hrd : rd.toNat < 2 ^ 5)
    (hf3 : funct3.toNat < 2 ^ 3) (hrs1 : rs1.toNat < 2 ^ 5) (hrs2 : rs2.toNat < 2 ^ 5)
    (hf7 : funct7.toNat < 2 ^ 7) :
    Layout (rType opcode rd funct3 rs1 rs2 funct7) opcode.toNat rd.toNat funct3.toNat rs1.toNat
      rs2.toNat funct7.toNat := by
  refine ⟨hop, hrd, hf3, hrs1, hrs2, hf7, ?_⟩
  have h1 := toNat_shl 25 7 hf7 (by omega)
  have h2 := toNat_or_shl (x := funct7 <<< 25) 20 5 (by omega) hrs2 (by omega)
  have h3 := toNat_or_shl (x := funct7 <<< 25 ||| rs2 <<< 20) 15 5 (by omega) hrs1 (by omega)
  have h4 := toNat_or_shl (x := funct7 <<< 25 ||| rs2 <<< 20 ||| rs1 <<< 15) 12 3 (by omega) hf3
    (by omega)
  have h5 := toNat_or_shl (x := funct7 <<< 25 ||| rs2 <<< 20 ||| rs1 <<< 15 ||| funct3 <<< 12) 7 5
    (by omega) hrd (by omega)
  rw [rType, toNat_or 7 (by omega) hop]
  omega

theorem layout_iType (imm : Word) (hop : opcode.toNat < 2 ^ 7) (hrd : rd.toNat < 2 ^ 5)
    (hf3 : funct3.toNat < 2 ^ 3) (hrs1 : rs1.toNat < 2 ^ 5) :
    Layout (iType opcode rd funct3 rs1 imm) opcode.toNat rd.toNat funct3.toNat rs1.toNat
      (imm.toNat % 2 ^ 5) (imm.toNat / 2 ^ 5 % 2 ^ 7) := by
  refine ⟨hop, hrd, hf3, hrs1, by omega, by omega, ?_⟩
  have hi := toNat_immBits imm 12 rfl
  rw [iType]
  generalize immBits imm 12 = v at hi ⊢
  have h1 := toNat_shl (x := v) 20 12 (by omega) (by omega)
  have h2 := toNat_or_shl (x := v <<< 20) 15 5 (by omega) hrs1 (by omega)
  have h3 := toNat_or_shl (x := v <<< 20 ||| rs1 <<< 15) 12 3 (by omega) hf3 (by omega)
  have h4 := toNat_or_shl (x := v <<< 20 ||| rs1 <<< 15 ||| funct3 <<< 12) 7 5 (by omega) hrd
    (by omega)
  rw [toNat_or 7 (by omega) hop]
  omega

theorem layout_sType (imm : Word) (hop : opcode.toNat < 2 ^ 7) (hf3 : funct3.toNat < 2 ^ 3)
    (hrs1 : rs1.toNat < 2 ^ 5) (hrs2 : rs2.toNat < 2 ^ 5) :
    Layout (sType opcode funct3 rs1 rs2 imm) opcode.toNat (imm.toNat % 2 ^ 5) funct3.toNat rs1.toNat
      rs2.toNat (imm.toNat / 2 ^ 5 % 2 ^ 7) := by
  refine ⟨hop, by omega, hf3, hrs1, hrs2, by omega, ?_⟩
  have hi := toNat_immBits imm 12 rfl
  rw [sType]
  generalize immBits imm 12 = v at hi ⊢
  have hhigh : (v >>> 5).toNat = v.toNat / 2 ^ 5 := by
    rw [BitVec.toNat_ushiftRight, Nat.shiftRight_eq_div_pow]
  have hlow : (v &&& 0x1F#32).toNat = v.toNat % 2 ^ 5 := by
    simpa using toNat_field v 0 5 (m := 0x1F#32) rfl
  generalize v >>> 5 = high at hhigh ⊢
  generalize v &&& 0x1F#32 = low at hlow ⊢
  have h1 := toNat_shl (x := high) 25 7 (by omega) (by omega)
  have h2 := toNat_or_shl (x := high <<< 25) 20 5 (by omega) hrs2 (by omega)
  have h3 := toNat_or_shl (x := high <<< 25 ||| rs2 <<< 20) 15 5 (by omega) hrs1 (by omega)
  have h4 := toNat_or_shl (x := high <<< 25 ||| rs2 <<< 20 ||| rs1 <<< 15) 12 3 (by omega) hf3
    (by omega)
  have h5 := toNat_or_shl (x := high <<< 25 ||| rs2 <<< 20 ||| rs1 <<< 15 ||| funct3 <<< 12)
    (y := low) 7 5 (by omega) (by omega) (by omega)
  rw [toNat_or 7 (by omega) hop]
  omega

theorem layout_bType (imm : Word) (hop : opcode.toNat < 2 ^ 7) (hf3 : funct3.toNat < 2 ^ 3)
    (hrs1 : rs1.toNat < 2 ^ 5) (hrs2 : rs2.toNat < 2 ^ 5) :
    Layout (bType opcode funct3 rs1 rs2 imm) opcode.toNat
      (imm.toNat / 2 % 2 ^ 4 * 2 + imm.toNat / 2 ^ 11 % 2) funct3.toNat rs1.toNat rs2.toNat
      (imm.toNat / 2 ^ 12 % 2 * 2 ^ 6 + imm.toNat / 2 ^ 5 % 2 ^ 6) := by
  refine ⟨hop, by omega, hf3, hrs1, hrs2, by omega, ?_⟩
  have hi := toNat_immBits imm 13 rfl
  rw [bType]
  generalize immBits imm 13 = v at hi ⊢
  have hA : ((v >>> 12) &&& 1#32).toNat = imm.toNat / 2 ^ 12 % 2 := by
    rw [toNat_field v 12 1 rfl]
    omega
  have hB : ((v >>> 5) &&& 0x3F#32).toNat = imm.toNat / 2 ^ 5 % 2 ^ 6 := by
    rw [toNat_field v 5 6 rfl]
    omega
  have hC : ((v >>> 1) &&& 0xF#32).toNat = imm.toNat / 2 % 2 ^ 4 := by
    rw [toNat_field v 1 4 rfl]
    omega
  have hD : ((v >>> 11) &&& 1#32).toNat = imm.toNat / 2 ^ 11 % 2 := by
    rw [toNat_field v 11 1 rfl]
    omega
  generalize (v >>> 12) &&& 1#32 = A at hA ⊢
  generalize (v >>> 5) &&& 0x3F#32 = B at hB ⊢
  generalize (v >>> 1) &&& 0xF#32 = C at hC ⊢
  generalize (v >>> 11) &&& 1#32 = D at hD ⊢
  have h1 := toNat_shl (x := A) 31 1 (by omega) (by omega)
  have h2 := toNat_or_shl (x := A <<< 31) (y := B) 25 6 (by omega) (by omega) (by omega)
  have h3 := toNat_or_shl (x := A <<< 31 ||| B <<< 25) 20 5 (by omega) hrs2 (by omega)
  have h4 := toNat_or_shl (x := A <<< 31 ||| B <<< 25 ||| rs2 <<< 20) 15 5 (by omega) hrs1 (by omega)
  have h5 := toNat_or_shl (x := A <<< 31 ||| B <<< 25 ||| rs2 <<< 20 ||| rs1 <<< 15) 12 3 (by omega)
    hf3 (by omega)
  have h6 := toNat_or_shl
    (x := A <<< 31 ||| B <<< 25 ||| rs2 <<< 20 ||| rs1 <<< 15 ||| funct3 <<< 12) (y := C) 8 4
    (by omega) (by omega) (by omega)
  have h7 := toNat_or_shl
    (x := A <<< 31 ||| B <<< 25 ||| rs2 <<< 20 ||| rs1 <<< 15 ||| funct3 <<< 12 ||| C <<< 8) (y := D)
    7 1 (by omega) (by omega) (by omega)
  rw [toNat_or 7 (by omega) hop]
  omega

theorem layout_uType (imm20 : Word) (hop : opcode.toNat < 2 ^ 7) (hrd : rd.toNat < 2 ^ 5) :
    Layout (uType opcode rd imm20) opcode.toNat rd.toNat (imm20.toNat % 2 ^ 3)
      (imm20.toNat / 2 ^ 3 % 2 ^ 5) (imm20.toNat / 2 ^ 8 % 2 ^ 5) (imm20.toNat / 2 ^ 13 % 2 ^ 7) := by
  refine ⟨hop, hrd, by omega, by omega, by omega, by omega, ?_⟩
  have hi := toNat_immBits imm20 20 rfl
  rw [uType]
  generalize immBits imm20 20 = v at hi ⊢
  have h1 := toNat_shl (x := v) 12 20 (by omega) (by omega)
  have h2 := toNat_or_shl (x := v <<< 12) 7 5 (by omega) hrd (by omega)
  rw [toNat_or 7 (by omega) hop]
  omega

theorem layout_jType (imm : Word) (hop : opcode.toNat < 2 ^ 7) (hrd : rd.toNat < 2 ^ 5) :
    Layout (jType opcode rd imm) opcode.toNat rd.toNat (imm.toNat / 2 ^ 12 % 2 ^ 3)
      (imm.toNat / 2 ^ 15 % 2 ^ 5) (imm.toNat / 2 % 2 ^ 4 * 2 + imm.toNat / 2 ^ 11 % 2)
      (imm.toNat / 2 ^ 20 % 2 * 2 ^ 6 + imm.toNat / 2 ^ 5 % 2 ^ 6) := by
  refine ⟨hop, hrd, by omega, by omega, by omega, by omega, ?_⟩
  have hi := toNat_immBits imm 21 rfl
  rw [jType]
  generalize immBits imm 21 = v at hi ⊢
  have hA : ((v >>> 20) &&& 1#32).toNat = imm.toNat / 2 ^ 20 % 2 := by
    rw [toNat_field v 20 1 rfl]
    omega
  have hB : ((v >>> 1) &&& 0x3FF#32).toNat =
      imm.toNat / 2 % 2 ^ 4 + imm.toNat / 2 ^ 5 % 2 ^ 6 * 2 ^ 4 := by
    rw [toNat_field v 1 10 rfl]
    omega
  have hC : ((v >>> 11) &&& 1#32).toNat = imm.toNat / 2 ^ 11 % 2 := by
    rw [toNat_field v 11 1 rfl]
    omega
  have hD : ((v >>> 12) &&& 0xFF#32).toNat =
      imm.toNat / 2 ^ 12 % 2 ^ 3 + imm.toNat / 2 ^ 15 % 2 ^ 5 * 2 ^ 3 := by
    rw [toNat_field v 12 8 rfl]
    omega
  generalize (v >>> 20) &&& 1#32 = A at hA ⊢
  generalize (v >>> 1) &&& 0x3FF#32 = B at hB ⊢
  generalize (v >>> 11) &&& 1#32 = C at hC ⊢
  generalize (v >>> 12) &&& 0xFF#32 = D at hD ⊢
  have h1 := toNat_shl (x := A) 31 1 (by omega) (by omega)
  have h2 := toNat_or_shl (x := A <<< 31) (y := B) 21 10 (by omega) (by omega) (by omega)
  have h3 := toNat_or_shl (x := A <<< 31 ||| B <<< 21) (y := C) 20 1 (by omega) (by omega) (by omega)
  have h4 := toNat_or_shl (x := A <<< 31 ||| B <<< 21 ||| C <<< 20) (y := D) 12 8 (by omega)
    (by omega) (by omega)
  have h5 := toNat_or_shl (x := A <<< 31 ||| B <<< 21 ||| C <<< 20 ||| D <<< 12) 7 5 (by omega) hrd
    (by omega)
  rw [toNat_or 7 (by omega) hop]
  omega

end

/-! ## The immediates of a word -/

/-- The low bits of a number in their signed range extend to it. -/
theorem sext_of_mod {x v : Word} {bits : Nat} (hbits : bits < 32)
    (hx : x.toNat = v.toNat % 2 ^ (bits + 1)) (hlo : -2 ^ bits ≤ v.toInt) (hhi : v.toInt < 2 ^ bits) :
    sext x (bits + 1) = v := by
  have hv := v.isLt
  have hsucc : 2 ^ (bits + 1) = 2 * 2 ^ bits := Nat.pow_succ'
  obtain ⟨q, hq⟩ : 2 ^ (bits + 1) ∣ 2 ^ 32 := Nat.pow_dvd_pow 2 hbits
  have hle : 2 ^ (bits + 1) ≤ 2 ^ 32 := Nat.pow_le_pow_right (by omega) hbits
  have hcast : ((2 ^ bits : Nat) : Int) = 2 ^ bits := by push_cast; rfl
  have hpow : 0 < 2 ^ bits := Nat.two_pow_pos bits
  have hext : sext x (bits + 1) =
      if x.toNat < 2 ^ bits then x else x - BitVec.ofNat 32 (2 ^ (bits + 1)) :=
    BitField.sext_eq hbits (by omega) (hx ▸ Nat.mod_lt _ (by omega))
  rw [BitVec.toInt_eq_toNat_cond] at hlo hhi
  by_cases hneg : 2 * v.toNat < 2 ^ 32
  · rw [if_pos hneg] at hlo hhi
    have hsame : x.toNat = v.toNat := by rw [hx, Nat.mod_eq_of_lt (by omega)]
    rw [hext, if_pos (by omega)]
    exact BitVec.eq_of_toNat_eq hsame
  · rw [if_neg hneg] at hlo hhi
    -- The remainder of `2 ^ 32 + v` is `2 ^ (bits + 1) + v`.
    have hmod : v.toNat % 2 ^ (bits + 1) = v.toNat + 2 ^ (bits + 1) - 2 ^ 32 := by
      rw [Nat.mod_eq_iff]
      refine .inr ⟨by omega, q - 1, ?_⟩
      rw [Nat.mul_sub, ← hq]
      omega
    rw [hext, if_neg (by omega)]
    apply BitVec.eq_of_toNat_eq
    rw [BitVec.toNat_sub, BitVec.toNat_ofNat]
    omega

theorem div_pack {a b k : Nat} (hb : b < k) : (a * k + b) / k = a := by
  rw [Nat.mul_comm, Nat.mul_add_div (by omega), Nat.div_eq_of_lt hb, add_zero]

namespace Layout
variable {w : Word} {opcode rd funct3 rs1 rs2 funct7 : Nat}
  (h : Layout w opcode rd funct3 rs1 rs2 funct7)
include h

theorem iImm_eq {imm : Word} (himm : funct7 * 2 ^ 5 + rs2 = imm.toNat % 2 ^ 12)
    (hlo : -2 ^ 11 ≤ imm.toInt) (hhi : imm.toInt < 2 ^ 11) : iImm w = imm :=
  sext_of_mod (by omega) (h.top_eq.trans himm) hlo hhi

theorem sImm_eq {imm : Word} (himm : funct7 * 2 ^ 5 + rd = imm.toNat % 2 ^ 12)
    (hlo : -2 ^ 11 ≤ imm.toInt) (hhi : imm.toInt < 2 ^ 11) : sImm w = imm := by
  refine sext_of_mod (by omega) ?_ hlo hhi
  obtain ⟨-, hlow, -, -, -, -, -, hhigh, -⟩ := h.pieces_eq
  have hA := toNat_field_shifted w 25 7 5 (m := 0x7F#32) rfl (by omega)
  have hB := toNat_field w 7 5 (m := 0x1F#32) rfl
  rw [hhigh] at hA
  rw [hlow] at hB
  rw [toNat_or 5 ⟨funct7, by rw [hA, Nat.mul_comm]⟩ (hB ▸ h.rd_lt), hA, hB, himm]

/-- The bits of a branch offset, gathered from where they were scattered. -/
theorem bImm_eq {imm : Word} (hrd : rd = imm.toNat / 2 % 2 ^ 4 * 2 + imm.toNat / 2 ^ 11 % 2)
    (hf7 : funct7 = imm.toNat / 2 ^ 12 % 2 * 2 ^ 6 + imm.toNat / 2 ^ 5 % 2 ^ 6)
    (heven : imm.toNat % 2 = 0) (hlo : -2 ^ 12 ≤ imm.toInt) (hhi : imm.toInt < 2 ^ 12) :
    bImm w = imm := by
  refine sext_of_mod (by omega) ?_ hlo hhi
  obtain ⟨hr1, -, hr4, -, -, -, hf6, -, hsign⟩ := h.pieces_eq
  have hA := toNat_field_shifted w 31 1 12 (m := 0x1#32) rfl (by omega)
  have hB := toNat_field_shifted w 7 1 11 (m := 0x1#32) rfl (by omega)
  have hC := toNat_field_shifted w 25 6 5 (m := 0x3F#32) rfl (by omega)
  have hD := toNat_field_shifted w 8 4 1 (m := 0xF#32) rfl (by omega)
  rw [pow_one, hsign, hf7, div_pack (Nat.mod_lt _ (by omega))] at hA
  rw [pow_one, hr1, hrd, Nat.mul_add_mod_of_lt (Nat.mod_lt _ (by omega))] at hB
  rw [hf6, hf7, Nat.mul_add_mod_of_lt (Nat.mod_lt _ (by omega))] at hC
  rw [hr4, hrd, div_pack (Nat.mod_lt _ (by omega))] at hD
  clear h hr1 hr4 hf6 hsign hrd hf7 hlo hhi
  generalize ((w >>> 31) &&& 0x1#32) <<< 12 = A at hA ⊢
  generalize ((w >>> 7) &&& 0x1#32) <<< 11 = B at hB ⊢
  generalize ((w >>> 25) &&& 0x3F#32) <<< 5 = C at hC ⊢
  generalize ((w >>> 8) &&& 0xF#32) <<< 1 = D at hD ⊢
  have hAB : (A ||| B).toNat = A.toNat + B.toNat := toNat_or 12 (by omega) (by omega)
  have hABC : (A ||| B ||| C).toNat = (A ||| B).toNat + C.toNat := toNat_or 11 (by omega) (by omega)
  rw [toNat_or 5 (by omega) (by omega), hABC, hAB, hA, hB, hC, hD]
  clear hA hB hC hD hAB hABC
  omega

/-- The bits of a jump offset. -/
theorem jImm_eq {imm : Word} (hf3 : funct3 = imm.toNat / 2 ^ 12 % 2 ^ 3)
    (hrs1 : rs1 = imm.toNat / 2 ^ 15 % 2 ^ 5)
    (hrs2 : rs2 = imm.toNat / 2 % 2 ^ 4 * 2 + imm.toNat / 2 ^ 11 % 2)
    (hf7 : funct7 = imm.toNat / 2 ^ 20 % 2 * 2 ^ 6 + imm.toNat / 2 ^ 5 % 2 ^ 6)
    (heven : imm.toNat % 2 = 0) (hlo : -2 ^ 20 ≤ imm.toInt) (hhi : imm.toInt < 2 ^ 20) :
    jImm w = imm := by
  refine sext_of_mod (by omega) ?_ hlo hhi
  obtain ⟨-, -, -, hm8, hs1, hs10, -, -, hsign⟩ := h.pieces_eq
  have hA := toNat_field_shifted w 31 1 20 (m := 0x1#32) rfl (by omega)
  have hB := toNat_field_shifted w 12 8 12 (m := 0xFF#32) rfl (by omega)
  have hC := toNat_field_shifted w 20 1 11 (m := 0x1#32) rfl (by omega)
  have hD := toNat_field_shifted w 21 10 1 (m := 0x3FF#32) rfl (by omega)
  rw [pow_one, hsign, hf7, div_pack (Nat.mod_lt _ (by omega))] at hA
  rw [hm8, hf3, hrs1] at hB
  rw [pow_one, hs1, hrs2, Nat.mul_add_mod_of_lt (Nat.mod_lt _ (by omega))] at hC
  rw [hs10, hf7, hrs2, Nat.mul_add_mod_of_lt (Nat.mod_lt _ (by omega)),
    div_pack (Nat.mod_lt _ (by omega))] at hD
  clear h hm8 hs1 hs10 hsign hf3 hrs1 hrs2 hf7 hlo hhi
  generalize ((w >>> 31) &&& 0x1#32) <<< 20 = A at hA ⊢
  generalize ((w >>> 12) &&& 0xFF#32) <<< 12 = B at hB ⊢
  generalize ((w >>> 20) &&& 0x1#32) <<< 11 = C at hC ⊢
  generalize ((w >>> 21) &&& 0x3FF#32) <<< 1 = D at hD ⊢
  have hAB : (A ||| B).toNat = A.toNat + B.toNat := toNat_or 20 (by omega) (by omega)
  have hABC : (A ||| B ||| C).toNat = (A ||| B).toNat + C.toNat := toNat_or 12 (by omega) (by omega)
  rw [toNat_or 11 (by omega) (by omega), hABC, hAB, hA, hB, hC, hD]
  clear hA hB hC hD hAB hABC
  omega

/-- A decoded word holds the fields it was laid out from. -/
theorem fields_of_decode {op : Op} {imm : Word} (hdec : decode w = insn w (some op) imm) :
    (decode w).op = op ∧ (decode w).rd.toNat = rd ∧ (decode w).rs1.toNat = rs1 ∧
      (decode w).rs2.toNat = rs2 ∧ (decode w).imm = imm := by
  rw [hdec]
  exact ⟨rfl, h.rd_eq, h.rs1_eq, h.rs2_eq, rfl⟩

end Layout

/-! ## Decoding what was encoded -/

/-- The decoder gives an encoder's arm back, with the arguments it was given. -/
def Encoder.Decodes (e : Encoder) : Prop :=
  ∀ a : Args, a.InRange e.format →
    (decode (e.word a)).op = e.op ∧ a.CarriedBy (decode (e.word a)) e.format

section
variable {op : Op} {opcode funct3 funct7 : Word}

theorem toNat_even {x : Word} (h : 2 ∣ x.toInt) : x.toNat % 2 = 0 := by
  rw [BitVec.toInt_eq_toNat_cond] at h
  split_ifs at h <;> omega

theorem decodes_rType (hop : opcode.toNat < 2 ^ 7) (hf3 : funct3.toNat < 2 ^ 3)
    (hf7 : funct7.toNat < 2 ^ 7)
    (hdec : ∀ w : Word, w &&& 0x7F#32 = opcode → (w >>> 12) &&& 0x7#32 = funct3 →
      (w >>> 25) &&& 0x7F#32 = funct7 → decode w = insn w (some op) 0) :
    Encoder.Decodes ⟨.r, op, fun a => rType opcode a.rd funct3 a.rs1 a.rs2 funct7⟩ := by
  rintro a ⟨hrd, hrs1, hrs2⟩
  have hl := layout_rType hop hrd hf3 hrs1 hrs2 hf7
  obtain ⟨hop', hrd', hrs1', hrs2', himm'⟩ := hl.fields_of_decode
    (hdec _ (BitVec.eq_of_toNat_eq hl.opcode_eq) (BitVec.eq_of_toNat_eq hl.funct3_eq)
      (BitVec.eq_of_toNat_eq hl.funct7_eq))
  exact ⟨hop', hrd', hrs1', hrs2', himm'⟩

theorem decodes_iType (hop : opcode.toNat < 2 ^ 7) (hf3 : funct3.toNat < 2 ^ 3)
    (hdec : ∀ w : Word, w &&& 0x7F#32 = opcode → (w >>> 12) &&& 0x7#32 = funct3 →
      decode w = insn w (some op) (iImm w)) :
    Encoder.Decodes ⟨.i, op, fun a => iType opcode a.rd funct3 a.rs1 a.imm⟩ := by
  rintro a ⟨hrd, hrs1, hlo, hhi⟩
  have hl := layout_iType a.imm hop hrd hf3 hrs1
  obtain ⟨hop', hrd', hrs1', -, himm'⟩ := hl.fields_of_decode
    (hdec _ (BitVec.eq_of_toNat_eq hl.opcode_eq) (BitVec.eq_of_toNat_eq hl.funct3_eq))
  refine ⟨hop', hrd', hrs1', himm'.trans (hl.iImm_eq ?_ hlo hhi)⟩
  omega

theorem decodes_sType (hop : opcode.toNat < 2 ^ 7) (hf3 : funct3.toNat < 2 ^ 3)
    (hdec : ∀ w : Word, w &&& 0x7F#32 = opcode → (w >>> 12) &&& 0x7#32 = funct3 →
      decode w = insn w (some op) (sImm w)) :
    Encoder.Decodes ⟨.s, op, fun a => sType opcode funct3 a.rs1 a.rs2 a.imm⟩ := by
  rintro a ⟨hrs1, hrs2, hlo, hhi⟩
  have hl := layout_sType a.imm hop hf3 hrs1 hrs2
  obtain ⟨hop', -, hrs1', hrs2', himm'⟩ := hl.fields_of_decode
    (hdec _ (BitVec.eq_of_toNat_eq hl.opcode_eq) (BitVec.eq_of_toNat_eq hl.funct3_eq))
  refine ⟨hop', hrs1', hrs2', himm'.trans (hl.sImm_eq ?_ hlo hhi)⟩
  omega

theorem decodes_bType (hop : opcode.toNat < 2 ^ 7) (hf3 : funct3.toNat < 2 ^ 3)
    (hdec : ∀ w : Word, w &&& 0x7F#32 = opcode → (w >>> 12) &&& 0x7#32 = funct3 →
      decode w = insn w (some op) (bImm w)) :
    Encoder.Decodes ⟨.b, op, fun a => bType opcode funct3 a.rs1 a.rs2 a.imm⟩ := by
  rintro a ⟨hrs1, hrs2, hlo, hhi, heven⟩
  have hl := layout_bType a.imm hop hf3 hrs1 hrs2
  obtain ⟨hop', -, hrs1', hrs2', himm'⟩ := hl.fields_of_decode
    (hdec _ (BitVec.eq_of_toNat_eq hl.opcode_eq) (BitVec.eq_of_toNat_eq hl.funct3_eq))
  exact ⟨hop', hrs1', hrs2', himm'.trans (hl.bImm_eq rfl rfl (toNat_even heven) hlo hhi)⟩

theorem decodes_jType (hop : opcode.toNat < 2 ^ 7)
    (hdec : ∀ w : Word, w &&& 0x7F#32 = opcode → decode w = insn w (some op) (jImm w)) :
    Encoder.Decodes ⟨.j, op, fun a => jType opcode a.rd a.imm⟩ := by
  rintro a ⟨hrd, hlo, hhi, heven⟩
  have hl := layout_jType a.imm hop hrd
  obtain ⟨hop', hrd', -, -, himm'⟩ := hl.fields_of_decode
    (hdec _ (BitVec.eq_of_toNat_eq hl.opcode_eq))
  exact ⟨hop', hrd', himm'.trans (hl.jImm_eq rfl rfl rfl rfl (toNat_even heven) hlo hhi)⟩

theorem decodes_uType (hop : opcode.toNat < 2 ^ 7)
    (hdec : ∀ w : Word, w &&& 0x7F#32 = opcode →
      decode w = insn w (some op) (w &&& 0xFFFFF000#32)) :
    Encoder.Decodes ⟨.u, op, fun a => uType opcode a.rd a.imm⟩ := by
  rintro a ⟨hrd, -, -⟩
  have hl := layout_uType a.imm hop hrd
  obtain ⟨hop', hrd', -, -, himm'⟩ := hl.fields_of_decode
    (hdec _ (BitVec.eq_of_toNat_eq hl.opcode_eq))
  refine ⟨hop', hrd', himm'.trans (BitVec.eq_of_toNat_eq ?_)⟩
  obtain ⟨_, _, _, _, _, _, hw⟩ := hl
  have hhigh := BitField.toNat_field_inPlace (uType opcode a.rd a.imm) 0 12 20
    (m := 0xFFFFF000#32) rfl
  rw [BitVec.ushiftRight_zero, Nat.zero_add] at hhigh
  rw [hhigh, hw, BitVec.toNat_shiftLeft, Nat.shiftLeft_eq]
  omega

/-- The twelve bits above `rs1` hold the seven of `funct7` above the amount. -/
theorem decodes_shift (hop : opcode.toNat < 2 ^ 7) (hf3 : funct3.toNat < 2 ^ 3)
    (hf7 : funct7 = if op = .srai then 0x20#32 else 0x00#32)
    (hdec : ∀ w : Word, w &&& 0x7F#32 = opcode → (w >>> 12) &&& 0x7#32 = funct3 →
      (w >>> 25) &&& 0x7F#32 = funct7 → decode w = insn w (some op) (iImm w)) :
    Encoder.Decodes ⟨.shift, op, fun a => rType opcode a.rd funct3 a.rs1 a.imm funct7⟩ := by
  rintro a ⟨hrd, hrs1, hshamt⟩
  have hlt : funct7.toNat < 2 ^ 7 := by
    rw [hf7]
    split_ifs <;> decide
  have hl := layout_rType hop hrd hf3 hrs1 hshamt hlt
  obtain ⟨hop', hrd', hrs1', -, himm'⟩ := hl.fields_of_decode
    (hdec _ (BitVec.eq_of_toNat_eq hl.opcode_eq) (BitVec.eq_of_toNat_eq hl.funct3_eq)
      (BitVec.eq_of_toNat_eq hl.funct7_eq))
  refine ⟨hop', hrd', hrs1', himm'.trans ?_⟩
  have hsmall : a.imm.toInt = a.imm.toNat := BitVec.toInt_eq_toNat_of_lt (by omega)
  dsimp only at hop' ⊢
  rw [hop']
  split_ifs at hf7 ⊢
  · have hsum : (a.imm + 0x400#32).toNat = a.imm.toNat + 0x400 := by
      rw [BitVec.toNat_add]
      exact Nat.mod_eq_of_lt (by simp; omega)
    have hint : (a.imm + 0x400#32).toInt = a.imm.toNat + 0x400 := by
      rw [BitVec.toInt_eq_toNat_of_lt (by omega), hsum]
      rfl
    refine hl.iImm_eq ?_ (by omega) (by omega)
    rw [hf7, hsum, show (0x20#32).toNat = 32 from rfl]
    omega
  · refine hl.iImm_eq ?_ (by omega) (by omega)
    rw [hf7, show (0x00#32).toNat = 0 from rfl]
    omega

end

theorem decodes_bare :
    Encoder.Decodes ⟨.bare, .fence, fun _ => fence⟩ ∧ Encoder.Decodes ⟨.bare, .ecall, fun _ => ecall⟩ ∧
      Encoder.Decodes ⟨.bare, .ebreak, fun _ => ebreak⟩ := by
  have hfence : (decode fence).op = .fence ∧ (decode fence).imm = 0 := by decide
  have hecall : (decode ecall).op = .ecall ∧ (decode ecall).imm = 0 := by decide
  have hebreak : (decode ebreak).op = .ebreak ∧ (decode ebreak).imm = 0 := by decide
  exact ⟨fun _ _ => hfence, fun _ _ => hecall, fun _ _ => hebreak⟩

/-- Each arm is decided by the opcode, `funct3` and, for some, `funct7`. -/
theorem encoder_decodes : ∀ e ∈ encoders, e.Decodes := by
  simp only [encoders, List.forall_mem_cons]
  obtain ⟨hfence, hecall, hebreak⟩ := decodes_bare
  refine ⟨?_, ?_, ?_, ?_, ?_, ?_, ?_, ?_, ?_, ?_, ?_, ?_, ?_, ?_, ?_, ?_, ?_, ?_, ?_, ?_, ?_, ?_, ?_, ?_,
    ?_, ?_, ?_, ?_, ?_, ?_, ?_, ?_, ?_, ?_, ?_, ?_, ?_, ?_, ?_, ?_, ?_, ?_, ?_, ?_, ?_, hfence, hecall,
    hebreak, ?_, fun e he => absurd he List.not_mem_nil⟩
  iterate 2 exact decodes_uType (by decide) fun w h1 => by simp only [decode, h1]; rfl
  · exact decodes_jType (by decide) fun w h1 => by simp only [decode, h1]; rfl
  · exact decodes_iType (by decide) (by decide) fun w h1 h2 => by simp only [decode, h1, h2]; rfl
  iterate 6
    exact decodes_bType (by decide) (by decide) fun w h1 h2 => by simp only [decode, h1, h2]; rfl
  iterate 5
    exact decodes_iType (by decide) (by decide) fun w h1 h2 => by simp only [decode, h1, h2]; rfl
  iterate 3
    exact decodes_sType (by decide) (by decide) fun w h1 h2 => by simp only [decode, h1, h2]; rfl
  iterate 6
    exact decodes_iType (by decide) (by decide) fun w h1 h2 => by simp only [decode, h1, h2]; rfl
  iterate 3
    exact decodes_shift (by decide) (by decide) rfl fun w h1 h2 h3 => by
      simp only [decode, h1, h2, h3]; rfl
  iterate 18
    exact decodes_rType (by decide) (by decide) (by decide) fun w h1 h2 h3 => by
      simp only [decode, h1, h2, h3]; rfl
  · exact decodes_iType (by decide) (by decide) fun w h1 h2 => by simp only [decode, h1, h2]; rfl

end ClickDoom.Asm

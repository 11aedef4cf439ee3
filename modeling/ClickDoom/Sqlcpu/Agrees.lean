import ClickDoom.Base.Fields
import ClickDoom.Sqlcpu.Decode
import ClickDoom.Refemu.Exec

/-! # The decode table agrees with the reference decoder

A row of the table is the reference decoder's instruction laid out for the fold:
arms that compute alike share one dispatch id, a target or a constant relative to
the program counter is already absolute, and a shift amount is already masked.
The two sides gather the bits of an immediate in different orders and extend its
sign in different ways; the first section brings both to numbers.
-/
namespace ClickDoom
open ClickHouse
open BitField (toNat_field toNat_field_inPlace toNat_field_shifted)

/-! ## The immediates -/

section
variable (wordAddr value : Word)

theorem signOff_eq (off : Word) :
    signOff value off = if value.toNat / 2 ^ 31 % 2 = 1 then off else 0 := by
  have h : (value &&& 2147483648#32).toNat = value.toNat / 2 ^ 31 % 2 * 2 ^ 31 := by
    have := toNat_field_inPlace value 0 31 1 (m := 2147483648#32) rfl
    simpa using this
  have hne : value &&& 2147483648#32 ≠ 0 ↔ value.toNat / 2 ^ 31 % 2 = 1 := by
    rw [Ne.eq_def, ← BitVec.toNat_inj, h, show (0 : Word).toNat = 0 from rfl]
    omega
  rw [signOff, if_congr hne rfl rfl]

/-- Twelve bits with the sign at the top, as the query extends them. -/
theorem sub_signOff_eq_sext {x : Word} (hx : x.toNat < 2 ^ 12)
    (hsign : x.toNat < 2 ^ 11 ↔ ¬value.toNat / 2 ^ 31 % 2 = 1) :
    x - signOff value 4096 = sext x 12 := by
  have h : sext x 12 = if x.toNat < 2 ^ 11 then x else x - 4096 :=
    BitField.sext_eq (by omega) (by omega) hx
  rw [h, signOff_eq]
  by_cases hs : value.toNat / 2 ^ 31 % 2 = 1
  · rw [if_pos hs, if_neg (fun hlt => hsign.mp hlt hs)]
  · rw [if_neg hs, if_pos (hsign.mpr hs), sub_zero]

theorem iimm_eq : (fields wordAddr value).iimm = iImm value := by
  have hv := value.isLt
  have hx : (value >>> 20).toNat = value.toNat / 2 ^ 20 := by
    rw [BitVec.toNat_ushiftRight, Nat.shiftRight_eq_div_pow]
  apply sub_signOff_eq_sext
  · omega
  · omega

theorem simm_eq : (fields wordAddr value).simm = sImm value := by
  have hv := value.isLt
  have hhigh : ((value &&& 4294967295#32) >>> 25) * 32#32 = ((value >>> 25) &&& 0x7F#32) <<< 5 := by
    apply BitVec.eq_of_toNat_eq
    rw [show value &&& 4294967295#32 = value from BitVec.and_allOnes, BitVec.toNat_mul,
      toNat_field_shifted value 25 7 5 rfl (by omega), BitVec.toNat_ushiftRight,
      Nat.shiftRight_eq_div_pow, show (32#32).toNat = 32 from rfl]
    omega
  have hA : (((value >>> 25) &&& 0x7F#32) <<< 5).toNat = value.toNat / 2 ^ 25 % 2 ^ 7 * 2 ^ 5 :=
    toNat_field_shifted value 25 7 5 rfl (by omega)
  have hB : ((value >>> 7) &&& 0x1F#32).toNat = value.toNat / 2 ^ 7 % 2 ^ 5 :=
    toNat_field value 7 5 rfl
  have hx := BitField.toNat_or (x := ((value >>> 25) &&& 0x7F#32) <<< 5)
    (y := (value >>> 7) &&& 0x1F#32) 5 (by omega) (by omega)
  have hseven : value.toNat / 2 ^ 25 % 2 ^ 7 = value.toNat / 2 ^ 25 := by omega
  change (((value &&& 4294967295#32) >>> 25) * 32#32 ||| ((value >>> 7) &&& 31#32)) -
    signOff value 4096 = _
  rw [hhigh]
  apply sub_signOff_eq_sext
  · omega
  · omega

/-- The bits of a branch offset below its sign, gathered in another order. -/
theorem bimm_eq : (fields wordAddr value).bimm = bImm value := by
  have hA := toNat_field_shifted value 31 1 12 (m := 0x1#32) rfl (by omega)
  have hB := toNat_field_shifted value 7 1 11 (m := 0x1#32) rfl (by omega)
  have hC := toNat_field_shifted value 25 6 5 (m := 0x3F#32) rfl (by omega)
  have hD := toNat_field_shifted value 8 4 1 (m := 0xF#32) rfl (by omega)
  have hD' := toNat_field_inPlace value 7 1 4 (m := 30#32) rfl
  have hC' := toNat_field_inPlace value 20 5 6 (m := 2016#32) rfl
  rw [bImm]
  change ((value >>> 7) &&& 30#32) + ((value >>> 20) &&& 2016#32) +
    (((value >>> 7) &&& 1#32) <<< 11) - signOff value 4096 = BitField.sext _ (12 + 1)
  generalize ((value >>> 31) &&& 0x1#32) <<< 12 = A at hA ⊢
  generalize ((value >>> 7) &&& 0x1#32) <<< 11 = B at hB ⊢
  generalize ((value >>> 25) &&& 0x3F#32) <<< 5 = C at hC ⊢
  generalize ((value >>> 8) &&& 0xF#32) <<< 1 = D at hD ⊢
  generalize (value >>> 7) &&& 30#32 = D' at hD' ⊢
  generalize (value >>> 20) &&& 2016#32 = C' at hC' ⊢
  have hrest : (D' + C' + B).toNat = B.toNat + C.toNat + D.toNat := by
    rw [BitVec.toNat_add, BitVec.toNat_add, show C'.toNat = C.toNat from hC'.trans hC.symm,
      show D'.toNat = D.toNat from hD'.trans hD.symm]
    omega
  have hAB : (A ||| B).toNat = A.toNat + B.toNat := BitField.toNat_or 12 (by omega) (by omega)
  have hABC : (A ||| B ||| C).toNat = (A ||| B).toNat + C.toNat :=
    BitField.toNat_or 11 (by omega) (by omega)
  have hx : (A ||| B ||| C ||| D).toNat = (A ||| B ||| C).toNat + D.toNat :=
    BitField.toNat_or 5 (by omega) (by omega)
  rw [BitField.sext_sign (by omega) (show value.toNat / 2 ^ 31 % 2 ≤ 1 by omega)
    (show (D' + C' + B).toNat < 2 ^ 12 by omega) (by omega), signOff_eq]
  rfl

/-- The bits of a jump offset below its sign, gathered in another order. -/
theorem jimm_eq : (fields wordAddr value).jimm = jImm value := by
  have hA := toNat_field_shifted value 31 1 20 (m := 0x1#32) rfl (by omega)
  have hB := toNat_field_shifted value 12 8 12 (m := 0xFF#32) rfl (by omega)
  have hC := toNat_field_shifted value 20 1 11 (m := 0x1#32) rfl (by omega)
  have hD := toNat_field_shifted value 21 10 1 (m := 0x3FF#32) rfl (by omega)
  have hD' := toNat_field_inPlace value 20 1 10 (m := 2046#32) rfl
  have hB' : (value &&& 1044480#32).toNat = value.toNat / 2 ^ 12 % 2 ^ 8 * 2 ^ 12 := by
    simpa using toNat_field_inPlace value 0 12 8 (m := 1044480#32) rfl
  rw [jImm]
  change ((value >>> 20) &&& 2046#32) + (((value >>> 20) &&& 1#32) <<< 11) +
    (value &&& 1044480#32) - signOff value 1048576 = BitField.sext _ (20 + 1)
  generalize ((value >>> 31) &&& 0x1#32) <<< 20 = A at hA ⊢
  generalize ((value >>> 12) &&& 0xFF#32) <<< 12 = B at hB ⊢
  generalize ((value >>> 20) &&& 0x1#32) <<< 11 = C at hC ⊢
  generalize ((value >>> 21) &&& 0x3FF#32) <<< 1 = D at hD ⊢
  generalize (value >>> 20) &&& 2046#32 = D' at hD' ⊢
  generalize value &&& 1044480#32 = B' at hB' ⊢
  have hrest : (D' + C + B').toNat = B.toNat + C.toNat + D.toNat := by
    rw [BitVec.toNat_add, BitVec.toNat_add, show B'.toNat = B.toNat from hB'.trans hB.symm,
      show D'.toNat = D.toNat from hD'.trans hD.symm]
    omega
  have hAB : (A ||| B).toNat = A.toNat + B.toNat := BitField.toNat_or 20 (by omega) (by omega)
  have hABC : (A ||| B ||| C).toNat = (A ||| B).toNat + C.toNat :=
    BitField.toNat_or 12 (by omega) (by omega)
  have hx : (A ||| B ||| C ||| D).toNat = (A ||| B ||| C).toNat + D.toNat :=
    BitField.toNat_or 11 (by omega) (by omega)
  rw [BitField.sext_sign (by omega) (show value.toNat / 2 ^ 31 % 2 ≤ 1 by omega)
    (show (D' + C + B').toNat < 2 ^ 20 by omega) (by omega), signOff_eq]
  rfl

theorem f7_eq : (fields wordAddr value).f7 = (value >>> 25) &&& 0x7F#32 := by
  apply BitVec.eq_of_toNat_eq
  have hv := value.isLt
  rw [toNat_field value 25 7 rfl]
  change (value >>> 25).toNat = _
  rw [BitVec.toNat_ushiftRight, Nat.shiftRight_eq_div_pow]
  omega

theorem sysimm_eq : (fields wordAddr value).sysimm = value >>> 20 := by
  apply BitVec.eq_of_toNat_eq
  have hv := value.isLt
  change ((value >>> 20) &&& 4095#32).toNat = _
  rw [toNat_field value 20 12 rfl, BitVec.toNat_ushiftRight, Nat.shiftRight_eq_div_pow]
  omega

/-- The low five bits of an immediate are the shift amount. -/
theorem iImm_and_31 : iImm value &&& 31#32 = (value >>> 20) &&& 31#32 := by
  have hlow : ∀ x : Word, (x &&& 31#32).toNat = x.toNat % 2 ^ 5 := fun x => by
    simpa using toNat_field x 0 5 (m := 31#32) rfl
  apply BitVec.eq_of_toNat_eq
  rw [← iimm_eq 0 value, hlow, hlow]
  change ((value >>> 20) - signOff value 4096).toNat % 2 ^ 5 = _
  rw [signOff_eq]
  split_ifs
  · rw [BitVec.toNat_sub, show (4096 : Word).toNat = 4096 from rfl]
    omega
  · rw [sub_zero]

end

/-! ## The row of an instruction -/

/-- The dispatch id of an arm. -/
def dispatchId : Op → Byte
  | .lui | .auipc | .fence | .addi | .add => 0
  | .sub => 1
  | .slli | .sll => 2
  | .slti | .slt => 3
  | .sltiu | .sltu => 4
  | .xori | .xor => 5
  | .srli | .srl => 6
  | .srai | .sra => 7
  | .ori | .or => 8
  | .andi | .and => 9
  | .mul => 10
  | .mulh => 11
  | .mulhsu => 12
  | .mulhu => 13
  | .div => 14
  | .divu => 15
  | .rem => 16
  | .remu => 17
  | .lb | .lh | .lw | .lbu | .lhu => opLoad
  | .sb | .sh | .sw => opStore
  | .beq => 20
  | .bne => 21
  | .blt => 22
  | .bge => 23
  | .bltu => 24
  | .bgeu => 25
  | .jal => 26
  | .jalr => 27
  | .ecall => opEcall
  | .ebreak => opEbreak
  | .csr => opCsr
  | .illegal => opIllegal

def widthMask : Width → Word
  | .byte => 255
  | .half => 65535
  | .word => 4294967295

/-- A word load needs no extension and has no sign column. -/
def signColumn : Op → Byte
  | .lb | .lh => 1
  | _ => 0

/-- The row an instruction at `pc` should have. -/
def rowOf (pc word : Word) (insn : Instruction) : DecRow :=
  let id := dispatchId insn.op
  let rd := insn.rd.setWidth 8
  let rs1 := insn.rs1.setWidth 8
  let rs2 := insn.rs2.setWidth 8
  match insn.op with
  | .lui => .row id rd 0 0 insn.imm 0 0 0 word
  | .auipc => .row id rd 0 0 (pc + insn.imm) 0 0 0 word
  | .jal => .row id rd 0 0 0 (pc + insn.imm) 0 0 word
  | .jalr => .row id rd rs1 0 insn.imm 0 0 0 word
  | .beq | .bne | .blt | .bge | .bltu | .bgeu => .row id 0 rs1 rs2 0 (pc + insn.imm) 0 0 word
  | .lb | .lh | .lw | .lbu | .lhu =>
    .row id rd rs1 0 insn.imm 0 (widthMask (loadShape insn.op).1) (signColumn insn.op) word
  | .sb | .sh | .sw => .row id 0 rs1 rs2 insn.imm 0 (widthMask (storeWidth insn.op)) 0 word
  | .addi | .slti | .sltiu | .xori | .ori | .andi => .row id rd rs1 0 insn.imm 0 0 0 word
  | .slli | .srli | .srai => .row id rd rs1 0 (insn.imm &&& 31#32) 0 0 0 word
  | .fence | .ecall | .ebreak | .csr | .illegal => .row id 0 0 0 0 0 0 0 word
  | _ => .row id rd rs1 rs2 0 0 0 0 word

/-- Two rows the fold cannot tell apart: the arms that always halt read no
column but the id and the word. -/
structure DecRow.Same (d d' : DecRow) : Prop where
  id : d.id = d'.id
  raw : d.raw = d'.raw
  row : d'.id < opEcall → d = d'

namespace DecRow.Same

theorem of_eq {d d' : DecRow} (h : d = d') : d.Same d' := by
  subst h
  exact ⟨rfl, rfl, fun _ => rfl⟩

theorem halting {d d' : DecRow} (i : Byte) (hid : d.id = i) (hid' : d'.id = i)
    (hraw : d.raw = d'.raw) (hi : ¬i < opEcall) : d.Same d' :=
  ⟨hid.trans hid'.symm, hraw, fun hlt => absurd (hid' ▸ hlt) hi⟩

end DecRow.Same

theorem funct3_lt (value : Word) : ((value >>> 12) &&& 7#32).toNat < 8 := by
  rw [toNat_field value 12 3 rfl]
  omega

/-- The eight values of a function-three field. -/
theorem funct3_cases (value : Word) :
    let f3 := (value >>> 12) &&& 7#32
    f3 = 0 ∨ f3 = 1 ∨ f3 = 2 ∨ f3 = 3 ∨ f3 = 4 ∨ f3 = 5 ∨ f3 = 6 ∨ f3 = 7 := by
  intro f3
  have hlt : f3.toNat < 8 := funct3_lt value
  have hof : f3 = BitVec.ofNat 32 f3.toNat := by simp
  rw [hof]
  interval_cases f3.toNat <;> simp

/-- A register column holds the five bits of the field. -/
theorem setWidth_reg (x : Word) :
    (x &&& 31#32).setWidth 8 = ((x &&& 0x1F#32).setWidth 5).setWidth 8 := by
  apply BitVec.eq_of_toNat_eq
  have h : (x &&& 31#32).toNat = x.toNat % 2 ^ 5 := by
    simpa using toNat_field x 0 5 (m := 31#32) rfl
  rw [BitVec.toNat_setWidth, BitVec.toNat_setWidth, BitVec.toNat_setWidth, h]
  omega

/-! ## One lemma for each opcode -/

section
variable {wordAddr value : Word}

/-- What the decoder says of a word is laid out in its row. -/
def RowAgrees (wordAddr value : Word) : Prop :=
  (decodedRow wordAddr value).dec.Same (rowOf (wordAddr * 4#32) value (decode value))

theorem rowAgrees_lui (hop : value &&& 0x7F#32 = 0x37#32) : RowAgrees wordAddr value := by
  have hins : decode value = insn value (some .lui) (value &&& 0xFFFFF000#32) := by
    simp only [decode, hop]
    rfl
  rw [RowAgrees, hins]
  apply DecRow.Same.of_eq
  simp only [decodedRow, decodedId, decodedReg, decodedImm, decodedTgt, decodedMk, fields, hop,
    setWidth_reg]
  rfl

theorem rowAgrees_auipc (hop : value &&& 0x7F#32 = 0x17#32) : RowAgrees wordAddr value := by
  have hins : decode value = insn value (some .auipc) (value &&& 0xFFFFF000#32) := by
    simp only [decode, hop]
    rfl
  rw [RowAgrees, hins]
  apply DecRow.Same.of_eq
  simp only [decodedRow, decodedId, decodedReg, decodedImm, decodedTgt, decodedMk, fields, hop,
    setWidth_reg]
  rfl

theorem rowAgrees_jal (hop : value &&& 0x7F#32 = 0x6F#32) : RowAgrees wordAddr value := by
  have hins : decode value = insn value (some .jal) (jImm value) := by
    simp only [decode, hop]
    rfl
  rw [RowAgrees, hins, ← jimm_eq wordAddr]
  apply DecRow.Same.of_eq
  simp only [decodedRow, decodedId, decodedReg, decodedImm, decodedTgt, decodedMk, fields, hop,
    setWidth_reg]
  rfl

theorem rowAgrees_fence (hop : value &&& 0x7F#32 = 0x0F#32) : RowAgrees wordAddr value := by
  have hins : decode value = insn value (some .fence) 0 := by
    simp only [decode, hop]
    rfl
  rw [RowAgrees, hins]
  apply DecRow.Same.of_eq
  simp only [decodedRow, decodedId, decodedReg, decodedImm, decodedTgt, decodedMk, fields, hop]
  rfl

theorem rowAgrees_jalr (hop : value &&& 0x7F#32 = 0x67#32) : RowAgrees wordAddr value := by
  have hins : decode value =
      insn value (if (value >>> 12) &&& 7#32 = 0 then some .jalr else none) (iImm value) := by
    simp only [decode, hop]
    rfl
  rw [RowAgrees, hins, ← iimm_eq wordAddr]
  by_cases hf : (value >>> 12) &&& 7#32 = 0
  · apply DecRow.Same.of_eq
    simp only [decodedRow, decodedId, decodedReg, decodedImm, decodedTgt, decodedMk, fields, hop,
      hf, setWidth_reg]
    rfl
  · rw [if_neg hf]
    refine .halting opIllegal ?_ rfl rfl (by decide)
    simpa [decodedRow, decodedId, fields, hop, opIllegal] using hf

theorem rowAgrees_branch (hop : value &&& 0x7F#32 = 0x63#32) : RowAgrees wordAddr value := by
  have hid : decodedId (fields wordAddr value) =
      (branchOp ((value >>> 12) &&& 7#32)).elim opIllegal dispatchId := by
    simp only [decodedId, fields, hop]
    rcases funct3_cases value with h | h | h | h | h | h | h | h <;> rw [h] <;> rfl
  have hdec : (decodedRow wordAddr value).dec =
      .row ((branchOp ((value >>> 12) &&& 7#32)).elim opIllegal dispatchId) 0
        ((((value >>> 15) &&& 0x1F#32).setWidth 5).setWidth 8)
        ((((value >>> 20) &&& 0x1F#32).setWidth 5).setWidth 8) 0
        (wordAddr * 4#32 + bImm value) 0 0 value := by
    rw [← hid, ← bimm_eq wordAddr, ← setWidth_reg, ← setWidth_reg]
    simp only [decodedRow, decodedReg, decodedImm, decodedTgt, decodedMk, flag, fields, hop]
    rfl
  have hins : decode value = insn value (branchOp ((value >>> 12) &&& 7#32)) (bImm value) := by
    simp only [decode, hop]
    rfl
  rw [RowAgrees, hdec, hins]
  rcases funct3_cases value with h | h | h | h | h | h | h | h <;> rw [h] <;>
    first
    | exact .of_eq rfl
    | exact .halting opIllegal rfl rfl rfl (by decide)

theorem rowAgrees_load (hop : value &&& 0x7F#32 = 0x03#32) : RowAgrees wordAddr value := by
  have hins : decode value = insn value (loadOp ((value >>> 12) &&& 7#32)) (iImm value) := by
    simp only [decode, hop]
    rfl
  have hid : decodedId (fields wordAddr value) =
      (loadOp ((value >>> 12) &&& 7#32)).elim opIllegal dispatchId := by
    simp only [decodedId, fields, hop]
    rcases funct3_cases value with h | h | h | h | h | h | h | h <;> rw [h] <;> rfl
  have hmk : decodedMk (fields wordAddr value) =
      (loadOp ((value >>> 12) &&& 7#32)).elim 0 fun op => widthMask (loadShape op).1 := by
    simp only [decodedMk, fields, hop]
    rcases funct3_cases value with h | h | h | h | h | h | h | h <;> rw [h] <;> rfl
  have hsg : (decodedRow wordAddr value).dec.sg =
      (loadOp ((value >>> 12) &&& 7#32)).elim 0 signColumn := by
    simp only [decodedRow, flag, fields, hop]
    rcases funct3_cases value with h | h | h | h | h | h | h | h <;> rw [h] <;> rfl
  have hdec : (decodedRow wordAddr value).dec =
      .row ((loadOp ((value >>> 12) &&& 7#32)).elim opIllegal dispatchId)
        ((((value >>> 7) &&& 0x1F#32).setWidth 5).setWidth 8)
        ((((value >>> 15) &&& 0x1F#32).setWidth 5).setWidth 8) 0 (iImm value) 0
        ((loadOp ((value >>> 12) &&& 7#32)).elim 0 fun op => widthMask (loadShape op).1)
        ((loadOp ((value >>> 12) &&& 7#32)).elim 0 signColumn) value := by
    rw [← hid, ← hmk, ← hsg, ← iimm_eq wordAddr, ← setWidth_reg, ← setWidth_reg]
    simp only [decodedRow, decodedReg, decodedImm, decodedTgt, fields, hop]
    rfl
  rw [RowAgrees, hdec, hins]
  rcases funct3_cases value with h | h | h | h | h | h | h | h <;> rw [h] <;>
    first
    | exact .of_eq rfl
    | exact .halting opIllegal rfl rfl rfl (by decide)

theorem rowAgrees_store (hop : value &&& 0x7F#32 = 0x23#32) : RowAgrees wordAddr value := by
  have hins : decode value = insn value (storeOp ((value >>> 12) &&& 7#32)) (sImm value) := by
    simp only [decode, hop]
    rfl
  have hid : decodedId (fields wordAddr value) =
      (storeOp ((value >>> 12) &&& 7#32)).elim opIllegal dispatchId := by
    simp only [decodedId, fields, hop]
    rcases funct3_cases value with h | h | h | h | h | h | h | h <;> rw [h] <;> rfl
  have hmk : decodedMk (fields wordAddr value) =
      (storeOp ((value >>> 12) &&& 7#32)).elim 0 fun op => widthMask (storeWidth op) := by
    simp only [decodedMk, fields, hop]
    rcases funct3_cases value with h | h | h | h | h | h | h | h <;> rw [h] <;> rfl
  have hdec : (decodedRow wordAddr value).dec =
      .row ((storeOp ((value >>> 12) &&& 7#32)).elim opIllegal dispatchId) 0
        ((((value >>> 15) &&& 0x1F#32).setWidth 5).setWidth 8)
        ((((value >>> 20) &&& 0x1F#32).setWidth 5).setWidth 8) (sImm value) 0
        ((storeOp ((value >>> 12) &&& 7#32)).elim 0 fun op => widthMask (storeWidth op)) 0
        value := by
    rw [← hid, ← hmk, ← simm_eq wordAddr, ← setWidth_reg, ← setWidth_reg]
    simp only [decodedRow, decodedReg, decodedImm, decodedTgt, flag, fields, hop]
    rfl
  rw [RowAgrees, hdec, hins]
  rcases funct3_cases value with h | h | h | h | h | h | h | h <;> rw [h] <;>
    first
    | exact .of_eq rfl
    | exact .halting opIllegal rfl rfl rfl (by decide)

theorem rowAgrees_imm (hop : value &&& 0x7F#32 = 0x13#32) : RowAgrees wordAddr value := by
  have hf7 : value >>> 25 = (value >>> 25) &&& 0x7F#32 := f7_eq 0 value
  have hins : decode value =
      insn value (immOp ((value >>> 12) &&& 7#32) ((value >>> 25) &&& 0x7F#32)) (iImm value) := by
    simp only [decode, hop]
    rfl
  have hid : decodedId (fields wordAddr value) =
      (immOp ((value >>> 12) &&& 7#32) ((value >>> 25) &&& 0x7F#32)).elim opIllegal dispatchId := by
    simp only [decodedId, fields, hop]
    rw [← hf7]
    generalize value >>> 25 = f7
    rcases funct3_cases value with h | h | h | h | h | h | h | h <;> rw [h] <;>
      by_cases h0 : f7 = 0#32 <;> by_cases h32 : f7 = 32#32 <;>
        simp [immOp, dispatchId, opIllegal, h0, h32]
  have himm : decodedImm (fields wordAddr value) =
      if (value >>> 12) &&& 7#32 = 1 ∨ (value >>> 12) &&& 7#32 = 5 then iImm value &&& 31#32
      else iImm value := by
    rw [iImm_and_31, ← iimm_eq wordAddr]
    simp only [decodedImm, fields, hop]
    rcases funct3_cases value with h | h | h | h | h | h | h | h <;> rw [h] <;> rfl
  have hdec : (decodedRow wordAddr value).dec =
      .row ((immOp ((value >>> 12) &&& 7#32) ((value >>> 25) &&& 0x7F#32)).elim opIllegal
          dispatchId)
        ((((value >>> 7) &&& 0x1F#32).setWidth 5).setWidth 8)
        ((((value >>> 15) &&& 0x1F#32).setWidth 5).setWidth 8) 0
        (if (value >>> 12) &&& 7#32 = 1 ∨ (value >>> 12) &&& 7#32 = 5 then iImm value &&& 31#32
          else iImm value) 0 0 0 value := by
    rw [← hid, ← himm, ← setWidth_reg, ← setWidth_reg]
    simp only [decodedRow, decodedReg, decodedTgt, decodedMk, flag, fields, hop]
    rfl
  rw [RowAgrees, hdec, hins]
  generalize (value >>> 25) &&& 0x7F#32 = f7
  rcases funct3_cases value with h | h | h | h | h | h | h | h <;> rw [h]
  case inr.inl =>
    by_cases h0 : f7 = 0#32
    · subst h0
      exact .of_eq rfl
    · rw [show immOp 1 f7 = none by simp [immOp, h0]]
      exact .halting opIllegal rfl rfl rfl (by decide)
  case inr.inr.inr.inr.inr.inl =>
    by_cases h0 : f7 = 0#32
    · subst h0
      exact .of_eq rfl
    · by_cases h32 : f7 = 32#32
      · subst h32
        exact .of_eq rfl
      · rw [show immOp 5 f7 = none by simp [immOp, h0, h32]]
        exact .halting opIllegal rfl rfl rfl (by decide)
  all_goals exact .of_eq rfl

/-- The arm of a register instruction: the multiply extension's, or another. -/
def regArm (funct3 funct7 : Word) : Option Op :=
  if funct7 = 1#32 then some (mulOp funct3) else regOp funct3 funct7

theorem regArm_other (funct3 : Word) {funct7 : Word} (h0 : funct7 ≠ 0#32) (h1 : funct7 ≠ 1#32)
    (h32 : funct7 ≠ 32#32) : regArm funct3 funct7 = none := by
  simp [regArm, regOp, h0, h1, h32]

theorem rowAgrees_reg (hop : value &&& 0x7F#32 = 0x33#32) : RowAgrees wordAddr value := by
  have hf7 : value >>> 25 = (value >>> 25) &&& 0x7F#32 := f7_eq 0 value
  have hins : decode value =
      insn value (regArm ((value >>> 12) &&& 7#32) ((value >>> 25) &&& 0x7F#32)) 0 := by
    simp only [decode, hop, regArm]
    by_cases h1 : (value >>> 25) &&& 0x7F#32 = 1#32
    · rw [h1]
      rfl
    · simp [h1]
  have hid : decodedId (fields wordAddr value) =
      (regArm ((value >>> 12) &&& 7#32) ((value >>> 25) &&& 0x7F#32)).elim opIllegal dispatchId := by
    simp only [decodedId, fields, hop]
    rw [← hf7]
    generalize value >>> 25 = f7
    by_cases h0 : f7 = 0#32
    · subst h0
      rcases funct3_cases value with h | h | h | h | h | h | h | h <;> rw [h] <;> rfl
    by_cases h1 : f7 = 1#32
    · subst h1
      rcases funct3_cases value with h | h | h | h | h | h | h | h <;> rw [h] <;> rfl
    by_cases h32 : f7 = 32#32
    · subst h32
      rcases funct3_cases value with h | h | h | h | h | h | h | h <;> rw [h] <;> rfl
    rw [regArm_other _ h0 h1 h32]
    simp [h0, h1, h32, opIllegal]
  have hdec : (decodedRow wordAddr value).dec =
      .row ((regArm ((value >>> 12) &&& 7#32) ((value >>> 25) &&& 0x7F#32)).elim opIllegal
          dispatchId)
        ((((value >>> 7) &&& 0x1F#32).setWidth 5).setWidth 8)
        ((((value >>> 15) &&& 0x1F#32).setWidth 5).setWidth 8)
        ((((value >>> 20) &&& 0x1F#32).setWidth 5).setWidth 8) 0 0 0 0 value := by
    rw [← hid, ← setWidth_reg, ← setWidth_reg, ← setWidth_reg]
    simp only [decodedRow, decodedReg, decodedImm, decodedTgt, decodedMk, flag, fields, hop]
    rfl
  rw [RowAgrees, hdec, hins]
  generalize (value >>> 25) &&& 0x7F#32 = f7
  by_cases h0 : f7 = 0#32
  · subst h0
    rcases funct3_cases value with h | h | h | h | h | h | h | h <;> rw [h] <;> exact .of_eq rfl
  by_cases h1 : f7 = 1#32
  · subst h1
    rcases funct3_cases value with h | h | h | h | h | h | h | h <;> rw [h] <;> exact .of_eq rfl
  by_cases h32 : f7 = 32#32
  · subst h32
    rcases funct3_cases value with h | h | h | h | h | h | h | h <;> rw [h] <;>
      first
      | exact .of_eq rfl
      | exact .halting opIllegal rfl rfl rfl (by decide)
  rw [regArm_other _ h0 h1 h32]
  exact .halting opIllegal rfl rfl rfl (by decide)

theorem rowAgrees_system (hop : value &&& 0x7F#32 = 0x73#32) : RowAgrees wordAddr value := by
  have hins : decode value = insn value (systemOp ((value >>> 12) &&& 7#32) value)
      (if (value >>> 12) &&& 7#32 = 0 then 0 else iImm value) := by
    simp only [decode, hop]
    rfl
  have hid : decodedId (fields wordAddr value) =
      (systemOp ((value >>> 12) &&& 7#32) value).elim opIllegal dispatchId := by
    have hsys := sysimm_eq wordAddr value
    simp only [decodedId, hsys]
    simp only [fields, hop, systemOp]
    generalize value >>> 20 = imm
    rcases funct3_cases value with h | h | h | h | h | h | h | h <;> rw [h] <;>
      first
      | rfl
      | (by_cases h0 : imm = 0#32 <;> by_cases h1 : imm = 1#32 <;>
          simp [dispatchId, opIllegal, opEcall, opEbreak, h0, h1])
  have hop' : ∀ o : Option Op, o = systemOp ((value >>> 12) &&& 7#32) value →
      o = none ∨ o = some .ecall ∨ o = some .ebreak ∨ o = some .csr := by
    rintro o rfl
    rw [systemOp]
    split_ifs <;> simp
  rw [RowAgrees, hins]
  rcases hop' _ rfl with h | h | h | h <;> rw [h] at hid ⊢
  · exact .halting opIllegal hid rfl rfl (by decide)
  · exact .halting opEcall hid rfl rfl (by decide)
  · exact .halting opEbreak hid rfl rfl (by decide)
  · exact .halting opCsr hid rfl rfl (by decide)

/-- **The decode table is the reference decoder.**  The row of a word at an
address is its instruction laid out for that address. -/
theorem rowAgrees (wordAddr value : Word) : RowAgrees wordAddr value := by
  by_cases h37 : value &&& 0x7F#32 = 0x37#32
  · exact rowAgrees_lui h37
  by_cases h17 : value &&& 0x7F#32 = 0x17#32
  · exact rowAgrees_auipc h17
  by_cases h6F : value &&& 0x7F#32 = 0x6F#32
  · exact rowAgrees_jal h6F
  by_cases h67 : value &&& 0x7F#32 = 0x67#32
  · exact rowAgrees_jalr h67
  by_cases h63 : value &&& 0x7F#32 = 0x63#32
  · exact rowAgrees_branch h63
  by_cases h03 : value &&& 0x7F#32 = 0x03#32
  · exact rowAgrees_load h03
  by_cases h23 : value &&& 0x7F#32 = 0x23#32
  · exact rowAgrees_store h23
  by_cases h13 : value &&& 0x7F#32 = 0x13#32
  · exact rowAgrees_imm h13
  by_cases h33 : value &&& 0x7F#32 = 0x33#32
  · exact rowAgrees_reg h33
  by_cases h0F : value &&& 0x7F#32 = 0x0F#32
  · exact rowAgrees_fence h0F
  by_cases h73 : value &&& 0x7F#32 = 0x73#32
  · exact rowAgrees_system h73
  have hins : decode value = .illegal := by
    simp [decode, h37, h17, h6F, h67, h63, h03, h23, h13, h33, h0F, h73]
  have hid : decodedId (fields wordAddr value) = opIllegal := by
    simp [decodedId, fields, h37, h17, h6F, h67, h63, h03, h23, h13, h33, h0F, h73, opIllegal]
  rw [RowAgrees, hins]
  exact .halting opIllegal hid rfl rfl (by decide)

end
end ClickDoom

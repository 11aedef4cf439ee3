import ClickDoom.Refemu.Asm
import ClickDoom.Sqlcpu.Agrees

/-! # Assembled words in the decode table

What `decode.sql` computes for a word an encoder built: the dispatch id of the
encoder's arm, and the immediate in the column the arm reads it from.
-/
namespace ClickDoom.Asm
open ClickHouse

/-- The columns an immediate ends up in, `imm` and `tgt`, for an instruction at
`pc`: a jump or a branch has its target there, an `auipc` its sum, a shift its
amount, and an arm that always halts nothing. -/
def immColumns (pc : Word) (insn : Instruction) : Word × Word :=
  match insn.op with
  | .auipc => (pc + insn.imm, 0)
  | .jal | .beq | .bne | .blt | .bge | .bltu | .bgeu => (0, pc + insn.imm)
  | .slli | .srli | .srai => (insn.imm &&& 31#32, 0)
  | .lui | .jalr | .lb | .lh | .lw | .lbu | .lhu | .sb | .sh | .sw | .addi | .slti | .sltiu | .xori
  | .ori | .andi => (insn.imm, 0)
  | _ => (0, 0)

/-- The arms that halt by name. -/
def system (op : Op) : Bool := op == .ecall || op == .ebreak || op == .csr

section
variable {w imm f3 f7 : Word}

theorem system_insn {o : Option Op} (ho : ∀ op ∈ o, system op = false) :
    system (insn w o imm).op = false := by
  cases o with
  | none => rfl
  | some op => exact ho op rfl

theorem system_of_mem_ite {c : Prop} [Decidable c] {op : Op} {o : Option Op}
    (hop : system op = false) (ho : ∀ arm ∈ o, system arm = false) :
    ∀ arm ∈ (if c then some op else o), system arm = false := by
  split
  · rintro arm ⟨⟩
    exact hop
  · exact ho

theorem system_branchOp : ∀ op ∈ branchOp f3, system op = false := by
  unfold branchOp
  iterate 6 refine system_of_mem_ite rfl ?_
  exact fun _ h => absurd h (Option.not_mem_none _)

theorem system_loadOp : ∀ op ∈ loadOp f3, system op = false := by
  unfold loadOp
  iterate 5 refine system_of_mem_ite rfl ?_
  exact fun _ h => absurd h (Option.not_mem_none _)

theorem system_storeOp : ∀ op ∈ storeOp f3, system op = false := by
  unfold storeOp
  iterate 3 refine system_of_mem_ite rfl ?_
  exact fun _ h => absurd h (Option.not_mem_none _)

theorem system_immOp : ∀ op ∈ immOp f3 f7, system op = false := by
  unfold immOp
  iterate 9 refine system_of_mem_ite rfl ?_
  exact fun _ h => absurd h (Option.not_mem_none _)

theorem system_regOp : ∀ op ∈ regOp f3 f7, system op = false := by
  unfold regOp
  iterate 10 refine system_of_mem_ite rfl ?_
  exact fun _ h => absurd h (Option.not_mem_none _)

theorem system_mulOp : system (mulOp f3) = false := by
  unfold mulOp
  repeat' split
  all_goals rfl

theorem system_ite {c : Prop} [Decidable c] {i j : Instruction} (hi : system i.op = false)
    (hj : ¬c → system j.op = false) : system (if c then i else j).op = false := by
  split
  · exact hi
  · exact hj ‹_›

/-- Only the system opcode decodes to an arm that halts by name. -/
theorem opcode_of_system (h : system (decode w).op = true) : w &&& 0x7F#32 = 0x73#32 := by
  by_contra hne
  have hfalse : system (decode w).op = false := by
    unfold decode
    refine system_ite (system_insn (by simp [system])) fun _ => ?_
    refine system_ite (system_insn (by simp [system])) fun _ => ?_
    refine system_ite (system_insn (by simp [system])) fun _ => ?_
    refine system_ite (system_insn (by split <;> simp [system])) fun _ => ?_
    refine system_ite (system_insn system_branchOp) fun _ => ?_
    refine system_ite (system_insn system_loadOp) fun _ => ?_
    refine system_ite (system_insn system_storeOp) fun _ => ?_
    refine system_ite (system_insn system_immOp) fun _ => ?_
    refine system_ite (system_ite system_mulOp fun _ => system_insn system_regOp) fun _ => ?_
    refine system_ite rfl fun _ => ?_
    rw [if_neg hne]
    rfl
  rw [h] at hfalse
  cases hfalse

end

theorem encoder_legal (e : Encoder) (he : e ∈ encoders) : e.op ≠ .illegal := by
  have h : ∀ op ∈ encoders.map Encoder.op, op ≠ .illegal := by decide
  exact h e.op (List.mem_map_of_mem he)

/-- The immediate columns of the row of any legal word. -/
theorem immColumns_eq (wordAddr value : Word) (hlegal : (decode value).op ≠ .illegal) :
    let row := (decodedRow wordAddr value).dec
    row.id = dispatchId (decode value).op ∧
      (row.imm, row.tgt) = immColumns (wordAddr * 4#32) (decode value) := by
  have hrow := rowAgrees wordAddr value
  have hid : (rowOf (wordAddr * 4#32) value (decode value)).id = dispatchId (decode value).op := by
    simp only [rowOf]
    split <;> rfl
  refine ⟨hrow.id.trans hid, ?_⟩
  by_cases hsys : system (decode value).op = true
  · have hop := opcode_of_system hsys
    have hcols : ((decodedRow wordAddr value).dec.imm, (decodedRow wordAddr value).dec.tgt) = (0, 0) := by
      simp only [decodedRow, decodedImm, decodedTgt, fields, hop]
      rfl
    rw [hcols]
    unfold immColumns
    revert hsys
    cases (decode value).op <;> simp [system]
  · have hlt : dispatchId (decode value).op < opEcall := by
      revert hsys hlegal
      cases (decode value).op <;> simp [system, dispatchId, opEcall, opLoad, opStore]
    rw [hrow.row (hid ▸ hlt)]
    simp only [rowOf, immColumns]
    revert hsys hlegal
    cases (decode value).op <;> simp [system]

/-- **Encoding and decoding are inverse.**  For every encoder, every choice of
register fields and every immediate in range, the decoder gives the encoder's arm
with the same registers and the same immediate, and the row `decode.sql` computes
for the word at any address has that arm's dispatch id and that immediate.  A
shift's immediate holds its amount in the low five bits, with `srai`'s function
bit above it; the row of a CSR access holds no immediate. -/
theorem decode_encoded (e : Encoder) (he : e ∈ encoders) (a : Args) (ha : a.InRange e.format)
    (wordAddr : Word) :
    let insn := decode (e.word a)
    let row := (decodedRow wordAddr (e.word a)).dec
    insn.op = e.op ∧ a.CarriedBy insn e.format ∧ row.id = dispatchId e.op ∧
      (row.imm, row.tgt) = immColumns (wordAddr * 4#32) insn := by
  obtain ⟨hop, hcarried⟩ := encoder_decodes e he a ha
  have hlegal : (decode (e.word a)).op ≠ .illegal := by
    rw [hop]
    exact encoder_legal e he
  obtain ⟨hid, hcols⟩ := immColumns_eq wordAddr (e.word a) hlegal
  exact ⟨hop, hcarried, hop ▸ hid, hcols⟩

/-- A branch back by four bytes, at byte address 64. -/
theorem decode_encoded_beq :
    (decode (beq 1 2 (-4))).op = .beq ∧ (decode (beq 1 2 (-4))).imm = -4 ∧
      (decodedRow 16 (beq 1 2 (-4))).dec.id = 20 ∧ (decodedRow 16 (beq 1 2 (-4))).dec.tgt = 60 := by
  obtain ⟨hop, ⟨-, -, himm⟩, hid, hcols⟩ :=
    decode_encoded ⟨.b, .beq, fun a => beq a.rs1 a.rs2 a.imm⟩ (by simp [encoders]) ⟨0, 1, 2, -4⟩
      ⟨by decide, by decide, by decide, by decide, by decide⟩ 16
  refine ⟨hop, himm, hid, (Prod.mk.inj hcols).2.trans ?_⟩
  decide

/-- The immediate of `srai x1, x2, 3` is not 3, and the row of a CSR access does
not hold the number of the register it names. -/
theorem shift_immediate_differs :
    Args.InRange ⟨1, 2, 0, 3⟩ .shift ∧ (decode (srai 1 2 3)).imm = 1027 ∧ (1027 : Word) ≠ 3 ∧
      Args.InRange ⟨1, 2, 0, 0x340⟩ .i ∧ (decode (csrrw 1 2 0x340)).imm = 0x340 ∧
      (decodedRow 0 (csrrw 1 2 0x340)).dec.imm ≠ 0x340 := by
  refine ⟨⟨by decide, by decide, by decide⟩, by decide, by decide,
    ⟨by decide, by decide, by decide, by decide⟩, by decide, by decide⟩

end ClickDoom.Asm

import ClickDoom.Executor.Arms
import ClickDoom.Executor.Reference

/-! # Loads and stores

The fold decides where an access falls by masks and wrapped differences, the
reference emulator by the map.  For an aligned access the two agree, and so do
the word a load finds and the words a store leaves.
-/
namespace ClickDoom
open ClickHouse
open LittleEndian (wordAt lowBytes mergeBytes extractBytes overwrite bytes)

theorem widthMask_eq (width : Width) : widthMask width = lowBytes width.size := by
  cases width <;> rfl

/-! ## Alignment -/

theorem checkAlign_eq (addr : Word) (width : Width) :
    Memory.checkAlign addr width =
      if addr.toNat % width.size ≠ 0 then .error (.misaligned addr width) else .ok () := by
  have h : (1 < width.size ∧ addr.toNat % width.size ≠ 0) ↔ addr.toNat % width.size ≠ 0 := by
    cases width <;> simp only [Width.size] <;> omega
  rw [Memory.checkAlign, if_congr h rfl rfl]

theorem misaligned_iff {e : Env} {width : Width} (hmk : e.d.mk = widthMask width) :
    misaligned .baseline e = true ↔ e.addr.toNat % width.size ≠ 0 := by
  have hlow : ∀ k m : Nat, ∀ mask : Word, mask.toNat = 2 ^ k - 1 → m = 2 ^ k →
      (e.addr &&& mask ≠ 0 ↔ e.addr.toNat % m ≠ 0) := by
    intro k m mask hmask hm
    have h := BitField.toNat_field e.addr 0 k hmask
    rw [BitVec.ushiftRight_zero, Nat.pow_zero, Nat.div_one] at h
    rw [Ne.eq_def, ← BitVec.toNat_inj, h, hm]
    rfl
  rw [misaligned, hmk, decide_eq_true_eq]
  cases width with
  | byte => exact hlow 0 1 _ rfl rfl
  | half => exact hlow 1 2 _ rfl rfl
  | word => exact hlow 2 4 _ rfl rfl

/-! ## Regions -/

section
variable {L : Layout} {addr : Word} {width : Width} (haligned : addr.toNat % width.size = 0)
include haligned

theorem addrOutsideRam_iff (hwm : Word) :
    addrOutsideRam .baseline (L.args hwm) addr = true ↔ ¬L.map.Holds .ram addr width := by
  have hlt := L.ramWords_lt
  have hmul : (BitVec.ofNat 32 L.ramWords * 4).toNat = 4 * L.ramWords := by
    rw [BitVec.toNat_mul, L.toNat_ramWords, show (4 : Word).toNat = 4 from rfl]
    omega
  have hend : (ramBase + BitVec.ofNat 32 L.ramWords * 4).toNat = 2147483648 + 4 * L.ramWords := by
    rw [BitVec.toNat_add, hmul, toNat_ramBase]
    omega
  have hbaseline : addrOutsideRam .baseline (L.args hwm) addr =
      (decide (addr < ramBase) || decide (ramBase + BitVec.ofNat 32 L.ramWords * 4 ≤ addr)) := rfl
  rw [hbaseline, Bool.or_eq_true, decide_eq_true_eq, decide_eq_true_eq, BitVec.lt_def,
    BitVec.le_def, hend, toNat_ramBase, MemoryMap.Holds]
  change _ ↔ ¬(2147483648 ≤ addr.toNat ∧ addr.toNat + width.size ≤ 2147483648 + L.map.ramSize.toNat)
  rw [L.toNat_ramSize]
  cases width <;> simp only [Width.size] at haligned ⊢ <;> omega

theorem isMmio_iff {e : Env} (he : e.addr = addr) :
    isMmio .baseline e = true ↔ L.map.Holds .mmio addr width := by
  have hmask : (0xFFFFFFFF#32 ^^^ (mmioSize - 1#32)) = BitVec.allOnes 32 <<< 12 := by decide
  have hbaseline : isMmio .baseline e =
      decide (e.addr &&& (0xFFFFFFFF#32 ^^^ (mmioSize - 1#32)) = mmioBase) := rfl
  have hlt := addr.isLt
  rw [hbaseline, decide_eq_true_eq, hmask, BitField.and_shifted_ones, ← BitVec.toNat_inj,
    BitField.toNat_shifted, he, MemoryMap.Holds]
  change _ = 268435456 ↔ 268435456 ≤ addr.toNat ∧ addr.toNat + width.size ≤ 268435456 + 4096
  cases width <;> simp only [Width.size] at haligned ⊢ <;> omega

theorem isFb_iff {e : Env} (he : e.addr = addr) :
    isFb e = true ↔ L.map.Holds .framebuffer addr width := by
  have hlt := addr.isLt
  rw [isFb, decide_eq_true_eq, BitVec.lt_def, BitVec.toNat_sub, he, MemoryMap.Holds]
  change (2 ^ 32 - 285212672 + addr.toNat) % 2 ^ 32 < 64000 ↔
    285212672 ≤ addr.toNat ∧ addr.toNat + width.size ≤ 285212672 + 64000
  cases width <;> simp only [Width.size] at haligned ⊢ <;> omega

theorem isPal_iff {e : Env} (he : e.addr = addr) :
    isPal e = true ↔ L.map.Holds .palette addr width := by
  have hlt := addr.isLt
  rw [isPal, decide_eq_true_eq, BitVec.lt_def, BitVec.toNat_sub, he, MemoryMap.Holds]
  change (2 ^ 32 - 285278208 + addr.toNat) % 2 ^ 32 < 768 ↔
    285278208 ≤ addr.toNat ∧ addr.toNat + width.size ≤ 285278208 + 768
  cases width <;> simp only [Width.size] at haligned ⊢ <;> omega

end

/-- The fold's five ways to place an aligned access. -/
inductive Placed (L : Layout) (addr : Word) (width : Width) : Prop
  | ram (h : L.map.Holds .ram addr width)
  | mmio (h : L.map.Holds .mmio addr width)
  | framebuffer (h : L.map.Holds .framebuffer addr width)
  | palette (h : L.map.Holds .palette addr width)
  | nowhere (h : ∀ region, ¬L.map.Holds region addr width)

theorem placed (L : Layout) (addr : Word) (width : Width) : Placed L addr width := by
  by_cases h : ∃ region, L.map.Holds region addr width
  · obtain ⟨region, hr⟩ := h
    cases region with
    | ram => exact .ram hr
    | mmio => exact .mmio hr
    | framebuffer => exact .framebuffer hr
    | palette => exact .palette hr
  · exact .nowhere fun region hr => h ⟨region, hr⟩

/-! ## The word an access is in -/

section
variable {L : Layout} {addr : Word} {width : Width}

theorem Width.size_cases (width : Width) : width.size = 1 ∨ width.size = 2 ∨ width.size = 4 := by
  cases width <;> simp [Width.size]

/-- The place of an access in RAM. -/
structure InRam (L : Layout) (addr : Word) (width : Width) (offset : Nat) : Prop where
  toNat_sub : (addr - ramBase).toNat = offset
  toNat_addr : addr.toNat = 2147483648 + offset
  word_lt : offset / 4 < L.ramWords
  byte_le : offset % 4 + width.size ≤ 4
  fits : offset + width.size ≤ 4 * L.ramWords

theorem inRam (haligned : addr.toNat % width.size = 0) (h : L.map.Holds .ram addr width) :
    InRam L addr width (addr - ramBase).toNat := by
  obtain ⟨hlow, hhigh⟩ := h
  change 2147483648 ≤ addr.toNat at hlow
  change addr.toNat + width.size ≤ 2147483648 + L.map.ramSize.toNat at hhigh
  rw [L.toNat_ramSize] at hhigh
  have hsub : (addr - ramBase).toNat = addr.toNat - 2147483648 :=
    BitVec.toNat_sub_of_le hlow
  refine ⟨rfl, ?_, ?_, ?_, ?_⟩ <;> rw [hsub] <;> rcases width.size_cases with hs | hs | hs <;>
    simp only [hs] at haligned hhigh ⊢ <;> omega

theorem InRam.waSafe_eq {offset : Nat} (h : InRam L addr width offset) (hwm : Word) :
    waSafe (L.args hwm) addr = BitVec.ofNat 32 (offset / 4) := by
  have hlt := L.ramWords_lt
  have hword := h.word_lt
  have hoff : (ramOff (L.args hwm) addr).toNat = offset / 4 := by
    change ((addr - ramBase) >>> 2).toNat = _
    rw [BitVec.toNat_ushiftRight, Nat.shiftRight_eq_div_pow, h.toNat_sub]
  have hone : (1 : Word) ≤ BitVec.ofNat 32 L.ramWords := by
    rw [BitVec.le_def, L.toNat_ramWords]
    exact Nat.one_le_of_lt hword
  have hle : ramOff (L.args hwm) addr ≤ (L.args hwm).ramWords - 1 := by
    change _ ≤ BitVec.ofNat 32 L.ramWords - 1
    rw [BitVec.le_def, hoff, BitVec.toNat_sub_of_le hone, L.toNat_ramWords,
      show (1 : Word).toNat = 1 from rfl]
    omega
  rw [waSafe, if_pos hle]
  apply BitVec.eq_of_toNat_eq
  rw [hoff, BitVec.toNat_ofNat]
  omega

theorem InRam.shiftOf_eq {offset : Nat} (h : InRam L addr width offset) {e : Env}
    (he : e.addr = addr) : shiftOf e = 8 * (offset % 4) := by
  have hfield := BitField.toNat_field addr 0 2 (m := 3#32) rfl
  rw [BitVec.ushiftRight_zero, Nat.pow_zero, Nat.div_one] at hfield
  rw [shiftOf, he, hfield, h.toNat_addr]
  omega

end

/-! ## What a load finds -/

/-- A read inside one word takes bytes out of it. -/
theorem readLe_eq (store : List Byte) (offset : Word) {width : Width}
    (h : offset.toNat % 4 + width.size ≤ 4) :
    readLe store offset width =
      extractBytes (wordAt store (offset.toNat / 4)) (lowBytes width.size)
        (8 * (offset.toNat % 4)) := by
  apply BitVec.eq_of_getLsbD_eq
  intro k hk
  rw [LittleEndian.getLsbD_extractBytes _ _ _ hk]
  by_cases hin : k < 8 * width.size
  · rw [decide_eq_true hin, Bool.true_and, LittleEndian.getLsbD_wordAt _ _ (by omega),
      show 4 * (offset.toNat / 4) + (8 * (offset.toNat % 4) + k) / 8 = offset.toNat + k / 8 by omega,
      show (8 * (offset.toNat % 4) + k) % 8 = k % 8 by omega]
    cases width with
    | byte =>
      simp only [Width.size] at hin
      rw [readLe, BitVec.getLsbD_setWidth, show k / 8 = 0 by omega, show k % 8 = k by omega]
      simp [hk]
    | half =>
      simp only [Width.size] at hin
      rw [readLe, LittleEndian.getLsbD_half, decide_eq_true (by omega), Bool.true_and]
      rcases (by omega : k / 8 = 0 ∨ k / 8 = 1) with hd | hd <;> rw [hd] <;> rfl
    | word =>
      rw [readLe, LittleEndian.getLsbD_word _ _ _ _ hk]
      rcases (by omega : k / 8 = 0 ∨ k / 8 = 1 ∨ k / 8 = 2 ∨ k / 8 = 3) with hd | hd | hd | hd <;>
        rw [hd] <;> rfl
  · rw [decide_eq_false hin, Bool.false_and]
    cases width with
    | byte =>
      simp only [Width.size] at hin
      rw [readLe, BitVec.getLsbD_setWidth, BitVec.getLsbD_of_ge _ _ (by omega), Bool.and_false]
    | half =>
      simp only [Width.size] at hin
      rw [readLe, LittleEndian.getLsbD_half, decide_eq_false (by omega), Bool.false_and]
    | word =>
      simp only [Width.size] at hin
      omega

/-- A value whose top bit is set stands for itself less its modulus. -/
theorem sub_signPos {x pos mod : Word} {k : Nat} (hk : k < 31) (hx : x.toNat < 2 ^ (k + 1))
    (hpos : pos.toNat = 2 ^ k) (hmod : mod = BitVec.ofNat 32 (2 ^ (k + 1))) :
    x - (if x &&& pos ≠ 0 then mod else 0) = signExtend x (k + 1) := by
  have hsucc : 2 ^ (k + 1) = 2 * 2 ^ k := Nat.pow_succ'
  have hbit : (x &&& pos).toNat = x.toNat / 2 ^ k % 2 ^ 1 * 2 ^ k := by
    have := BitField.toNat_field_inPlace x 0 k 1 (m := pos) (by rw [hpos]; simp)
    simpa using this
  have hext : signExtend x (k + 1) =
      if x.toNat < 2 ^ (k + 1 - 1) then x else x - BitVec.ofNat 32 (2 ^ (k + 1)) :=
    BitField.sext_eq (by omega) (by omega) hx
  have hP : 0 < 2 ^ k := Nat.two_pow_pos k
  rw [hext, Nat.add_sub_cancel, hmod]
  by_cases hlt : x.toNat < 2 ^ k
  · have hzero : x &&& pos = 0 := by
      apply BitVec.eq_of_toNat_eq
      rw [hbit, Nat.div_eq_of_lt hlt]
      simp
    rw [if_pos hlt, if_neg (by rw [hzero]; simp), sub_zero]
  · have hdiv : x.toNat / 2 ^ k = 1 := by
      apply Nat.div_eq_of_lt_le <;> omega
    have hne : x &&& pos ≠ 0 := by
      rw [Ne.eq_def, ← BitVec.toNat_inj, hbit, hdiv]
      simp
    rw [if_neg hlt, if_pos hne]

theorem extracted_lt {e : Env} {n : Nat} (hn : n ≤ 3) (hmk : e.d.mk = lowBytes n) :
    (extracted e).toNat < 2 ^ (8 * n) := by
  have hmask : (lowBytes n).toNat = 2 ^ (8 * n) - 1 := by
    have : 2 ^ (8 * n) ≤ 2 ^ 24 := Nat.pow_le_pow_right (by omega) (by omega)
    rw [lowBytes, BitVec.toNat_ofNat, Nat.mod_eq_of_lt (by omega)]
  rw [extracted, hmk, BitField.toNat_field _ _ _ hmask]
  exact Nat.mod_lt _ (Nat.two_pow_pos _)

/-- The fold extends a load by taking the modulus off; the emulator shifts. -/
theorem ramLoad_eq {e : Env} {op : Op} (hop : Cpu.isLoadOp op = true)
    (hmk : e.d.mk = widthMask (loadShape op).1) (hsg : e.d.sg = signColumn op) :
    ramLoad e = if (loadShape op).2 then signExtend (extracted e) ((loadShape op).1.size * 8)
      else extracted e := by
  have hsigned : ∀ k : Nat, k < 31 → (extracted e).toNat < 2 ^ (k + 1) →
      (signPos e).toNat = 2 ^ k → e.d.mk + 1 = BitVec.ofNat 32 (2 ^ (k + 1)) → e.d.sg = 1 →
      ramLoad e = signExtend (extracted e) (k + 1) := by
    intro k hk hx hpos hmod h1
    rw [ramLoad, h1, ← sub_signPos hk hx hpos hmod]
    simp
  have hplain : e.d.sg = 0 → ramLoad e = extracted e := by
    intro h0
    rw [ramLoad, h0]
    simp
  cases op with
  | lb =>
    have hx : (extracted e).toNat < 2 ^ 8 := extracted_lt (by omega : 1 ≤ 3) hmk
    exact hsigned 7 (by omega) hx (by rw [signPos, hmk]; rfl) (by rw [hmk]; rfl) hsg
  | lh =>
    have hx : (extracted e).toNat < 2 ^ 16 := extracted_lt (by omega : 2 ≤ 3) hmk
    exact hsigned 15 (by omega) hx (by rw [signPos, hmk]; rfl) (by rw [hmk]; rfl) hsg
  | lw =>
    rw [hplain hsg]
    simp [loadShape, Width.size, signExtend]
  | lbu | lhu => exact hplain hsg
  | _ => cases hop

/-! ## What a store leaves -/

/-- A store inside one word. -/
theorem wordAt_writeLe (store : List Byte) (offset : Word) {width : Width} (value : Word) (i : Nat)
    (hword : offset.toNat % 4 + width.size ≤ 4) (hlen : offset.toNat + width.size ≤ store.length) :
    wordAt (writeLe store offset width value) i =
      if i = offset.toNat / 4 then
        mergeBytes (wordAt store i) value (widthMask width) (8 * (offset.toNat % 4))
      else wordAt store i := by
  rw [widthMask_eq]
  exact LittleEndian.wordAt_overwrite store value i hword hlen

/-- Replacing all four bytes leaves the value. -/
theorem mergeBytes_word (old value : Word) : mergeBytes old value (widthMask .word) 0 = value := by
  apply BitVec.eq_of_getLsbD_eq
  intro k hk
  rw [widthMask_eq, LittleEndian.getLsbD_mergeBytes _ _ _ _ hk,
    if_pos ⟨Nat.zero_le k, by simpa [Width.size] using hk⟩]
  rfl

/-! ## The register file -/

namespace Cpu

theorem getD_regFile (c : Cpu) {i : Nat} (hi : i + 1 < 32) :
    c.regFile.getD i default = c.regs[i + 1] := by
  rw [regFile, List.getD_eq_getElem?_getD, List.getElem?_tail]
  simp [hi]

theorem toNat_setWidth_reg (r : BitVec 5) : (r.setWidth 8).toNat = r.toNat := by
  have hr := r.isLt
  rw [BitVec.toNat_setWidth]
  omega

/-- The fold's registers are the machine's. -/
theorem fileOf_regFile (c : Cpu) : FileOf c.regFile c := by
  intro r
  have hr := r.isLt
  have hto := toNat_setWidth_reg r
  unfold readReg
  by_cases h0 : r = 0
  · subst h0
    exact c.reg_zero.symm
  · have hpos : r.toNat ≠ 0 := fun h => h0 (BitVec.eq_of_toNat_eq h)
    have hne : r.setWidth 8 ≠ 0 := by
      intro h
      apply hpos
      rw [← hto, h]
      rfl
    obtain ⟨i, hi⟩ := Nat.exists_eq_succ_of_ne_zero hpos
    rw [if_neg hne, hto, hi, arrayElement_succ, getD_regFile c (by omega)]
    change c.regs[i + 1] = c.regs[r.toNat]
    simp only [hi]

/-- Writing a register is the fold's slice and splice. -/
theorem regFile_setReg (c : Cpu) (r : BitVec 5) (x : Word) :
    (c.setReg r x).regFile =
      if r.setWidth 8 ≠ 0#8 then
        arraySlice c.regFile 1 ((r.setWidth 8).toNat - 1) ++ [x] ++
          arraySliceFrom c.regFile ((r.setWidth 8).toNat + 1)
      else c.regFile := by
  have hr := r.isLt
  have hne : r.setWidth 8 ≠ 0#8 ↔ r.toNat ≠ 0 := by
    rw [Ne.eq_def, ← BitVec.toNat_inj, toNat_setWidth_reg]
    rfl
  have hlist : (c.setReg r x).regFile = ((c.regs.toList.set r.toNat x).set 0 0).tail := by
    rw [regFile, setReg, Vector.toList_set, Vector.toList_set]
  have hlen : c.regs.toList.length = 32 := by simp
  rw [if_congr hne rfl rfl, toNat_setWidth_reg, hlist, regFile]
  cases hl : c.regs.toList with
  | nil => simp [hl] at hlen
  | cons x0 tl =>
    cases hn : r.toNat with
    | zero => simp
    | succ n =>
      have htl : n < tl.length := by
        rw [hl, List.length_cons] at hlen
        omega
      simp [arraySlice, arraySliceFrom, List.set_eq_take_append_cons_drop, htl]

end Cpu
end ClickDoom

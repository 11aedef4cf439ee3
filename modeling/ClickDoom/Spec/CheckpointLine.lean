import ClickDoom.Base.Digits
import ClickDoom.Refemu.Trace

/-! # A checkpoint as a trace line

`Display` and `FromStr` of `spec/src/checkpoint.rs`.  Two engines compare their
traces byte by byte, so the parser takes no spelling the emitter does not write.
Each field's reader accepts exactly one text for each value; the line is the
fields between tabs, and no field holds a tab.
-/
namespace ClickDoom
open Digits

/-! ## The emitter -/

namespace Checkpoint

/-- `Display`. -/
def display (c : Checkpoint) : List Char :=
  Nat.toDigits 10 c.icount ++ '\t' :: padded 16 8 c.pc.toNat ++ '\t' :: padded 16 16 c.reghash.toNat ++
    (match c.ramhash with
      | some ramhash => '\t' :: padded 16 16 ramhash.toNat
      | none => []) ++
    (match c.fbhash with
      | some fbhash => '\t' :: padded 16 16 fbhash.toNat
      | none => [])

/-- The memory hashes are present together or not at all. -/
def Paired (c : Checkpoint) : Prop := c.ramhash.isSome = c.fbhash.isSome

end Checkpoint

/-! ## The parser -/

inductive ParseCheckpointError
  | fieldCount (count : Nat)
  | field (field : String) (value : List Char) (expected : String)
  deriving DecidableEq, Repr

/-- `str::len`, which counts bytes. -/
def utf8Len (s : List Char) : Nat := (s.map Char.utf8Size).sum

/-- A hexadecimal field of full width in lowercase. -/
def hexField (field : String) (value : List Char) (digits : Nat) :
    Except ParseCheckpointError Nat :=
  let bad := ParseCheckpointError.field field value
    (if digits = 8 then "8 lowercase hex digits" else "16 lowercase hex digits")
  if utf8Len value ≠ digits ∨ ¬value.all lowerHex then .error bad
  else
    match fromStrRadix 16 (2 ^ 64) value with
    | some n => .ok n
    | none => .error bad

/-- The count, which has no leading zero and no sign. -/
def countField (value : List Char) : Except ParseCheckpointError Nat :=
  match fromStrRadix 10 (2 ^ 64) value with
  | none => .error (.field "icount" value "a decimal count")
  | some icount =>
    if value ≠ Nat.toDigits 10 icount then
      .error (.field "icount" value "a decimal count without padding")
    else .ok icount

/-- `FromStr`. -/
def Checkpoint.parse (line : List Char) : Except ParseCheckpointError Checkpoint := do
  let fields := line.splitOn '\t'
  if fields.length ≠ 3 ∧ fields.length ≠ 5 then
    throw (.fieldCount fields.length)
  let icount ← countField (fields.getD 0 [])
  let pc ← hexField "pc" (fields.getD 1 []) 8
  let reghash ← hexField "reghash" (fields.getD 2 []) 16
  let (ramhash, fbhash) ←
    if fields.length = 5 then do
      let ramhash ← hexField "ramhash" (fields.getD 3 []) 16
      let fbhash ← hexField "fbhash" (fields.getD 4 []) 16
      pure (some (BitVec.ofNat 64 ramhash), some (BitVec.ofNat 64 fbhash))
    else pure (none, none)
  return { icount, pc := BitVec.ofNat 32 pc, reghash := BitVec.ofNat 64 reghash, ramhash, fbhash }

/-! ## One text for each value -/

theorem utf8Len_of_lowerHex {s : List Char} (h : ∀ c ∈ s, lowerHex c = true) :
    utf8Len s = s.length := by
  induction s with
  | nil => rfl
  | cons c s ih =>
    have hc : c.utf8Size = 1 := by
      have hlow := h c List.mem_cons_self
      simp only [lowerHex, Char.isDigit, Bool.or_eq_true, Bool.and_eq_true, decide_eq_true_eq] at hlow
      rw [Char.utf8Size_eq_one_iff]
      rcases hlow with ⟨-, hle⟩ | ⟨-, hle⟩
      · exact UInt32.le_trans hle (by decide)
      · exact UInt32.le_trans hle (by decide)
    rw [utf8Len, List.map_cons, List.sum_cons, hc]
    have := ih fun c hc => h c (List.mem_cons_of_mem _ hc)
    rw [utf8Len] at this
    rw [this, List.length_cons, Nat.add_comm]

theorem hexField_eq_ok_iff {field : String} {value : List Char} {digits n : Nat}
    (hdigits : 0 < digits) (hbound : 16 ^ digits ≤ 2 ^ 64) :
    hexField field value digits = .ok n ↔ value = padded 16 digits n ∧ n < 16 ^ digits := by
  constructor
  · intro h
    have hbad : ¬(utf8Len value ≠ digits ∨ ¬value.all lowerHex) := by
      intro hbad
      rw [hexField, if_pos hbad] at h
      cases h
    rw [hexField, if_neg hbad] at h
    obtain ⟨hlen, hall⟩ := not_or.mp hbad
    rw [not_not] at hlen hall
    have hhex : ∀ c ∈ value, lowerHex c = true := List.all_eq_true.mp hall
    rw [utf8Len_of_lowerHex hhex] at hlen
    have hne : value ≠ [] := List.ne_nil_of_length_pos (by omega)
    rw [fromStrRadix_of_lowerHex hne hhex] at h
    split at h
    · rename_i m hm
      cases h
      have hp := padded_readDigits hne hhex hm
      rw [hlen] at hp
      refine ⟨hp.symm, ?_⟩
      rw [← Nat.length_toDigits_le_iff (by omega) hdigits]
      have := congrArg List.length hp
      rw [padded, List.length_leftpad, hlen] at this
      omega
    · cases h
  · rintro ⟨rfl, hn⟩
    have hhex := lowerHex_of_mem_padded hdigits hn
    have hlen := length_padded hdigits hn
    have hne : padded 16 digits n ≠ [] := List.ne_nil_of_length_pos (by omega)
    unfold hexField
    dsimp only
    rw [if_neg, fromStrRadix_of_lowerHex hne hhex, readDigits_padded hdigits hn hbound]
    rw [utf8Len_of_lowerHex hhex, hlen, List.all_eq_true.mpr hhex]
    simp

theorem countField_eq_ok_iff {value : List Char} {n : Nat} :
    countField value = .ok n ↔ value = Nat.toDigits 10 n ∧ n < 2 ^ 64 := by
  constructor
  · intro h
    unfold countField at h
    split at h
    · cases h
    · rename_i m hm
      split_ifs at h with hne
      cases h
      exact ⟨not_not.mp hne, fromStrRadix_lt (by decide) hm⟩
  · rintro ⟨rfl, hn⟩
    simp only [countField, fromStrRadix_toDigits hn]
    rw [if_neg (not_not.mpr rfl)]

namespace Checkpoint

/-! ## The line -/

/-- The fields between the tabs. -/
def fields (c : Checkpoint) : List (List Char) :=
  [Nat.toDigits 10 c.icount, padded 16 8 c.pc.toNat, padded 16 16 c.reghash.toNat] ++
    c.ramhash.toList.map (padded 16 16 ·.toNat) ++ c.fbhash.toList.map (padded 16 16 ·.toNat)

theorem display_eq (c : Checkpoint) : c.display = ['\t'].intercalate c.fields := by
  rcases c with ⟨icount, pc, reghash, _ | ramhash, _ | fbhash⟩ <;>
    simp [display, fields, List.intercalate]

theorem tab_notMem_padded {width n : Nat} (hwidth : 0 < width) (hn : n < 16 ^ width) :
    '\t' ∉ padded 16 width n := by
  intro hmem
  have := lowerHex_of_mem_padded hwidth hn _ hmem
  cases this

theorem tab_notMem_fields (c : Checkpoint) : ∀ field ∈ c.fields, '\t' ∉ field := by
  have hcount : '\t' ∉ Nat.toDigits 10 c.icount := by
    intro hmem
    have := Nat.isDigit_of_mem_toDigits (by omega) (by omega) hmem
    cases this
  have hpc : '\t' ∉ padded 16 8 c.pc.toNat := tab_notMem_padded (by omega) c.pc.isLt
  have hhash (h : BitVec 64) : '\t' ∉ padded 16 16 h.toNat := tab_notMem_padded (by omega) h.isLt
  rcases c with ⟨icount, pc, reghash, _ | ramhash, _ | fbhash⟩ <;>
    simp_all [fields]

theorem splitOn_display (c : Checkpoint) : c.display.splitOn '\t' = c.fields := by
  rw [display_eq]
  exact List.splitOn_intercalate '\t' c.tab_notMem_fields (by simp [fields])

theorem eq_display_of_fields {line : List Char} {c : Checkpoint} (h : line.splitOn '\t' = c.fields) :
    line = c.display := by
  rw [display_eq, ← h, List.intercalate_splitOn]

/-- A field of full width, read and narrowed back to the value it was written
from. -/
theorem hexField_padded (field : String) {width : Nat} (digits : Nat) (h : BitVec width)
    (hwidth : 2 ^ width = 16 ^ digits) (hdigits : 0 < digits) (hbound : 16 ^ digits ≤ 2 ^ 64) :
    hexField field (padded 16 digits h.toNat) digits = .ok h.toNat :=
  (hexField_eq_ok_iff hdigits hbound).mpr ⟨rfl, hwidth ▸ h.isLt⟩

theorem parse_display {c : Checkpoint} (hcount : c.icount < 2 ^ 64) (hpaired : c.Paired) :
    parse c.display = .ok c := by
  have hc : countField (Nat.toDigits 10 c.icount) = .ok c.icount :=
    countField_eq_ok_iff.mpr ⟨rfl, hcount⟩
  have hpc := hexField_padded "pc" 8 c.pc (by norm_num) (by omega) (by norm_num)
  have hhash (field : String) (h : BitVec 64) :=
    hexField_padded field 16 h (by norm_num) (by omega) (by norm_num)
  rcases c with ⟨icount, pc, reghash, _ | ramhash, _ | fbhash⟩
  · simp only [parse, splitOn_display]
    simp [fields, hc, hpc, hhash, bind, Except.bind, pure, Except.pure]
  · cases hpaired
  · cases hpaired
  · simp only [parse, splitOn_display]
    simp [fields, hc, hpc, hhash, bind, Except.bind, pure, Except.pure]

theorem bind_eq_ok {α β : Type} {x : Except ParseCheckpointError α}
    {f : α → Except ParseCheckpointError β} {b : β} (h : x >>= f = .ok b) :
    ∃ a, x = .ok a ∧ f a = .ok b := by
  cases x with
  | error e => cases h
  | ok a => exact ⟨a, rfl, h⟩

/-- The text of a hexadecimal field, from the value it was read as. -/
theorem eq_padded_of_hexField {field : String} {value : List Char} {digits n : Nat} (width : Nat)
    (h : hexField field value digits = .ok n) (hwidth : 2 ^ width = 16 ^ digits)
    (hdigits : 0 < digits) (hbound : 16 ^ digits ≤ 2 ^ 64) :
    value = padded 16 digits (BitVec.ofNat width n).toNat := by
  obtain ⟨hvalue, hn⟩ := (hexField_eq_ok_iff hdigits hbound).mp h
  rw [BitVec.toNat_ofNat, Nat.mod_eq_of_lt (hwidth ▸ hn), hvalue]

theorem eq_of_length_three {α : Type} {l : List α} (d : α) (h : l.length = 3) :
    l = [l.getD 0 d, l.getD 1 d, l.getD 2 d] := by
  obtain ⟨a, b, c, rfl⟩ := List.length_eq_three.mp h
  rfl

theorem eq_of_length_five {α : Type} {l : List α} (d : α) (h : l.length = 5) :
    l = [l.getD 0 d, l.getD 1 d, l.getD 2 d, l.getD 3 d, l.getD 4 d] := by
  obtain ⟨a, b, l, rfl⟩ : ∃ a b l', l = a :: b :: l' := by
    rcases l with _ | ⟨a, _ | ⟨b, l⟩⟩
    · cases h
    · cases h
    · exact ⟨a, b, l, rfl⟩
  obtain ⟨c, e, f, rfl⟩ := List.length_eq_three.mp (by simpa using h : l.length = 3)
  rfl

/-- What a line the parser takes holds: its fields are those of its checkpoint. -/
theorem fields_of_parse {line : List Char} {c : Checkpoint} (h : parse line = .ok c) :
    line.splitOn '\t' = c.fields ∧ c.icount < 2 ^ 64 ∧ c.Paired := by
  unfold parse at h
  generalize line.splitOn '\t' = fs at h ⊢
  dsimp only at h
  by_cases hlen : fs.length ≠ 3 ∧ fs.length ≠ 5
  · rw [if_pos hlen] at h
    cases h
  rw [if_neg hlen] at h
  split_ifs at h with h5
  all_goals
    obtain ⟨icount, hcount, h⟩ := bind_eq_ok h
    obtain ⟨pc, hpc, h⟩ := bind_eq_ok h
    obtain ⟨reghash, hreg, h⟩ := bind_eq_ok h
    obtain ⟨hc, hlt⟩ := countField_eq_ok_iff.mp hcount
    have hp := eq_padded_of_hexField 32 hpc (by norm_num) (by omega) (by norm_num)
    have hr := eq_padded_of_hexField 64 hreg (by norm_num) (by omega) (by norm_num)
  · obtain ⟨ram, hram, h⟩ := bind_eq_ok h
    obtain ⟨fb, hfb, h⟩ := bind_eq_ok h
    have hm := eq_padded_of_hexField 64 hram (by norm_num) (by omega) (by norm_num)
    have hf := eq_padded_of_hexField 64 hfb (by norm_num) (by omega) (by norm_num)
    cases h
    refine ⟨?_, hlt, rfl⟩
    rw [eq_of_length_five [] h5, hc, hp, hr, hm, hf]
    rfl
  · cases h
    refine ⟨?_, hlt, rfl⟩
    have h3 : fs.length = 3 := by omega
    rw [eq_of_length_three [] h3, hc, hp, hr]
    rfl

/-- **The line codec is exact.**  A checkpoint with both memory hashes or neither,
its count a `u64`, is read back from its own line, and a line the parser takes is
the one its checkpoint is displayed as, so no two lines it takes denote the same
checkpoint. -/
theorem parse_exact :
    (∀ c : Checkpoint, c.icount < 2 ^ 64 → c.Paired → parse c.display = .ok c) ∧
      (∀ line c, parse line = .ok c → c.display = line ∧ c.icount < 2 ^ 64 ∧ c.Paired) ∧
      ∀ line line' c, parse line = .ok c → parse line' = .ok c → line = line' := by
  have hback : ∀ line c, parse line = .ok c → c.display = line := fun line c h =>
    (eq_display_of_fields (fields_of_parse h).1).symm
  refine ⟨fun c hcount hpaired => parse_display hcount hpaired, fun line c h => ?_, ?_⟩
  · exact ⟨hback line c h, (fields_of_parse h).2⟩
  · intro line line' c h h'
    exact (hback line c h).symm.trans (hback line' c h')

theorem parse_exact_memory :
    let c : Checkpoint := ⟨1048576, 0x80002000#32, 0xFF, some 0xAB, some 0xCD⟩
    c.Paired ∧ parse c.display = .ok c ∧
      c.display = "1048576\t80002000\t00000000000000ff\t00000000000000ab\t00000000000000cd".toList :=
  ⟨rfl, parse_exact.1 _ (by decide) rfl, by decide⟩

end Checkpoint
end ClickDoom

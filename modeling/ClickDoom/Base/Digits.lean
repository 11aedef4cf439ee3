import Mathlib

/-! # Numbers as text

Reading a number from its digits with a bound that is checked as it grows, as
Rust's `from_str_radix` does, and writing one in lowercase with or without zero
padding.  The two directions meet in `readDigits_padded` and `padded_readDigits`:
a text of full width has one number and a number of that width one text.
-/
namespace Digits

/-- `char::to_digit`: both cases of a letter are digits above nine. -/
def toDigit (radix : Nat) (c : Char) : Option Nat :=
  let digit :=
    if c.isDigit then some (c.toNat - 48)
    else if 'a' ≤ c ∧ c ≤ 'z' then some (c.toNat - 87)
    else if 'A' ≤ c ∧ c ≤ 'Z' then some (c.toNat - 55)
    else none
  digit.filter (· < radix)

/-- Reads digits onto `acc`; a number at or above `bound` overflows. -/
def readDigits (radix bound : Nat) : List Char → Nat → Option Nat
  | [], acc => some acc
  | c :: cs, acc =>
    match toDigit radix c with
    | none => none
    | some d => if acc * radix + d < bound then readDigits radix bound cs (acc * radix + d) else none

/-- `from_str_radix` of an unsigned type: a leading `+` is taken, a sign alone is
not a number. -/
def fromStrRadix (radix bound : Nat) : List Char → Option Nat
  | [] => none
  | ['+'] => none
  | ['-'] => none
  | '+' :: cs => readDigits radix bound cs 0
  | cs => readDigits radix bound cs 0

/-- `{:0width x}`: lowercase, zeros in front up to the width. -/
def padded (radix width n : Nat) : List Char := (Nat.toDigits radix n).leftpad width '0'

/-- `0` to `9` and `a` to `f`. -/
def lowerHex (c : Char) : Bool := c.isDigit || ('a' ≤ c && c ≤ 'f')

section
variable {radix bound : Nat}

theorem readDigits_append (xs ys : List Char) (acc : Nat) :
    readDigits radix bound (xs ++ ys) acc =
      (readDigits radix bound xs acc).bind (readDigits radix bound ys) := by
  induction xs generalizing acc with
  | nil => rfl
  | cons c xs ih =>
    simp only [List.cons_append, readDigits]
    split
    · rfl
    · split
      · exact ih _
      · rfl

theorem readDigits_single {c : Char} {d acc : Nat} (hd : toDigit radix c = some d)
    (hlt : acc * radix + d < bound) :
    readDigits radix bound [c] acc = some (acc * radix + d) := by
  simp [readDigits, hd, hlt]

theorem readDigits_single_eq_some {c : Char} {acc n : Nat}
    (h : readDigits radix bound [c] acc = some n) :
    ∃ d, toDigit radix c = some d ∧ n = acc * radix + d := by
  simp only [readDigits] at h
  split at h
  · cases h
  · rename_i d hd
    split_ifs at h
    exact ⟨d, hd, (Option.some.inj h).symm⟩

/-- A text that does not start with a sign is read whole. -/
theorem le_of_readDigits {cs : List Char} {acc n : Nat} (hradix : 0 < radix)
    (h : readDigits radix bound cs acc = some n) : acc ≤ n := by
  induction cs generalizing acc with
  | nil => exact Nat.le_of_eq (Option.some.inj h)
  | cons c cs ih =>
    rw [readDigits] at h
    split at h
    · cases h
    · rename_i d _
      split at h
      · calc acc ≤ acc * radix := Nat.le_mul_of_pos_right _ hradix
          _ ≤ acc * radix + d := Nat.le_add_right _ _
          _ ≤ n := ih h
      · cases h

/-- A number below another bound is read under that bound too. -/
theorem readDigits_of_lt {bound' : Nat} {cs : List Char} {acc n : Nat} (hradix : 0 < radix)
    (h : readDigits radix bound cs acc = some n) (hn : n < bound') :
    readDigits radix bound' cs acc = some n := by
  induction cs generalizing acc with
  | nil => exact h
  | cons c cs ih =>
    rw [readDigits] at h ⊢
    cases hd : toDigit radix c with
    | none =>
      rw [hd] at h
      cases h
    | some d =>
      simp only [hd] at h ⊢
      split at h
      · rw [if_pos ((le_of_readDigits hradix h).trans_lt hn)]
        exact ih h
      · cases h

theorem fromStrRadix_of_digit {c : Char} {cs : List Char} (hplus : c ≠ '+') (hminus : c ≠ '-') :
    fromStrRadix radix bound (c :: cs) = readDigits radix bound (c :: cs) 0 := by
  unfold fromStrRadix
  split
  · rename_i h; cases h
  · rename_i h; exact absurd (List.cons.inj h).1 hplus
  · rename_i h; exact absurd (List.cons.inj h).1 hminus
  · rename_i h; exact absurd (List.cons.inj h).1 hplus
  · rfl

end

/-! ## Lowercase hexadecimal digits -/

theorem toDigit_digitChar {d : Nat} (hd : d < 16) : toDigit 16 d.digitChar = some d := by
  interval_cases d <;> decide

theorem lowerHex_digitChar {d : Nat} (hd : d < 16) : lowerHex d.digitChar = true := by
  interval_cases d <;> decide

theorem toDigit_ten_digitChar {d : Nat} (hd : d < 10) : toDigit 10 d.digitChar = some d := by
  interval_cases d <;> decide

/-- A lowercase digit is the one its value is written with. -/
theorem digitChar_of_toDigit {c : Char} {d : Nat} (hc : lowerHex c = true)
    (hd : toDigit 16 c = some d) : d < 16 ∧ d.digitChar = c := by
  have hval : c.toNat ∈ Finset.Icc 48 57 ∪ Finset.Icc 97 102 := by
    simp only [lowerHex, Char.isDigit, Bool.or_eq_true, Bool.and_eq_true, decide_eq_true_eq] at hc
    simp only [Finset.mem_union, Finset.mem_Icc]
    rcases hc with ⟨h1, h2⟩ | ⟨h1, h2⟩
    · exact .inl ⟨h1, h2⟩
    · exact .inr ⟨h1, h2⟩
  have hall : ∀ n ∈ Finset.Icc 48 57 ∪ Finset.Icc 97 102, ∃ d < 16,
      toDigit 16 (Char.ofNat n) = some d ∧ d.digitChar = Char.ofNat n := by decide
  obtain ⟨d', hlt, hread, hchar⟩ := hall c.toNat hval
  rw [Char.ofNat_toNat] at hread hchar
  obtain rfl : d = d' := Option.some.inj (hd.symm.trans hread)
  exact ⟨hlt, hchar⟩

/-! ## Full width -/

theorem padded_zero {width : Nat} (hwidth : 0 < width) :
    padded 16 width 0 = List.replicate width '0' := by
  obtain ⟨k, rfl⟩ : ∃ k, width = k + 1 := ⟨width - 1, by omega⟩
  rw [padded, Nat.toDigits_zero, List.leftpad]
  exact List.replicate_succ'.symm

/-- One more place holds the lowest digit. -/
theorem padded_succ {width : Nat} (hwidth : 0 < width) (n : Nat) :
    padded 16 (width + 1) n = padded 16 width (n / 16) ++ [(n % 16).digitChar] := by
  by_cases hn : n < 16
  · rw [Nat.div_eq_of_lt hn, Nat.mod_eq_of_lt hn, padded_zero hwidth, padded,
      Nat.toDigits_of_lt_base hn]
    rfl
  · rw [padded, padded, Nat.toDigits_of_base_le (by omega) (by omega), List.leftpad, List.leftpad,
      List.append_assoc, List.length_append, List.length_singleton, Nat.add_sub_add_right]

theorem padded_one {d : Nat} (hd : d < 16) : padded 16 1 d = [d.digitChar] := by
  rw [padded, Nat.toDigits_of_lt_base hd]
  rfl

theorem lowerHex_of_mem_padded {width n : Nat} (hwidth : 0 < width) (hn : n < 16 ^ width) :
    ∀ c ∈ padded 16 width n, lowerHex c = true := by
  induction width, hwidth using Nat.le_induction generalizing n with
  | base =>
    rw [padded_one (by simpa using hn)]
    rintro c hc
    rw [List.mem_singleton.mp hc]
    exact lowerHex_digitChar (by simpa using hn)
  | succ width hwidth ih =>
    rw [padded_succ hwidth]
    intro c hc
    rcases List.mem_append.mp hc with hc | hc
    · exact ih (Nat.div_lt_of_lt_mul (by rw [← Nat.pow_succ']; exact hn)) c hc
    · rw [List.mem_singleton.mp hc]
      exact lowerHex_digitChar (Nat.mod_lt _ (by omega))

theorem length_padded {width n : Nat} (hwidth : 0 < width) (hn : n < 16 ^ width) :
    (padded 16 width n).length = width := by
  rw [padded, List.length_leftpad]
  exact Nat.max_eq_left ((Nat.length_toDigits_le_iff (by omega) hwidth).mpr hn)

/-- What is written at full width is read back. -/
theorem readDigits_padded {bound width n : Nat} (hwidth : 0 < width) (hn : n < 16 ^ width)
    (hbound : 16 ^ width ≤ bound) : readDigits 16 bound (padded 16 width n) 0 = some n := by
  induction width, hwidth using Nat.le_induction generalizing n with
  | base =>
    have hlt : n < 16 := by simpa using hn
    rw [padded_one hlt, readDigits_single (toDigit_digitChar hlt) (by omega)]
    simp
  | succ width hwidth ih =>
    have hsucc : 16 ^ (width + 1) = 16 * 16 ^ width := Nat.pow_succ'
    rw [padded_succ hwidth, readDigits_append, ih (by omega) (by omega), Option.bind_some,
      readDigits_single (toDigit_digitChar (Nat.mod_lt _ (by omega))) (by omega)]
    congr 1
    omega

/-- A text of lowercase digits is how its number is written at its width. -/
theorem padded_readDigits {bound n : Nat} {s : List Char} (hs : s ≠ [])
    (hhex : ∀ c ∈ s, lowerHex c = true) (hread : readDigits 16 bound s 0 = some n) :
    padded 16 s.length n = s := by
  induction s using List.reverseRecOn generalizing n with
  | nil => exact absurd rfl hs
  | append_singleton s c ih =>
    have hc : lowerHex c = true := hhex c (by simp)
    rw [readDigits_append] at hread
    obtain ⟨m, hm, hlast⟩ := Option.bind_eq_some_iff.mp hread
    obtain ⟨d, hd, rfl⟩ := readDigits_single_eq_some hlast
    obtain ⟨hlt, hchar⟩ := digitChar_of_toDigit hc hd
    rw [List.length_append, List.length_singleton]
    rcases s.eq_nil_or_concat' with rfl | ⟨init, last, hinit⟩
    · obtain rfl : m = 0 := (Option.some.inj hm).symm
      rw [Nat.zero_mul, Nat.zero_add, List.length_nil, Nat.zero_add, padded_one hlt, hchar]
      rfl
    · have hne : s ≠ [] := by
        rw [hinit]
        exact List.concat_ne_nil _ _
      have hpos : 0 < s.length := List.length_pos_of_ne_nil hne
      rw [padded_succ hpos, show (m * 16 + d) / 16 = m by omega, show (m * 16 + d) % 16 = d by omega,
        hchar, ih hne (fun c hc => hhex c (List.mem_append_left _ hc)) hm]

/-! ## Decimal without padding -/

theorem readDigits_toDigits {bound n : Nat} (hn : n < bound) :
    readDigits 10 bound (Nat.toDigits 10 n) 0 = some n := by
  induction n using Nat.strongRecOn with
  | ind n ih =>
    by_cases hten : n < 10
    · rw [Nat.toDigits_of_lt_base hten, readDigits_single (toDigit_ten_digitChar hten) (by omega)]
      simp
    · rw [Nat.toDigits_of_base_le (by omega) (by omega), readDigits_append,
        ih (n / 10) (by omega) (by omega), Option.bind_some,
        readDigits_single (toDigit_ten_digitChar (Nat.mod_lt _ (by omega))) (by omega)]
      congr 1
      omega

/-- A number's own text is read back: it starts with a digit. -/
theorem fromStrRadix_toDigits {bound n : Nat} (hn : n < bound) :
    fromStrRadix 10 bound (Nat.toDigits 10 n) = some n := by
  have hread := readDigits_toDigits hn
  rcases hdigits : Nat.toDigits 10 n with _ | ⟨c, cs⟩
  · exact absurd hdigits Nat.toDigits_ne_nil
  · have hc : c.isDigit := Nat.isDigit_of_mem_toDigits (by omega) (by omega)
      (hdigits ▸ List.mem_cons_self)
    rw [fromStrRadix_of_digit (by rintro rfl; cases hc) (by rintro rfl; cases hc), ← hdigits, hread]

/-- The sign is not a hexadecimal digit. -/
theorem fromStrRadix_of_lowerHex {bound : Nat} {s : List Char} (hs : s ≠ [])
    (hhex : ∀ c ∈ s, lowerHex c = true) :
    fromStrRadix 16 bound s = readDigits 16 bound s 0 := by
  obtain ⟨c, cs, rfl⟩ := List.exists_cons_of_ne_nil hs
  have hc := hhex c List.mem_cons_self
  exact fromStrRadix_of_digit (by rintro rfl; cases hc) (by rintro rfl; cases hc)

theorem fromStrRadix_lt {radix bound n : Nat} {s : List Char} (hbound : 0 < bound)
    (h : fromStrRadix radix bound s = some n) : n < bound := by
  have hread : ∀ (cs : List Char) (acc : Nat), acc < bound →
      readDigits radix bound cs acc = some n → n < bound := by
    intro cs
    induction cs with
    | nil =>
      intro acc hacc hn
      exact (Option.some.inj hn) ▸ hacc
    | cons c cs ih =>
      intro acc hacc hn
      simp only [readDigits] at hn
      split at hn
      · cases hn
      · split_ifs at hn with hlt
        exact ih _ hlt hn
  unfold fromStrRadix at h
  split at h
  · cases h
  · cases h
  · cases h
  · exact hread _ 0 hbound h
  · exact hread _ 0 hbound h

end Digits

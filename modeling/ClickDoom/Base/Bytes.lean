import Mathlib

/-! # Little-endian bytes

Machine words, the bytes they are stored as, and byte stores addressed by
position.  A store is a list of bytes; a read past its end finds zero and a
write past its end is dropped, so both are total, and the lemmas below are
about positions inside it.
-/
namespace LittleEndian

abbrev Byte := BitVec 8
abbrev Word := BitVec 32

instance lawful_byte : @LawfulBEq Byte instBEqOfDecidableEq := inferInstance
instance lawful_word : @LawfulBEq Word instBEqOfDecidableEq := inferInstance

/-- The word four bytes spell, least significant first. -/
def word (b0 b1 b2 b3 : Byte) : Word := b3 ++ b2 ++ b1 ++ b0

/-- The word two bytes spell, zero-extended. -/
def half (b0 b1 : Byte) : Word := (b1 ++ b0).setWidth 32

/-- Byte `k` of a value, least significant first. -/
def byte {w : Nat} (x : BitVec w) (k : Nat) : Byte := (x >>> (8 * k)).setWidth 8

/-- The first `n` bytes of a value, least significant first. -/
def bytes {w : Nat} (x : BitVec w) (n : Nat) : List Byte := (List.range n).map (byte x)

/-- The value a list of bytes spells, least significant first. -/
def value (w : Nat) : List Byte → BitVec w
  | [] => 0
  | b :: bs => b.setWidth w ||| (value w bs <<< 8)

@[simp] theorem length_bytes {w : Nat} (x : BitVec w) (n : Nat) : (bytes x n).length = n := by
  rw [bytes, List.length_map, List.length_range]

theorem getLsbD_value {w : Nat} (bs : List Byte) {i : Nat} (h : i < w) :
    (value w bs).getLsbD i = (bs.getD (i / 8) 0).getLsbD (i % 8) := by
  induction bs generalizing i with
  | nil => simp [value]
  | cons b bs ih =>
    rw [value, BitVec.getLsbD_or, BitVec.getLsbD_setWidth, BitVec.getLsbD_shiftLeft]
    by_cases hi : i < 8
    · simp [h, hi, Nat.div_eq_of_lt hi, Nat.mod_eq_of_lt hi]
    · have hdiv : i / 8 = (i - 8) / 8 + 1 := by omega
      rw [ih (by omega : i - 8 < w), hdiv, List.getD_cons_succ,
        BitVec.getLsbD_of_ge b i (by omega), show (i - 8) % 8 = i % 8 by omega]
      simp [h, hi]

/-- The bytes of a value spell it. -/
theorem value_bytes {w : Nat} (x : BitVec w) {n : Nat} (h : w ≤ 8 * n) : value w (bytes x n) = x := by
  apply BitVec.eq_of_getLsbD_eq
  intro i hi
  have hn : i / 8 < n := by omega
  have hget : (bytes x n).getD (i / 8) 0 = byte x (i / 8) := by
    simp [bytes, List.getD_eq_getElem?_getD, hn]
  have hpos : 8 * (i / 8) + i % 8 = i := by omega
  rw [getLsbD_value _ hi, hget, byte, BitVec.getLsbD_setWidth, BitVec.getLsbD_ushiftRight, hpos]
  simp [Nat.mod_lt]

/-! ## Records of one length -/

section Chunks
variable {α β : Type}

/-- The whole records of `n` items a list starts with. -/
def chunks (n : Nat) (l : List α) : List (List α) :=
  (List.range (l.length / n)).map fun i => (l.drop (i * n)).take n

/-- Records written one after another are read back. -/
theorem chunks_flatMap {n : Nat} (hn : 0 < n) (f : β → List α) (hf : ∀ x, (f x).length = n)
    (l : List β) : chunks n (l.flatMap f) = l.map f := by
  induction l with
  | nil => simp [chunks]
  | cons x xs ih =>
    have hlen : (f x ++ xs.flatMap f).length / n = (xs.flatMap f).length / n + 1 := by
      rw [List.length_append, hf, Nat.add_div_left _ hn]
    rw [List.flatMap_cons, List.map_cons, ← ih, chunks, hlen, List.range_succ_eq_map, List.map_cons,
      List.map_map, chunks]
    congr 1
    · rw [Nat.zero_mul, List.drop_zero, List.take_left' (hf x)]
    · apply List.map_congr_left
      intro i _
      rw [Function.comp_apply, Nat.succ_mul, Nat.add_comm, ← List.drop_drop,
        List.drop_left' (hf x)]

end Chunks

/-! ## Byte stores -/

variable {α : Type}

/-- `store` with `data` copied over it from position `at`, as far as it
reaches. -/
def overwrite (store : List α) (pos : Nat) : List α → List α
  | [] => store
  | b :: bs => overwrite (store.set pos b) (pos + 1) bs

@[simp] theorem length_overwrite (store : List α) (pos : Nat) (data : List α) :
    (overwrite store pos data).length = store.length := by
  induction data generalizing store pos with
  | nil => rfl
  | cons b bs ih => rw [overwrite, ih, List.length_set]

/-- Outside the copied range nothing changes. -/
theorem getElem?_overwrite_of_lt (store data : List α) {pos i : Nat} (h : i < pos) :
    (overwrite store pos data)[i]? = store[i]? := by
  induction data generalizing store pos with
  | nil => rfl
  | cons b bs ih => rw [overwrite, ih _ (by omega), List.getElem?_set_ne (by omega)]

theorem getElem?_overwrite_of_ge (store data : List α) {pos i : Nat}
    (h : pos + data.length ≤ i) : (overwrite store pos data)[i]? = store[i]? := by
  induction data generalizing store pos with
  | nil => rfl
  | cons b bs ih =>
    rw [List.length_cons] at h
    rw [overwrite, ih _ (by omega), List.getElem?_set_ne (by omega)]

/-- Inside it the data is found. -/
theorem getElem?_overwrite (store data : List α) {pos j : Nat} (h : j < data.length)
    (hlen : pos + data.length ≤ store.length) :
    (overwrite store pos data)[pos + j]? = data[j]? := by
  induction data generalizing store pos j with
  | nil => cases h
  | cons b bs ih =>
    rw [List.length_cons] at h hlen
    cases j with
    | zero =>
      rw [overwrite, getElem?_overwrite_of_lt _ _ (by omega), Nat.add_zero,
        List.getElem?_set_self (by omega)]
      rfl
    | succ j =>
      rw [overwrite, show pos + (j + 1) = pos + 1 + j by omega, List.getElem?_cons_succ]
      exact ih (store.set pos b) (by omega) (by rw [List.length_set]; omega)

theorem overwrite_append (store first second : List α) (pos : Nat) :
    overwrite store pos (first ++ second) =
      overwrite (overwrite store pos first) (pos + first.length) second := by
  induction first generalizing store pos with
  | nil => rfl
  | cons b bs ih =>
    rw [List.cons_append, overwrite, ih, overwrite, List.length_cons]
    congr 1
    omega

/-- What a store that was copied into reads, at every position. -/
theorem getElem?_overwrite_eq (store data : List α) {pos : Nat} (j : Nat)
    (hlen : pos + data.length ≤ store.length) :
    (overwrite store pos data)[j]? =
      if pos ≤ j then (data[j - pos]?).or store[j]? else store[j]? := by
  split_ifs with hpos
  · by_cases hj : j < pos + data.length
    · have hget := getElem?_overwrite store data (by omega : j - pos < data.length) hlen
      rw [show pos + (j - pos) = j by omega] at hget
      rw [hget, List.getElem?_eq_getElem (by omega : j - pos < data.length)]
      rfl
    · rw [getElem?_overwrite_of_ge _ _ (by omega), List.getElem?_eq_none (by omega : _ ≤ j - pos)]
      rfl
  · exact getElem?_overwrite_of_lt _ _ (by omega)

end LittleEndian

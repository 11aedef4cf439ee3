import ClickDoom.Base.Bytes

/-! # The words of a byte store

A byte store read word by word, as a table of words keeps it.  A store of fewer
than four bytes replaces some bytes of one word; a load of fewer takes some bytes
of one word out.  Both are stated bit by bit, so one lemma serves every width.
-/
namespace LittleEndian

/-- Word `i` of a store. -/
def wordAt (store : List Byte) (i : Nat) : Word :=
  word (store.getD (4 * i) 0) (store.getD (4 * i + 1) 0) (store.getD (4 * i + 2) 0)
    (store.getD (4 * i + 3) 0)

theorem getLsbD_word (b0 b1 b2 b3 : Byte) {k : Nat} (hk : k < 32) :
    (word b0 b1 b2 b3).getLsbD k = ([b0, b1, b2, b3].getD (k / 8) 0).getLsbD (k % 8) := by
  have hdiv : k / 8 < 4 := by omega
  rw [word, BitVec.getLsbD_append, BitVec.getLsbD_append, BitVec.getLsbD_append]
  rcases (by omega : k / 8 = 0 ∨ k / 8 = 1 ∨ k / 8 = 2 ∨ k / 8 = 3) with h | h | h | h <;> rw [h]
  · have hmod : k % 8 = k := by omega
    simp [hmod, show k < 8 by omega]
  · have hmod : k % 8 = k - 8 := by omega
    simp [hmod, show ¬k < 8 by omega, show k - 8 < 8 by omega]
  · have hmod : k % 8 = k - 8 - 8 := by omega
    simp [hmod, show ¬k < 8 by omega, show ¬k - 8 < 8 by omega, show k - 8 - 8 < 8 by omega]
  · have hmod : k % 8 = k - 8 - 8 - 8 := by omega
    simp [hmod, show ¬k < 8 by omega, show ¬k - 8 < 8 by omega, show ¬k - 8 - 8 < 8 by omega]

theorem getLsbD_wordAt (store : List Byte) (i : Nat) {k : Nat} (hk : k < 32) :
    (wordAt store i).getLsbD k = (store.getD (4 * i + k / 8) 0).getLsbD (k % 8) := by
  rw [wordAt, getLsbD_word _ _ _ _ hk]
  rcases (by omega : k / 8 = 0 ∨ k / 8 = 1 ∨ k / 8 = 2 ∨ k / 8 = 3) with h | h | h | h <;>
    rw [h] <;> rfl

theorem getLsbD_half (b0 b1 : Byte) (k : Nat) :
    (half b0 b1).getLsbD k = (decide (k < 16) && ([b0, b1].getD (k / 8) 0).getLsbD (k % 8)) := by
  rw [half, BitVec.getLsbD_setWidth, BitVec.getLsbD_append]
  by_cases hk : k < 16
  · rcases (by omega : k / 8 = 0 ∨ k / 8 = 1) with h | h <;> rw [h]
    · have hmod : k % 8 = k := by omega
      simp [hmod, hk, show k < 8 by omega, show k < 32 by omega]
    · have hmod : k % 8 = k - 8 := by omega
      simp [hmod, hk, show ¬k < 8 by omega, show k < 32 by omega]
  · simp [hk, show ¬k < 8 by omega, BitVec.getLsbD_of_ge b1 (k - 8) (by omega)]

/-- The mask of the low `n` bytes. -/
def lowBytes (n : Nat) : Word := BitVec.ofNat 32 (2 ^ (8 * n) - 1)

theorem getLsbD_lowBytes {n k : Nat} (hk : k < 32) :
    (lowBytes n).getLsbD k = decide (k < 8 * n) := by
  rw [lowBytes, BitVec.getLsbD_ofNat, Nat.testBit_two_pow_sub_one]
  simp [hk]

/-- A word with some of its bytes, from bit `sh`, replaced by the low bytes of
another. -/
def mergeBytes (old new mask : Word) (sh : Nat) : Word :=
  (old &&& (4294967295#32 ^^^ (mask <<< sh))) ||| ((new &&& mask) <<< sh)

theorem getLsbD_mergeBytes (old new : Word) (n sh : Nat) {k : Nat} (hk : k < 32) :
    (mergeBytes old new (lowBytes n) sh).getLsbD k =
      if sh ≤ k ∧ k < sh + 8 * n then new.getLsbD (k - sh) else old.getLsbD k := by
  have hones : (4294967295#32).getLsbD k = true := by
    rw [show 4294967295#32 = BitVec.allOnes 32 from rfl, BitVec.getLsbD_allOnes]
    exact decide_eq_true hk
  rw [mergeBytes, BitVec.getLsbD_or, BitVec.getLsbD_and, BitVec.getLsbD_xor, hones,
    BitVec.getLsbD_shiftLeft, BitVec.getLsbD_shiftLeft, BitVec.getLsbD_and,
    getLsbD_lowBytes (by omega : k - sh < 32)]
  by_cases hsh : sh ≤ k
  · by_cases hn : k < sh + 8 * n
    · have hlow : k - sh < 8 * n := by omega
      simp [hk, hsh, hn, hlow, show ¬k < sh by omega]
    · have hlow : ¬k - sh < 8 * n := by omega
      simp [hk, hsh, hn, hlow]
  · simp [hsh, show k < sh by omega]

theorem getD_overwrite (store data : List Byte) {pos j : Nat}
    (hlen : pos + data.length ≤ store.length) :
    (overwrite store pos data).getD j 0 =
      if pos ≤ j ∧ j < pos + data.length then data.getD (j - pos) 0 else store.getD j 0 := by
  rw [List.getD_eq_getElem?_getD, List.getD_eq_getElem?_getD, List.getD_eq_getElem?_getD]
  split_ifs with h
  · have hj : pos + (j - pos) = j := by omega
    have := getElem?_overwrite store data (by omega : j - pos < data.length) hlen
    rw [hj] at this
    rw [this]
  · by_cases hj : j < pos
    · rw [getElem?_overwrite_of_lt _ _ hj]
    · rw [getElem?_overwrite_of_ge _ _ (by omega)]

theorem getD_bytes (x : Word) {n j : Nat} (hj : j < n) : (bytes x n).getD j 0 = byte x j := by
  simp [bytes, List.getD_eq_getElem?_getD, hj]

theorem getLsbD_byte (x : Word) (j : Nat) {b : Nat} (hb : b < 8) :
    (byte x j).getLsbD b = x.getLsbD (8 * j + b) := by
  rw [byte, BitVec.getLsbD_setWidth, BitVec.getLsbD_ushiftRight]
  simp [hb]

/-- A store of `n` bytes inside one word merges them into it and leaves the other
words alone. -/
theorem wordAt_overwrite (store : List Byte) (value : Word) {pos n : Nat} (i : Nat)
    (hword : pos % 4 + n ≤ 4) (hlen : pos + n ≤ store.length) :
    wordAt (overwrite store pos (bytes value n)) i =
      if i = pos / 4 then mergeBytes (wordAt store i) value (lowBytes n) (8 * (pos % 4))
      else wordAt store i := by
  apply BitVec.eq_of_getLsbD_eq
  intro k hk
  have hlen' : pos + (bytes value n).length ≤ store.length := by rwa [length_bytes]
  rw [getLsbD_wordAt _ _ hk, getD_overwrite _ _ hlen', length_bytes]
  by_cases hi : i = pos / 4
  · rw [if_pos hi, getLsbD_mergeBytes _ _ _ _ hk]
    by_cases hin : pos ≤ 4 * i + k / 8 ∧ 4 * i + k / 8 < pos + n
    · have hplace : 8 * (4 * i + k / 8 - pos) + k % 8 = k - 8 * (pos % 4) := by omega
      rw [if_pos hin, if_pos (by omega), getD_bytes _ (by omega), getLsbD_byte _ _ (by omega), hplace]
    · rw [if_neg hin, if_neg (by omega), getLsbD_wordAt _ _ hk]
  · rw [if_neg hi, if_neg (by omega), getLsbD_wordAt _ _ hk]

/-- The low `n` bytes of a word, from bit `sh`. -/
def extractBytes (x mask : Word) (sh : Nat) : Word := (x >>> sh) &&& mask

theorem getLsbD_extractBytes (x : Word) (n sh : Nat) {k : Nat} (hk : k < 32) :
    (extractBytes x (lowBytes n) sh).getLsbD k = (decide (k < 8 * n) && x.getLsbD (sh + k)) := by
  rw [extractBytes, BitVec.getLsbD_and, BitVec.getLsbD_ushiftRight, getLsbD_lowBytes hk,
    Bool.and_comm]

end LittleEndian

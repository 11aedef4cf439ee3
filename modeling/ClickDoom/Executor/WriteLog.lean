import ClickDoom.Base.Words
import ClickDoom.Executor.Fold

/-! # Write logs

A write log stands for the words it overlays: reading a word through the log finds
the last write to it, or the word underneath.  Every entry is stamped with the
count its store retired at, so the stamps of a log increase and lie between the
counts the batch began and ended with.
-/
namespace ClickDoom
open ClickHouse

namespace Lanes

/-- The three lanes are equally long, and the stamps increase from above `lo` up
to `hi`. -/
structure Stamped (l : Lanes) (lo hi : Nat) : Prop where
  length_val : l.val.length = l.addr.length
  length_icount : l.icount.length = l.addr.length
  increasing : l.icount.Pairwise (· < ·)
  bounds : ∀ n ∈ l.icount, lo < n ∧ n ≤ hi

theorem stamped_empty (lo hi : Nat) : empty.Stamped lo hi where
  length_val := rfl
  length_icount := rfl
  increasing := List.Pairwise.nil
  bounds := by
    intro n hn
    cases hn

namespace Stamped
variable {l : Lanes} {lo hi : Nat}

/-- Retiring an instruction that logs nothing. -/
theorem mono (h : l.Stamped lo hi) {hi' : Nat} (hle : hi ≤ hi') : l.Stamped lo hi' where
  length_val := h.length_val
  length_icount := h.length_icount
  increasing := h.increasing
  bounds n hn := ⟨(h.bounds n hn).1, le_trans (h.bounds n hn).2 hle⟩

/-- Retiring a store. -/
theorem push (h : l.Stamped lo hi) (hlo : lo ≤ hi) (addr val : Word) :
    (l.push addr val (hi + 1)).Stamped lo (hi + 1) where
  length_val := by simp [Lanes.push, arrayPushBack, h.length_val]
  length_icount := by simp [Lanes.push, arrayPushBack, h.length_icount]
  increasing := by
    change (l.icount ++ [hi + 1]).Pairwise (· < ·)
    rw [List.pairwise_append]
    refine ⟨h.increasing, List.pairwise_singleton _ _, ?_⟩
    intro m hm n hn
    rw [List.mem_singleton.mp hn]
    exact Nat.lt_succ_of_le (h.bounds m hm).2
  bounds := by
    intro n hn
    change n ∈ l.icount ++ [hi + 1] at hn
    rw [List.mem_append, List.mem_singleton] at hn
    rcases hn with hn | rfl
    · exact ⟨(h.bounds n hn).1, Nat.le_succ_of_le (h.bounds n hn).2⟩
    · exact ⟨Nat.lt_succ_of_le hlo, le_refl _⟩

end Stamped

/-- What is read after a write. -/
theorem lookupWord_push {l : Lanes} (h : l.val.length = l.addr.length) (addr val : Word) (n : Nat)
    (ramt : List Word) (wa : Word) :
    lookupWord (l.push addr val n) ramt wa = if addr = wa then val else lookupWord l ramt wa := by
  have hindex : arrayLastIndex (· = wa) (l.push addr val n).addr =
      if addr = wa then l.addr.length + 1 else arrayLastIndex (· = wa) l.addr := by
    simp [Lanes.push, arrayPushBack, arrayLastIndex_append]
  rw [lookupWord, hindex]
  by_cases ha : addr = wa
  · simp [ha, Lanes.push, arrayPushBack, arrayElement_succ, ← h]
  · simp only [ha, if_false]
    rw [lookupWord]
    have hle := arrayLastIndex_le_length (· = wa) l.addr
    rw [← h] at hle
    cases hi : arrayLastIndex (· = wa) l.addr with
    | zero => simp
    | succ i =>
      rw [hi] at hle
      simp [Lanes.push, arrayPushBack, List.getD_eq_getElem?_getD, List.getElem?_append_left hle]

@[simp] theorem lookupWord_empty (ramt : List Word) (wa : Word) :
    lookupWord .empty ramt wa = arrayElement ramt (wa.toNat + 1) := rfl

end Lanes

/-! ## The bytes of one word -/

/-- The step's store value merges bytes into the word. -/
theorem sval_eq (e : Env) :
    sval e = LittleEndian.mergeBytes e.lw e.rs2v e.d.mk (shiftOf e) := rfl

theorem extracted_eq (e : Env) :
    extracted e = LittleEndian.extractBytes e.lw e.d.mk (shiftOf e) := rfl

end ClickDoom

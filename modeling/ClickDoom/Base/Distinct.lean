import Mathlib

/-! # Distinct elements of an array

`arrayDistinct` keeps the first of the elements that are equal; `indexOf` counts from one.
-/
namespace ClickHouse

variable {α : Type} [DecidableEq α]

/-- `arrayDistinct(a)`. -/
def arrayDistinct (a : List α) : List α := a.reverse.dedup.reverse

theorem mem_arrayDistinct {a : List α} {x : α} : x ∈ arrayDistinct a ↔ x ∈ a := by
  rw [arrayDistinct, List.mem_reverse, List.mem_dedup, List.mem_reverse]

theorem nodup_arrayDistinct (a : List α) : (arrayDistinct a).Nodup :=
  List.nodup_reverse.2 (List.nodup_dedup _)

/-- `indexOf(a, x)`. -/
def indexOf (a : List α) (x : α) : Nat := if x ∈ a then a.idxOf x + 1 else 0

theorem indexOf_eq_iff {a : List α} {x : α} {i : Nat} (nodup : a.Nodup) :
    indexOf a x = i + 1 ↔ a[i]? = some x := by
  rw [indexOf]
  split_ifs with there
  · constructor
    · intro same
      cases Nat.succ.inj same
      rw [List.getElem?_eq_getElem (List.idxOf_lt_length_iff.2 there), List.getElem_idxOf]
    · intro found
      obtain ⟨low, rfl⟩ := List.getElem?_eq_some_iff.1 found
      rw [nodup.idxOf_getElem]
  · constructor
    · intro same
      exact same.elim
    · intro found
      exact absurd (List.mem_of_getElem? found) there

end ClickHouse

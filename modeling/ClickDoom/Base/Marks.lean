import Mathlib

/-! # Visits marked once

A loop that skips what it has marked visits the distinct elements of its list, each at its
first occurrence.
-/
namespace Marks

variable {α : Type} [DecidableEq α]

/-- What a loop over the list visits, given what is marked before it. -/
def fresh (marked : List α) : List α → List α
  | [] => []
  | a :: rest => if a ∈ marked then fresh marked rest else a :: fresh (a :: marked) rest

/-- Only who is marked counts. -/
theorem fresh_congr {marked marked' list : List α} (same : ∀ a, a ∈ marked ↔ a ∈ marked') :
    fresh marked list = fresh marked' list := by
  induction list generalizing marked marked' with
  | nil => rfl
  | cons a rest ih =>
    have more : ∀ b, b ∈ a :: marked ↔ b ∈ a :: marked' := by
      intro b
      rw [List.mem_cons, List.mem_cons, same]
    rw [fresh, fresh, ih same, ih more]
    simp only [same]

theorem fresh_append (marked front back : List α) :
    fresh marked (front ++ back) = fresh marked front ++ fresh (front ++ marked) back := by
  induction front generalizing marked with
  | nil => rfl
  | cons a rest ih =>
    rw [List.cons_append, fresh, fresh]
    split
    · rename_i visited
      rw [ih]
      congr 1
      apply fresh_congr
      intro b
      simp only [List.mem_append, List.cons_append, List.mem_cons]
      constructor
      · exact .inr
      · rintro (rfl | member)
        · exact .inr visited
        · exact member
    · rw [ih, List.cons_append]
      congr 2
      apply fresh_congr
      intro b
      simp [or_left_comm]

theorem eraseDups_filter (p : α → Bool) (list : List α) :
    (list.filter p).eraseDups = list.eraseDups.filter p := by
  -- `eraseDups` goes on with a filtered list, so the induction is on the length
  induction length : list.length using Nat.strong_induction_on generalizing list with
  | _ length ih =>
    subst length
    cases list with
    | nil => rfl
    | cons a rest =>
      have shorter : (rest.filter fun b => !b == a).length < (a :: rest).length :=
        Nat.lt_succ_of_le (List.length_filter_le ..)
      rw [List.eraseDups_cons, List.filter_cons, List.filter_cons]
      split
      · rw [List.eraseDups_cons, List.filter_filter, List.filter_congr fun b _ => Bool.and_comm ..,
          ← List.filter_filter, ih _ shorter _ rfl]
      · rename_i dropped
        rw [← ih _ shorter _ rfl, List.filter_filter]
        congr 1
        apply List.filter_congr
        intro b _
        by_cases here : b = a
        · subst here
          simpa using dropped
        · simp [here]

theorem nodup_eraseDups (list : List α) : list.eraseDups.Nodup := by
  induction list with
  | nil => exact List.nodup_nil
  | cons a rest ih =>
    rw [List.eraseDups_cons, eraseDups_filter]
    refine List.nodup_cons.mpr ⟨?_, ih.filter _⟩
    simp

/-- The loop visits the distinct elements that are not marked. -/
theorem fresh_eq (marked list : List α) :
    fresh marked list = list.eraseDups.filter fun a => !marked.contains a := by
  induction list generalizing marked with
  | nil => rfl
  | cons a rest ih =>
    rw [fresh, List.eraseDups_cons, List.filter_cons]
    split
    · rename_i visited
      rw [if_neg (by simpa using visited), eraseDups_filter, List.filter_filter, ih]
      apply List.filter_congr
      intro b _
      by_cases here : b = a
      · subst here
        simp [visited]
      · simp [here]
    · rename_i unvisited
      rw [if_pos (by simpa using unvisited), eraseDups_filter, List.filter_filter, ih]
      congr 1
      apply List.filter_congr
      intro b _
      by_cases here : b = a
      · simp [here]
      · simp [here]

end Marks

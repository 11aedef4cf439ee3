import Mathlib

/-! # A while loop as a fold of fixed length

A loop that leaves on a test, and the fold that takes a fixed number of guarded steps
instead.  Once the loop has left, the fold's further steps change nothing.
-/
namespace Loops

variable {α : Type} (stop : α → Bool) (step : α → Option α)

/-- The loop, `fuel` steps long at most: `none` is a step without a value or a loop
still running. -/
def whileLoop : Nat → α → Option α
  | 0, a => if stop a then some a else none
  | fuel + 1, a => if stop a then some a else (step a).bind (whileLoop fuel)

/-- `count` guarded steps. -/
def guarded (step : α → α) : Nat → α → α
  | 0, a => a
  | count + 1, a => guarded step count (if stop a then a else step a)

variable {stop step}

theorem guarded_of_stop {next : α → α} {a : α} (h : stop a = true) (count : Nat) :
    guarded stop next count a = a := by
  induction count with
  | zero => rfl
  | succ count ih =>
    rw [guarded, if_pos h]
    exact ih

theorem whileLoop_mono {a b : α} {fuel : Nat} (h : whileLoop stop step fuel a = some b)
    {more : Nat} (le : fuel ≤ more) : whileLoop stop step more a = some b := by
  induction fuel generalizing a more with
  | zero =>
    rw [whileLoop] at h
    split at h
    · cases more <;> rw [whileLoop, if_pos ‹_›] <;> exact h
    · cases h
  | succ fuel ih =>
    obtain ⟨more, rfl⟩ : ∃ m, more = m + 1 := ⟨more - 1, by omega⟩
    rw [whileLoop] at h ⊢
    split
    · rwa [if_pos ‹_›] at h
    · rw [if_neg ‹_›] at h
      obtain ⟨a', stepped, rest⟩ := Option.bind_eq_some_iff.1 h
      rw [stepped]
      exact ih rest (by omega)

/-- Where every step of the loop is the fold's, the fold ends where the loop does. -/
theorem guarded_of_whileLoop {next : α → α} (agree : ∀ a a', step a = some a' → next a = a')
    {a b : α} {fuel : Nat} (h : whileLoop stop step fuel a = some b) {count : Nat}
    (le : fuel ≤ count) : guarded stop next count a = b ∧ stop b = true := by
  induction fuel generalizing a count with
  | zero =>
    rw [whileLoop] at h
    split at h
    · rename_i left
      cases h
      exact ⟨guarded_of_stop left count, left⟩
    · cases h
  | succ fuel ih =>
    obtain ⟨count, rfl⟩ : ∃ c, count = c + 1 := ⟨count - 1, by omega⟩
    rw [whileLoop] at h
    by_cases left : stop a = true
    · rw [if_pos left] at h
      cases h
      exact ⟨guarded_of_stop left _, left⟩
    · rw [if_neg left] at h
      obtain ⟨a', stepped, rest⟩ := Option.bind_eq_some_iff.1 h
      rw [guarded, if_neg left, agree a a' stepped]
      exact ih rest (by omega)

end Loops

import ClickDoom.Base.Marks

/-! # Loops that stop at a refusal

A loop over a list whose body answers whether it goes on.  A refusal ends the loop, and the
loops around it.
-/
namespace Halting

variable {σ α β : Type}

/-- The state the loop leaves, and whether no body refused. -/
def walk (body : σ → α → σ × Bool) : σ → List α → σ × Bool
  | state, [] => (state, true)
  | state, a :: rest =>
    if (body state a).2 then walk body (body state a).1 rest else ((body state a).1, false)

theorem walk_cons_true {body : σ → α → σ × Bool} {state : σ} {a : α} (rest : List α)
    (goes : (body state a).2 = true) :
    walk body state (a :: rest) = walk body (body state a).1 rest := by
  rw [walk, if_pos goes]

theorem walk_cons_false {body : σ → α → σ × Bool} {state : σ} {a : α} (rest : List α)
    (refuses : (body state a).2 = false) :
    walk body state (a :: rest) = ((body state a).1, false) := by
  rw [walk, refuses]
  rfl

theorem walk_append (body : σ → α → σ × Bool) (state : σ) (front back : List α) :
    walk body state (front ++ back) =
      if (walk body state front).2 then walk body (walk body state front).1 back
      else walk body state front := by
  induction front generalizing state with
  | nil => rfl
  | cons a front ih =>
    rw [List.cons_append]
    cases answer : (body state a).2 with
    | true => rw [walk_cons_true _ answer, walk_cons_true _ answer, ih]
    | false => rw [walk_cons_false _ answer, walk_cons_false _ answer]; rfl

/-- A loop in a loop is one loop over what the inner ones run through. -/
theorem walk_walk (body : σ → α → σ × Bool) (inner : β → List α) (state : σ) (outer : List β) :
    walk (fun state b => walk body state (inner b)) state outer =
      walk body state (outer.flatMap inner) := by
  induction outer generalizing state with
  | nil => rfl
  | cons b outer ih =>
    rw [List.flatMap_cons, walk_append]
    cases answer : (walk body state (inner b)).2 with
    | true =>
      rw [walk, if_pos answer, ih, if_pos rfl]
    | false =>
      rw [walk, if_neg (by simp [answer]), if_neg (by simp)]
      exact Prod.ext rfl answer.symm

/-- Where no body refuses, the loop does not. -/
theorem walk_true {body : σ → α → σ × Bool} {list : List α}
    (goes : ∀ a ∈ list, ∀ state, (body state a).2 = true) (state : σ) :
    (walk body state list).2 = true := by
  induction list generalizing state with
  | nil => rfl
  | cons a rest ih =>
    rw [walk_cons_true rest (goes a List.mem_cons_self state)]
    exact ih (fun b member => goes b (List.mem_cons_of_mem _ member)) _

/-! ## Refusals that depend on the element -/

/-- The list up to the first element that is refused, with it. -/
def reached (refused : α → Bool) : List α → List α
  | [] => []
  | a :: rest => if refused a then [a] else a :: reached refused rest

/-- Where the element decides, the loop is a fold over what it reaches. -/
theorem walk_eq_foldl {body : σ → α → σ × Bool} {step : σ → α → σ} {refused : α → Bool}
    {list : List α} (stepped : ∀ a ∈ list, ∀ state, body state a = (step state a, !refused a))
    (state : σ) :
    walk body state list = ((reached refused list).foldl step state, !list.any refused) := by
  induction list generalizing state with
  | nil => rfl
  | cons a rest ih =>
    have later := ih (fun b member => stepped b (List.mem_cons_of_mem _ member)) (step state a)
    rw [walk, reached, stepped a List.mem_cons_self, List.any_cons]
    cases refused a with
    | true => simp
    | false => simpa using later

/-- What a list counts up to its first refusal does not depend on what comes after it. -/
theorem reached_filter_congr {p q refused : α → Bool} {list : List α}
    (same : ∀ a ∈ reached (fun a => q a && refused a) list, p a = q a) :
    reached refused (list.filter p) = reached refused (list.filter q) ∧
      (list.filter p).any refused = (list.filter q).any refused := by
  induction list with
  | nil => exact ⟨rfl, rfl⟩
  | cons a rest ih =>
    have here : p a = q a := by
      refine same a ?_
      rw [reached]
      split <;> exact List.mem_cons_self
    cases counts : q a with
    | false =>
      rw [counts] at here
      rw [List.filter_cons_of_neg (by simp [here]), List.filter_cons_of_neg (by simp [counts])]
      refine ih fun b member => same b ?_
      rw [reached, counts, Bool.false_and, if_neg Bool.false_ne_true]
      exact List.mem_cons_of_mem _ member
    | true =>
      rw [counts] at here
      rw [List.filter_cons_of_pos here, List.filter_cons_of_pos counts, reached, reached,
        List.any_cons, List.any_cons]
      cases stops : refused a with
      | true => exact ⟨rfl, rfl⟩
      | false =>
        obtain ⟨front, answer⟩ := ih fun b member => same b (by
          rw [reached, counts, stops, Bool.and_false, if_neg Bool.false_ne_true]
          exact List.mem_cons_of_mem _ member)
        rw [if_neg Bool.false_ne_true, if_neg Bool.false_ne_true, front, Bool.false_or,
          Bool.false_or, answer]
        exact ⟨rfl, rfl⟩

/-- An element that is skipped can be left out. -/
theorem walk_filter {body : σ → α → σ × Bool} {counts : α → Bool}
    (skipped : ∀ state a, counts a = false → body state a = (state, true)) (state : σ)
    (list : List α) : walk body state list = walk body state (list.filter counts) := by
  induction list generalizing state with
  | nil => rfl
  | cons a rest ih =>
    cases here : counts a with
    | true =>
      rw [List.filter_cons_of_pos here, walk, walk, ih]
    | false =>
      rw [List.filter_cons_of_neg (by simp [here]), walk_cons_true _ (by rw [skipped _ _ here]),
        skipped _ _ here, ih]

/-! ## Elements marked once -/

section
variable [DecidableEq α]

/-- A body that marks what it is called for, and skips what is marked. -/
def marking (body : σ → α → σ × Bool) (state : List α × σ) (a : α) : (List α × σ) × Bool :=
  if a ∈ state.1 then (state, true)
  else ((a :: state.1, (body state.2 a).1), (body state.2 a).2)

theorem walk_marking (body : σ → α → σ × Bool) (marked : List α) (state : σ) (list : List α) :
    ((walk (marking body) (marked, state) list).1.2, (walk (marking body) (marked, state) list).2) =
      walk body state (Marks.fresh marked list) := by
  induction list generalizing marked state with
  | nil => rfl
  | cons a rest ih =>
    rw [Marks.fresh]
    by_cases visited : a ∈ marked
    · have skips : marking body (marked, state) a = ((marked, state), true) := if_pos visited
      rw [if_pos visited, walk_cons_true rest (by rw [skips]), skips]
      exact ih marked state
    · have calls : marking body (marked, state) a =
          ((a :: marked, (body state a).1), (body state a).2) := if_neg visited
      rw [if_neg visited]
      cases answer : (body state a).2 with
      | true =>
        rw [walk_cons_true rest (by rw [calls]; exact answer), walk_cons_true _ answer, calls]
        exact ih (a :: marked) (body state a).1
      | false =>
        rw [walk_cons_false rest (by rw [calls]; exact answer), walk_cons_false _ answer, calls]

end

end Halting

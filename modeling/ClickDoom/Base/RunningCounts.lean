import Mathlib

/-! # Running counts

Two uses of a running count of flags over a list.  Over the lists of a family laid end
to end, a list has no flagged element exactly when the count stands still across it.
Over a filtered list, the count up to an element is its place among the kept ones.
-/
namespace RunningCounts

variable {α β : Type}

/-- The running sums of a list, each with its own element, from `start`. -/
def sumsFrom (start : Nat) : List Nat → List Nat
  | [] => []
  | n :: rest => (start + n) :: sumsFrom (start + n) rest

/-- The elements whose mark is set. -/
def pick (values : List α) (marks : List Bool) : List α :=
  ((values.zip marks).filter Prod.snd).map Prod.fst

theorem sumsFrom_append (start : Nat) (xs ys : List Nat) :
    sumsFrom start (xs ++ ys) = sumsFrom start xs ++ sumsFrom (start + xs.sum) ys := by
  induction xs generalizing start with
  | nil => simp [sumsFrom]
  | cons x xs ih => simp [sumsFrom, ih, Nat.add_assoc]

theorem pick_append {xs ys : List α} {ms ns : List Bool} (h : xs.length = ms.length) :
    pick (xs ++ ys) (ms ++ ns) = pick xs ms ++ pick ys ns := by
  simp [pick, List.zip_append h]

theorem pick_replicate_false (xs : List α) (n : Nat) : pick xs (List.replicate n false) = [] := by
  induction xs generalizing n with
  | nil => simp [pick]
  | cons x xs ih =>
    cases n with
    | zero => simp [pick]
    | succ n => simpa [pick, List.replicate_succ] using ih n

/-! ## Lists laid end to end -/

/-- A mark on the first element of each list. -/
def firstMarks (lists : List (List α)) : List Bool :=
  lists.flatMap fun list => true :: List.replicate (list.length - 1) false

/-- A mark on the last element of each list. -/
def lastMarks (lists : List (List α)) : List Bool :=
  lists.flatMap fun list => List.replicate (list.length - 1) false ++ [true]

def flags (flagged : α → Bool) (list : List α) : List Nat := list.map fun a => (flagged a).toNat

theorem sum_flags_eq_zero {flagged : α → Bool} {list : List α} :
    (flags flagged list).sum = 0 ↔ ∀ a ∈ list, flagged a = false := by
  simp [flags, List.sum_eq_zero_iff]

/-- The running sums of a nonempty list end with its whole sum. -/
theorem sumsFrom_cons_eq (start n : Nat) (rest : List Nat) :
    ∃ front, sumsFrom start (n :: rest) = front ++ [start + (n + rest.sum)] ∧
      front.length = rest.length := by
  induction rest generalizing start n with
  | nil => exact ⟨[], by simp [sumsFrom], rfl⟩
  | cons m rest ih =>
    obtain ⟨front, eq, length⟩ := ih (start + n) m
    refine ⟨(start + n) :: front, ?_, by simp [length]⟩
    rw [sumsFrom, eq]
    simp [Nat.add_assoc]

/-- The counts from before and from after each list are equal exactly where the list has
no flagged element. -/
theorem zipWith_pick_eq (flagged : α → Bool) (start : Nat) {lists : List (List α)}
    (nonempty : ∀ list ∈ lists, list ≠ []) :
    List.zipWith (fun before after => after == before)
        (pick (start :: sumsFrom start (flags flagged lists.flatten)) (firstMarks lists ++ [false]))
        (pick (start :: sumsFrom start (flags flagged lists.flatten)) (false :: lastMarks lists)) =
      lists.map fun list => list.all fun a => !flagged a := by
  have skip : ∀ (sums : List Nat) (marks : List Bool),
      pick (start :: sums) (false :: marks) = pick sums marks := fun _ _ => rfl
  rw [skip]
  clear skip
  induction lists generalizing start with
  | nil => simp [pick, firstMarks, lastMarks]
  | cons list lists ih =>
    obtain ⟨a, list, rfl⟩ := List.exists_cons_of_ne_nil (nonempty list List.mem_cons_self)
    obtain ⟨front, eq, length⟩ :=
      sumsFrom_cons_eq start (flagged a).toNat (flags flagged list)
    have total : (flags flagged (a :: list)).sum = (flagged a).toNat + (flags flagged list).sum := by
      simp [flags]
    have laid : sumsFrom start (flags flagged (List.flatten ((a :: list) :: lists))) =
        front ++ (start + (flags flagged (a :: list)).sum) ::
          sumsFrom (start + (flags flagged (a :: list)).sum) (flags flagged lists.flatten) := by
      have cut : flags flagged (List.flatten ((a :: list) :: lists)) =
          flags flagged (a :: list) ++ flags flagged lists.flatten := by
        simp [flags]
      rw [cut, sumsFrom_append, show flags flagged (a :: list) =
        (flagged a).toNat :: flags flagged list from rfl, eq]
      simp
    have size : front.length = list.length := by simpa [flags] using length
    have first : firstMarks ((a :: list) :: lists) ++ [false] =
        true :: (List.replicate list.length false ++ (firstMarks lists ++ [false])) := by
      simp [firstMarks]
    have last : lastMarks ((a :: list) :: lists) =
        List.replicate list.length false ++ (true :: lastMarks lists) := by
      simp [lastMarks]
    have pickCons : ∀ (n : Nat) (sums : List Nat) (marks : List Bool),
        pick (n :: sums) (true :: marks) = n :: pick sums marks := fun _ _ _ => rfl
    have sized : front.length = (List.replicate list.length false).length := by simp [size]
    rw [first, last, laid, pickCons, pick_append sized, pick_append sized,
      pick_replicate_false, List.nil_append, List.nil_append, pickCons, List.zipWith_cons_cons,
      ih _ fun list member => nonempty list (List.mem_cons_of_mem _ member), List.map_cons]
    congr 1
    have still : start + (flags flagged (a :: list)).sum = start ↔
        ∀ b ∈ a :: list, flagged b = false := by
      rw [← sum_flags_eq_zero]
      omega
    rw [Bool.eq_iff_iff, beq_iff_eq, still]
    simp

/-! ## The place of a kept element -/

/-- Answers for the kept elements, put back where the elements stand: the running count
of kept elements, from one, is an answer's place. -/
theorem zipWith_place_eq (kept : α → Bool) (answer : α → Bool) (done : List Bool)
    (list : List α) :
    List.zipWith (fun a place => kept a &&
        (done ++ (list.filter kept).map answer).getD (max place 1 - 1) false)
      list (sumsFrom done.length (flags kept list)) =
      list.map fun a => kept a && answer a := by
  induction list generalizing done with
  | nil => rfl
  | cons a list ih =>
    cases keep : kept a with
    | false =>
      have rest := ih done
      simp only [flags, List.map_cons, keep, Bool.toNat_false, sumsFrom, Nat.add_zero,
        List.zipWith_cons_cons, Bool.false_and, List.filter_cons] at rest ⊢
      simpa using rest
    | true =>
      have rest := ih (done ++ [answer a])
      simp only [List.append_assoc, List.singleton_append, List.length_append,
        List.length_singleton] at rest
      simp only [flags, List.map_cons, keep, Bool.toNat_true, sumsFrom, List.zipWith_cons_cons,
        List.filter_cons, if_true, Bool.true_and] at rest ⊢
      congr 1
      simp

/-! ## A list cut in order -/

/-- The number of its piece for each element, the pieces numbered from `start`. -/
def labels (start : Nat) : List Nat → List Nat
  | [] => []
  | size :: sizes => List.replicate size start ++ labels (start + 1) sizes

theorem flatMap_zipIdx_eq_labels (size : β → Nat) (pieces : List β) (start : Nat) :
    ((pieces.zipIdx start).flatMap fun entry => List.replicate (size entry.1) entry.2) =
      labels start (pieces.map size) := by
  induction pieces generalizing start with
  | nil => rfl
  | cons piece pieces ih => simp [labels, ih]

/-- An element's label says which piece it is in. -/
theorem mem_zip_labels {list : List α} {sizes : List Nat} {start : Nat}
    (total : sizes.sum = list.length) {a : α} {label : Nat} :
    (a, label) ∈ list.zip (labels start sizes) ↔
      ∃ i, ∃ h : i < sizes.length, label = start + i ∧
        a ∈ (list.drop (sizes.take i).sum).take sizes[i] := by
  induction sizes generalizing list start with
  | nil => simp [labels]
  | cons size sizes ih =>
    have fits : size ≤ list.length := by
      rw [← total, List.sum_cons]
      omega
    have rest : sizes.sum = (list.drop size).length := by
      rw [List.length_drop, ← total, List.sum_cons]
      omega
    have cut : list.zip (labels start (size :: sizes)) =
        (list.take size).zip (List.replicate size start) ++
          (list.drop size).zip (labels (start + 1) sizes) := by
      rw [labels, ← List.zip_append (by simp [fits]), List.take_append_drop]
    have first : (a, label) ∈ (list.take size).zip (List.replicate size start) ↔
        label = start ∧ a ∈ list.take size := by
      have map : (list.take size).zip (List.replicate size start) =
          (list.take size).map fun a => (a, start) := by
        apply List.ext_getElem
        · simp [fits]
        · intro i h h'
          simp
      rw [map, List.mem_map]
      constructor
      · rintro ⟨b, member, eq⟩
        cases eq
        exact ⟨rfl, member⟩
      · rintro ⟨rfl, member⟩
        exact ⟨a, member, rfl⟩
    rw [cut, List.mem_append, first, ih rest]
    constructor
    · rintro (⟨rfl, member⟩ | ⟨i, inside, rfl, member⟩)
      · exact ⟨0, by simp, by simp, by simpa using member⟩
      · refine ⟨i + 1, by simpa using inside, by omega, ?_⟩
        simpa [List.drop_drop] using member
    · rintro ⟨i, inside, rfl, member⟩
      cases i with
      | zero => exact .inl ⟨rfl, by simpa using member⟩
      | succ i =>
        refine .inr ⟨i, by simpa using inside, by omega, ?_⟩
        simpa [List.drop_drop] using member

end RunningCounts

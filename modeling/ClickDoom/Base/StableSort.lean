import Mathlib

/-! # Stable sorting

Taking the first of the least elements, again and again, is insertion sort, and so is
sorting by key and place.
-/
namespace StableSort

variable {α : Type} (key : α → Int)

/-- Sorted by key, equal keys in their order. -/
def byKey (list : List α) : List α := list.insertionSort fun a b => key a ≤ key b

/-- Sorted by key and then by place. -/
def byKeyAndPlace (list : List α) : List α :=
  (list.zipIdx.insertionSort fun a b =>
    key a.1 < key b.1 ∨ (key a.1 = key b.1 ∧ a.2 ≤ b.2)).map Prod.fst

variable {key}

/-- The first of the least elements comes out first. -/
theorem byKey_first_least {before after : List α} {a : α} (least : ∀ b ∈ before, key a < key b)
    (le : ∀ b ∈ after, key a ≤ key b) :
    byKey key (before ++ a :: after) = a :: byKey key (before ++ after) := by
  induction before with
  | nil => exact List.insertionSort_cons_of_forall_rel _ le
  | cons b before ih =>
    have rest := ih fun c member => least c (List.mem_cons_of_mem _ member)
    have greater : ¬key b ≤ key a := not_le.2 (least b List.mem_cons_self)
    rw [List.cons_append, byKey, List.insertionSort_cons]
    change List.orderedInsert _ b (byKey key (before ++ a :: after)) = _
    rw [rest, List.orderedInsert_cons, if_neg greater, List.cons_append]
    rfl

theorem map_orderedInsert_place {a : α} {place : Nat} {sorted : List (α × Nat)}
    (later : ∀ b ∈ sorted, place ≤ b.2) :
    (sorted.orderedInsert (fun a b => key a.1 < key b.1 ∨ (key a.1 = key b.1 ∧ a.2 ≤ b.2))
        (a, place)).map Prod.fst =
      (sorted.map Prod.fst).orderedInsert (fun a b => key a ≤ key b) a := by
  induction sorted with
  | nil => rfl
  | cons b sorted ih =>
    have same : (key a < key b.1 ∨ (key a = key b.1 ∧ place ≤ b.2)) ↔ key a ≤ key b.1 := by
      have := later b List.mem_cons_self
      omega
    rw [List.map_cons, List.orderedInsert_cons, List.orderedInsert_cons]
    by_cases le : key a ≤ key b.1
    · rw [if_pos (same.2 le), if_pos le]
      rfl
    · rw [if_neg fun h => le (same.1 h), if_neg le, List.map_cons,
        ih fun c member => later c (List.mem_cons_of_mem _ member)]

theorem byKeyAndPlace_eq (list : List α) : byKeyAndPlace key list = byKey key list := by
  have from' : ∀ start, ((list.zipIdx start).insertionSort fun a b =>
      key a.1 < key b.1 ∨ (key a.1 = key b.1 ∧ a.2 ≤ b.2)).map Prod.fst = byKey key list := by
    induction list with
    | nil => intro start; rfl
    | cons a list ih =>
      intro start
      rw [List.zipIdx_cons, List.insertionSort_cons, map_orderedInsert_place, ih, byKey, byKey,
        List.insertionSort_cons]
      intro b member
      rw [List.mem_insertionSort] at member
      have := List.mem_zipIdx member
      omega
  exact from' 0

/-- Distinct keys have one order, so sorting down is sorting up and reversing. -/
theorem reverse_filter_insertionSort {key : α → Nat} {list : List α} (p : α → Bool)
    (distinct : list.Pairwise fun a b => key a ≠ key b) :
    ((list.insertionSort fun a b => key a ≤ key b).filter p).reverse =
      (list.filter p).insertionSort fun a b => key b ≤ key a := by
  have : Std.Total fun a b : α => key a ≤ key b := ⟨fun a b => le_total ..⟩
  have : IsTrans α fun a b => key a ≤ key b := ⟨fun a b c => le_trans⟩
  have : Std.Total fun a b : α => key b ≤ key a := ⟨fun a b => le_total ..⟩
  have : IsTrans α fun a b => key b ≤ key a := ⟨fun a b c h h' => le_trans h' h⟩
  have up := (list.pairwise_insertionSort fun a b => key a ≤ key b).filter p
  have down := (list.filter p).pairwise_insertionSort fun a b => key b ≤ key a
  have perm : ((list.insertionSort fun a b => key a ≤ key b).filter p).reverse.Perm
      ((list.filter p).insertionSort fun a b => key b ≤ key a) :=
    (List.reverse_perm _).trans
      (((list.perm_insertionSort _).filter p).trans ((list.filter p).perm_insertionSort _).symm)
  refine List.Perm.eq_of_pairwise ?_ (List.pairwise_reverse.2 up) down perm
  intro a b memberA memberB le ge
  have memberA : a ∈ list := by
    have := List.mem_reverse.1 memberA
    exact (list.perm_insertionSort _).mem_iff.1 (List.mem_filter.1 this).1
  have memberB : b ∈ list :=
    (List.mem_filter.1 (((list.filter p).perm_insertionSort _).mem_iff.1 memberB)).1
  have : Std.Symm fun a b : α => key a ≠ key b := ⟨fun a b h => h.symm⟩
  by_contra ne
  exact distinct.forall memberA memberB ne (le_antisymm ge le)

/-! ## Groups -/

section
variable {κ : Type} [DecidableEq κ]

theorem pairwise_idxOf {groups : List κ} (nodup : groups.Nodup) :
    groups.Pairwise fun a b => groups.idxOf a < groups.idxOf b := by
  rw [List.pairwise_iff_getElem]
  intro i j hi hj less
  rwa [nodup.idxOf_getElem, nodup.idxOf_getElem]

/-- Sorting by the place of a group and then down by distinct keys is taking the groups one
after the other, each sorted down. -/
theorem insertionSort_grouped {r : α → α → Prop} [DecidableRel r] (group : α → κ)
    {groups : List κ} (key : α → Nat) {list : List α}
    (order : ∀ a b, r a b ↔ groups.idxOf (group a) < groups.idxOf (group b) ∨
      (groups.idxOf (group a) = groups.idxOf (group b) ∧ key b ≤ key a))
    (nodup : groups.Nodup) (covered : ∀ a ∈ list, group a ∈ groups)
    (distinct : list.Pairwise fun a b => key a ≠ key b) :
    list.insertionSort r =
      groups.flatMap fun g => (list.filter fun a => group a == g).insertionSort
        fun a b => key b ≤ key a := by
  let before (a b : α) : Prop := groups.idxOf (group a) < groups.idxOf (group b) ∨
    (groups.idxOf (group a) = groups.idxOf (group b) ∧ key b < key a)
  have : Std.Asymm before := ⟨fun a b => by simp only [before]; omega⟩
  have : Std.Total r := ⟨fun a b => by rw [order, order]; omega⟩
  have : IsTrans α r := ⟨fun a b c => by rw [order, order, order]; omega⟩
  have : Std.Total fun a b : α => key b ≤ key a := ⟨fun a b => le_total ..⟩
  have : IsTrans α fun a b => key b ≤ key a := ⟨fun a b c h h' => le_trans h' h⟩
  have symm : ∀ {a b : α}, key a ≠ key b → key b ≠ key a := fun h => h.symm
  have sorted : (list.insertionSort r).Pairwise before := by
    have apart := (List.perm_insertionSort r list).symm.pairwise distinct symm
    refine (list.pairwise_insertionSort r).imp₂ ?_ apart
    intro a b le ne
    rw [order] at le
    simp only [before]
    omega
  refine sorted.eq_of_mem_iff ?_ ?_
  · rw [List.pairwise_flatMap]
    refine ⟨fun g _ => ?_, ?_⟩
    · have apart := (List.perm_insertionSort (fun a b => key b ≤ key a)
        (list.filter fun a => group a == g)).symm.pairwise (distinct.filter _) symm
      have down := (list.filter fun a => group a == g).pairwise_insertionSort
        fun a b => key b ≤ key a
      refine (down.and apart).imp_of_mem ?_
      rintro a b memberA memberB ⟨le, ne⟩
      simp only [List.mem_insertionSort, List.mem_filter, beq_iff_eq] at memberA memberB
      simp only [before, memberA.2, memberB.2]
      exact .inr ⟨trivial, by omega⟩
    · refine (pairwise_idxOf nodup).imp ?_
      intro g g' less a memberA b memberB
      simp only [List.mem_insertionSort, List.mem_filter, beq_iff_eq] at memberA memberB
      simp only [before, memberA.2, memberB.2]
      omega
  · intro a
    simp only [List.mem_insertionSort, List.mem_flatMap, List.mem_filter, beq_iff_eq]
    constructor
    · intro member
      exact ⟨group a, covered a member, member, rfl⟩
    · rintro ⟨g, -, member, -⟩
      exact member

end

end StableSort

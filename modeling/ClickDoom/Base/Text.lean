import Mathlib

/-! # Occurrences of a pattern in a text

`str::find` and `str::match_indices` over a text as a list: the leftmost
occurrence, and the leftmost ones that do not overlap.  `Cut` is the induction
over them: a text with an occurrence is what stands before the first one, the
pattern, and the rest, and a text with none is one piece.
-/
namespace Text
variable {α : Type}

section
variable [DecidableEq α]

/-- The place of the leftmost occurrence. -/
def find (pat : List α) : List α → Option Nat
  | [] => if pat = [] then some 0 else none
  | c :: cs => if pat.isPrefixOf (c :: cs) then some 0 else (find pat cs).map (· + 1)

/-- The places of the occurrences, left to right, none inside an earlier one; the
text starts at `pos` and its first `skip` characters belong to an occurrence. -/
def matchesFrom (pat : List α) : List α → Nat → Nat → List Nat
  | [], _, _ => []
  | _ :: cs, skip + 1, pos => matchesFrom pat cs skip (pos + 1)
  | c :: cs, 0, pos =>
    if pat.isPrefixOf (c :: cs) then pos :: matchesFrom pat cs (pat.length - 1) (pos + 1)
    else matchesFrom pat cs 0 (pos + 1)

def matchIndices (pat text : List α) : List Nat := matchesFrom pat text 0 0

end

/-- The text with the `len` characters at each of the places given replaced by
`new`, and every other character as it was. -/
def splice (places : List Nat) (len : Nat) (new : List α) : List α → Nat → Nat → List α
  | [], _, _ => []
  | _ :: cs, skip + 1, pos => splice places len new cs skip (pos + 1)
  | c :: cs, 0, pos =>
    if pos ∈ places then new ++ splice places len new cs (len - 1) (pos + 1)
    else c :: splice places len new cs 0 (pos + 1)

/-- A text cut at the occurrences of a pattern into the pieces between them. -/
inductive Cut [DecidableEq α] (pat : List α) : List α → List (List α) → Prop
  | last {g : List α} : find pat g = none → Cut pat g [g]
  | next {g rest : List α} {gs : List (List α)} :
    find pat (g ++ (pat ++ rest)) = some g.length → Cut pat rest gs →
    Cut pat (g ++ (pat ++ rest)) (g :: gs)

section
variable [DecidableEq α] {pat : List α}

theorem eq_append_of_find {text : List α} {n : Nat} (h : find pat text = some n) :
    ∃ g rest, text = g ++ (pat ++ rest) ∧ g.length = n := by
  induction text generalizing n with
  | nil =>
    simp only [find] at h
    split_ifs at h with hpat
    cases h
    exact ⟨[], [], by simp [hpat], rfl⟩
  | cons c cs ih =>
    simp only [find] at h
    split_ifs at h with hpre
    · cases h
      obtain ⟨rest, hrest⟩ := List.isPrefixOf_iff_prefix.mp hpre
      exact ⟨[], rest, by simp [hrest], rfl⟩
    · obtain ⟨m, hm, rfl⟩ := Option.map_eq_some_iff.mp h
      obtain ⟨g, rest, rfl, hlen⟩ := ih hm
      exact ⟨c :: g, rest, rfl, by simp [hlen]⟩

/-- An occurrence stays where it is when the text goes on. -/
theorem find_append {text : List α} {n : Nat} (h : find pat text = some n) (rest : List α) :
    find pat (text ++ rest) = some n := by
  induction text generalizing n with
  | nil =>
    simp only [find] at h
    split_ifs at h with hpat
    cases h
    subst hpat
    cases rest <;> rfl
  | cons c cs ih =>
    rw [find] at h
    rw [List.cons_append, find]
    split_ifs at h with first
    · cases h
      have starts : pat <+: c :: (cs ++ rest) :=
        (List.isPrefixOf_iff_prefix.1 first).trans (List.prefix_append (c :: cs) rest)
      rw [if_pos (List.isPrefixOf_iff_prefix.2 starts)]
    · obtain ⟨m, later, rfl⟩ := Option.map_eq_some_iff.1 h
      obtain ⟨g, rest', rfl, -⟩ := eq_append_of_find later
      have long : pat.length ≤ (c :: (g ++ (pat ++ rest'))).length := by
        simp only [List.length_cons, List.length_append]
        omega
      have not' : ¬pat.isPrefixOf (c :: (g ++ (pat ++ rest') ++ rest)) := fun found =>
        first (List.isPrefixOf_iff_prefix.2 (List.prefix_of_prefix_length_le
          (List.isPrefixOf_iff_prefix.1 found) (List.prefix_append _ rest) long))
      rw [if_neg not', ih later]
      rfl

/-- Every text is cut, and the cut has at most as many occurrences as characters. -/
theorem exists_cut (hpat : pat ≠ []) (text : List α) :
    ∃ gs, Cut pat text gs ∧ gs.length ≤ text.length + 1 := by
  induction hn : text.length using Nat.strongRecOn generalizing text with
  | ind n ih =>
    cases hfind : find pat text with
    | none => exact ⟨[text], .last hfind, by simp⟩
    | some m =>
      obtain ⟨g, rest, rfl, rfl⟩ := eq_append_of_find hfind
      have hpos : 0 < pat.length := List.length_pos_of_ne_nil hpat
      have hlen : (g ++ (pat ++ rest)).length = g.length + (pat.length + rest.length) := by simp
      obtain ⟨gs, hcut, hgs⟩ := ih rest.length (by omega) rest rfl
      exact ⟨g :: gs, .next hfind hcut, by simp; omega⟩

/-- Skipped characters are not looked at. -/
theorem matchesFrom_skip (pre rest : List α) (pos : Nat) :
    matchesFrom pat (pre ++ rest) pre.length pos = matchesFrom pat rest 0 (pos + pre.length) := by
  induction pre generalizing pos with
  | nil => rfl
  | cons c pre ih =>
    rw [List.cons_append, List.length_cons, matchesFrom, ih]
    congr 1
    omega

theorem matchesFrom_of_find_none {text : List α} (h : find pat text = none) (pos : Nat) :
    matchesFrom pat text 0 pos = [] := by
  induction text generalizing pos with
  | nil => rfl
  | cons c cs ih =>
    simp only [find] at h
    split_ifs at h with hpre
    rw [matchesFrom, if_neg hpre]
    exact ih (Option.map_eq_none_iff.mp h) _

/-- The first occurrence stands after the first piece. -/
theorem matchesFrom_of_find (hpat : pat ≠ []) {g rest : List α}
    (h : find pat (g ++ (pat ++ rest)) = some g.length) (pos : Nat) :
    matchesFrom pat (g ++ (pat ++ rest)) 0 pos =
      (pos + g.length) :: matchesFrom pat rest 0 (pos + g.length + pat.length) := by
  induction g generalizing pos with
  | nil =>
    obtain ⟨c, cs, rfl⟩ := List.exists_cons_of_ne_nil hpat
    have hpre : (c :: cs).isPrefixOf (c :: (cs ++ rest)) = true :=
      List.isPrefixOf_iff_prefix.mpr (List.prefix_append _ _)
    rw [List.nil_append, List.cons_append, matchesFrom, if_pos hpre,
      List.length_cons, Nat.add_sub_cancel, matchesFrom_skip,
      show pos + 1 + cs.length = pos + (cs.length + 1) by omega]
    rfl
  | cons c g ih =>
    simp only [List.cons_append, find, List.length_cons] at h ⊢
    split_ifs at h with hpre
    · simp at h
    · rw [matchesFrom, if_neg hpre, ih (by simpa using h),
        show pos + 1 + g.length = pos + (g.length + 1) by omega]

end

/-! ## Splicing along a cut -/

section
variable {pat : List α} {places : List Nat} {len : Nat} {new : List α}

theorem splice_skip (pre rest : List α) (pos : Nat) :
    splice places len new (pre ++ rest) pre.length pos =
      splice places len new rest 0 (pos + pre.length) := by
  induction pre generalizing pos with
  | nil => rfl
  | cons c pre ih =>
    rw [List.cons_append, List.length_cons, splice, ih]
    congr 1
    omega

/-- A piece without a place is copied. -/
theorem splice_of_gap (g rest : List α) (pos : Nat)
    (hgap : ∀ i, pos ≤ i → i < pos + g.length → i ∉ places) :
    splice places len new (g ++ rest) 0 pos = g ++ splice places len new rest 0 (pos + g.length) := by
  induction g generalizing pos with
  | nil => rfl
  | cons c g ih =>
    rw [List.length_cons] at hgap
    rw [List.cons_append, splice, if_neg (hgap pos (by omega) (by omega)),
      ih (pos + 1) fun i hi hlt => hgap i (by omega) (by omega), List.length_cons, List.cons_append,
      show pos + 1 + g.length = pos + (g.length + 1) by omega]

/-- The text at a place is replaced whole. -/
theorem splice_of_mem (hpat : pat ≠ []) (rest : List α) (pos : Nat) (hmem : pos ∈ places) :
    splice places pat.length new (pat ++ rest) 0 pos =
      new ++ splice places pat.length new rest 0 (pos + pat.length) := by
  obtain ⟨c, cs, rfl⟩ := List.exists_cons_of_ne_nil hpat
  rw [List.cons_append, splice, if_pos hmem, List.length_cons, Nat.add_sub_cancel, splice_skip]
  congr 2
  omega

/-- With no place the text is copied. -/
theorem splice_nil (text : List α) (pos : Nat) : splice [] len new text 0 pos = text := by
  have h : splice [] len new (text ++ []) 0 pos =
      text ++ splice [] len new [] 0 (pos + text.length) :=
    splice_of_gap text [] pos fun _ _ _ => List.not_mem_nil
  simpa [splice] using h

end
end Text

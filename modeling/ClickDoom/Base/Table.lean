import Mathlib.Data.List.Sort
import Mathlib.Data.List.Dedup
import Mathlib.Data.List.Induction

/-! # Tables that replace rows

A table keeps every row that was ever inserted; reading it `FINAL` keeps, for each
key, the row of the highest version, and of several rows of one version the one
inserted last.  A table without a version column gives every row the same one.
-/

/-- A row of such a table. -/
structure TableRow (κ α : Type) where
  key : κ
  value : α
  version : Nat
  deriving DecidableEq

namespace TableRow
variable {κ α : Type}

/-- What is kept of the rows of one key, in the order they were inserted. -/
def newer : Option (TableRow κ α) → TableRow κ α → Option (TableRow κ α)
  | none, row => some row
  | some kept, row => if kept.version ≤ row.version then some row else some kept

/-- What is kept of rows that kept `a` and later rows that kept `b`. -/
def newest (a b : Option (TableRow κ α)) : Option (TableRow κ α) :=
  match b with
  | none => a
  | some row => newer a row

theorem newer_newest (a b : Option (TableRow κ α)) (row : TableRow κ α) :
    newer (newest a b) row = newest a (newer b row) := by
  rcases b with _ | b
  · rfl
  · rcases a with _ | a
    · simp only [newest, newer]
      split <;> rfl
    · by_cases hab : a.version ≤ b.version
      · by_cases hbr : b.version ≤ row.version
        · simp [newest, newer, hab, hbr, hab.trans hbr]
        · simp [newest, newer, hab, hbr]
      · by_cases hbr : b.version ≤ row.version
        · simp [newest, newer, hab, hbr]
        · have har : ¬a.version ≤ row.version := by omega
          simp [newest, newer, hab, hbr, har]

theorem newest_newest (a b : Option (TableRow κ α)) : newest (newest a b) b = newest a b := by
  cases b with
  | none => rfl
  | some b =>
    cases a with
    | none => exact if_pos (Nat.le_refl _)
    | some a =>
      simp only [newest, newer]
      split_ifs with h
      · exact if_pos (Nat.le_refl _)
      · exact if_neg h

theorem foldl_newer (best : Option (TableRow κ α)) (rows : List (TableRow κ α)) :
    rows.foldl newer best = newest best (rows.foldl newer none) := by
  induction rows using List.reverseRecOn with
  | nil => rfl
  | append_singleton rows row ih =>
    rw [List.foldl_append, List.foldl_append, List.foldl_cons, List.foldl_cons, List.foldl_nil,
      List.foldl_nil, ih, newer_newest]

end TableRow

namespace Table
variable {κ α : Type} [LinearOrder κ]

/-- The row `FINAL` keeps for a key. -/
def kept (rows : List (TableRow κ α)) (k : κ) : Option (TableRow κ α) :=
  (rows.filter (·.key = k)).foldl TableRow.newer none

/-- What a `FINAL` read finds under a key. -/
def final (rows : List (TableRow κ α)) (k : κ) : Option α := (kept rows k).map (·.value)

/-- The keys of a table, in order. -/
def keys (rows : List (TableRow κ α)) : List κ := (rows.map (·.key)).dedup.mergeSort (· ≤ ·)

/-- The whole table read `FINAL`, in the order of its keys. -/
def readFinal (rows : List (TableRow κ α)) : List (κ × α) :=
  (keys rows).filterMap fun k => (final rows k).map (k, ·)

/-! ## What is kept -/

omit [LinearOrder κ] in
theorem foldl_newer_isSome (row : TableRow κ α) (rows : List (TableRow κ α)) :
    ∃ kept, rows.foldl TableRow.newer (some row) = some kept ∧ (kept = row ∨ kept ∈ rows) ∧
      row.version ≤ kept.version ∧ ∀ r ∈ rows, r.version ≤ kept.version := by
  induction rows generalizing row with
  | nil => exact ⟨row, rfl, Or.inl rfl, Nat.le_refl _, by simp⟩
  | cons r rest ih =>
    rw [List.foldl_cons, TableRow.newer]
    by_cases hle : row.version ≤ r.version
    · rw [if_pos hle]
      obtain ⟨kept, hfold, hmem, hver, hall⟩ := ih r
      refine ⟨kept, hfold, ?_, hle.trans hver, ?_⟩
      · rcases hmem with rfl | hmem
        · exact Or.inr List.mem_cons_self
        · exact Or.inr (List.mem_cons_of_mem _ hmem)
      · intro s hs
        rcases List.mem_cons.mp hs with rfl | hs
        · exact hver
        · exact hall s hs
    · rw [if_neg hle]
      obtain ⟨kept, hfold, hmem, hver, hall⟩ := ih row
      refine ⟨kept, hfold, ?_, hver, ?_⟩
      · rcases hmem with rfl | hmem
        · exact Or.inl rfl
        · exact Or.inr (List.mem_cons_of_mem _ hmem)
      · intro s hs
        rcases List.mem_cons.mp hs with rfl | hs
        · exact (le_of_lt (not_le.mp hle)).trans hver
        · exact hall s hs

theorem kept_none {rows : List (TableRow κ α)} {k : κ} :
    kept rows k = none ↔ ∀ r ∈ rows, r.key ≠ k := by
  constructor
  · intro h r hr hk
    cases hf : rows.filter (·.key = k) with
    | nil =>
      have : r ∈ rows.filter (·.key = k) := List.mem_filter.mpr ⟨hr, decide_eq_true hk⟩
      rw [hf] at this
      cases this
    | cons s rest =>
      rw [kept, hf, List.foldl_cons] at h
      obtain ⟨row, hfold, -⟩ := foldl_newer_isSome s rest
      change rest.foldl TableRow.newer (some s) = none at h
      rw [hfold] at h
      cases h
  · intro h
    have : rows.filter (·.key = k) = [] := by
      rw [List.filter_eq_nil_iff]
      intro r hr
      simpa using h r hr
    rw [kept, this]
    rfl

/-- The row kept is one of its key's, of their highest version. -/
theorem kept_some {rows : List (TableRow κ α)} {k : κ} {row : TableRow κ α}
    (h : kept rows k = some row) :
    row ∈ rows ∧ row.key = k ∧ ∀ r ∈ rows, r.key = k → r.version ≤ row.version := by
  cases hf : rows.filter (·.key = k) with
  | nil =>
    rw [kept, hf] at h
    cases h
  | cons s rest =>
    obtain ⟨row', hfold, hmem, hver, hall⟩ := foldl_newer_isSome s rest
    rw [kept, hf, List.foldl_cons] at h
    change rest.foldl TableRow.newer (some s) = some row at h
    rw [hfold] at h
    obtain rfl := Option.some.inj h
    have hmem' : row' ∈ rows.filter (·.key = k) := by
      rw [hf]
      exact List.mem_cons.mpr hmem
    obtain ⟨hin, hkey⟩ := List.mem_filter.mp hmem'
    refine ⟨hin, of_decide_eq_true hkey, ?_⟩
    intro r hr hk
    have hr' : r ∈ rows.filter (·.key = k) := List.mem_filter.mpr ⟨hr, decide_eq_true hk⟩
    rw [hf] at hr'
    rcases List.mem_cons.mp hr' with rfl | hr'
    · exact hver
    · exact hall r hr'

/-! ## Inserting newer rows -/

/-- Rows newer than all that are there hide them. -/
theorem kept_append {rows new : List (TableRow κ α)} {k : κ}
    (hnew : ∀ r ∈ rows, ∀ s ∈ new, r.key = s.key → r.version ≤ s.version) :
    kept (rows ++ new) k = (kept new k).or (kept rows k) := by
  rw [kept, List.filter_append, List.foldl_append]
  change (new.filter (·.key = k)).foldl TableRow.newer (kept rows k) = _
  cases hk : kept rows k with
  | none =>
    rw [Option.or_none]
    rfl
  | some row =>
    obtain ⟨hmem, hkey, -⟩ := kept_some hk
    cases hf : new.filter (·.key = k) with
    | nil =>
      rw [kept, hf]
      rfl
    | cons s rest =>
      have hs : s ∈ new.filter (·.key = k) := by
        rw [hf]
        exact List.mem_cons_self
      obtain ⟨hs, hskey⟩ := List.mem_filter.mp hs
      have hle := hnew row hmem s hs (hkey.trans (of_decide_eq_true hskey).symm)
      have hfirst : TableRow.newer (some row) s = some s := if_pos hle
      rw [kept, hf, List.foldl_cons, List.foldl_cons, hfirst]
      obtain ⟨row', hfold, -⟩ := foldl_newer_isSome s rest
      change _ = (rest.foldl TableRow.newer (some s)).or _
      rw [hfold]
      rfl

theorem final_append {rows new : List (TableRow κ α)} {k : κ}
    (hnew : ∀ r ∈ rows, ∀ s ∈ new, r.key = s.key → r.version ≤ s.version) :
    final (rows ++ new) k = (final new k).or (final rows k) := by
  rw [final, kept_append hnew, final, final]
  cases kept new k <;> rfl

/-- One row more, newer than all that are there. -/
theorem final_append_singleton {rows : List (TableRow κ α)} {row : TableRow κ α} {k : κ}
    (hnew : ∀ r ∈ rows, r.key = row.key → r.version ≤ row.version) :
    final (rows ++ [row]) k = if row.key = k then some row.value else final rows k := by
  have hsingle : final [row] k = if row.key = k then some row.value else none := by
    by_cases hk : row.key = k <;> simp [final, kept, hk, TableRow.newer]
  rw [final_append, hsingle]
  · split <;> rfl
  · intro r hr s hs
    rw [List.mem_singleton.mp hs]
    exact hnew r hr

/-- Rows of other keys change nothing. -/
theorem final_append_of_ne {rows new : List (TableRow κ α)} {k : κ} (h : ∀ r ∈ new, r.key ≠ k) :
    final (rows ++ new) k = final rows k := by
  have hnil : new.filter (·.key = k) = [] := by
    rw [List.filter_eq_nil_iff]
    intro r hr
    simpa using h r hr
  rw [final, kept, List.filter_append, hnil, List.append_nil]
  rfl

/-- Behind rows of other keys a key reads as if they were not there. -/
theorem final_append_of_ne_left {rows new : List (TableRow κ α)} {k : κ}
    (h : ∀ r ∈ rows, r.key ≠ k) : final (rows ++ new) k = final new k := by
  have hnil : rows.filter (·.key = k) = [] := by
    rw [List.filter_eq_nil_iff]
    intro r hr
    simpa using h r hr
  rw [final, kept, List.filter_append, hnil, List.nil_append]
  rfl

/-- The only row of its key. -/
theorem final_of_unique {rows : List (TableRow κ α)} {row : TableRow κ α} (hmem : row ∈ rows)
    (h : ∀ r ∈ rows, r.key = row.key → r = row) : final rows row.key = some row.value := by
  cases hk : kept rows row.key with
  | none => exact absurd rfl (kept_none.mp hk row hmem)
  | some kept =>
    obtain ⟨hin, hkey, -⟩ := kept_some hk
    rw [final, hk, h kept hin hkey]
    rfl

/-! ## Reading a table in order -/

theorem mem_keys {rows : List (TableRow κ α)} {k : κ} : k ∈ keys rows ↔ ∃ r ∈ rows, r.key = k := by
  simp [keys]

theorem pairwise_keys (rows : List (TableRow κ α)) : (keys rows).Pairwise (· < ·) := by
  have hle : (keys rows).Pairwise fun a b => decide (a ≤ b) = true :=
    List.pairwise_mergeSort
      (fun a b c hab hbc => decide_eq_true
        ((of_decide_eq_true hab).trans (of_decide_eq_true hbc)))
      (fun a b => by simpa using le_total a b) _
  have hnodup : (keys rows).Nodup := (List.mergeSort_perm _ _).nodup_iff.mpr (List.nodup_dedup _)
  exact (hle.and hnodup).imp fun hab => lt_of_le_of_ne (of_decide_eq_true hab.1) hab.2

/-- A sorted list of exactly the keys is the list of the keys. -/
theorem keys_eq {rows : List (TableRow κ α)} {ks : List κ} (hsorted : ks.Pairwise (· < ·))
    (hmem : ∀ k, k ∈ ks ↔ ∃ r ∈ rows, r.key = k) : keys rows = ks := by
  have hperm : (keys rows).Perm ks := by
    refine (List.mergeSort_perm _ _).trans ((List.perm_ext_iff_of_nodup ?_ ?_).mpr ?_)
    · exact List.nodup_dedup _
    · exact hsorted.imp ne_of_lt
    · intro k
      rw [hmem k]
      simp
  exact hperm.eq_of_pairwise' ((pairwise_keys rows).imp le_of_lt) (hsorted.imp le_of_lt)

/-- What a table reads in order, from a sorted list of its keys. -/
theorem readFinal_eq {rows : List (TableRow κ α)} {ks : List κ} (hsorted : ks.Pairwise (· < ·))
    (hmem : ∀ k, k ∈ ks ↔ ∃ r ∈ rows, r.key = k) (f : κ → α)
    (hf : ∀ k ∈ ks, final rows k = some (f k)) :
    readFinal rows = ks.map fun k => (k, f k) := by
  rw [readFinal, keys_eq hsorted hmem, ← List.filterMap_eq_map]
  apply List.filterMap_congr
  intro k hk
  rw [hf k hk]
  rfl

omit [LinearOrder κ] in
theorem filterMap_eq_zip {f : κ → Option α} {ks : List κ} (hf : ∀ k ∈ ks, (f k).isSome)
    {vs : List α} (hlen : vs.length = ks.length) :
    (ks.filterMap fun k => (f k).map (k, ·)) = ks.zip vs ↔
      ∀ (i : Nat) (k : κ), ks[i]? = some k → f k = vs[i]? := by
  induction ks generalizing vs with
  | nil => simp
  | cons k ks ih =>
    obtain ⟨v, vs, rfl⟩ := List.exists_cons_of_length_eq_add_one hlen
    obtain ⟨x, hx⟩ := Option.isSome_iff_exists.mp (hf k List.mem_cons_self)
    have hlen' : vs.length = ks.length := by simpa using hlen
    have hcons : (List.filterMap (fun k => (f k).map (k, ·)) (k :: ks)) =
        (k, x) :: ks.filterMap fun k => (f k).map (k, ·) := by
      simp [hx]
    rw [hcons, List.zip_cons_cons, List.cons.injEq,
      ih (fun k hk => hf k (List.mem_cons_of_mem _ hk)) hlen']
    constructor
    · rintro ⟨hv, hrest⟩ (_ | i) k' hk'
      · obtain rfl : k = k' := by simpa using hk'
        rw [hx, (Prod.mk.inj hv).2]
        rfl
      · exact hrest i k' hk'
    · intro h
      refine ⟨?_, fun i => h (i + 1)⟩
      have := h 0 k rfl
      rw [hx] at this
      simpa using this

/-- What a table reads in order are these values exactly if it reads each under its key. -/
theorem readFinal_eq_zip {rows : List (TableRow κ α)} {vs : List α}
    (hlen : vs.length = (keys rows).length) :
    readFinal rows = (keys rows).zip vs ↔
      ∀ (i : Nat) (k : κ), (keys rows)[i]? = some k → final rows k = vs[i]? := by
  refine filterMap_eq_zip (fun k hk => ?_) hlen
  obtain ⟨r, hr, rfl⟩ := mem_keys.mp hk
  cases hkept : kept rows r.key with
  | none => exact absurd rfl (kept_none.mp hkept r hr)
  | some row =>
    rw [final, hkept]
    rfl

/-- Tables with the same keys that read alike under each read alike in order. -/
theorem readFinal_congr {rows rows' : List (TableRow κ α)}
    (hkeys : ∀ k, (∃ r ∈ rows, r.key = k) ↔ ∃ r ∈ rows', r.key = k)
    (h : ∀ k, final rows k = final rows' k) : readFinal rows = readFinal rows' := by
  have hsame : keys rows = keys rows' :=
    keys_eq (pairwise_keys rows') fun k => by rw [mem_keys, hkeys]
  rw [readFinal, readFinal, hsame]
  apply List.filterMap_congr
  intro k _
  rw [h k]

/-- Rows whose keys come after all that are there read after them. -/
theorem readFinal_append {rows new : List (TableRow κ α)}
    (h : ∀ r ∈ rows, ∀ s ∈ new, r.key < s.key) :
    readFinal (rows ++ new) = readFinal rows ++ readFinal new := by
  have hkeys : keys (rows ++ new) = keys rows ++ keys new := by
    apply keys_eq
    · refine List.pairwise_append.mpr ⟨pairwise_keys rows, pairwise_keys new, ?_⟩
      intro a ha b hb
      obtain ⟨r, hr, rfl⟩ := mem_keys.mp ha
      obtain ⟨s, hs, rfl⟩ := mem_keys.mp hb
      exact h r hr s hs
    · intro k
      simp only [List.mem_append, mem_keys, or_and_right, exists_or]
  rw [readFinal, hkeys, List.filterMap_append, readFinal, readFinal]
  congr 1
  · apply List.filterMap_congr
    intro k hk
    obtain ⟨r, hr, rfl⟩ := mem_keys.mp hk
    rw [final_append_of_ne fun s hs => (h r hr s hs).ne']
  · apply List.filterMap_congr
    intro k hk
    obtain ⟨s, hs, rfl⟩ := mem_keys.mp hk
    rw [final_append_of_ne_left fun r hr => (h r hr s hs).ne]

/-! ## Tables that keep the same rows -/

/-- For every key the two tables keep the same row. -/
def Alike (rows rows' : List (TableRow κ α)) : Prop := ∀ k, kept rows k = kept rows' k

namespace Alike
variable {rows rows' rows'' : List (TableRow κ α)}

theorem refl (rows : List (TableRow κ α)) : Alike rows rows := fun _ => rfl

theorem symm (h : Alike rows rows') : Alike rows' rows := fun k => (h k).symm

theorem trans (h : Alike rows rows') (h' : Alike rows' rows'') : Alike rows rows'' := fun k =>
  (h k).trans (h' k)

theorem append (h : Alike rows rows') (new : List (TableRow κ α)) :
    Alike (rows ++ new) (rows' ++ new) := by
  intro k
  rw [kept, kept, List.filter_append, List.filter_append, List.foldl_append, List.foldl_append]
  exact congrArg (List.foldl TableRow.newer · _) (h k)

theorem final_eq (h : Alike rows rows') (k : κ) : final rows k = final rows' k :=
  congrArg (Option.map _) (h k)

theorem readFinal_eq (h : Alike rows rows') : readFinal rows = readFinal rows' := by
  refine readFinal_congr (fun k => ?_) h.final_eq
  have hnone : kept rows k = none ↔ kept rows' k = none := by rw [h k]
  rw [kept_none, kept_none] at hnone
  simpa using not_congr hnone

end Alike

/-- Inserting the last rows again changes nothing. -/
theorem alike_append_append (rows new : List (TableRow κ α)) :
    Alike (rows ++ new ++ new) (rows ++ new) := by
  intro k
  simp only [kept, List.filter_append, List.foldl_append]
  rw [TableRow.foldl_newer, TableRow.foldl_newer, TableRow.newest_newest]

end Table

import ClickDoom.Engine.Spans
import ClickDoom.Native.Spans

/-! # Spans by two sorts are the engine's

A row of a plane is columns, and its spans are the runs of these.  The sorted starts are the first
columns of the runs, row after row and plane after plane, and the sorted ends their last columns;
the sweep of the engine maps the same runs.
-/
namespace ClickDoom.Native.Spans
open Compose (shifted shifted_true shifted_false)
open Runs

/-- A mark of a column of the view. -/
structure Mark.InView (m : Mark) : Prop where
  column : m.column < 320
  first : 0 ≤ m.top
  le : m.top ≤ m.bottom
  last : m.bottom < 168

/-- Marks of the view, at most one for a plane and a column. -/
structure InView (marks : List Mark) : Prop where
  each : ∀ m ∈ marks, m.InView
  distinct : (marks.map fun m => (m.plane, m.column)).Nodup

/-- A plane is marked in a column and a row. -/
def Marked (marks : List Mark) (plane : Nat) (column : Nat) (y : Int) : Prop :=
  ∃ m ∈ marks, m.plane.toNat = plane ∧ m.column = column ∧ m.top ≤ y ∧ y ≤ m.bottom

instance (marks : List Mark) (plane column : Nat) (y : Int) :
    Decidable (Marked marks plane column y) := inferInstanceAs (Decidable (∃ m ∈ marks, _))

/-! ## Edges -/

theorem mem_rangeFrom {a b y : Int} : y ∈ rangeFrom a b ↔ a ≤ y ∧ y < b := by
  rw [rangeFrom, List.mem_map]
  constructor
  · rintro ⟨i, there, rfl⟩
    rw [List.mem_range] at there
    omega
  · rintro ⟨low, high⟩
    exact ⟨(y - a).toNat, List.mem_range.2 (by omega), by omega⟩

theorem nodup_rangeFrom (a b : Int) : (rangeFrom a b).Nodup :=
  List.nodup_range.map fun i j same => by omega

/-- The rows that the neighbour does not cover. -/
theorem mem_leftRows {c o : Packed} {adjacent : Bool} (low : c.2.2 < 255) {y : Int} :
    y ∈ leftRows c o adjacent ↔ (c.2.1 ≤ y ∧ y ≤ c.2.2) ∧
      ¬(adjacent = true ∧ o.2.1 ≤ y ∧ y ≤ o.2.2) := by
  rw [leftRows, List.mem_append, mem_rangeFrom, mem_rangeFrom]
  cases adjacent <;>
    simp only [if_true, Bool.false_eq_true, if_false, true_and, false_and, not_false_eq_true,
      and_true, max_def, min_def] <;>
    split_ifs <;> omega

theorem nodup_leftRows {c o : Packed} {adjacent : Bool} (le : adjacent = true → o.2.1 ≤ o.2.2) :
    (leftRows c o adjacent).Nodup := by
  refine List.nodup_append.2 ⟨nodup_rangeFrom _ _, nodup_rangeFrom _ _, ?_⟩
  rintro y first _ second rfl
  rw [mem_rangeFrom] at first second
  cases adjacent with
  | false =>
    simp only [Bool.false_eq_true, if_false, max_def, min_def] at first second
    split_ifs at first second <;> omega
  | true =>
    have le := le rfl
    simp only [if_true, max_def, min_def] at first second
    split_ifs at first second <;> omega

/-- The element before an element of an increasing list. -/
theorem mem_zip_before {l : List Packed} (sorted : l.Pairwise fun t u => t.1 < u.1) {fill c o : Packed}
    (there : (c, o) ∈ l.zip (before fill l)) :
    c ∈ l ∧ ((o = fill ∧ ∀ d ∈ l, c.1 ≤ d.1) ∨
      (o ∈ l ∧ o.1 < c.1 ∧ ∀ d ∈ l, d.1 < c.1 → d.1 ≤ o.1)) := by
  induction l generalizing fill with
  | nil => cases there
  | cons a l ih =>
    obtain ⟨low, sorted⟩ := List.pairwise_cons.1 sorted
    rw [before_cons, List.zip_cons_cons, List.mem_cons] at there
    rcases there with same | there
    · cases same
      exact ⟨List.mem_cons_self, .inl ⟨rfl, List.forall_mem_cons.2
        ⟨le_refl _, fun d inside => (low d inside).le⟩⟩⟩
    · obtain ⟨inside, ⟨rfl, first⟩ | ⟨inside', less, last⟩⟩ := ih sorted there
      · refine ⟨List.mem_cons_of_mem _ inside, .inr ⟨List.mem_cons_self, low c inside, ?_⟩⟩
        refine List.forall_mem_cons.2 ⟨fun _ => le_refl _, fun d kept less => ?_⟩
        have := first d kept
        omega
      · refine ⟨List.mem_cons_of_mem _ inside, .inr ⟨List.mem_cons_of_mem _ inside', less, ?_⟩⟩
        exact List.forall_mem_cons.2 ⟨fun _ => (low o inside').le, last⟩

/-- The element after an element of an increasing list. -/
theorem mem_zip_after {l : List Packed} (sorted : l.Pairwise fun t u => t.1 < u.1) {fill c o : Packed}
    (there : (c, o) ∈ l.zip (after fill l)) :
    c ∈ l ∧ ((o = fill ∧ ∀ d ∈ l, d.1 ≤ c.1) ∨
      (o ∈ l ∧ c.1 < o.1 ∧ ∀ d ∈ l, c.1 < d.1 → o.1 ≤ d.1)) := by
  induction l with
  | nil => cases there
  | cons a l ih =>
    obtain ⟨low, later⟩ := List.pairwise_cons.1 sorted
    cases l with
    | nil =>
      rw [after_singleton, List.zip_cons_cons, List.mem_cons] at there
      rcases there with same | there
      · cases same
        exact ⟨List.mem_cons_self, .inl ⟨rfl, by simp⟩⟩
      · cases there
    | cons b l =>
      rw [after_cons_cons, List.zip_cons_cons, List.mem_cons] at there
      rcases there with same | there
      · cases same
        have next := (List.pairwise_cons.1 later).1
        refine ⟨List.mem_cons_self, .inr ⟨by simp, low _ List.mem_cons_self, ?_⟩⟩
        refine List.forall_mem_cons.2 ⟨fun less => absurd less (lt_irrefl _), ?_⟩
        exact List.forall_mem_cons.2 ⟨fun _ => le_refl _, fun d kept _ => (next d kept).le⟩
      · obtain ⟨inside, ⟨rfl, last⟩ | ⟨inside', less, first⟩⟩ := ih later there
        · refine ⟨List.mem_cons_of_mem _ inside, .inl ⟨rfl, ?_⟩⟩
          exact List.forall_mem_cons.2 ⟨(low c inside).le, last⟩
        · refine ⟨List.mem_cons_of_mem _ inside, .inr ⟨List.mem_cons_of_mem _ inside', less, ?_⟩⟩
          refine List.forall_mem_cons.2 ⟨fun more => ?_, first⟩
          have := low c inside
          omega

theorem length_before {α : Type} (fill : α) (l : List α) : (before fill l).length = l.length := by
  simp [before]

theorem length_after {α : Type} (fill : α) (l : List α) : (after fill l).length = l.length := by
  simp [after]

/-! ## The packed marks -/

section
variable {marks : List Mark} (view : InView marks)
include view

theorem packed_injective {m n : Mark} (hm : m ∈ marks) (hn : n ∈ marks)
    (same : m.packed.1 = n.packed.1) : m.plane = n.plane ∧ m.column = n.column := by
  have := (view.each m hm).column
  have := (view.each n hn).column
  simp only [Mark.packed] at same
  exact ⟨UInt32.toNat_inj.1 (by omega), by omega⟩

omit view in
theorem mem_pm {c : Packed} : c ∈ pm marks ↔ ∃ m ∈ marks, m.packed = c := by
  rw [pm, List.mem_mergeSort, List.mem_map]

theorem pm_sorted : (pm marks).Pairwise fun t u => t.1 < u.1 := by
  have sorted : (pm marks).Pairwise fun t u => t.1 ≤ u.1 := by
    refine (List.pairwise_mergeSort ?_ ?_ (marks.map Mark.packed)).imp fun le => of_decide_eq_true le
    · intro a b c ab bc
      exact decide_eq_true ((of_decide_eq_true ab).trans (of_decide_eq_true bc))
    · intro a b
      simpa using le_total a.1 b.1
  have distinct : ((pm marks).map Prod.fst).Nodup := by
    refine ((List.mergeSort_perm (marks.map Mark.packed) _).map Prod.fst).nodup_iff.2 ?_
    rw [List.map_map]
    exact List.pairwise_map.2 ((List.pairwise_map.1 view.distinct).imp_of_mem fun hm hn ne same => by
      obtain ⟨plane, column⟩ := packed_injective view hm hn same
      exact ne (by rw [plane, column]))
  exact (sorted.and (List.pairwise_map.1 distinct)).imp fun ⟨le, ne⟩ => lt_of_le_of_ne le ne

/-- What the packed marks say of a row of a neighbouring column. -/
theorem marked_of_packed {m : Mark} {k : Nat} {o : Packed} (ho : o ∈ pm marks)
    (beside : o.1 = m.plane.toNat * 512 + k) (column : k < 512) (y : Int) :
    Marked marks m.plane.toNat k y ↔ o.2.1 ≤ y ∧ y ≤ o.2.2 := by
  obtain ⟨n, hn, rfl⟩ := mem_pm.1 ho
  have small := (view.each n hn).column
  have planes : n.plane.toNat = m.plane.toNat ∧ n.column = k := by
    simp only [Mark.packed] at beside
    omega
  constructor
  · rintro ⟨m', hm', plane, column', rows⟩
    have same : m' = n := by
      refine List.inj_on_of_nodup_map view.distinct hm' hn ?_
      rw [column', planes.2, UInt32.toNat_inj.1 (plane.trans planes.1.symm)]
    exact same ▸ rows
  · exact fun rows => ⟨n, hn, planes.1, planes.2, rows⟩

/-- A row of a column in one number. -/
def keyOf (plane y column : Nat) : Nat := plane * 100000 + y * 320 + column

theorem edge_packed {m : Mark} (hm : m ∈ marks) (y : Int) :
    edge m.packed y = (keyOf m.plane.toNat y.toNat m.column, (m.column : Int)) := by
  have := (view.each m hm).column
  have plane : (m.plane.toNat * 512 + m.column) / 512 = m.plane.toNat := by omega
  have column : (m.plane.toNat * 512 + m.column) % 512 = m.column := by omega
  rw [edge, Mark.packed, keyOf]
  simp only [plane, column]

/-- The edges of the marks are the rows that the neighbouring column does not have. -/
theorem edges_spec {adjacent : Packed → Packed → Bool} {side : List Packed}
    (long : side.length = (pm marks).length) {other : Mark → Int → Prop}
    (beside : ∀ c o, (c, o) ∈ (pm marks).zip side → (adjacent c o = true → o.2.1 ≤ o.2.2) ∧
      ∀ m ∈ marks, m.packed = c → ∀ y, m.top ≤ y → y ≤ m.bottom →
        ((adjacent c o = true ∧ o.2.1 ≤ y ∧ y ≤ o.2.2) ↔ other m y)) :
    (edges adjacent (pm marks) side).Nodup ∧ ∀ e, e ∈ edges adjacent (pm marks) side ↔
      ∃ m ∈ marks, ∃ y, (m.top ≤ y ∧ y ≤ m.bottom) ∧ ¬other m y ∧
        e = (keyOf m.plane.toNat y.toNat m.column, (m.column : Int)) := by
  have firsts : ((pm marks).zip side).map Prod.fst = pm marks :=
    List.map_fst_zip (le_of_eq long.symm)
  have packedOf : ∀ c o, (c, o) ∈ (pm marks).zip side → ∃ m ∈ marks, m.packed = c :=
    fun c o there => mem_pm.1 (List.of_mem_zip there).1
  have rows : ∀ c o, (c, o) ∈ (pm marks).zip side → c.2.2 < 255 ∧ 0 ≤ c.2.1 := by
    intro c o there
    obtain ⟨m, hm, rfl⟩ := packedOf c o there
    have := view.each m hm
    exact ⟨lt_trans this.last (by decide), this.first⟩
  constructor
  · rw [edges, ← List.flatMap_def, List.nodup_flatMap]
    constructor
    · rintro ⟨c, o⟩ there
      refine (nodup_leftRows (beside c o there).1).map_on fun y first z second same => ?_
      obtain ⟨high, low⟩ := rows c o there
      rw [mem_leftRows high] at first second
      have keys := congrArg Prod.fst same
      simp only [edge] at keys
      omega
    · have apart := pm_sorted view
      rw [← firsts] at apart
      refine (List.pairwise_map.1 apart).imp_of_mem ?_
      rintro ⟨c, o⟩ ⟨c', o'⟩ there there' less e first second
      obtain ⟨y, inside, rfl⟩ := List.mem_map.1 first
      obtain ⟨z, inside', same⟩ := List.mem_map.1 second
      obtain ⟨m, hm, rfl⟩ := packedOf c o there
      obtain ⟨n, hn, rfl⟩ := packedOf c' o' there'
      rw [edge_packed view hm, edge_packed view hn, keyOf, keyOf] at same
      rw [mem_leftRows (rows _ _ there).1] at inside
      rw [mem_leftRows (rows _ _ there').1] at inside'
      have hm' := view.each m hm
      have hn' := view.each n hn
      have := hm'.column
      have := hm'.first
      have := hm'.last
      have := hn'.column
      have := hn'.first
      have := hn'.last
      have keys := congrArg Prod.fst same
      have columns : (n.column : Int) = m.column := congrArg Prod.snd same
      simp only [Mark.packed] at less inside inside' keys
      omega
  · intro e
    rw [edges, ← List.flatMap_def, List.mem_flatMap]
    constructor
    · rintro ⟨⟨c, o⟩, there, first⟩
      obtain ⟨y, inside, rfl⟩ := List.mem_map.1 first
      obtain ⟨m, hm, rfl⟩ := packedOf c o there
      rw [mem_leftRows (rows _ _ there).1] at inside
      obtain ⟨within, free⟩ := inside
      refine ⟨m, hm, y, within, fun taken => free ?_, edge_packed view hm y⟩
      exact ((beside _ o there).2 m hm rfl y within.1 within.2).2 taken
    · rintro ⟨m, hm, y, within, free, rfl⟩
      have kept : m.packed ∈ ((pm marks).zip side).map Prod.fst := by
        rw [firsts]
        exact mem_pm.2 ⟨m, hm, rfl⟩
      obtain ⟨⟨c, o⟩, there, same⟩ := List.mem_map.1 kept
      cases (same : c = m.packed)
      refine ⟨_, there, List.mem_map.2 ⟨y, ?_, edge_packed view hm y⟩⟩
      rw [mem_leftRows (rows _ _ there).1]
      refine ⟨within, fun taken => free ?_⟩
      exact ((beside _ o there).2 m hm rfl y within.1 within.2).1 taken

/-- The starts are the rows that the column before does not have. -/
theorem spStarts_spec : (spStarts marks).Nodup ∧ ∀ e, e ∈ spStarts marks ↔
    ∃ m ∈ marks, ∃ y, (m.top ≤ y ∧ y ≤ m.bottom) ∧
      ¬(∃ k, k + 1 = m.column ∧ Marked marks m.plane.toNat k y) ∧
        e = (keyOf m.plane.toNat y.toNat m.column, (m.column : Int)) := by
  rw [spStarts, pmPrev, shifted_true]
  refine edges_spec view (length_before _ _) fun c o there => ?_
  obtain ⟨inside, found⟩ := mem_zip_before (pm_sorted view) there
  simp only [decide_eq_true_eq]
  rcases found with ⟨rfl, first⟩ | ⟨inside', less, last⟩
  · refine ⟨fun _ => by decide, ?_⟩
    rintro m hm rfl y top bottom
    have row := (view.each m hm).last
    refine iff_of_false (fun taken => ?_) ?_
    · have := taken.2.1
      change 255 ≤ y at this
      omega
    · rintro ⟨k, beside, n, hn, plane, column, -⟩
      have := first _ (mem_pm.2 ⟨n, hn, rfl⟩)
      simp only [Mark.packed] at this
      omega
  · obtain ⟨n, hn, rfl⟩ := mem_pm.1 inside'
    refine ⟨fun _ => (view.each n hn).le, ?_⟩
    rintro m hm rfl y top bottom
    have small := (view.each m hm).column
    have small' := (view.each n hn).column
    constructor
    · rintro ⟨follows, rows⟩
      simp only [Mark.packed] at follows
      exact ⟨n.column, by omega, n, hn, by omega, rfl, rows⟩
    · rintro ⟨k, beside, taken⟩
      obtain ⟨n', hn', plane, column, -⟩ := id taken
      have at' : n'.packed.1 + 1 = m.packed.1 := by
        simp only [Mark.packed]
        omega
      have follows : n.packed.1 + 1 = m.packed.1 := by
        have := last n'.packed (mem_pm.2 ⟨n', hn', rfl⟩) (by omega)
        omega
      refine ⟨follows, (marked_of_packed view (m := m) (k := k) inside' ?_ (by omega) y).1 taken⟩
      refine Nat.succ.inj (follows.trans ?_)
      exact congrArg (m.plane.toNat * 512 + ·) beside.symm

/-- The ends are the rows that the column after does not have. -/
theorem spEnds_spec : (spEnds marks).Nodup ∧ ∀ e, e ∈ spEnds marks ↔
    ∃ m ∈ marks, ∃ y, (m.top ≤ y ∧ y ≤ m.bottom) ∧
      ¬Marked marks m.plane.toNat (m.column + 1) y ∧
        e = (keyOf m.plane.toNat y.toNat m.column, (m.column : Int)) := by
  rw [spEnds, pmNext, shifted_false]
  refine edges_spec view (length_after _ _) fun c o there => ?_
  obtain ⟨inside, found⟩ := mem_zip_after (pm_sorted view) there
  simp only [decide_eq_true_eq]
  rcases found with ⟨rfl, last⟩ | ⟨inside', less, first⟩
  · refine ⟨fun _ => by decide, ?_⟩
    rintro m hm rfl y top bottom
    have row := (view.each m hm).last
    refine iff_of_false (fun taken => ?_) ?_
    · have := taken.2.1
      change 255 ≤ y at this
      omega
    · rintro ⟨n, hn, plane, column, -⟩
      have := last _ (mem_pm.2 ⟨n, hn, rfl⟩)
      simp only [Mark.packed] at this
      omega
  · obtain ⟨n, hn, rfl⟩ := mem_pm.1 inside'
    refine ⟨fun _ => (view.each n hn).le, ?_⟩
    rintro m hm rfl y top bottom
    have small := (view.each m hm).column
    have small' := (view.each n hn).column
    have packed : ∀ follows : m.packed.1 + 1 = n.packed.1,
        n.packed.1 = m.plane.toNat * 512 + (m.column + 1) := fun follows => by
      rw [← follows, ← Nat.add_assoc]
      rfl
    constructor
    · rintro ⟨follows, rows⟩
      exact (marked_of_packed view inside' (packed follows) (by omega) y).2 rows
    · intro taken
      obtain ⟨n', hn', plane, column, -⟩ := id taken
      have at' : m.packed.1 + 1 = n'.packed.1 := by
        simp only [Mark.packed]
        omega
      have follows : m.packed.1 + 1 = n.packed.1 := by
        have := first n'.packed (mem_pm.2 ⟨n', hn', rfl⟩) (by omega)
        omega
      exact ⟨follows, (marked_of_packed view inside' (packed follows) (by omega) y).1 taken⟩

end

/-! ## Rows -/

section
variable (marks : List Mark)

/-- The columns of a row of a plane. -/
def columnsOf (plane y : Nat) : List Nat := (List.range 320).filter fun k => Marked marks plane k y

/-- The runs of a row of a plane. -/
def rowRuns (plane y : Nat) : List (Nat × Nat) := runsOf (columnsOf marks plane y)

/-- The rows of planes, in order. -/
def rows (planes : Nat) : List (Nat × Nat) :=
  (List.range planes).flatMap fun plane => (List.range 168).map fun y => (plane, y)

/-- One column of each run, row after row. -/
def layout (planes : Nat) (column : Nat × Nat → Nat) : List Edge :=
  (rows planes).flatMap fun (plane, y) =>
    (rowRuns marks plane y).map fun run => (keyOf plane y (column run), (column run : Int))

variable {marks}

theorem mem_columnsOf {plane y k : Nat} :
    k ∈ columnsOf marks plane y ↔ k < 320 ∧ Marked marks plane k y := by
  rw [columnsOf, List.mem_filter, List.mem_range, decide_eq_true_eq]

theorem apart_rowRuns (plane y : Nat) : Apart 0 (rowRuns marks plane y) :=
  apart_runsOf (List.pairwise_lt_range.filter _) fun a _ => Nat.zero_le a

theorem cover_rowRuns (plane y : Nat) :
    cover (rowRuns marks plane y) = columnsOf marks plane y := cover_runsOf _

theorem mem_rows {planes plane y : Nat} : (plane, y) ∈ rows planes ↔ plane < planes ∧ y < 168 := by
  rw [rows, List.mem_flatMap]
  constructor
  · rintro ⟨p, low, there⟩
    obtain ⟨y', low', same⟩ := List.mem_map.1 there
    cases same
    exact ⟨List.mem_range.1 low, List.mem_range.1 low'⟩
  · rintro ⟨low, low'⟩
    exact ⟨plane, List.mem_range.2 low, List.mem_map.2 ⟨y, List.mem_range.2 low', rfl⟩⟩

theorem rows_sorted (planes : Nat) :
    (rows planes).Pairwise fun r s => r.1 < s.1 ∨ r.1 = s.1 ∧ r.2 < s.2 := by
  refine List.pairwise_flatMap.2 ⟨fun plane _ => ?_, ?_⟩
  · exact List.pairwise_map.2 (List.pairwise_lt_range.imp fun less => .inr ⟨rfl, less⟩)
  · refine List.pairwise_lt_range.imp fun less r there s there' => ?_
    obtain ⟨y, -, rfl⟩ := List.mem_map.1 there
    obtain ⟨z, -, rfl⟩ := List.mem_map.1 there'
    exact .inl less

/-- A column of a run. -/
def Within (column : Nat × Nat → Nat) : Prop :=
  ∀ run, run.1 ≤ column run ∧ column run ≤ run.1 + run.2

theorem column_lt {column : Nat × Nat → Nat} (within : Within column) {plane y : Nat}
    {run : Nat × Nat} (there : run ∈ rowRuns marks plane y) : column run < 320 := by
  have covered : column run ∈ cover (rowRuns marks plane y) :=
    mem_cover.2 ⟨run, there, within run⟩
  rw [cover_rowRuns, mem_columnsOf] at covered
  exact covered.1

theorem layout_sorted (planes : Nat) {column : Nat × Nat → Nat} (within : Within column) :
    (layout marks planes column).Pairwise fun e f => e.1 < f.1 := by
  refine List.pairwise_flatMap.2 ⟨?_, ?_⟩
  · rintro ⟨plane, y⟩ -
    refine List.pairwise_map.2 ((apart_rowRuns plane y).increases.imp ?_)
    intro run run' less
    have := within run
    have := within run'
    simp only [keyOf]
    omega
  · refine (rows_sorted planes).imp_of_mem ?_
    rintro ⟨plane, y⟩ ⟨plane', y'⟩ there there' less e inside f inside'
    obtain ⟨run, kept, rfl⟩ := List.mem_map.1 inside
    obtain ⟨run', kept', rfl⟩ := List.mem_map.1 inside'
    have := column_lt within kept
    have := column_lt within kept'
    have := (mem_rows.1 there).2
    have := (mem_rows.1 there').2
    simp only [keyOf] at less ⊢
    omega

theorem zip_flatMap {α β γ : Type} {f : α → List β} {g : α → List γ} (l : List α)
    (long : ∀ a ∈ l, (f a).length = (g a).length) :
    (l.flatMap f).zip (l.flatMap g) = l.flatMap fun a => (f a).zip (g a) := by
  induction l with
  | nil => rfl
  | cons a l ih =>
    obtain ⟨first, later⟩ := List.forall_mem_cons.1 long
    rw [List.flatMap_cons, List.flatMap_cons, List.flatMap_cons, List.zip_append first, ih later]

end

/-! ## The spans -/

section
variable {marks : List Mark} (view : InView marks) {planes : Nat}
  (bound : ∀ m ∈ marks, m.plane.toNat < planes)
include view bound

/-- The sorted starts are the first columns of the runs. -/
theorem starts_layout : ((spStarts marks).mergeSort fun e f => e.1 ≤ f.1) =
    layout marks planes Prod.fst := by
  obtain ⟨nodup, mem⟩ := spStarts_spec view
  refine ClickHouse.arraySort_eq nodup (layout_sorted planes fun run => ⟨le_refl _, Nat.le_add_right _ _⟩) ?_
  intro e
  rw [mem, layout, List.mem_flatMap]
  constructor
  · rintro ⟨m, hm, y, row, free, rfl⟩
    have each := view.each m hm
    obtain ⟨n, rfl⟩ := Int.eq_ofNat_of_zero_le (each.first.trans row.1)
    have here : m.column ∈ (rowRuns marks m.plane.toNat n).map Prod.fst := by
      rw [(apart_rowRuns _ _).mem_firsts, cover_rowRuns]
      refine ⟨mem_columnsOf.2 ⟨each.column, m, hm, rfl, rfl, row⟩, fun k covered follows => ?_⟩
      exact free ⟨k, follows, (mem_columnsOf.1 covered).2⟩
    obtain ⟨run, kept, same⟩ := List.mem_map.1 here
    refine ⟨(m.plane.toNat, n), mem_rows.2 ⟨bound m hm, ?_⟩, List.mem_map.2 ⟨run, kept, ?_⟩⟩
    · have := each.last
      omega
    · rw [same]
      rfl
  · rintro ⟨⟨plane, y⟩, -, inside⟩
    obtain ⟨run, kept, rfl⟩ := List.mem_map.1 inside
    have first := (apart_rowRuns plane y).mem_firsts.1 (List.mem_map_of_mem kept)
    rw [cover_rowRuns] at first
    obtain ⟨covered, before⟩ := first
    obtain ⟨small, m, hm, rfl, column, row⟩ := mem_columnsOf.1 covered
    refine ⟨m, hm, y, row, ?_, by rw [column]; rfl⟩
    rintro ⟨k, follows, taken⟩
    exact before k (mem_columnsOf.2 ⟨by omega, taken⟩) (follows.trans column)

/-- The sorted ends are the last columns of the runs. -/
theorem ends_layout : ((spEnds marks).mergeSort fun e f => e.1 ≤ f.1) =
    layout marks planes fun run => run.1 + run.2 := by
  obtain ⟨nodup, mem⟩ := spEnds_spec view
  refine ClickHouse.arraySort_eq nodup (layout_sorted planes fun run => ⟨Nat.le_add_right _ _, le_refl _⟩) ?_
  intro e
  rw [mem, layout, List.mem_flatMap]
  constructor
  · rintro ⟨m, hm, y, row, free, rfl⟩
    have each := view.each m hm
    obtain ⟨n, rfl⟩ := Int.eq_ofNat_of_zero_le (each.first.trans row.1)
    have here : m.column ∈ (rowRuns marks m.plane.toNat n).map fun run => run.1 + run.2 := by
      rw [(apart_rowRuns _ _).mem_lasts, cover_rowRuns]
      refine ⟨mem_columnsOf.2 ⟨each.column, m, hm, rfl, rfl, row⟩, fun covered => ?_⟩
      exact free (mem_columnsOf.1 covered).2
    obtain ⟨run, kept, same⟩ := List.mem_map.1 here
    refine ⟨(m.plane.toNat, n), mem_rows.2 ⟨bound m hm, ?_⟩, List.mem_map.2 ⟨run, kept, ?_⟩⟩
    · have := each.last
      omega
    · rw [same]
      rfl
  · rintro ⟨⟨plane, y⟩, -, inside⟩
    obtain ⟨run, kept, rfl⟩ := List.mem_map.1 inside
    have last := (apart_rowRuns plane y).mem_lasts.1
      (List.mem_map_of_mem (f := fun run : Nat × Nat => run.1 + run.2) kept)
    rw [cover_rowRuns] at last
    obtain ⟨covered, after⟩ := last
    obtain ⟨small, m, hm, rfl, column, row⟩ := mem_columnsOf.1 covered
    refine ⟨m, hm, y, row, fun taken => ?_, by rw [column]; rfl⟩
    rw [column] at taken
    obtain ⟨n, hn, -, next, -⟩ := id taken
    have := (view.each n hn).column
    exact after (mem_columnsOf.2 ⟨by omega, taken⟩)

/-- The spans are the runs of every row of every plane. -/
theorem spans_eq (small : planes ≤ 2 ^ 32) : spans marks =
    (rows planes).flatMap fun (plane, y) => (rowRuns marks plane y).map fun run =>
      (plane, (y : Int), (run.1 : Int), ((run.1 + run.2 : Nat) : Int)) := by
  rw [spans, starts_layout view bound, ends_layout view bound, layout, layout, zip_flatMap,
    List.map_flatMap]
  · refine List.flatMap_congr fun row there => ?_
    obtain ⟨plane, y⟩ := row
    obtain ⟨low, low'⟩ := mem_rows.1 there
    rw [List.zip_map', List.map_map]
    refine List.map_congr_left fun run kept => ?_
    have := column_lt (fun run => ⟨le_refl _, Nat.le_add_right _ _⟩ : Within Prod.fst) kept
    have plane' : (plane * 100000 + y * 320 + run.1) / 100000 % 2 ^ 32 = plane := by
      rw [show (plane * 100000 + y * 320 + run.1) / 100000 = plane by omega]
      exact Nat.mod_eq_of_lt (low.trans_le small)
    have row' : (plane * 100000 + y * 320 + run.1) % 100000 / 320 = y := by omega
    simp only [Function.comp_apply, keyOf, plane', row']
  · rintro ⟨plane, y⟩ -
    rw [List.length_map, List.length_map]

end

/-! ## The engine's sweep -/

/-- A plane of the engine has the marks of a plane.  What its `bottom` has where nothing is marked
is not 255, since no row is. -/
structure Holds (marks : List Mark) (plane : UInt32) (pl : Engine.Spans.Visplane) : Prop where
  inside : ∀ m ∈ marks, m.plane = plane → pl.minx ≤ m.column ∧ (m.column : Int) ≤ pl.maxx ∧
    pl.top m.column = m.top ∧ pl.bottom m.column = m.bottom
  outside : ∀ x, (∀ m ∈ marks, m.plane = plane → (m.column : Int) ≠ x) →
    pl.bottom x < 255 ∧ (pl.minx ≤ x → x ≤ pl.maxx → pl.top x = 255)

section
variable {marks : List Mark} (view : InView marks)
include view

theorem mem_spans {plane : Nat} {y a b : Int} : (plane, y, a, b) ∈ spans marks ↔
    plane < 2 ^ 32 ∧ ∃ n start more, (start, more) ∈ rowRuns marks plane n ∧ n < 168 ∧ y = (n : Nat) ∧
      a = (start : Nat) ∧ b = (start + more : Nat) := by
  rw [spans_eq view (fun m _ => m.plane.toNat_lt) (le_refl _), List.mem_flatMap]
  constructor
  · rintro ⟨⟨plane', n⟩, there, inside⟩
    obtain ⟨⟨start, more⟩, kept, same⟩ := List.mem_map.1 inside
    cases same
    obtain ⟨low, low'⟩ := mem_rows.1 there
    exact ⟨low, n, start, more, kept, low', rfl, rfl, rfl⟩
  · rintro ⟨low, n, start, more, kept, low', rfl, rfl, rfl⟩
    exact ⟨(plane, n), mem_rows.2 ⟨low, low'⟩, List.mem_map.2 ⟨_, kept, rfl⟩⟩

theorem nodup_spans : (spans marks).Nodup := by
  have sorted := @layout_sorted marks (2 ^ 32) _
    (fun run => ⟨le_refl _, Nat.le_add_right _ _⟩ : Within Prod.fst)
  have keys : (layout marks (2 ^ 32) Prod.fst).map Prod.fst =
      (spans marks).map fun span => keyOf span.1 span.2.1.toNat span.2.2.1.toNat := by
    rw [spans_eq view (fun m _ => m.plane.toNat_lt) (le_refl _), layout, List.map_flatMap,
      List.map_flatMap]
    refine List.flatMap_congr fun row _ => ?_
    rw [List.map_map, List.map_map]
    rfl
  have distinct : ((layout marks (2 ^ 32) Prod.fst).map Prod.fst).Nodup :=
    List.pairwise_map.2 (sorted.imp fun less => ne_of_lt less)
  rw [keys] at distinct
  exact distinct.of_map _

/-- A column of the closed plane covers the rows its mark has. -/
theorem closed_covers {plane : UInt32} {pl : Engine.Spans.Visplane} (holds : Holds marks plane pl)
    {x y : Int} (low : pl.minx - 1 ≤ x) (high : x ≤ pl.maxx + 1) : pl.closed.Covers x y ↔
      ∃ k : Nat, (k : Int) = x ∧ Marked marks plane.toNat k y := by
  have top : pl.closed.top x = if x = pl.minx - 1 ∨ x = pl.maxx + 1 then 255 else pl.top x := by
    change Function.update (Function.update pl.top (pl.maxx + 1) 255) (pl.minx - 1) 255 x = _
    by_cases first : x = pl.minx - 1
    · rw [if_pos (.inl first), first, Function.update_self]
    · by_cases last : x = pl.maxx + 1
      · rw [if_pos (.inr last), Function.update_of_ne first, last, Function.update_self]
      · rw [if_neg (not_or.2 ⟨first, last⟩), Function.update_of_ne first, Function.update_of_ne last]
  have covers : pl.closed.Covers x y ↔ pl.closed.top x ≤ y ∧ y ≤ pl.bottom x := Iff.rfl
  rw [covers, top]
  by_cases marked : ∃ m ∈ marks, m.plane = plane ∧ (m.column : Int) = x
  · obtain ⟨m, hm, rfl, rfl⟩ := marked
    obtain ⟨first, last, top', bottom⟩ := holds.inside m hm rfl
    rw [if_neg (by omega), top', bottom]
    constructor
    · exact fun row => ⟨m.column, rfl, m, hm, rfl, rfl, row⟩
    · rintro ⟨k, same, n, hn, plane, column, row⟩
      have one : n = m := List.inj_on_of_nodup_map view.distinct hn hm (by
        rw [UInt32.toNat_inj.1 plane, show n.column = m.column by omega])
      exact one ▸ row
  · obtain ⟨bottom, top'⟩ := holds.outside x fun m hm plane column => marked ⟨m, hm, plane, column⟩
    refine iff_of_false (fun row => ?_) ?_
    · split_ifs at row with edge
      · omega
      · rw [top' (by omega) (by omega)] at row
        omega
    · rintro ⟨k, same, m, hm, plane', column, -⟩
      exact marked ⟨m, hm, UInt32.toNat_inj.1 plane', by rw [column, same]⟩

/-- The runs of the closed plane are the spans. -/
theorem isRun_iff {plane : UInt32} {pl : Engine.Spans.Visplane} (holds : Holds marks plane pl)
    {y a b : Int} : pl.closed.IsRun y a b ∧ pl.minx ≤ a ∧ b ≤ pl.maxx ↔
      (plane.toNat, y, a, b) ∈ spans marks := by
  rw [mem_spans view]
  constructor
  · rintro ⟨run, first, last⟩
    have le := run.le
    obtain ⟨start, rfl, m, hm, -, -, row⟩ :=
      (closed_covers view holds (by omega) (by omega)).1 (run.covers a (le_refl _) le)
    have each := view.each m hm
    obtain ⟨n, rfl⟩ := Int.eq_ofNat_of_zero_le (each.first.trans row.1)
    obtain ⟨more, rfl⟩ := Int.eq_ofNat_of_zero_le (show 0 ≤ b by omega)
    have low : n < 168 := by
      have := each.last
      omega
    refine ⟨plane.toNat_lt, n, start, more - start, ?_, low, rfl, rfl, by omega⟩
    rw [(apart_rowRuns _ _).mem_iff, cover_rowRuns]
    refine ⟨fun k past upto => ?_, fun k covered follows => ?_, fun covered => ?_⟩
    · obtain ⟨k', same, taken⟩ := (closed_covers view holds (by omega) (by omega)).1
        (run.covers k (by omega) (by omega))
      obtain rfl : k' = k := by omega
      obtain ⟨m', hm', -, column, -⟩ := id taken
      have := (view.each m' hm').column
      exact mem_columnsOf.2 ⟨by omega, taken⟩
    · refine run.before ((closed_covers view holds (by omega) (by omega)).2 ⟨k, by omega, ?_⟩)
      exact (mem_columnsOf.1 covered).2
    · refine run.after ((closed_covers view holds (by omega) (by omega)).2
        ⟨start + (more - start) + 1, by omega, (mem_columnsOf.1 covered).2⟩)
  · rintro ⟨-, n, start, more, kept, low, rfl, rfl, rfl⟩
    obtain ⟨all, before, after⟩ := (apart_rowRuns _ _).mem_iff.1 kept
    rw [cover_rowRuns] at all before after
    have bounds : ∀ k, start ≤ k → k ≤ start + more → pl.minx ≤ k ∧ (k : Int) ≤ pl.maxx := by
      intro k past upto
      obtain ⟨-, m, hm, plane', column, -⟩ := mem_columnsOf.1 (all k past upto)
      have := holds.inside m hm (UInt32.toNat_inj.1 plane')
      omega
    have first := bounds start (le_refl _) (Nat.le_add_right _ _)
    have last := bounds (start + more) (Nat.le_add_right _ _) (le_refl _)
    refine ⟨⟨by omega, fun x past upto => ?_, fun covers => ?_, fun covers => ?_⟩, first.1, last.2⟩
    · obtain ⟨k, rfl⟩ := Int.eq_ofNat_of_zero_le (show 0 ≤ x by omega)
      exact (closed_covers view holds (by omega) (by omega)).2
        ⟨k, rfl, (mem_columnsOf.1 (all k (by omega) (by omega))).2⟩
    · obtain ⟨k, same, taken⟩ := (closed_covers view holds (by omega) (by omega)).1 covers
      have := column_lt (fun run => ⟨le_refl _, Nat.le_add_right _ _⟩ : Within Prod.fst) kept
      exact before k (mem_columnsOf.2 ⟨by omega, taken⟩) (by omega)
    · obtain ⟨k, same, taken⟩ := (closed_covers view holds (by omega) (by omega)).1 covers
      obtain rfl : k = start + more + 1 := by omega
      obtain ⟨m', hm', -, column, -⟩ := id taken
      have := (view.each m' hm').column
      exact after (mem_columnsOf.2 ⟨by omega, taken⟩)

/-- The spans of the two sorts are the calls that the sweep over each plane makes of `R_MapPlane`,
each once; every marked row of a column lies in one span of its plane, and every column of a span
is marked. -/
theorem spans_as_makeSpans {planes : UInt32 → Engine.Spans.Visplane}
    (holds : ∀ plane, Holds marks plane (planes plane)) :
    (spans marks).Nodup ∧
      (∀ plane s, ∃ calls,
        (Engine.Spans.drawPlane (planes plane) s).calls = s.calls ++ calls ∧ calls.Nodup ∧
          ∀ y a b, (plane.toNat, y, a, b) ∈ spans marks ↔ (y, a, b) ∈ calls) ∧
      (∀ m ∈ marks, ∀ y, m.top ≤ y → y ≤ m.bottom →
        ∃! span : Int × Int, (m.plane.toNat, y, span.1, span.2) ∈ spans marks ∧
          span.1 ≤ m.column ∧ m.column ≤ span.2) ∧
      ∀ plane y a b x, (plane, y, a, b) ∈ spans marks → a ≤ x → x ≤ b →
        ∃ m ∈ marks, m.plane.toNat = plane ∧ (m.column : Int) = x ∧ m.top ≤ y ∧ y ≤ m.bottom := by
  refine ⟨nodup_spans view, fun plane s => ?_, fun m hm y first last => ?_, ?_⟩
  · have left := ((holds plane).outside ((planes plane).minx - 1) fun m hm here column => by
      have := ((holds plane).inside m hm here).1
      omega).1
    obtain ⟨calls, drawn, nodup, mem⟩ := Engine.Spans.drawPlane_calls s left
    refine ⟨calls, drawn, nodup, fun y a b => ?_⟩
    rw [mem]
    exact (isRun_iff view (holds plane)).symm
  · have each := view.each m hm
    obtain ⟨n, rfl⟩ := Int.eq_ofNat_of_zero_le (each.first.trans first)
    have covered : m.column ∈ cover (rowRuns marks m.plane.toNat n) := by
      rw [cover_rowRuns]
      exact mem_columnsOf.2 ⟨each.column, m, hm, rfl, rfl, first, last⟩
    obtain ⟨⟨start, more⟩, kept, low, high⟩ := mem_cover.1 covered
    refine ⟨((start : Nat), (start + more : Nat)), ⟨(mem_spans view).2
      ⟨m.plane.toNat_lt, n, start, more, kept, ?_, rfl, rfl, rfl⟩, ?_, ?_⟩, ?_⟩
    · have := each.last
      omega
    · exact Int.ofNat_le.2 low
    · exact Int.ofNat_le.2 high
    · rintro ⟨a, b⟩ ⟨there, low', high'⟩
      obtain ⟨-, n', start', more', kept', -, row, rfl, rfl⟩ := (mem_spans view).1 there
      obtain rfl : n = n' := by omega
      rcases (apart_rowRuns _ _).separate _ kept _ kept' with same | far | far
      · cases same
        rfl
      · dsimp only at low high low' high' far
        omega
      · dsimp only at low high low' high' far
        omega
  · intro plane y a b x there low high
    obtain ⟨-, n, start, more, kept, -, rfl, rfl, rfl⟩ := (mem_spans view).1 there
    obtain ⟨k, rfl⟩ := Int.eq_ofNat_of_zero_le (show 0 ≤ x by omega)
    have covered : k ∈ cover (rowRuns marks plane n) :=
      mem_cover.2 ⟨_, kept, by dsimp only; omega, by dsimp only; omega⟩
    rw [cover_rowRuns, mem_columnsOf] at covered
    obtain ⟨-, m, hm, same, column, row⟩ := covered
    exact ⟨m, hm, same, by rw [column], row⟩

end

/-- Two columns of one plane, the second with a part of the rows of the first. -/
def twoColumns : List Mark := [⟨0, 5, 10, 20⟩, ⟨0, 6, 12, 15⟩]

/-- The engine's planes for them. -/
def twoPlanes (plane : UInt32) : Engine.Spans.Visplane :=
  if plane = 0 then
    { minx := 5
      maxx := 6
      top := fun x => if x = 5 then 10 else if x = 6 then 12 else 255
      bottom := fun x => if x = 5 then 20 else if x = 6 then 15 else 0 }
  else { minx := 320, maxx := -1, top := fun _ => 255, bottom := fun _ => 0 }

theorem inView_twoColumns : InView twoColumns where
  each m there := by
    simp only [twoColumns, List.mem_cons, List.not_mem_nil, or_false] at there
    rcases there with rfl | rfl <;> exact ⟨by decide, by decide, by decide, by decide⟩
  distinct := by simp [twoColumns]

theorem holds_twoPlanes (plane : UInt32) : Holds twoColumns plane (twoPlanes plane) := by
  by_cases first : plane = 0
  · subst first
    rw [twoPlanes, if_pos rfl]
    refine ⟨fun m there _ => ?_, fun x none => ?_⟩
    · simp only [twoColumns, List.mem_cons, List.not_mem_nil, or_false] at there
      rcases there with rfl | rfl <;> decide
    · have five := none ⟨0, 5, 10, 20⟩ (by simp [twoColumns]) rfl
      have six := none ⟨0, 6, 12, 15⟩ (by simp [twoColumns]) rfl
      dsimp only at five six ⊢
      have one : x ≠ 5 := fun same => five same.symm
      have two : x ≠ 6 := fun same => six same.symm
      rw [if_neg one, if_neg two, if_neg one, if_neg two]
      exact ⟨by decide, fun _ _ => rfl⟩
  · rw [twoPlanes, if_neg first]
    refine ⟨fun m there here => ?_, fun x _ => ⟨(by decide : (0 : Int) < 255), fun _ _ => rfl⟩⟩
    simp only [twoColumns, List.mem_cons, List.not_mem_nil, or_false] at there
    rcases there with rfl | rfl <;> exact absurd here.symm first

theorem spans_as_makeSpans_two :
    (spans twoColumns).Nodup ∧
      (∀ plane s, ∃ calls,
        (Engine.Spans.drawPlane (twoPlanes plane) s).calls = s.calls ++ calls ∧ calls.Nodup ∧
          ∀ y a b, (plane.toNat, y, a, b) ∈ spans twoColumns ↔ (y, a, b) ∈ calls) ∧
      (∀ m ∈ twoColumns, ∀ y, m.top ≤ y → y ≤ m.bottom →
        ∃! span : Int × Int, (m.plane.toNat, y, span.1, span.2) ∈ spans twoColumns ∧
          span.1 ≤ m.column ∧ m.column ≤ span.2) ∧
      ∀ plane y a b x, (plane, y, a, b) ∈ spans twoColumns → a ≤ x → x ≤ b →
        ∃ m ∈ twoColumns,
          m.plane.toNat = plane ∧ (m.column : Int) = x ∧ m.top ≤ y ∧ y ≤ m.bottom :=
  spans_as_makeSpans inView_twoColumns holds_twoPlanes

end ClickDoom.Native.Spans

import Mathlib

/-! # Horizontal spans of a plane

`r_plane.c`: `R_MakeSpans`, and the sweep of `R_DrawPlanes` over one plane.  A plane's `top` is 255
in a column it does not cover; its `bottom` is there whatever an earlier frame left.  A call of
`R_MapPlane` is the row and the two columns it is given.
-/
namespace ClickDoom.Engine.Spans

/-- The columns of a `visplane_t`, the pads at both ends among them. -/
structure Visplane where
  minx : Int
  maxx : Int
  top : Int → Int
  bottom : Int → Int

/-- What a sweep keeps: `spanstart`, and the calls of `R_MapPlane` so far. -/
structure Sweep where
  spanstart : Int → Int
  calls : List (Int × Int × Int)

section
variable (x : Int)

/-- `while (t1 < t2 && t1<=b1)`. -/
def mapTop (t2 b1 t1 : Int) (s : Sweep) : Int × Sweep :=
  if t1 < t2 ∧ t1 ≤ b1 then
    mapTop t2 b1 (t1 + 1) { s with calls := s.calls ++ [(t1, s.spanstart t1, x - 1)] }
  else (t1, s)
termination_by (b1 + 1 - t1).toNat

/-- `while (b1 > b2 && b1>=t1)`. -/
def mapBottom (b2 t1 b1 : Int) (s : Sweep) : Int × Sweep :=
  if b1 > b2 ∧ b1 ≥ t1 then
    mapBottom b2 t1 (b1 - 1) { s with calls := s.calls ++ [(b1, s.spanstart b1, x - 1)] }
  else (b1, s)
termination_by (b1 + 1 - t1).toNat

/-- `while (t2 < t1 && t2<=b2)`. -/
def startTop (t1 b2 t2 : Int) (s : Sweep) : Int × Sweep :=
  if t2 < t1 ∧ t2 ≤ b2 then
    startTop t1 b2 (t2 + 1) { s with spanstart := Function.update s.spanstart t2 x }
  else (t2, s)
termination_by (b2 + 1 - t2).toNat

/-- `while (b2 > b1 && b2>=t2)`. -/
def startBottom (b1 t2 b2 : Int) (s : Sweep) : Int × Sweep :=
  if b2 > b1 ∧ b2 ≥ t2 then
    startBottom b1 t2 (b2 - 1) { s with spanstart := Function.update s.spanstart b2 x }
  else (b2, s)
termination_by (b2 + 1 - t2).toNat

/-- `R_MakeSpans`. -/
def makeSpans (t1 b1 t2 b2 : Int) (s : Sweep) : Sweep :=
  let (t1, s) := mapTop x t2 b1 t1 s
  let (b1, s) := mapBottom x b2 t1 b1 s
  let (t2, s) := startTop x t1 b2 t2 s
  (startBottom x b1 t2 b2 s).2

end

/-- `pl->top[pl->maxx+1] = 0xff` and `pl->top[pl->minx-1] = 0xff`. -/
def Visplane.closed (pl : Visplane) : Visplane :=
  { pl with top := Function.update (Function.update pl.top (pl.maxx + 1) 255) (pl.minx - 1) 255 }

/-- The columns a sweep goes through: `minx` to `maxx + 1`. -/
def Visplane.columns (pl : Visplane) : List Int :=
  (List.range (pl.maxx + 2 - pl.minx).toNat).map fun i : Nat => pl.minx + i

/-- The sweep of `R_DrawPlanes` over a plane that is not the sky. -/
def drawPlane (pl : Visplane) (s : Sweep) : Sweep :=
  if pl.minx > pl.maxx then s
  else
    let pl := pl.closed
    pl.columns.foldl
      (fun s x => makeSpans x (pl.top (x - 1)) (pl.bottom (x - 1)) (pl.top x) (pl.bottom x) s) s

/-! ## One step -/

theorem mapTop_eq (x t2 b1 t1 : Int) (s : Sweep) : ∃ more, mapTop x t2 b1 t1 s =
      (max t1 (min t2 (b1 + 1)), { s with calls := s.calls ++ more }) ∧
    more.Nodup ∧ ∀ y a b, (y, a, b) ∈ more ↔ (t1 ≤ y ∧ y ≤ b1 ∧ y < t2) ∧
      a = s.spanstart y ∧ b = x - 1 := by
  fun_induction mapTop x t2 b1 t1 s with
  | case1 t1 s going ih =>
    obtain ⟨more, left, nodup, mem⟩ := ih
    refine ⟨(t1, s.spanstart t1, x - 1) :: more, ?_, List.nodup_cons.2 ⟨?_, nodup⟩, ?_⟩
    · rw [left, List.append_assoc]
      simp only [Prod.mk.injEq]
      exact ⟨by omega, rfl⟩
    · rw [mem]
      omega
    · intro y a b
      rw [List.mem_cons, mem, Prod.mk.injEq, Prod.mk.injEq]
      constructor
      · rintro (⟨rfl, rfl, rfl⟩ | ⟨rows, same⟩)
        · exact ⟨by omega, rfl, rfl⟩
        · exact ⟨by omega, same⟩
      · rintro ⟨rows, rfl, rfl⟩
        by_cases first : y = t1
        · exact .inl ⟨first, by rw [first], rfl⟩
        · exact .inr ⟨by omega, rfl, rfl⟩
  | case2 t1 s done =>
    refine ⟨[], ?_, List.nodup_nil, ?_⟩
    · rw [List.append_nil]
      simp only [Prod.mk.injEq, and_true]
      omega
    · intro y a b
      simp only [List.not_mem_nil, false_iff]
      omega

theorem mapBottom_eq (x b2 t1 b1 : Int) (s : Sweep) : ∃ more, mapBottom x b2 t1 b1 s =
      (min b1 (max b2 (t1 - 1)), { s with calls := s.calls ++ more }) ∧
    more.Nodup ∧ ∀ y a b, (y, a, b) ∈ more ↔ (t1 ≤ y ∧ y ≤ b1 ∧ b2 < y) ∧
      a = s.spanstart y ∧ b = x - 1 := by
  fun_induction mapBottom x b2 t1 b1 s with
  | case1 b1 s going ih =>
    obtain ⟨more, left, nodup, mem⟩ := ih
    refine ⟨(b1, s.spanstart b1, x - 1) :: more, ?_, List.nodup_cons.2 ⟨?_, nodup⟩, ?_⟩
    · rw [left, List.append_assoc]
      simp only [Prod.mk.injEq]
      exact ⟨by omega, rfl⟩
    · rw [mem]
      omega
    · intro y a b
      rw [List.mem_cons, mem, Prod.mk.injEq, Prod.mk.injEq]
      constructor
      · rintro (⟨rfl, rfl, rfl⟩ | ⟨rows, same⟩)
        · exact ⟨by omega, rfl, rfl⟩
        · exact ⟨by omega, same⟩
      · rintro ⟨rows, rfl, rfl⟩
        by_cases first : y = b1
        · exact .inl ⟨first, by rw [first], rfl⟩
        · exact .inr ⟨by omega, rfl, rfl⟩
  | case2 b1 s done =>
    refine ⟨[], ?_, List.nodup_nil, ?_⟩
    · rw [List.append_nil]
      simp only [Prod.mk.injEq, and_true]
      omega
    · intro y a b
      simp only [List.not_mem_nil, false_iff]
      omega

theorem startTop_eq (x t1 b2 t2 : Int) (s : Sweep) : startTop x t1 b2 t2 s =
    (max t2 (min t1 (b2 + 1)), { s with
      spanstart := fun y => if t2 ≤ y ∧ y ≤ b2 ∧ y < t1 then x else s.spanstart y }) := by
  fun_induction startTop x t1 b2 t2 s with
  | case1 t2 s going ih =>
    rw [ih]
    simp only [Prod.mk.injEq, Sweep.mk.injEq, and_true]
    refine ⟨by omega, funext fun y => ?_⟩
    by_cases first : y = t2
    · subst first
      rw [Function.update_self, if_neg (by omega), if_pos (by omega)]
    · rw [Function.update_of_ne first]
      exact if_congr (by omega) rfl rfl
  | case2 t2 s done =>
    simp only [Prod.mk.injEq]
    refine ⟨by omega, congrArg (Sweep.mk · s.calls) (funext fun y => ?_)⟩
    rw [if_neg (by omega)]

theorem startBottom_eq (x b1 t2 b2 : Int) (s : Sweep) : (startBottom x b1 t2 b2 s).2 =
    { s with spanstart := fun y => if t2 ≤ y ∧ y ≤ b2 ∧ b1 < y then x else s.spanstart y } := by
  fun_induction startBottom x b1 t2 b2 s with
  | case1 b2 s going ih =>
    rw [ih]
    simp only [Sweep.mk.injEq, and_true]
    refine funext fun y => ?_
    by_cases first : y = b2
    · subst first
      rw [Function.update_self, if_neg (by omega), if_pos (by omega)]
    · rw [Function.update_of_ne first]
      exact if_congr (by omega) rfl rfl
  | case2 b2 s done =>
    refine congrArg (Sweep.mk · s.calls) (funext fun y => ?_)
    rw [if_neg (by omega)]

/-- A column: the rows the one before it covers and this one does not are mapped as far as the one
before, and the rows only this one covers start here. -/
theorem makeSpans_eq (x t1 b1 t2 b2 : Int) (s : Sweep) : ∃ more,
    (makeSpans x t1 b1 t2 b2 s).calls = s.calls ++ more ∧ more.Nodup ∧
      (∀ y a b, (y, a, b) ∈ more ↔ ((t1 ≤ y ∧ y ≤ b1) ∧ ¬(t2 ≤ y ∧ y ≤ b2)) ∧
        a = s.spanstart y ∧ b = x - 1) ∧
      ∀ y, (makeSpans x t1 b1 t2 b2 s).spanstart y =
        if (t2 ≤ y ∧ y ≤ b2) ∧ ¬(t1 ≤ y ∧ y ≤ b1) then x else s.spanstart y := by
  obtain ⟨tops, left, nodupTops, memTops⟩ := mapTop_eq x t2 b1 t1 s
  obtain ⟨bottoms, left', nodupBottoms, memBottoms⟩ := mapBottom_eq x b2 (max t1 (min t2 (b1 + 1)))
    b1 { s with calls := s.calls ++ tops }
  rw [makeSpans]
  simp only [left, left', startTop_eq, startBottom_eq]
  refine ⟨tops ++ bottoms, List.append_assoc _ _ _, ?_, ?_, ?_⟩
  · refine List.nodup_append.2 ⟨nodupTops, nodupBottoms, ?_⟩
    rintro ⟨y, a, b⟩ top _ bottom rfl
    have := (memTops y a b).1 top
    have := (memBottoms y a b).1 bottom
    omega
  · intro y a b
    rw [List.mem_append, memTops, memBottoms]
    constructor
    · rintro (⟨rows, same⟩ | ⟨rows, same⟩) <;> exact ⟨by omega, same⟩
    · rintro ⟨rows, same⟩
      by_cases above : y < t2
      · exact .inl ⟨by omega, same⟩
      · exact .inr ⟨by omega, same⟩
  · intro y
    by_cases starts : (t2 ≤ y ∧ y ≤ b2) ∧ ¬(t1 ≤ y ∧ y ≤ b1)
    · rw [if_pos starts]
      split_ifs <;> first | rfl | omega
    · rw [if_neg starts, if_neg (by omega), if_neg (by omega)]

/-! ## A sweep -/

/-- The plane covers a row in a column. -/
def Visplane.Covers (pl : Visplane) (x y : Int) : Prop := pl.top x ≤ y ∧ y ≤ pl.bottom x

instance (pl : Visplane) (x y : Int) : Decidable (pl.Covers x y) :=
  inferInstanceAs (Decidable (_ ∧ _))

/-- A run of covered columns that goes on neither way. -/
structure Visplane.IsRun (pl : Visplane) (y a b : Int) : Prop where
  le : a ≤ b
  covers : ∀ x, a ≤ x → x ≤ b → pl.Covers x y
  before : ¬pl.Covers (a - 1) y
  after : ¬pl.Covers (b + 1) y

/-- The sweep has passed the columns before `x`. -/
structure Swept (pl : Visplane) (earlier : List (Int × Int × Int)) (x : Int) (s : Sweep) : Prop where
  starts : ∀ y, pl.Covers (x - 1) y → pl.minx ≤ s.spanstart y ∧ s.spanstart y ≤ x - 1 ∧
    (∀ k, s.spanstart y ≤ k → k < x → pl.Covers k y) ∧ ¬pl.Covers (s.spanstart y - 1) y
  calls : ∃ more, s.calls = earlier ++ more ∧ more.Nodup ∧
    ∀ y a b, (y, a, b) ∈ more ↔ pl.IsRun y a b ∧ pl.minx ≤ a ∧ b + 1 < x

/-- One column of a plane. -/
def sweepColumn (pl : Visplane) (s : Sweep) (x : Int) : Sweep :=
  makeSpans x (pl.top (x - 1)) (pl.bottom (x - 1)) (pl.top x) (pl.bottom x) s

section
variable {pl : Visplane} {earlier : List (Int × Int × Int)}

theorem swept_step {x : Int} {s : Sweep} (low : pl.minx ≤ x) (swept : Swept pl earlier x s) :
    Swept pl earlier (x + 1) (sweepColumn pl s x) := by
  obtain ⟨starts, more, soFar, nodup, mem⟩ := swept
  obtain ⟨new, calls, nodupNew, memNew, spanstart⟩ := makeSpans_eq x (pl.top (x - 1))
    (pl.bottom (x - 1)) (pl.top x) (pl.bottom x) s
  change ∀ y, (sweepColumn pl s x).spanstart y = if pl.Covers x y ∧ ¬pl.Covers (x - 1) y then x
    else s.spanstart y at spanstart
  have memNew : ∀ y a b, (y, a, b) ∈ new ↔ (pl.Covers (x - 1) y ∧ ¬pl.Covers x y) ∧
      a = s.spanstart y ∧ b = x - 1 := memNew
  refine ⟨fun y covers => ?_, more ++ new, ?_, ?_, ?_⟩
  · rw [show x + 1 - 1 = x by omega] at covers ⊢
    rw [spanstart]
    by_cases went : pl.Covers (x - 1) y
    · obtain ⟨first, last, all, before⟩ := starts y went
      rw [if_neg fun here => here.2 went]
      refine ⟨first, by omega, fun k past upto => ?_, before⟩
      by_cases here : k = x
      · rwa [here]
      · exact all k past (by omega)
    · rw [if_pos ⟨covers, went⟩]
      refine ⟨low, le_refl _, fun k past upto => ?_, went⟩
      rwa [show k = x by omega]
  · exact calls.trans (by rw [soFar, List.append_assoc])
  · refine List.nodup_append.2 ⟨nodup, nodupNew, ?_⟩
    rintro ⟨y, a, b⟩ old _ now rfl
    have := ((mem y a b).1 old).2.2
    have := ((memNew y a b).1 now).2.2
    omega
  · intro y a b
    rw [List.mem_append, mem, memNew]
    constructor
    · rintro (⟨run, first, last⟩ | ⟨⟨went, ends⟩, rfl, rfl⟩)
      · exact ⟨run, first, by omega⟩
      · obtain ⟨first, last, all, before⟩ := starts y went
        refine ⟨⟨last, fun k past upto => all k past (by omega), before, ?_⟩, first, by omega⟩
        rwa [show x - 1 + 1 = x by omega]
    · rintro ⟨run, first, last⟩
      by_cases past : b + 1 < x
      · exact .inl ⟨run, first, past⟩
      -- a run that ends just before this column started where `spanstart` says
      have here : b = x - 1 := by omega
      subst here
      have went := run.covers (x - 1) run.le (le_refl _)
      have ends := run.after
      rw [show x - 1 + 1 = x by omega] at ends
      obtain ⟨first', last', all, before⟩ := starts y went
      have same : a = s.spanstart y := by
        have le := run.le
        rcases lt_trichotomy a (s.spanstart y) with earlier | same | later
        · exact absurd (run.covers _ (by omega) (by omega)) before
        · exact same
        · exact absurd (all (a - 1) (by omega) (by omega)) run.before
      exact .inr ⟨⟨went, ends⟩, same, rfl⟩

theorem swept_columns {s : Sweep} (open' : ∀ y, ¬pl.Covers (pl.minx - 1) y) (n : Nat) :
    Swept pl s.calls (pl.minx + n)
      (((List.range n).map fun i : Nat => pl.minx + i).foldl (sweepColumn pl) s) := by
  induction n with
  | zero =>
    refine ⟨fun y covers => ?_, [], (List.append_nil _).symm, List.nodup_nil, fun y a b => ?_⟩
    · rw [show pl.minx + ((0 : Nat) : Int) - 1 = pl.minx - 1 by omega] at covers
      exact absurd covers (open' y)
    · refine ⟨nofun, fun ⟨run, first, last⟩ => ?_⟩
      have := run.le
      omega
  | succ n ih =>
    rw [List.range_succ, List.map_append, List.foldl_append]
    have next := swept_step (by omega) ih
    rw [show pl.minx + (n : Int) + 1 = pl.minx + ((n + 1 : Nat) : Int) by push_cast; ring] at next
    exact next

end

/-- The sweep over a plane maps its runs, each once. -/
theorem drawPlane_calls {pl : Visplane} (s : Sweep)
    (left : pl.bottom (pl.minx - 1) < 255) : ∃ more, (drawPlane pl s).calls = s.calls ++ more ∧
      more.Nodup ∧ ∀ y a b, (y, a, b) ∈ more ↔ pl.closed.IsRun y a b ∧ pl.minx ≤ a ∧ b ≤ pl.maxx := by
  rw [drawPlane]
  by_cases none : pl.minx > pl.maxx
  case pos =>
    rw [if_pos none]
    refine ⟨[], (List.append_nil _).symm, List.nodup_nil, fun y a b => ⟨nofun, ?_⟩⟩
    rintro ⟨run, first, last⟩
    have := run.le
    omega
  rw [if_neg none]
  have open' : ∀ y, ¬pl.closed.Covers (pl.minx - 1) y := fun y covers => by
    have top : pl.closed.top (pl.minx - 1) = 255 := Function.update_self _ _ _
    have := covers.1
    have := covers.2
    rw [top] at *
    change y ≤ pl.bottom (pl.minx - 1) at this
    omega
  obtain ⟨-, more, calls, nodup, mem⟩ := swept_columns (s := s) open'
    (pl.closed.maxx + 2 - pl.closed.minx).toNat
  refine ⟨more, calls, nodup, fun y a b => ?_⟩
  rw [mem]
  refine and_congr_right fun _ => and_congr_right fun _ => ?_
  change b + 1 < pl.minx + ((pl.maxx + 2 - pl.minx).toNat : Int) ↔ b ≤ pl.maxx
  omega

end ClickDoom.Engine.Spans

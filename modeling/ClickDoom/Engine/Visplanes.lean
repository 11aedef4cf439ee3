import Mathlib

/-! # The planes of a frame

`r_plane.c`: `R_FindPlane` and `R_CheckPlane`; `r_bsp.c`: what `R_Subsector` does with them; `r_segs.c`:
the part of `R_StoreWallRange` that checks a plane and marks its columns.  A plane's `top` is 255 in
a column it does not cover.  Nothing stops the planes at `MAXVISPLANES` here.
-/
namespace ClickDoom.Engine.Visplanes

/-- What names a plane. -/
structure Name where
  height : Int
  picnum : Int
  lightlevel : Int
  deriving DecidableEq, Repr

/-- A `visplane_t`. -/
structure Visplane where
  name : Name
  minx : Int
  maxx : Int
  top : Nat → Int
  bottom : Nat → Int

inductive Side
  | ceiling
  | floor
  deriving DecidableEq, Repr

/-- The planes of a sector. -/
structure Sector where
  ceilingheight : Int
  ceilingpic : Int
  floorheight : Int
  floorpic : Int
  lightlevel : Int
  deriving DecidableEq, Repr

def Sector.name (sector : Sector) : Side → Name
  | .ceiling => ⟨sector.ceilingheight, sector.ceilingpic, sector.lightlevel⟩
  | .floor => ⟨sector.floorheight, sector.floorpic, sector.lightlevel⟩

/-- Whether `R_Subsector` looks for the plane. -/
def Sector.seen (viewz skyflatnum : Int) (sector : Sector) : Side → Bool
  | .ceiling => sector.ceilingheight > viewz ∨ sector.ceilingpic = skyflatnum
  | .floor => sector.floorheight < viewz

/-- A wall as `R_StoreWallRange` has it: its columns, the planes it marks and the rows that
`R_RenderSegLoop` leaves them. -/
structure Wall where
  x1 : Nat
  x2 : Nat
  mark : Side → Bool
  rows : Side → Nat → Option (Int × Int)
  x2_lt : x2 < 320
  rows_mark : ∀ side x r, rows side x = some r →
    mark side ∧ x1 ≤ x ∧ x ≤ x2 ∧ 0 ≤ r.1 ∧ r.1 ≤ r.2 ∧ r.2 < 168

/-- A subsector the walk reaches, with its walls; none marks a plane on the wrong side of the view. -/
structure Subsector (viewz skyflatnum : Int) where
  num : Nat
  num_lt : num < 32768
  sector : Sector
  walls : List Wall
  seen : ∀ w ∈ walls, ∀ side, w.mark side → sector.seen viewz skyflatnum side

/-- `visplanes`, and `ceilingplane` and `floorplane` by their place in it. -/
structure State where
  visplanes : List Visplane
  plane : Side → Option Nat

/-- All skies map together. -/
def remap (skyflatnum : Int) (name : Name) : Name :=
  if name.picnum = skyflatnum then ⟨0, name.picnum, 0⟩ else name

/-- A plane that covers nothing. -/
def blank (name : Name) (minx maxx : Int) : Visplane := ⟨name, minx, maxx, fun _ => 255, fun _ => 0⟩

/-- The planes that carry a name, in the order they were made. -/
def named (visplanes : List Visplane) (name : Name) : List Nat :=
  (List.range visplanes.length).filter fun i => visplanes[i]?.any fun pl => pl.name = name

/-- `R_FindPlane`. -/
def findPlane (skyflatnum : Int) (name : Name) (visplanes : List Visplane) : List Visplane × Nat :=
  let name := remap skyflatnum name
  match (List.range visplanes.length).find? fun i => visplanes[i]?.any fun pl => pl.name = name with
  | some i => (visplanes, i)
  | none => (visplanes ++ [blank name 320 (-1)], visplanes.length)

/-- `R_CheckPlane`. -/
def checkPlane (visplanes : List Visplane) (i : Nat) (start stop : Int) : List Visplane × Nat :=
  match visplanes[i]? with
  | none => (visplanes, i)
  | some pl =>
    let (intrl, unionl) := if start < pl.minx then (pl.minx, start) else (start, pl.minx)
    let (intrh, unionh) := if stop > pl.maxx then (pl.maxx, stop) else (stop, pl.maxx)
    if (List.range (intrh + 1 - intrl).toNat).all fun d => pl.top (intrl.toNat + d) = 255 then
      (visplanes.set i { pl with minx := unionl, maxx := unionh }, i)
    else (visplanes ++ [blank pl.name start stop], visplanes.length)

section
variable {viewz skyflatnum : Int}

/-- What `R_Subsector` does before its segs. -/
def subsector (sub : Subsector viewz skyflatnum) (st : State) : State :=
  let find side visplanes :=
    if sub.sector.seen viewz skyflatnum side then
      let (visplanes, i) := findPlane skyflatnum (sub.sector.name side) visplanes
      (visplanes, some i)
    else (visplanes, none)
  let (visplanes, floorplane) := find .floor st.visplanes
  let (visplanes, ceilingplane) := find .ceiling visplanes
  { visplanes
    plane := fun
      | .ceiling => ceilingplane
      | .floor => floorplane }

end

/-- `ceilingplane = R_CheckPlane (ceilingplane, rw_x, rw_stopx-1)`, where the plane is marked. -/
def check (w : Wall) (side : Side) (st : State) : State :=
  match w.mark side, st.plane side with
  | true, some i =>
    let (visplanes, i) := checkPlane st.visplanes i w.x1 w.x2
    { visplanes, plane := Function.update st.plane side (some i) }
  | _, _ => st

/-- `ceilingplane->top[rw_x] = top`, where the loop has rows. -/
def mark (w : Wall) (x : Nat) (side : Side) (st : State) : State :=
  match w.rows side x, st.plane side with
  | some rows, some i =>
    { st with visplanes := st.visplanes.modify i fun pl =>
        { pl with top := Function.update pl.top x rows.1
                  bottom := Function.update pl.bottom x rows.2 } }
  | _, _ => st

def columns (w : Wall) : List Nat := List.range' w.x1 (w.x2 + 1 - w.x1)

/-- `R_StoreWallRange`. -/
def storeWallRange (w : Wall) (st : State) : State :=
  (columns w).foldl (fun st x => mark w x .floor (mark w x .ceiling st))
    (check w .floor (check w .ceiling st))

/-- A step of the walk. -/
inductive Step (viewz skyflatnum : Int)
  | enter (sub : Subsector viewz skyflatnum)
  | wall (sub : Subsector viewz skyflatnum) (w : Wall)

section
variable {viewz skyflatnum : Int}

def step (st : State) : Step viewz skyflatnum → State
  | .enter sub => subsector sub st
  | .wall _ w => storeWallRange w st

def steps (subs : List (Subsector viewz skyflatnum)) : List (Step viewz skyflatnum) :=
  subs.flatMap fun sub => .enter sub :: sub.walls.map (.wall sub)

end

/-- What `R_ClearPlanes` leaves. -/
def cleared : State := ⟨[], fun _ => none⟩

/-! ## What is marked -/

/-- The rows a plane covers in a column. -/
def rowsAt (visplanes : List Visplane) (i x : Nat) : Option (Int × Int) :=
  match visplanes[i]? with
  | some pl => if pl.top x = 255 then none else some (pl.top x, pl.bottom x)
  | none => none

theorem rowsAt_append (visplanes : List Visplane) (name : Name) (minx maxx : Int) :
    rowsAt (visplanes ++ [blank name minx maxx]) = rowsAt visplanes := by
  funext i x
  rw [rowsAt, rowsAt]
  rcases lt_trichotomy i visplanes.length with low | rfl | high
  · rw [List.getElem?_append_left low]
  · rw [List.getElem?_append_right le_rfl, Nat.sub_self, List.getElem?_eq_none le_rfl]
    rfl
  · rw [List.getElem?_eq_none (by simpa using high), List.getElem?_eq_none high.le]

theorem mem_named {visplanes : List Visplane} {name : Name} {i : Nat} :
    i ∈ named visplanes name ↔ ∃ pl, visplanes[i]? = some pl ∧ pl.name = name := by
  rw [named, List.mem_filter, List.mem_range, Option.any_eq_true]
  constructor
  · rintro ⟨-, pl, found, same⟩
    exact ⟨pl, found, of_decide_eq_true same⟩
  · rintro ⟨pl, found, same⟩
    exact ⟨(List.getElem?_eq_some_iff.1 found).1, pl, found, decide_eq_true same⟩

theorem named_nodup (visplanes : List Visplane) (name : Name) : (named visplanes name).Nodup :=
  List.nodup_range.filter _

/-- Planes with the same names are named alike. -/
theorem named_congr {visplanes visplanes' : List Visplane}
    (same : visplanes'.map Visplane.name = visplanes.map Visplane.name) :
    named visplanes' = named visplanes := by
  have length : visplanes'.length = visplanes.length := by
    rw [← List.length_map (f := Visplane.name), same, List.length_map]
  funext name
  rw [named, named, length]
  refine List.filter_congr fun i _ => ?_
  have at' : visplanes'[i]?.map Visplane.name = visplanes[i]?.map Visplane.name := by
    rw [← List.getElem?_map, same, List.getElem?_map]
  have any : ∀ l : List Visplane, (l[i]?.any fun pl => pl.name = name) =
      ((l[i]?.map Visplane.name).any fun n => n = name) := fun l => by
    rw [Option.any_map]
  rw [any, any, at']

theorem named_append (visplanes : List Visplane) (name name' : Name) (minx maxx : Int) :
    named (visplanes ++ [blank name' minx maxx]) name =
      named visplanes name ++ if name' = name then [visplanes.length] else [] := by
  rw [named, List.length_append, List.length_singleton, List.range_succ, List.filter_append]
  congr 1
  · refine List.filter_congr fun i there => ?_
    rw [List.getElem?_append_left (List.mem_range.1 there)]
  · rw [List.filter_singleton, List.getElem?_append_right le_rfl, Nat.sub_self]
    by_cases same : name' = name <;> simp [blank, same]

/-! ## Finding a plane -/

theorem findPlane_eq (skyflatnum : Int) (name : Name) (visplanes : List Visplane) :
    findPlane skyflatnum name visplanes = match (named visplanes (remap skyflatnum name)).head? with
      | some i => (visplanes, i)
      | none => (visplanes ++ [blank (remap skyflatnum name) 320 (-1)], visplanes.length) := by
  rw [findPlane, named, List.head?_filter]

theorem findPlane_rows (skyflatnum : Int) (name : Name) (visplanes : List Visplane) :
    rowsAt (findPlane skyflatnum name visplanes).1 = rowsAt visplanes := by
  rw [findPlane_eq]
  cases (named visplanes (remap skyflatnum name)).head? with
  | none => exact rowsAt_append _ _ _ _
  | some i => rfl

/-- The plane found is the first of its name. -/
theorem findPlane_head (skyflatnum : Int) (name : Name) (visplanes : List Visplane) :
    (named (findPlane skyflatnum name visplanes).1 (remap skyflatnum name))[0]? =
      some (findPlane skyflatnum name visplanes).2 := by
  rw [findPlane_eq, ← List.head?_eq_getElem?]
  cases found : (named visplanes (remap skyflatnum name)).head? with
  | none =>
    dsimp only
    rw [named_append, if_pos rfl, List.head?_eq_none_iff.1 found]
    rfl
  | some i => exact found

theorem rowsAt_length (visplanes : List Visplane) (x : Nat) :
    rowsAt visplanes visplanes.length x = none := by
  rw [rowsAt, List.getElem?_eq_none le_rfl]

/-- The planes of a name stay as they are, or one that covers nothing is the first. -/
def Opens (visplanes visplanes' : List Visplane) (k : Name) : Prop :=
  named visplanes' k = named visplanes k ∨
    named visplanes k = [] ∧ ∃ i, named visplanes' k = [i] ∧ ∀ x, rowsAt visplanes i x = none

theorem findPlane_named (skyflatnum : Int) (name k : Name) (visplanes : List Visplane) :
    Opens visplanes (findPlane skyflatnum name visplanes).1 k := by
  rw [findPlane_eq]
  cases found : (named visplanes (remap skyflatnum name)).head? with
  | some i => exact .inl rfl
  | none =>
    rw [Opens]
    dsimp only
    rw [named_append]
    by_cases same : remap skyflatnum name = k
    · subst same
      rw [if_pos rfl, List.head?_eq_none_iff.1 found]
      exact .inr ⟨rfl, _, rfl, rowsAt_length visplanes⟩
    · rw [if_neg same, List.append_nil]
      exact .inl rfl

theorem Opens.trans {visplanes visplanes' visplanes'' : List Visplane} {k : Name}
    (first : Opens visplanes visplanes' k) (second : Opens visplanes' visplanes'' k)
    (rows : rowsAt visplanes' = rowsAt visplanes) : Opens visplanes visplanes'' k := by
  rcases first with same | ⟨none, i, one, bare⟩
  · rw [Opens, same, rows] at second
    exact second
  · rcases second with same | ⟨none', -⟩
    · exact .inr ⟨none, i, same.trans one, bare⟩
    · rw [one] at none'
      cases none'

/-- The first plane of a name stays the first. -/
theorem Opens.head {visplanes visplanes' : List Visplane} {k : Name} {i : Nat}
    (opens : Opens visplanes visplanes' k) (first : (named visplanes k)[0]? = some i) :
    (named visplanes' k)[0]? = some i := by
  rcases opens with same | ⟨none, -⟩
  · rw [same, first]
  · rw [none] at first
    cases first

/-- Every marked column lies between a plane's ends. -/
def Bounded (visplanes : List Visplane) : Prop := ∀ (i : Nat) (pl : Visplane) (x : Nat),
  visplanes[i]? = some pl → pl.top x ≠ 255 → pl.minx ≤ x ∧ x ≤ pl.maxx

theorem Bounded.append {visplanes : List Visplane} (bounded : Bounded visplanes) (name : Name)
    (minx maxx : Int) : Bounded (visplanes ++ [blank name minx maxx]) := by
  intro i pl x found marked
  rcases lt_trichotomy i visplanes.length with low | rfl | high
  · rw [List.getElem?_append_left low] at found
    exact bounded i pl x found marked
  · rw [List.getElem?_append_right le_rfl, Nat.sub_self] at found
    cases found
    exact absurd rfl marked
  · rw [List.getElem?_eq_none (by simpa using high)] at found
    cases found

theorem findPlane_bounded (skyflatnum : Int) (name : Name) {visplanes : List Visplane}
    (bounded : Bounded visplanes) : Bounded (findPlane skyflatnum name visplanes).1 := by
  rw [findPlane_eq]
  cases (named visplanes (remap skyflatnum name)).head? with
  | none => exact bounded.append _ _ _
  | some i => exact bounded

/-! ## Checking a plane -/

/-- Whether a plane covers none of the columns. -/
def Clear (visplanes : List Visplane) (i : Nat) (w : Wall) : Prop :=
  ∀ x, w.x1 ≤ x → x ≤ w.x2 → rowsAt visplanes i x = none

theorem rowsAt_eq_none {visplanes : List Visplane} {i x : Nat} {pl : Visplane}
    (found : visplanes[i]? = some pl) : rowsAt visplanes i x = none ↔ pl.top x = 255 := by
  rw [rowsAt, found]
  dsimp only
  split_ifs with blank
  · exact iff_of_true rfl blank
  · exact iff_of_false id blank

/-- A plane with no marked column of the wall's is kept and widened; else one of its name is made. -/
theorem checkPlane_eq {visplanes : List Visplane} (bounded : Bounded visplanes) {i : Nat}
    {pl : Visplane} (found : visplanes[i]? = some pl) (w : Wall) :
    (Clear visplanes i w ∧ checkPlane visplanes i w.x1 w.x2 =
        (visplanes.set i { pl with minx := min pl.minx w.x1, maxx := max pl.maxx w.x2 }, i)) ∨
      (¬ Clear visplanes i w ∧ checkPlane visplanes i w.x1 w.x2 =
        (visplanes ++ [blank pl.name w.x1 w.x2], visplanes.length)) := by
  have left : (if (w.x1 : Int) < pl.minx then (pl.minx, (w.x1 : Int)) else ((w.x1 : Int), pl.minx)) =
      (max pl.minx w.x1, min pl.minx w.x1) := by
    split_ifs <;> refine Prod.ext ?_ ?_ <;> dsimp only <;> omega
  have right : (if (w.x2 : Int) > pl.maxx then (pl.maxx, (w.x2 : Int)) else ((w.x2 : Int), pl.maxx)) =
      (min pl.maxx w.x2, max pl.maxx w.x2) := by
    split_ifs <;> refine Prod.ext ?_ ?_ <;> dsimp only <;> omega
  have loop : ((List.range (min pl.maxx w.x2 + 1 - max pl.minx w.x1).toNat).all fun d =>
      pl.top ((max pl.minx w.x1).toNat + d) = 255) = true ↔ Clear visplanes i w := by
    rw [List.all_eq_true]
    constructor
    · intro blank x first last
      rw [rowsAt_eq_none found]
      by_contra marked
      have ends := bounded i pl x found marked
      have inside := blank (x - (max pl.minx w.x1).toNat) (List.mem_range.2 (by omega))
      rw [show (max pl.minx w.x1).toNat + (x - (max pl.minx w.x1).toNat) = x by omega] at inside
      exact marked (of_decide_eq_true inside)
    · intro clear d inside
      have inside := List.mem_range.1 inside
      exact decide_eq_true ((rowsAt_eq_none found).1 (clear _ (by omega) (by omega)))
  by_cases clear : Clear visplanes i w
  · refine .inl ⟨clear, ?_⟩
    rw [checkPlane, found]
    dsimp only
    rw [left, right]
    exact if_pos (loop.2 clear)
  · refine .inr ⟨clear, ?_⟩
    rw [checkPlane, found]
    dsimp only
    rw [left, right]
    exact if_neg fun all => clear (loop.1 all)

theorem rowsAt_set {visplanes : List Visplane} {i : Nat} {pl : Visplane}
    (found : visplanes[i]? = some pl) (minx maxx : Int) :
    rowsAt (visplanes.set i { pl with minx, maxx }) = rowsAt visplanes := by
  funext j x
  rw [rowsAt, rowsAt, List.getElem?_set]
  split_ifs with same low
  · subst same
    rw [found]
  · subst same
    exact absurd (List.getElem?_eq_some_iff.1 found).1 low
  · rfl

theorem named_set {visplanes : List Visplane} {i : Nat} {pl : Visplane}
    (found : visplanes[i]? = some pl) (minx maxx : Int) :
    named (visplanes.set i { pl with minx, maxx }) = named visplanes := by
  refine named_congr (List.ext_getElem? fun j => ?_)
  rw [List.getElem?_map, List.getElem?_map, List.getElem?_set]
  split_ifs with same low
  · subst same
    rw [found]
    rfl
  · subst same
    exact absurd (List.getElem?_eq_some_iff.1 found).1 low
  · rfl

theorem Bounded.widen {visplanes : List Visplane} (bounded : Bounded visplanes) {i : Nat}
    {pl : Visplane} (found : visplanes[i]? = some pl) {minx maxx : Int} (left : minx ≤ pl.minx)
    (right : pl.maxx ≤ maxx) : Bounded (visplanes.set i { pl with minx, maxx }) := by
  intro j pl' x there marked
  rw [List.getElem?_set] at there
  split_ifs at there with same low
  · cases there
    have := bounded i pl x found marked
    dsimp only
    omega
  · exact bounded j pl' x there marked

/-- A plane whose ends are around a wall's columns. -/
def Spans (visplanes : List Visplane) (i : Nat) (w : Wall) : Prop :=
  ∃ pl, visplanes[i]? = some pl ∧ pl.minx ≤ w.x1 ∧ w.x2 ≤ pl.maxx

/-- Checking a plane marks nothing; it may make a plane of the same name. -/
theorem check_eq {st : State} (bounded : Bounded st.visplanes) {w : Wall} {side : Side}
    (marks : w.mark side) {i : Nat} (points : st.plane side = some i) {pl : Visplane}
    (found : st.visplanes[i]? = some pl) :
    rowsAt (check w side st).visplanes = rowsAt st.visplanes ∧
    Bounded (check w side st).visplanes ∧
    ∃ i', (check w side st).plane = Function.update st.plane side (some i') ∧
      Spans (check w side st).visplanes i' w ∧
      ((Clear st.visplanes i w ∧ i' = i ∧
          named (check w side st).visplanes = named st.visplanes) ∨
        (¬ Clear st.visplanes i w ∧ i' = st.visplanes.length ∧
          ∀ name, named (check w side st).visplanes name = named st.visplanes name ++
            if pl.name = name then [st.visplanes.length] else [])) := by
  have checked : check w side st =
      { visplanes := (checkPlane st.visplanes i w.x1 w.x2).1
        plane := Function.update st.plane side
          (some (checkPlane st.visplanes i w.x1 w.x2).2) } := by
    rw [check, marks, points]
  rw [checked]
  rcases checkPlane_eq bounded found w with ⟨clear, same⟩ | ⟨met, new⟩
  · rw [same]
    have low := (List.getElem?_eq_some_iff.1 found).1
    refine ⟨rowsAt_set found _ _, bounded.widen found (by omega) (by omega), i, rfl, ?_,
      .inl ⟨clear, rfl, named_set found _ _⟩⟩
    refine ⟨_, List.getElem?_set_self low, ?_, ?_⟩
    · dsimp only
      omega
    · dsimp only
      omega
  · rw [new]
    refine ⟨rowsAt_append _ _ _ _, bounded.append _ _ _, _, rfl, ?_,
      .inr ⟨met, rfl, fun name => named_append _ _ _ _ _⟩⟩
    refine ⟨blank pl.name w.x1 w.x2, ?_, le_rfl, le_rfl⟩
    rw [List.getElem?_append_right le_rfl, Nat.sub_self]
    rfl

theorem check_of_unmarked {w : Wall} {side : Side} (plain : w.mark side = false) (st : State) :
    check w side st = st := by
  rw [check, plain]

/-! ## Marking -/

/-- The rows that a wall gives a plane in a column, the floor's written last. -/
def marked (w : Wall) (plane : Side → Option Nat) (i x : Nat) : Option (Int × Int) :=
  (if plane .floor = some i then w.rows .floor x else none).or
    (if plane .ceiling = some i then w.rows .ceiling x else none)

theorem mark_plane (w : Wall) (x : Nat) (side : Side) (st : State) :
    (mark w x side st).plane = st.plane := by
  rw [mark]
  split <;> rfl

theorem mark_named (w : Wall) (x : Nat) (side : Side) (st : State) :
    named (mark w x side st).visplanes = named st.visplanes := by
  rw [mark]
  split
  · refine named_congr (List.ext_getElem? fun j => ?_)
    rw [List.getElem?_map, List.getElem?_map, List.getElem?_modify]
    cases st.visplanes[j]? with
    | none => rfl
    | some pl => split_ifs <;> rfl
  · rfl

theorem mark_rows (w : Wall) (x : Nat) (side : Side) (st : State)
    (valid : ∀ i, st.plane side = some i → i < st.visplanes.length) (i y : Nat) :
    rowsAt (mark w x side st).visplanes i y =
      (if y = x ∧ st.plane side = some i then w.rows side x else none).or
        (rowsAt st.visplanes i y) := by
  rw [mark]
  cases rows : w.rows side x with
  | none => simp
  | some r =>
    cases points : st.plane side with
    | none => simp
    | some j =>
      have inside := valid j points
      have seen := (w.rows_mark side x r rows).2.2.2
      dsimp only
      rw [rowsAt, rowsAt, List.getElem?_modify]
      by_cases here : j = i
      · subst here
        rw [List.getElem?_eq_getElem inside]
        by_cases there : y = x
        · subst there
          simp [show r.1 ≠ 255 by omega]
        · simp [there]
      · have other : (some j = some i) = False := by simpa using here
        simp [here]

theorem mark_length (w : Wall) (x : Nat) (side : Side) (st : State) :
    (mark w x side st).visplanes.length = st.visplanes.length := by
  rw [mark]
  split
  · exact List.length_modify _ _ _
  · rfl

theorem mark_bounded (w : Wall) (x : Nat) (side : Side) {st : State} (bounded : Bounded st.visplanes)
    (spans : ∀ i, w.mark side → st.plane side = some i → Spans st.visplanes i w) :
    Bounded (mark w x side st).visplanes := by
  rw [mark]
  split
  next r i rows points =>
    obtain ⟨marks, first, last, -⟩ := w.rows_mark side x r rows
    obtain ⟨pl, found, left, right⟩ := spans i marks points
    intro j pl' y there covered
    by_cases here : i = j
    · subst here
      rw [List.getElem?_modify_eq, found] at there
      cases there
      by_cases same : y = x
      · subst same
        dsimp only
        omega
      · refine bounded i pl y found ?_
        dsimp only at covered
        rwa [Function.update_of_ne same] at covered
    · rw [List.getElem?_modify_ne _ _ here] at there
      exact bounded j pl' y there covered
  · exact bounded

theorem mark_spans (w : Wall) (x : Nat) (side : Side) (st : State) {i : Nat}
    (spans : Spans st.visplanes i w) : Spans (mark w x side st).visplanes i w := by
  rw [mark]
  split
  next r j rows points =>
    obtain ⟨pl, found, left, right⟩ := spans
    by_cases here : j = i
    · subst here
      refine ⟨{ pl with top := Function.update pl.top x r.1
                        bottom := Function.update pl.bottom x r.2 }, ?_, left, right⟩
      rw [List.getElem?_modify, found]
      simp
    · refine ⟨pl, ?_, left, right⟩
      rw [List.getElem?_modify, found]
      simp [here]
  · exact spans

/-- The loop over some columns. -/
def markColumns (w : Wall) (xs : List Nat) (st : State) : State :=
  xs.foldl (fun st x => mark w x .floor (mark w x .ceiling st)) st

theorem markColumns_plane (w : Wall) (xs : List Nat) (st : State) :
    (markColumns w xs st).plane = st.plane := by
  induction xs generalizing st with
  | nil => rfl
  | cons x xs ih => exact (ih _).trans ((mark_plane _ _ _ _).trans (mark_plane _ _ _ _))

theorem markColumns_named (w : Wall) (xs : List Nat) (st : State) :
    named (markColumns w xs st).visplanes = named st.visplanes := by
  induction xs generalizing st with
  | nil => rfl
  | cons x xs ih => exact (ih _).trans ((mark_named _ _ _ _).trans (mark_named _ _ _ _))

theorem markColumns_bounded (w : Wall) (xs : List Nat) {st : State} (bounded : Bounded st.visplanes)
    (spans : ∀ side i, w.mark side → st.plane side = some i → Spans st.visplanes i w) :
    Bounded (markColumns w xs st).visplanes := by
  induction xs generalizing st with
  | nil => exact bounded
  | cons x xs ih =>
    have one : Bounded (mark w x .ceiling st).visplanes := mark_bounded w x _ bounded (spans _)
    refine ih (mark_bounded w x _ one fun i marks points => ?_) fun side i marks points => ?_
    · rw [mark_plane] at points
      exact mark_spans w x _ st (spans _ i marks points)
    · rw [mark_plane, mark_plane] at points
      exact mark_spans w x _ _ (mark_spans w x _ st (spans side i marks points))

theorem markColumns_rows (w : Wall) (xs : List Nat) (st : State)
    (valid : ∀ side i, st.plane side = some i → i < st.visplanes.length) (i y : Nat) :
    rowsAt (markColumns w xs st).visplanes i y =
      (if y ∈ xs then marked w st.plane i y else none).or (rowsAt st.visplanes i y) := by
  induction xs generalizing st with
  | nil => rfl
  | cons x xs ih =>
    have length : (mark w x .floor (mark w x .ceiling st)).visplanes.length =
        st.visplanes.length := (mark_length _ _ _ _).trans (mark_length _ _ _ _)
    have plane : (mark w x .floor (mark w x .ceiling st)).plane = st.plane :=
      (mark_plane _ _ _ _).trans (mark_plane _ _ _ _)
    have later := ih (mark w x .floor (mark w x .ceiling st)) fun side j points => by
      rw [length]
      rw [plane] at points
      exact valid side j points
    refine later.trans ?_
    rw [plane, mark_rows w x .floor _ fun j points => ?_, mark_plane,
      mark_rows w x .ceiling st (valid _)]
    · by_cases here : y = x
      · subst here
        rw [if_pos List.mem_cons_self]
        simp only [true_and, marked]
        by_cases again : y ∈ xs
        · rw [if_pos again]
          cases (if st.plane .floor = some i then w.rows .floor y else none) <;>
            cases (if st.plane .ceiling = some i then w.rows .ceiling y else none) <;> rfl
        · rw [if_neg again, Option.none_or, Option.or_assoc]
      · simp only [here, false_and, if_false, Option.none_or, List.mem_cons, false_or]
    · rw [mark_length]
      rw [mark_plane] at points
      exact valid _ j points

/-! ## A wall's planes -/

/-- The planes are bounded, and each of the two that are pointed at carries its name. -/
structure Valid (name : Side → Name) (st : State) : Prop where
  bounded : Bounded st.visplanes
  points : ∀ side i, st.plane side = some i → i ∈ named st.visplanes (name side)

section
variable {name : Side → Name} {st : State}

theorem Valid.found (valid : Valid name st) {side : Side} {i : Nat} (points : st.plane side = some i) :
    ∃ pl, st.visplanes[i]? = some pl ∧ pl.name = name side :=
  mem_named.1 (valid.points side i points)

theorem Valid.lt (valid : Valid name st) (side : Side) (i : Nat) (points : st.plane side = some i) :
    i < st.visplanes.length := by
  obtain ⟨pl, found, -⟩ := valid.found points
  exact (List.getElem?_eq_some_iff.1 found).1

theorem check_of_none {side : Side} (none : st.plane side = none) (w : Wall) :
    check w side st = st := by
  rw [check, none]
  cases w.mark side <;> rfl

/-- A check leaves the other side's plane, and adds at most one plane of its side's name. -/
theorem check_frame (valid : Valid name st) (w : Wall) (side : Side) :
    rowsAt (check w side st).visplanes = rowsAt st.visplanes ∧
    Valid name (check w side st) ∧
    (∀ t, t ≠ side → (check w side st).plane t = st.plane t) ∧
    ∀ k, (w.mark side → name side ≠ k) →
      named (check w side st).visplanes k = named st.visplanes k := by
  by_cases marks : w.mark side
  · cases points : st.plane side with
    | none =>
      rw [check_of_none points]
      exact ⟨rfl, valid, fun _ _ => rfl, fun _ _ => rfl⟩
    | some i =>
      obtain ⟨pl, found, called⟩ := valid.found points
      obtain ⟨rows, bounded, i', plane, spans, made⟩ := check_eq valid.bounded marks points found
      have keep : ∀ t, t ≠ side → (check w side st).plane t = st.plane t := fun t other => by
        rw [plane, Function.update_of_ne other]
      have grows : ∀ k j, j ∈ named st.visplanes k → j ∈ named (check w side st).visplanes k := by
        intro k j there
        rcases made with ⟨-, -, same⟩ | ⟨-, -, more⟩
        · rwa [same]
        · rw [more]
          exact List.mem_append_left _ there
      refine ⟨rows, ⟨bounded, fun t j points' => ?_⟩, keep, fun k other => ?_⟩
      · by_cases same : t = side
        · subst same
          rw [plane, Function.update_self, Option.some.injEq] at points'
          subst points'
          rcases made with ⟨-, rfl, same⟩ | ⟨-, rfl, more⟩
          · rw [same]
            exact valid.points t _ points
          · rw [more, if_pos called]
            exact List.mem_append_right _ (List.mem_singleton_self _)
        · rw [keep t same] at points'
          exact grows _ _ (valid.points t j points')
      · rcases made with ⟨-, -, same⟩ | ⟨-, -, more⟩
        · rw [same]
        · rw [more, if_neg (called ▸ other marks), List.append_nil]
  · rw [check_of_unmarked (by simpa using marks)]
    exact ⟨rfl, valid, fun _ _ => rfl, fun _ _ => rfl⟩

theorem check_spans (valid : Valid name st) {w : Wall} {side : Side} (marks : w.mark side) {i : Nat}
    (points : (check w side st).plane side = some i) : Spans (check w side st).visplanes i w := by
  cases before : st.plane side with
  | none =>
    rw [check_of_none before, before] at points
    cases points
  | some j =>
    obtain ⟨pl, found, -⟩ := valid.found before
    obtain ⟨-, -, i', plane, spans, -⟩ := check_eq valid.bounded marks before found
    rw [plane, Function.update_self, Option.some.injEq] at points
    exact points ▸ spans

/-- A check keeps a plane that spans the wall. -/
theorem Spans.check {w : Wall} {i : Nat} (spans : Spans st.visplanes i w) (valid : Valid name st)
    (side : Side) : Spans (check w side st).visplanes i w := by
  by_cases marks : w.mark side
  · cases points : st.plane side with
    | none => rwa [check_of_none points]
    | some j =>
      obtain ⟨pl, found, -⟩ := valid.found points
      obtain ⟨pl', found', left, right⟩ := spans
      have low := (List.getElem?_eq_some_iff.1 found').1
      rw [Engine.Visplanes.check, marks, points]
      dsimp only
      rcases checkPlane_eq valid.bounded found w with ⟨-, same⟩ | ⟨-, new⟩
      · rw [same]
        by_cases here : j = i
        · subst here
          cases found.symm.trans found'
          refine ⟨_, List.getElem?_set_self low, ?_, ?_⟩
          · dsimp only
            omega
          · dsimp only
            omega
        · exact ⟨pl', by rw [List.getElem?_set_ne here, found'], left, right⟩
      · rw [new]
        exact ⟨pl', by rw [List.getElem?_append_left low, found'], left, right⟩
  · rwa [check_of_unmarked (by simpa using marks)]

/-- The planes of a wall after both checks. -/
def checked (w : Wall) (st : State) : State := check w .floor (check w .ceiling st)

theorem checked_frame (valid : Valid name st) (w : Wall) :
    rowsAt (checked w st).visplanes = rowsAt st.visplanes ∧ Valid name (checked w st) := by
  have one := check_frame valid w .ceiling
  have two := check_frame one.2.1 w .floor
  exact ⟨two.1.trans one.1, two.2.1⟩

theorem checked_spans (valid : Valid name st) {w : Wall} (side : Side) (i : Nat)
    (marks : w.mark side) (points : (checked w st).plane side = some i) :
    Spans (checked w st).visplanes i w := by
  have one := check_frame valid w .ceiling
  have two := check_frame one.2.1 w .floor
  cases side with
  | ceiling =>
    rw [checked, two.2.2.1 _ (by decide)] at points
    exact (check_spans valid marks points).check one.2.1 .floor
  | floor => exact check_spans one.2.1 marks points

/-- What a wall leaves of the planes it checked. -/
theorem storeWallRange_eq (valid : Valid name st) (w : Wall) :
    (storeWallRange w st).plane = (checked w st).plane ∧
    named (storeWallRange w st).visplanes = named (checked w st).visplanes ∧
    Valid name (storeWallRange w st) ∧
    ∀ i x, rowsAt (storeWallRange w st).visplanes i x =
      (marked w (checked w st).plane i x).or (rowsAt st.visplanes i x) := by
  obtain ⟨rows, valid'⟩ := checked_frame valid w
  have loop : storeWallRange w st = markColumns w (columns w) (checked w st) := rfl
  rw [loop]
  refine ⟨markColumns_plane _ _ _, markColumns_named _ _ _,
    ⟨markColumns_bounded _ _ valid'.bounded (checked_spans valid), fun side i points => ?_⟩,
    fun i x => ?_⟩
  · rw [markColumns_plane] at points
    rw [markColumns_named]
    exact valid'.points side i points
  · rw [markColumns_rows _ _ _ valid'.lt, rows]
    by_cases inside : x ∈ columns w
    · rw [if_pos inside]
    · have bare : ∀ side, w.rows side x = none := fun side => by
        by_contra some
        obtain ⟨r, rows⟩ := Option.ne_none_iff_exists'.1 some
        obtain ⟨-, first, last, -⟩ := w.rows_mark side x r rows
        exact inside (List.mem_range'_1.2 (by omega))
      rw [if_neg inside, marked, bare, bare, ite_self, ite_self]
      rfl

/-- The planes of a name the wall marks nothing of stay as they are. -/
theorem checked_other (valid : Valid name st) {w : Wall} {k : Name}
    (other : ∀ side, w.mark side → name side ≠ k) :
    named (checked w st).visplanes k = named st.visplanes k ∧
    ∀ side, name side = k → (checked w st).plane side = st.plane side := by
  have one := check_frame valid w .ceiling
  have two := check_frame one.2.1 w .floor
  refine ⟨(two.2.2.2 k (other _)).trans (one.2.2.2 k (other _)), fun side called => ?_⟩
  have plain : w.mark side = false := by
    by_contra marks
    exact other side (by simpa using marks) called
  cases side with
  | ceiling => rw [checked, two.2.2.1 _ (by decide), check_of_unmarked plain]
  | floor => rw [checked, check_of_unmarked plain, one.2.2.1 _ (by decide)]

theorem check_self (valid : Valid name st) {w : Wall} {side : Side} (marks : w.mark side) {i : Nat}
    (points : st.plane side = some i) :
    (Clear st.visplanes i w ∧
      named (check w side st).visplanes (name side) = named st.visplanes (name side) ∧
      (check w side st).plane side = some i) ∨
    (¬ Clear st.visplanes i w ∧ ∃ i',
      named (check w side st).visplanes (name side) = named st.visplanes (name side) ++ [i'] ∧
      (∀ x, rowsAt st.visplanes i' x = none) ∧ (check w side st).plane side = some i') := by
  obtain ⟨pl, found, called⟩ := valid.found points
  obtain ⟨-, -, i', plane, -, made⟩ := check_eq valid.bounded marks points found
  have here : (check w side st).plane side = some i' := by rw [plane, Function.update_self]
  rcases made with ⟨clear, rfl, same⟩ | ⟨met, rfl, more⟩
  · exact .inl ⟨clear, by rw [same], here⟩
  · exact .inr ⟨met, _, by rw [more, if_pos called], rowsAt_length _, here⟩

/-- The planes of the name of a side the wall marks, when the other side is not of that name. -/
theorem checked_self (valid : Valid name st) {w : Wall} {side : Side} (marks : w.mark side)
    (other : ∀ t, t ≠ side → w.mark t → name t ≠ name side) {i : Nat}
    (points : st.plane side = some i) :
    (Clear st.visplanes i w ∧
      named (checked w st).visplanes (name side) = named st.visplanes (name side) ∧
      (checked w st).plane side = some i) ∨
    (¬ Clear st.visplanes i w ∧ ∃ i',
      named (checked w st).visplanes (name side) = named st.visplanes (name side) ++ [i'] ∧
      (∀ x, rowsAt st.visplanes i' x = none) ∧ (checked w st).plane side = some i') := by
  have one := check_frame valid w .ceiling
  have two := check_frame one.2.1 w .floor
  cases side with
  | ceiling =>
    have kept := two.2.2.2 (name .ceiling) (other .floor (by decide))
    have plane := two.2.2.1 .ceiling (by decide)
    rw [checked, kept, plane]
    exact check_self valid marks points
  | floor =>
    have kept := one.2.2.2 (name .floor) (other .ceiling (by decide))
    have plane := one.2.2.1 .floor (by decide)
    have self := check_self one.2.1 marks (plane.trans points)
    rw [kept, one.1] at self
    have clear : Clear (check w .ceiling st).visplanes i w ↔ Clear st.visplanes i w := by
      rw [Clear, Clear, one.1]
    rwa [clear] at self

end

/-! ## Entering a subsector -/

section
variable {viewz skyflatnum : Int}

/-- The names a subsector's planes go by. -/
def nameOf (skyflatnum : Int) (sector : Sector) (side : Side) : Name :=
  remap skyflatnum (sector.name side)

theorem subsector_eq {st : State} (bounded : Bounded st.visplanes)
    (sub : Subsector viewz skyflatnum) :
    rowsAt (subsector sub st).visplanes = rowsAt st.visplanes ∧
    Valid (nameOf skyflatnum sub.sector) (subsector sub st) ∧
    (∀ k, Opens st.visplanes (subsector sub st).visplanes k) ∧
    ∀ side, sub.sector.seen viewz skyflatnum side → ∃ i, (subsector sub st).plane side = some i ∧
      (named (subsector sub st).visplanes (nameOf skyflatnum sub.sector side))[0]? = some i := by
  -- what looking for one plane does
  have find : ∀ (side : Side) (visplanes : List Visplane), Bounded visplanes →
      ∃ visplanes' plane, (if sub.sector.seen viewz skyflatnum side then
          let (visplanes, i) := findPlane skyflatnum (sub.sector.name side) visplanes
          (visplanes, some i) else (visplanes, none)) = (visplanes', plane) ∧
        rowsAt visplanes' = rowsAt visplanes ∧ Bounded visplanes' ∧
        (∀ k, Opens visplanes visplanes' k) ∧
        (∀ i, plane = some i →
          (named visplanes' (nameOf skyflatnum sub.sector side))[0]? = some i) ∧
        (sub.sector.seen viewz skyflatnum side → ∃ i, plane = some i) := by
    intro side visplanes bounded
    by_cases seen : sub.sector.seen viewz skyflatnum side
    · refine ⟨_, _, if_pos seen, findPlane_rows _ _ _, findPlane_bounded _ _ bounded,
        fun k => findPlane_named _ _ k _, fun i same => ?_, fun _ => ⟨_, rfl⟩⟩
      cases same
      exact findPlane_head _ _ _
    · refine ⟨_, _, if_neg seen, rfl, bounded, fun k => .inl rfl, fun i same => ?_,
        fun there => absurd there seen⟩
      cases same
  obtain ⟨one, floor, isOne, rows1, bounded1, opens1, head1, some1⟩ :=
    find .floor st.visplanes bounded
  obtain ⟨two, ceiling, isTwo, rows2, bounded2, opens2, head2, some2⟩ := find .ceiling one bounded1
  have entered : subsector sub st = ⟨two, fun
      | .ceiling => ceiling
      | .floor => floor⟩ := by
    rw [subsector]
    dsimp only at isOne isTwo ⊢
    rw [isOne]
    dsimp only
    rw [isTwo]
  rw [entered]
  have heads : ∀ side i, (State.mk two fun
      | .ceiling => ceiling
      | .floor => floor).plane side = some i →
        (named two (nameOf skyflatnum sub.sector side))[0]? = some i := by
    intro side i points
    cases side with
    | ceiling => exact head2 i points
    | floor => exact (opens2 _).head (head1 i points)
  refine ⟨rows2.trans rows1, ⟨bounded2, fun side i points => ?_⟩,
    fun k => (opens1 k).trans (opens2 k) rows1, fun side seen => ?_⟩
  · exact List.mem_of_getElem? (heads side i points)
  · cases side with
    | ceiling =>
      obtain ⟨i, points⟩ := some2 seen
      exact ⟨i, points, heads .ceiling i points⟩
    | floor =>
      obtain ⟨i, points⟩ := some1 seen
      exact ⟨i, points, heads .floor i points⟩

end

end ClickDoom.Engine.Visplanes

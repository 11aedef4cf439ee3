import ClickDoom.Native.Visplanes

/-! # The fold splits planes where the engine does

The events of one name, in the order of the walls, are what changes the planes of that name, as long
as no wall checks a plane it then leaves unmarked and finds columns there, and no marked floor
carries the sky.
-/
namespace ClickDoom.Native.Visplanes
open ClickHouse
open Engine.Visplanes (Name Side Sector Wall Subsector State Step remap named rowsAt Valid Clear checked
  marked nameOf storeWallRange subsector cleared steps step)
open SegLoop (Mark)

/-! ## Marks of a wall -/

section
variable {viewz skyflatnum : Int}

/-- A wall with its subsector. -/
abbrev Placed (viewz skyflatnum : Int) := Subsector viewz skyflatnum × Wall

theorem rows_lt {w : Wall} {side : Side} {x : Nat} {r : Int × Int} (some : w.rows side x = some r) :
    x < 320 := by
  have := w.rows_mark side x r some
  have := w.x2_lt
  omega

/-- The marks of one column, from a wall's number on. -/
def marksFrom (side : Side) (x n : Nat) (ws : List (Placed viewz skyflatnum)) : List Mark :=
  ((List.range' n ws.length).zip ws).filterMap fun (d, _, w) =>
    (w.rows side x).map fun r => (⟨d, x, r.1, r.2⟩ : Mark)

theorem marksFrom_cons (side : Side) (x n : Nat) (p : Placed viewz skyflatnum)
    (ws : List (Placed viewz skyflatnum)) : marksFrom side x n (p :: ws) =
      ((p.2.rows side x).map fun r => (⟨n, x, r.1, r.2⟩ : Mark)).toList ++
        marksFrom side x (n + 1) ws := by
  obtain ⟨sub, w⟩ := p
  rw [marksFrom, List.length_cons, List.range'_succ, List.zip_cons_cons, List.filterMap_cons]
  dsimp only
  cases w.rows side x <;> rfl

theorem mem_marksFrom {side : Side} {x n : Nat} {ws : List (Placed viewz skyflatnum)} {m : Mark} :
    m ∈ marksFrom side x n ws ↔ ∃ i p, ws[i]? = some p ∧ m.ds = n + i ∧ m.x = x ∧
      p.2.rows side x = some (m.top, m.bottom) := by
  induction ws generalizing n with
  | nil => simp [marksFrom]
  | cons p ws ih =>
    rw [marksFrom_cons, List.mem_append, ih, Option.mem_toList, Option.map_eq_some_iff]
    constructor
    · rintro (⟨r, rows, rfl⟩ | ⟨i, p', found, number, column, rows⟩)
      · exact ⟨0, p, rfl, rfl, rfl, rows⟩
      · exact ⟨i + 1, p', found, by omega, column, rows⟩
    · rintro ⟨i, p', found, number, column, rows⟩
      cases i with
      | zero =>
        cases found
        refine .inl ⟨(m.top, m.bottom), rows, ?_⟩
        cases m
        simp_all
      | succ i => exact .inr ⟨i, p', found, by omega, column, rows⟩

theorem filter_marksFrom (side : Side) (x n i : Nat) {ws : List (Placed viewz skyflatnum)}
    {p : Placed viewz skyflatnum} (found : ws[i]? = some p) :
    (marksFrom side x n ws).filter (fun m => m.ds = n + i) =
      ((p.2.rows side x).map fun r => (⟨n + i, x, r.1, r.2⟩ : Mark)).toList := by
  induction ws generalizing n i with
  | nil => cases found
  | cons p' ws ih =>
    rw [marksFrom_cons, List.filter_append]
    cases i with
    | zero =>
      cases found
      have later : (marksFrom side x (n + 1) ws).filter (fun m => m.ds = n + 0) = [] :=
        List.filter_eq_nil_iff.2 fun m there => by
          obtain ⟨j, -, -, number, -⟩ := mem_marksFrom.1 there
          simp only [decide_eq_true_eq]
          omega
      rw [later, List.append_nil]
      cases p.2.rows side x <;> simp
    | succ i =>
      have first : ((p'.2.rows side x).map fun r => (⟨n, x, r.1, r.2⟩ : Mark)).toList.filter
          (fun m => m.ds = n + (i + 1)) = [] := by
        cases p'.2.rows side x <;> simp
      rw [first, List.nil_append, show n + (i + 1) = n + 1 + i by omega]
      exact ih (n + 1) i found

variable (subs : List (Subsector viewz skyflatnum))

theorem marks_eq (side : Side) : marks viewz skyflatnum subs side =
    ((List.range 320).map fun x => marksFrom side x 1 (walls viewz skyflatnum subs)).flatten := rfl

/-- The columns a wall marks. -/
def colsOf (w : Wall) (side : Side) : List Nat :=
  (List.range 320).filter fun x => (w.rows side x).isSome

theorem mem_colsOf {w : Wall} {side : Side} {x : Nat} :
    x ∈ colsOf w side ↔ ∃ r, w.rows side x = some r := by
  rw [colsOf, List.mem_filter, List.mem_range, Option.isSome_iff_exists]
  constructor
  · exact fun both => both.2
  · rintro ⟨r, rows⟩
    exact ⟨rows_lt rows, r, rows⟩

theorem marks_cols (side : Side) {i : Nat} {p : Placed viewz skyflatnum}
    (found : (walls viewz skyflatnum subs)[i]? = some p) :
    ((marks viewz skyflatnum subs side).filter fun m => m.ds = i + 1).map Mark.x =
      colsOf p.2 side := by
  have each : ∀ xs : List Nat, (((xs.map fun x => marksFrom side x 1
      (walls viewz skyflatnum subs)).flatten).filter fun m => m.ds = i + 1).map Mark.x =
        xs.filter fun x => (p.2.rows side x).isSome := by
    intro xs
    induction xs with
    | nil => rfl
    | cons x xs ih =>
      rw [List.map_cons, List.flatten_cons, List.filter_append, List.map_append, ih, Nat.add_comm i 1,
        filter_marksFrom side x 1 i found, List.filter_cons]
      cases p.2.rows side x <;> rfl
  rw [marks_eq]
  exact each _

theorem mem_marks {side : Side} {m : Mark} : m ∈ marks viewz skyflatnum subs side ↔
    ∃ i p, (walls viewz skyflatnum subs)[i]? = some p ∧ m.ds = i + 1 ∧
      p.2.rows side m.x = some (m.top, m.bottom) := by
  rw [marks_eq, List.mem_flatten]
  constructor
  · rintro ⟨ms, there, here⟩
    obtain ⟨x, -, rfl⟩ := List.mem_map.1 there
    obtain ⟨i, p, found, number, rfl, rows⟩ := mem_marksFrom.1 here
    exact ⟨i, p, found, by omega, rows⟩
  · rintro ⟨i, p, found, number, rows⟩
    refine ⟨_, List.mem_map_of_mem (List.mem_range.2 (rows_lt rows)), mem_marksFrom.2
      ⟨i, p, found, by omega, rfl, rows⟩⟩

/-! ## Events in the order of the walls -/

def eventOf (d : Nat) (p : Placed viewz skyflatnum) (side : Side) : Event where
  key := planeKey skyflatnum p.1.sector side
  ssec := p.1.num
  ev := d * 2 + kind side
  x1 := p.2.x1
  x2 := p.2.x2
  cols := colsOf p.2 side

/-- The events of a name that one wall makes. -/
def wallEvents (k : Name) (d : Nat) (p : Placed viewz skyflatnum) : List Event :=
  ([Side.ceiling, Side.floor].map (eventOf d p)).filter fun e => 0 < e.cols.length ∧ e.key = k

/-- The events of a name, from a wall's number on. -/
def eventsFrom (k : Name) : Nat → List (Placed viewz skyflatnum) → List Event
  | _, [] => []
  | d, p :: ps => wallEvents k d p ++ eventsFrom k (d + 1) ps

theorem eventsFrom_append (k : Name) (d : Nat) (ps : List (Placed viewz skyflatnum))
    (p : Placed viewz skyflatnum) :
    eventsFrom k d (ps ++ [p]) = eventsFrom k d ps ++ wallEvents k (d + ps.length) p := by
  induction ps generalizing d with
  | nil => exact List.append_nil _
  | cons p' ps ih =>
    rw [List.cons_append, eventsFrom, eventsFrom, ih, List.append_assoc, List.length_cons,
      show d + 1 + ps.length = d + (ps.length + 1) by omega]

theorem mem_wallEvents {k : Name} {d : Nat} {p : Placed viewz skyflatnum} {e : Event} :
    e ∈ wallEvents k d p ↔ ∃ side, e = eventOf d p side ∧ colsOf p.2 side ≠ [] ∧
      planeKey skyflatnum p.1.sector side = k := by
  rw [wallEvents, List.mem_filter, List.mem_map]
  constructor
  · rintro ⟨⟨side, -, rfl⟩, keep⟩
    obtain ⟨some, key⟩ := of_decide_eq_true keep
    exact ⟨side, rfl, List.length_pos_iff.1 some, key⟩
  · rintro ⟨side, rfl, some, key⟩
    refine ⟨⟨side, by cases side <;> simp, rfl⟩, decide_eq_true ⟨List.length_pos_iff.2 some, key⟩⟩

theorem mem_eventsFrom {k : Name} {d : Nat} {ps : List (Placed viewz skyflatnum)} {e : Event} :
    e ∈ eventsFrom k d ps ↔ ∃ i p side, ps[i]? = some p ∧ e = eventOf (d + i) p side ∧
      colsOf p.2 side ≠ [] ∧ planeKey skyflatnum p.1.sector side = k := by
  induction ps generalizing d with
  | nil => simp [eventsFrom]
  | cons p ps ih =>
    rw [eventsFrom, List.mem_append, mem_wallEvents, ih]
    constructor
    · rintro (⟨side, rfl, some, key⟩ | ⟨i, p', side, found, rfl, some, key⟩)
      · exact ⟨0, p, side, rfl, rfl, some, key⟩
      · refine ⟨i + 1, p', side, found, ?_, some, key⟩
        rw [show d + (i + 1) = d + 1 + i by omega]
    · rintro ⟨i, p', side, found, rfl, some, key⟩
      cases i with
      | zero =>
        cases found
        exact .inl ⟨side, rfl, some, key⟩
      | succ i =>
        refine .inr ⟨i, p', side, found, ?_, some, key⟩
        rw [show d + (i + 1) = d + 1 + i by omega]

theorem wallEvents_increase (k : Name) (d : Nat) (p : Placed viewz skyflatnum) :
    (wallEvents k d p).Pairwise fun e e' => e.ev < e'.ev := by
  refine List.Pairwise.filter _ (List.pairwise_map.2 ?_)
  refine List.pairwise_cons.2 ⟨fun side there => ?_, List.pairwise_singleton _ _⟩
  cases List.mem_singleton.1 there
  exact Nat.lt_succ_self _

theorem eventsFrom_increase (k : Name) (d : Nat) (ps : List (Placed viewz skyflatnum)) :
    (eventsFrom k d ps).Pairwise fun e e' => e.ev < e'.ev := by
  induction ps generalizing d with
  | nil => exact List.Pairwise.nil
  | cons p ps ih =>
    refine List.pairwise_append.2 ⟨wallEvents_increase k d p, ih (d + 1), fun e here e' later => ?_⟩
    obtain ⟨side, rfl, -⟩ := mem_wallEvents.1 here
    obtain ⟨i, p', side', -, rfl, -⟩ := mem_eventsFrom.1 later
    have : kind side ≤ 1 := by cases side <;> decide
    simp only [eventOf]
    omega

theorem mem_numbered {d : Nat} {p : Placed viewz skyflatnum} :
    (d, p) ∈ numbered viewz skyflatnum subs ↔
      ∃ i, d = i + 1 ∧ (walls viewz skyflatnum subs)[i]? = some p := by
  rw [numbered, List.mem_iff_getElem?]
  constructor
  · rintro ⟨i, found⟩
    obtain ⟨number, wall⟩ := List.getElem?_zip_eq_some.1 found
    obtain ⟨low, rfl⟩ := List.getElem?_eq_some_iff.1 number
    refine ⟨i, ?_, wall⟩
    rw [List.getElem_range', Nat.one_mul, Nat.add_comm]
  · rintro ⟨i, rfl, wall⟩
    refine ⟨i, List.getElem?_zip_eq_some.2 ⟨?_, wall⟩⟩
    rw [List.getElem?_range' (List.getElem?_eq_some_iff.1 wall).1, Nat.one_mul, Nat.add_comm]

theorem mem_plEvOf {side : Side} {e : Event} : e ∈ plEvOf viewz skyflatnum subs side ↔
    ∃ i p, (walls viewz skyflatnum subs)[i]? = some p ∧ e = eventOf (i + 1) p side ∧
      colsOf p.2 side ≠ [] := by
  rw [plEvOf, List.mem_filter, List.mem_map]
  constructor
  · rintro ⟨⟨⟨d, p⟩, there, rfl⟩, keep⟩
    obtain ⟨i, rfl, found⟩ := (mem_numbered subs).1 there
    have cols := marks_cols subs side found
    refine ⟨i, p, found, ?_, ?_⟩
    · dsimp only
      rw [cols]
      rfl
    · rw [← cols]
      exact List.length_pos_iff.1 (of_decide_eq_true keep)
  · rintro ⟨i, p, found, rfl, some⟩
    have cols := marks_cols subs side found
    refine ⟨⟨(i + 1, p), (mem_numbered subs).2 ⟨i, rfl, found⟩, ?_⟩,
      decide_eq_true (List.length_pos_iff.2 some)⟩
    dsimp only
    rw [cols]
    rfl

theorem mem_plEv {e : Event} : e ∈ plEv viewz skyflatnum subs ↔
    ∃ i p side, (walls viewz skyflatnum subs)[i]? = some p ∧ e = eventOf (i + 1) p side ∧
      colsOf p.2 side ≠ [] := by
  rw [plEv, List.mem_append, mem_plEvOf, mem_plEvOf]
  constructor
  · rintro (⟨i, p, rest⟩ | ⟨i, p, rest⟩)
    · exact ⟨i, p, .ceiling, rest⟩
    · exact ⟨i, p, .floor, rest⟩
  · rintro ⟨i, p, side, rest⟩
    cases side with
    | ceiling => exact .inl ⟨i, p, rest⟩
    | floor => exact .inr ⟨i, p, rest⟩

theorem plEvOf_nodup (side : Side) : (plEvOf viewz skyflatnum subs side).Nodup := by
  refine List.Nodup.filter _ (List.Nodup.of_map Event.ev ?_)
  have numbers : (numbered viewz skyflatnum subs).map Prod.fst =
      List.range' 1 (walls viewz skyflatnum subs).length :=
    List.map_fst_zip (by rw [List.length_range'])
  have evs : ((numbered viewz skyflatnum subs).map Prod.fst).map (fun d => d * 2 + kind side) =
      (numbered viewz skyflatnum subs).map fun p => p.1 * 2 + kind side := by
    rw [List.map_map]
    rfl
  rw [List.map_map]
  change ((numbered viewz skyflatnum subs).map fun p => p.1 * 2 + kind side).Nodup
  rw [← evs, numbers]
  refine List.Nodup.map (fun a b same => ?_) (List.nodup_range' 1 Nat.one_pos)
  omega

theorem plEv_nodup : (plEv viewz skyflatnum subs).Nodup := by
  refine List.nodup_append.2 ⟨plEvOf_nodup subs _, plEvOf_nodup subs _, ?_⟩
  rintro e above e' below rfl
  obtain ⟨i, p, -, rfl, -⟩ := (mem_plEvOf subs).1 above
  obtain ⟨j, p', -, same, -⟩ := (mem_plEvOf subs).1 below
  have := congrArg Event.ev same
  simp only [eventOf, kind] at this
  omega

/-- The fold of a name goes through its events in the order of the walls. -/
theorem splitOf_eq (k : Name) : splitOf viewz skyflatnum subs k =
    ((eventsFrom k 1 (walls viewz skyflatnum subs)).foldl splitStep splitStart).answer := by
  rw [splitOf, arraySort_eq ((plEv_nodup subs).filter _) (eventsFrom_increase k 1 _)]
  intro e
  rw [List.mem_filter, mem_plEv, mem_eventsFrom]
  constructor
  · rintro ⟨⟨i, p, side, found, rfl, some⟩, key⟩
    refine ⟨i, p, side, found, ?_, some, of_decide_eq_true key⟩
    rw [Nat.add_comm 1 i]
  · rintro ⟨i, p, side, found, rfl, some, key⟩
    refine ⟨⟨i, p, side, found, ?_, some⟩, decide_eq_true key⟩
    rw [Nat.add_comm 1 i]

/-! ## Names of the two sides -/

theorem planeKey_ceiling (sector : Sector) :
    planeKey skyflatnum sector .ceiling = nameOf skyflatnum sector .ceiling := by
  rw [planeKey, nameOf, Engine.Visplanes.remap]
  by_cases sky : sector.ceilingpic = skyflatnum
  · rw [if_pos sky, if_pos (by exact sky), ← sky]
    rfl
  · rw [if_neg sky, if_neg (by exact sky)]
    rfl

theorem planeKey_floor {sector : Sector} (plain : sector.floorpic ≠ skyflatnum) :
    planeKey skyflatnum sector .floor = nameOf skyflatnum sector .floor := by
  rw [planeKey, nameOf, Engine.Visplanes.remap, if_neg (by exact plain)]
  rfl

/-- A side whose plane the pass names as the engine does. -/
def Plain (skyflatnum : Int) (sector : Sector) (side : Side) : Prop :=
  side = .floor → sector.floorpic ≠ skyflatnum

theorem planeKey_eq {sector : Sector} {side : Side} (plain : Plain skyflatnum sector side) :
    planeKey skyflatnum sector side = nameOf skyflatnum sector side := by
  cases side with
  | ceiling => exact planeKey_ceiling sector
  | floor => exact planeKey_floor (plain rfl)

/-- A floor that is seen and a ceiling that is seen never carry the same name. -/
theorem names_apart {sector : Sector} (ceiling : sector.seen viewz skyflatnum .ceiling)
    (floor : sector.seen viewz skyflatnum .floor) (plain : sector.floorpic ≠ skyflatnum) :
    nameOf skyflatnum sector .ceiling ≠ nameOf skyflatnum sector .floor := by
  have above := of_decide_eq_true ceiling
  have below : sector.floorheight < viewz := of_decide_eq_true floor
  have own : remap skyflatnum (sector.name .floor) = sector.name .floor := if_neg plain
  rw [nameOf, nameOf, own, remap]
  by_cases sky : sector.ceilingpic = skyflatnum
  · rw [if_pos (by exact sky)]
    intro same
    exact plain ((congrArg Name.picnum same).symm.trans sky)
  · rw [if_neg (by exact sky)]
    intro same
    have heights : sector.ceilingheight = sector.floorheight := congrArg Name.height same
    rcases above with above | above
    · omega
    · exact sky above

theorem names_apart_of_ne {sector : Sector} {s t : Side} (ne : t ≠ s)
    (seen : sector.seen viewz skyflatnum s) (seen' : sector.seen viewz skyflatnum t)
    (plain : Plain skyflatnum sector s) (plain' : Plain skyflatnum sector t) :
    nameOf skyflatnum sector t ≠ nameOf skyflatnum sector s := by
  cases s with
  | ceiling =>
    cases t with
    | ceiling => exact absurd rfl ne
    | floor => exact (names_apart seen seen' (plain' rfl)).symm
  | floor =>
    cases t with
    | ceiling => exact names_apart seen' seen (plain rfl)
    | floor => exact absurd rfl ne

/-! ## What one wall does to one name -/

/-- A wall the pass follows: a floor it marks is no sky, and a plane it checks and then leaves
unmarked has none of its columns. -/
def Fits (sub : Subsector viewz skyflatnum) (w : Wall) (st : State) : Prop :=
  (w.mark .floor → sub.sector.floorpic ≠ skyflatnum) ∧
    ∀ side, w.mark side → (∀ x, w.rows side x = none) →
      ∀ i, st.plane side = some i → Clear st.visplanes i w

/-- The planes that the two sides of a subsector point at. -/
structure Entered (sub : Subsector viewz skyflatnum) (st : State) : Prop where
  valid : Valid (nameOf skyflatnum sub.sector) st
  points : ∀ side, sub.sector.seen viewz skyflatnum side → ∃ i, st.plane side = some i

section
variable {sub : Subsector viewz skyflatnum} {w : Wall} {st : State} {k : Name}

theorem plain_of_mark (fits : Fits sub w st) {side : Side} (marks : w.mark side) :
    Plain skyflatnum sub.sector side := by
  rintro rfl
  exact fits.1 marks

theorem name_unique {visplanes : List Engine.Visplanes.Visplane} {k k' : Name} {i : Nat}
    (here : i ∈ named visplanes k) (there : i ∈ named visplanes k') : k = k' := by
  obtain ⟨pl, found, rfl⟩ := Engine.Visplanes.mem_named.1 here
  obtain ⟨pl', found', rfl⟩ := Engine.Visplanes.mem_named.1 there
  cases found.symm.trans found'
  rfl

/-- The rows of a plane after a wall, when only one side can be of its name. -/
theorem rows_storeWallRange (entered : Entered sub st) (i x : Nat)
    (there : i ∈ named (storeWallRange w st).visplanes k) {side : Side}
    (only : ∀ t r, t ≠ side → w.rows t x = some r → nameOf skyflatnum sub.sector t ≠ k) :
    rowsAt (storeWallRange w st).visplanes i x =
      (if (checked w st).plane side = some i then w.rows side x else none).or
        (rowsAt st.visplanes i x) := by
  obtain ⟨plane, names, valid, rows⟩ := Engine.Visplanes.storeWallRange_eq entered.valid w
  have other : ∀ t, t ≠ side →
      (if (checked w st).plane t = some i then w.rows t x else none) = none := by
    intro t ne
    split_ifs with points
    · by_contra some
      obtain ⟨r, drawn⟩ := Option.ne_none_iff_exists'.1 some
      rw [← plane] at points
      exact only t r ne drawn (name_unique (valid.points t i points) there)
    · rfl
  rw [rows, marked]
  cases side with
  | ceiling => rw [other .floor (by decide), Option.none_or]
  | floor => rw [other .ceiling (by decide), Option.or_none]

/-- A wall that marks no row of a name leaves its planes as they are. -/
theorem unmarked_name (entered : Entered sub st) (placed : w ∈ sub.walls) (fits : Fits sub w st)
    (none : ∀ side, nameOf skyflatnum sub.sector side = k → w.mark side → ∀ x, w.rows side x = none) :
    named (storeWallRange w st).visplanes k = named st.visplanes k ∧
    (∀ i ∈ named st.visplanes k, ∀ x,
      rowsAt (storeWallRange w st).visplanes i x = rowsAt st.visplanes i x) ∧
    ∀ side, sub.sector.seen viewz skyflatnum side → Plain skyflatnum sub.sector side →
      nameOf skyflatnum sub.sector side = k →
      (storeWallRange w st).plane side = st.plane side := by
  obtain ⟨plane, names, valid, rows⟩ := Engine.Visplanes.storeWallRange_eq entered.valid w
  have kept : named (checked w st).visplanes k = named st.visplanes k ∧
      ∀ side, sub.sector.seen viewz skyflatnum side → Plain skyflatnum sub.sector side →
        nameOf skyflatnum sub.sector side = k → (checked w st).plane side = st.plane side := by
    by_cases some : ∃ side, w.mark side ∧ nameOf skyflatnum sub.sector side = k
    · obtain ⟨side, marks, rfl⟩ := some
      have seen := sub.seen w placed side marks
      have plain := plain_of_mark fits marks
      obtain ⟨i, points⟩ := entered.points side seen
      have other : ∀ t, t ≠ side → w.mark t →
          nameOf skyflatnum sub.sector t ≠ nameOf skyflatnum sub.sector side := fun t ne marks' =>
        names_apart_of_ne ne seen (sub.seen w placed t marks') plain (plain_of_mark fits marks')
      have clear := fits.2 side marks (none side rfl marks) i points
      rcases Engine.Visplanes.checked_self entered.valid marks other points with
        ⟨-, same, points'⟩ | ⟨met, -⟩
      · refine ⟨same, fun t seen' plain' called => ?_⟩
        by_cases here : t = side
        · rw [here, points', points]
        · exact absurd called (names_apart_of_ne here seen seen' plain plain')
      · exact absurd clear met
    · have other := Engine.Visplanes.checked_other (k := k) entered.valid (w := w)
        fun side marks called => some ⟨side, marks, called⟩
      exact ⟨other.1, fun t _ _ called => other.2 t called⟩
  refine ⟨by rw [names, kept.1], fun i there x => ?_, fun side seen plain called => ?_⟩
  · have bare : ∀ t r, w.rows t x = some r → nameOf skyflatnum sub.sector t ≠ k := by
      intro t r drawn called
      have marks := (w.rows_mark t x r drawn).1
      rw [none t called marks x] at drawn
      cases drawn
    rw [@rows_storeWallRange _ _ sub w st k entered i x (by rwa [names, kept.1]) .ceiling
      fun t r _ => bare t r]
    cases drawn : w.rows .ceiling x with
    | none => rw [ite_self, Option.none_or]
    | some r =>
      rw [if_neg, Option.none_or]
      intro points
      rw [← plane] at points
      refine bare .ceiling r drawn (name_unique (valid.points _ i points) ?_)
      rwa [names, kept.1]
  · rw [plane, kept.2 side seen plain called]

/-- A wall that marks a name adds its rows to the plane it finds, or to a new one. -/
theorem marked_name (entered : Entered sub st) (placed : w ∈ sub.walls) (fits : Fits sub w st)
    {side : Side} (marks : w.mark side) {i : Nat} (points : st.plane side = some i) :
    ∃ j, (storeWallRange w st).plane side = some j ∧
      (∀ i' ∈ named (storeWallRange w st).visplanes (nameOf skyflatnum sub.sector side), ∀ x,
        rowsAt (storeWallRange w st).visplanes i' x =
          (if i' = j then w.rows side x else none).or (rowsAt st.visplanes i' x)) ∧
      ((Clear st.visplanes i w ∧ j = i ∧
          named (storeWallRange w st).visplanes (nameOf skyflatnum sub.sector side) =
            named st.visplanes (nameOf skyflatnum sub.sector side)) ∨
        (¬ Clear st.visplanes i w ∧
          named (storeWallRange w st).visplanes (nameOf skyflatnum sub.sector side) =
            named st.visplanes (nameOf skyflatnum sub.sector side) ++ [j] ∧
          ∀ x, rowsAt st.visplanes j x = none)) := by
  obtain ⟨plane, names, valid, -⟩ := Engine.Visplanes.storeWallRange_eq entered.valid w
  have seen := sub.seen w placed side marks
  have plain := plain_of_mark fits marks
  have other : ∀ t, t ≠ side → w.mark t →
      nameOf skyflatnum sub.sector t ≠ nameOf skyflatnum sub.sector side := fun t ne marks' =>
    names_apart_of_ne ne seen (sub.seen w placed t marks') plain (plain_of_mark fits marks')
  have rows : ∀ j, (checked w st).plane side = some j →
      ∀ i' ∈ named (storeWallRange w st).visplanes (nameOf skyflatnum sub.sector side), ∀ x,
        rowsAt (storeWallRange w st).visplanes i' x =
          (if i' = j then w.rows side x else none).or (rowsAt st.visplanes i' x) := by
    intro j points' i' there x
    rw [rows_storeWallRange entered i' x there fun t r ne drawn =>
      other t ne (w.rows_mark t x r drawn).1, points']
    simp only [Option.some.injEq, eq_comm]
  rw [names] at rows ⊢
  rw [plane]
  rcases Engine.Visplanes.checked_self entered.valid marks other points with
    ⟨clear, same, points'⟩ | ⟨met, j, more, bare, points'⟩
  · exact ⟨i, points', rows i points', .inl ⟨clear, rfl, same⟩⟩
  · exact ⟨j, points', rows j points', .inr ⟨met, more, bare⟩⟩

end

/-! ## The fold tracks the planes -/

/-- The fold of a name over the events of some walls. -/
def accOf (k : Name) (ps : List (Placed viewz skyflatnum)) : Split :=
  (eventsFrom k 1 ps).foldl splitStep splitStart

theorem accOf_append (k : Name) (ps : List (Placed viewz skyflatnum))
    (p : Placed viewz skyflatnum) :
    accOf k (ps ++ [p]) = (wallEvents k (ps.length + 1) p).foldl splitStep (accOf k ps) := by
  rw [accOf, eventsFrom_append, List.foldl_append, Nat.add_comm 1]
  rfl

/-- An event of a name marks rows in a column. -/
def MarkedBy (k : Name) (ps : List (Placed viewz skyflatnum)) (ev x : Nat) (r : Int × Int) : Prop :=
  ∃ i p side, ps[i]? = some p ∧ planeKey skyflatnum p.1.sector side = k ∧
    ev = (i + 1) * 2 + kind side ∧ p.2.rows side x = some r

/-- A column of the planes of a name, by number. -/
def Holds (visplanes : List Engine.Visplanes.Visplane) (k : Name) (n x : Nat) (r : Int × Int) :
    Prop :=
  ∃ i, (named visplanes k)[n]? = some i ∧ rowsAt visplanes i x = some r

/-- The fold of a name has the columns of its planes, numbered in the order they were made. -/
structure Tracks (k : Name) (ps : List (Placed viewz skyflatnum)) (st : State) : Prop where
  first : ∀ c, c ∈ (accOf k ps).first ↔ ∃ r, Holds st.visplanes k 0 c r
  current : ∀ c, c ∈ (accOf k ps).current ↔ ∃ r, Holds st.visplanes k (accOf k ps).num c r
  fresh : (accOf k ps).fresh = true ↔ (accOf k ps).num = 0
  next : (accOf k ps).next = max 1 (named st.visplanes k).length
  num_lt : (accOf k ps).num < (accOf k ps).next
  ssec : (accOf k ps).ssec = 4294967295 ∨ ∃ p ∈ ps, p.1.num = (accOf k ps).ssec
  content : ∀ n x r, (∃ ev, MarkedBy k ps ev x r ∧ (ev, n) ∈ (accOf k ps).answer) ↔
    Holds st.visplanes k n x r

/-- The number of the plane a side of the subsector points at. -/
def numberIn (k : Name) (ps : List (Placed viewz skyflatnum)) (sub : Subsector viewz skyflatnum) :
    Nat :=
  if sub.num ≠ (accOf k ps).ssec then 0 else (accOf k ps).num

/-- The sides of that name point at the plane with that number. -/
def Linked (k : Name) (ps : List (Placed viewz skyflatnum)) (sub : Subsector viewz skyflatnum)
    (st : State) : Prop :=
  ∀ side, sub.sector.seen viewz skyflatnum side → Plain skyflatnum sub.sector side →
    nameOf skyflatnum sub.sector side = k →
    ∃ i, st.plane side = some i ∧ (named st.visplanes k)[numberIn k ps sub]? = some i

theorem tracks_cleared (k : Name) : Tracks k ([] : List (Placed viewz skyflatnum)) cleared where
  first := fun c => by simp [accOf, eventsFrom, splitStart, Holds, cleared, named]
  current := fun c => by simp [accOf, eventsFrom, splitStart, Holds, cleared, named]
  fresh := by simp [accOf, eventsFrom, splitStart]
  next := rfl
  num_lt := Nat.one_pos
  ssec := .inl rfl
  content := fun n x r => by simp [accOf, eventsFrom, splitStart, Holds, cleared, named]

/-- Planes that mark what they did keep the fold's columns. -/
theorem holds_congr {visplanes visplanes' : List Engine.Visplanes.Visplane} {k : Name}
    (names : named visplanes' k = named visplanes k)
    (rows : ∀ i ∈ named visplanes k, ∀ x, rowsAt visplanes' i x = rowsAt visplanes i x) (n x : Nat)
    (r : Int × Int) : Holds visplanes' k n x r ↔ Holds visplanes k n x r := by
  rw [Holds, Holds, names]
  refine exists_congr fun i => and_congr_right fun there => ?_
  rw [rows i (List.mem_of_getElem? there)]

theorem Tracks.congr {k : Name} {ps : List (Placed viewz skyflatnum)} {st st' : State}
    (tracks : Tracks k ps st)
    (length : max 1 (named st'.visplanes k).length = max 1 (named st.visplanes k).length)
    (same : ∀ n x r, Holds st'.visplanes k n x r ↔ Holds st.visplanes k n x r) :
    Tracks k ps st' where
  first := fun c => (tracks.first c).trans (exists_congr fun r => (same _ _ r).symm)
  current := fun c => (tracks.current c).trans (exists_congr fun r => (same _ _ r).symm)
  fresh := tracks.fresh
  next := tracks.next.trans length.symm
  num_lt := tracks.num_lt
  ssec := tracks.ssec
  content := fun n x r => (tracks.content n x r).trans (same n x r).symm

/-- Looking for the planes of a subsector changes no column. -/
theorem Tracks.enter {k : Name} {ps : List (Placed viewz skyflatnum)} {st : State}
    (tracks : Tracks k ps st) (bounded : Engine.Visplanes.Bounded st.visplanes)
    (sub : Subsector viewz skyflatnum) : Tracks k ps (subsector sub st) := by
  obtain ⟨rows, -, opens, -⟩ := Engine.Visplanes.subsector_eq bounded sub
  rcases opens k with same | ⟨none, i, one, bare⟩
  · exact tracks.congr (by rw [same]) (holds_congr same fun j _ x => by rw [rows])
  · refine tracks.congr (by rw [one, none]; rfl) fun n x r => ?_
    rw [Holds, Holds, one, none]
    constructor
    · rintro ⟨j, there, some⟩
      cases List.mem_singleton.1 (List.mem_of_getElem? there)
      rw [rows, bare] at some
      cases some
    · rintro ⟨j, there, -⟩
      cases there

theorem linked_enter {k : Name} {ps : List (Placed viewz skyflatnum)} {st : State}
    (tracks : Tracks k ps st) (bounded : Engine.Visplanes.Bounded st.visplanes)
    {sub : Subsector viewz skyflatnum} (new : ∀ p ∈ ps, p.1.num ≠ sub.num) :
    Entered sub (subsector sub st) ∧ Linked k ps sub (subsector sub st) := by
  obtain ⟨-, valid, -, heads⟩ := Engine.Visplanes.subsector_eq bounded sub
  have start : numberIn k ps sub = 0 := by
    refine if_pos fun same => ?_
    rcases tracks.ssec with never | ⟨p, there, last⟩
    · have := sub.num_lt
      omega
    · exact new p there (last.trans same.symm)
  refine ⟨⟨valid, fun side seen => ?_⟩, fun side seen _ called => ?_⟩
  · obtain ⟨i, points, -⟩ := heads side seen
    exact ⟨i, points⟩
  · obtain ⟨i, points, head⟩ := heads side seen
    rw [called] at head
    exact ⟨i, points, by rw [start, head]⟩

/-! ## A wall without an event -/

theorem wallEvents_nil {k : Name} {d : Nat} {p : Placed viewz skyflatnum}
    (none : ∀ side, planeKey skyflatnum p.1.sector side = k → colsOf p.2 side = []) :
    wallEvents k d p = [] :=
  List.eq_nil_iff_forall_not_mem.2 fun e there => by
    obtain ⟨side, -, some, key⟩ := mem_wallEvents.1 there
    exact some (none side key)

theorem markedBy_append {k : Name} {ps : List (Placed viewz skyflatnum)}
    {p : Placed viewz skyflatnum} {ev x : Nat} {r : Int × Int} :
    MarkedBy k (ps ++ [p]) ev x r ↔ MarkedBy k ps ev x r ∨
      ∃ side, planeKey skyflatnum p.1.sector side = k ∧ ev = (ps.length + 1) * 2 + kind side ∧
        p.2.rows side x = some r := by
  constructor
  · rintro ⟨i, p', side, found, key, number, rows⟩
    rcases lt_trichotomy i ps.length with low | rfl | high
    · rw [List.getElem?_append_left low] at found
      exact .inl ⟨i, p', side, found, key, number, rows⟩
    · rw [List.getElem?_append_right le_rfl, Nat.sub_self] at found
      cases found
      exact .inr ⟨side, key, number, rows⟩
    · rw [List.getElem?_eq_none (by simpa using high)] at found
      cases found
  · rintro (⟨i, p', side, found, rest⟩ | ⟨side, rest⟩)
    · refine ⟨i, p', side, ?_, rest⟩
      rw [List.getElem?_append_left (List.getElem?_eq_some_iff.1 found).1, found]
    · refine ⟨ps.length, p, side, ?_, rest⟩
      rw [List.getElem?_append_right le_rfl, Nat.sub_self]
      rfl

section
variable {sub : Subsector viewz skyflatnum} {w : Wall} {st : State} {k : Name}
  {ps : List (Placed viewz skyflatnum)}

theorem seen_of_rows (placed : w ∈ sub.walls) {side : Side} {x : Nat} {r : Int × Int}
    (drawn : w.rows side x = some r) :
    w.mark side ∧ sub.sector.seen viewz skyflatnum side :=
  have marks := (w.rows_mark side x r drawn).1
  ⟨marks, sub.seen w placed side marks⟩

theorem Tracks.unmarked (tracks : Tracks k ps st) (linked : Linked k ps sub st)
    (entered : Entered sub st) (placed : w ∈ sub.walls) (fits : Fits sub w st)
    (none : ∀ side, planeKey skyflatnum sub.sector side = k → ∀ x, w.rows side x = none) :
    Tracks k (ps ++ [(sub, w)]) (storeWallRange w st) ∧
      Linked k (ps ++ [(sub, w)]) sub (storeWallRange w st) := by
  have bare : ∀ side, nameOf skyflatnum sub.sector side = k → w.mark side →
      ∀ x, w.rows side x = .none := fun side called marks =>
    none side ((planeKey_eq (plain_of_mark fits marks)).trans called)
  obtain ⟨names, rows, plane⟩ := unmarked_name entered placed fits bare
  have events : wallEvents k (ps.length + 1) (sub, w) = [] := wallEvents_nil fun side key =>
    List.eq_nil_iff_forall_not_mem.2 fun x there => by
      obtain ⟨r, drawn⟩ := mem_colsOf.1 there
      rw [none side key] at drawn
      cases drawn
  have acc : accOf k (ps ++ [(sub, w)]) = accOf k ps := by rw [accOf_append, events]; rfl
  have marks : ∀ ev x r, MarkedBy k (ps ++ [(sub, w)]) ev x r ↔ MarkedBy k ps ev x r := by
    intro ev x r
    rw [markedBy_append, or_iff_left]
    rintro ⟨side, key, -, drawn⟩
    rw [none side key] at drawn
    cases drawn
  have kept := tracks.congr (by rw [names]) (holds_congr names rows)
  constructor
  · exact { first := fun c => by rw [acc]; exact kept.first c
            current := fun c => by rw [acc]; exact kept.current c
            fresh := by rw [acc]; exact kept.fresh
            next := by rw [acc]; exact kept.next
            num_lt := by rw [acc]; exact kept.num_lt
            ssec := by
              rw [acc]
              exact kept.ssec.imp id fun ⟨p, there, same⟩ =>
                ⟨p, List.mem_append_left _ there, same⟩
            content := fun n x r => by
              rw [acc]
              simp only [marks]
              exact kept.content n x r }
  · intro side seen plain called
    obtain ⟨i, points, place⟩ := linked side seen plain called
    refine ⟨i, (plane side seen plain called).trans points, ?_⟩
    rwa [numberIn, acc, names]

/-! ## A wall with an event -/

/-- The columns an event finds marked, and the number of the plane it finds. -/
def baseOf (acc : Split) (e : Event) : List Nat :=
  if e.ssec ≠ acc.ssec then acc.first else acc.current

def foundOf (acc : Split) (e : Event) : Nat := if e.ssec ≠ acc.ssec then 0 else acc.num

theorem splitStep_eq {acc : Split} (fresh : acc.fresh = true ↔ acc.num = 0) (e : Event) :
    splitStep acc e =
      if ∃ c ∈ baseOf acc e, e.x1 ≤ c ∧ c ≤ e.x2 then
        { first := acc.first, current := e.cols, fresh := false, num := acc.next, ssec := e.ssec
          next := acc.next + 1, answer := acc.answer ++ [(e.ev, acc.next)] }
      else
        { first := if foundOf acc e = 0 then baseOf acc e ++ e.cols else acc.first
          current := baseOf acc e ++ e.cols, fresh := foundOf acc e = 0, num := foundOf acc e
          ssec := e.ssec, next := acc.next, answer := acc.answer ++ [(e.ev, foundOf acc e)] } := by
  have flag : (if e.ssec ≠ acc.ssec then true else acc.fresh) = decide (foundOf acc e = 0) := by
    rw [foundOf]
    split_ifs
    · rfl
    · rw [Bool.eq_iff_iff, fresh, decide_eq_true_eq]
  have any : ((baseOf acc e).any fun c => c ≥ e.x1 ∧ c ≤ e.x2) =
      decide (∃ c ∈ baseOf acc e, e.x1 ≤ c ∧ c ≤ e.x2) := by
    rw [Bool.eq_iff_iff, List.any_eq_true, decide_eq_true_eq]
    simp only [decide_eq_true_eq, ge_iff_le]
  have number : (if foundOf acc e = 0 then 0 else acc.num) = foundOf acc e := by
    by_cases zero : foundOf acc e = 0
    · rw [if_pos zero, zero]
    · rw [if_neg zero]
      rw [foundOf] at zero ⊢
      split_ifs at zero ⊢
      · exact absurd rfl zero
      · rfl
  rw [splitStep, flag, ← baseOf, any]
  by_cases met : ∃ c ∈ baseOf acc e, e.x1 ≤ c ∧ c ≤ e.x2
  · rw [if_pos met]
    simp [met]
  · rw [if_neg met]
    simp [met, number]

theorem wallEvents_one {side : Side} {x : Nat} {r : Int × Int} (drawn : w.rows side x = some r)
    (key : planeKey skyflatnum sub.sector side = k)
    (other : ∀ t, t ≠ side → planeKey skyflatnum sub.sector t = k → ∀ x, w.rows t x = none)
    (d : Nat) : wallEvents k d (sub, w) = [eventOf d (sub, w) side] := by
  have some : colsOf w side ≠ [] := List.ne_nil_of_mem (mem_colsOf.2 ⟨r, drawn⟩)
  have keep : decide (0 < (eventOf d (sub, w) side).cols.length ∧
      (eventOf d (sub, w) side).key = k) = true :=
    decide_eq_true ⟨List.length_pos_iff.2 some, key⟩
  have drop : ∀ t, t ≠ side → decide (0 < (eventOf d (sub, w) t).cols.length ∧
      (eventOf d (sub, w) t).key = k) = false := by
    intro t ne
    refine decide_eq_false fun both => ?_
    obtain ⟨y, there⟩ := List.exists_mem_of_length_pos both.1
    obtain ⟨r', drawn'⟩ := mem_colsOf.1 there
    rw [other t ne both.2 y] at drawn'
    cases drawn'
  cases side with
  | ceiling =>
    simp only [wallEvents, List.map_cons, List.map_nil, List.filter_cons, List.filter_nil, keep,
      drop .floor (by decide), if_true, Bool.false_eq_true, if_false]
  | floor =>
    simp only [wallEvents, List.map_cons, List.map_nil, List.filter_cons, List.filter_nil, keep,
      drop .ceiling (by decide), if_true, Bool.false_eq_true, if_false]

/-- The numbers of the answers are those of events. -/
theorem answer_evs (l : List Event) (acc : Split) :
    (l.foldl splitStep acc).answer.map Prod.fst = acc.answer.map Prod.fst ++ l.map Event.ev := by
  induction l generalizing acc with
  | nil => exact (List.append_nil _).symm
  | cons e l ih =>
    rw [List.foldl_cons, ih, List.map_cons]
    simp [splitStep]

theorem answer_lt {ev n : Nat} (there : (ev, n) ∈ (accOf k ps).answer) :
    ev < (ps.length + 1) * 2 := by
  have number : ev ∈ (accOf k ps).answer.map Prod.fst := List.mem_map_of_mem (f := Prod.fst) there
  rw [accOf, answer_evs] at number
  rcases List.mem_append.1 number with never | here
  · cases never
  · obtain ⟨e, made, rfl⟩ := List.mem_map.1 here
    obtain ⟨i, p, side, found, rfl, -⟩ := mem_eventsFrom.1 made
    have low := (List.getElem?_eq_some_iff.1 found).1
    have : kind side ≤ 1 := by cases side <;> decide
    simp only [eventOf]
    omega

theorem markedBy_lt {ev x : Nat} {r : Int × Int} (marks : MarkedBy k ps ev x r) :
    ev < (ps.length + 1) * 2 := by
  obtain ⟨i, p, side, found, -, rfl, -⟩ := marks
  have low := (List.getElem?_eq_some_iff.1 found).1
  have : kind side ≤ 1 := by cases side <;> decide
  omega

/-- The plane an event lands on has the wall's rows besides what it had. -/
theorem holds_marked (entered : Entered sub st) (placed : w ∈ sub.walls) (fits : Fits sub w st)
    {side : Side} (marks : w.mark side) {i b : Nat} (points : st.plane side = some i)
    (place : (named st.visplanes (nameOf skyflatnum sub.sector side))[b]? = some i) :
    ∃ j n, (storeWallRange w st).plane side = some j ∧
      (named (storeWallRange w st).visplanes (nameOf skyflatnum sub.sector side))[n]? = some j ∧
      (∀ m x r, Holds (storeWallRange w st).visplanes (nameOf skyflatnum sub.sector side) m x r ↔
        (m = n ∧ w.rows side x = some r) ∨
          Holds st.visplanes (nameOf skyflatnum sub.sector side) m x r) ∧
      ((Clear st.visplanes i w ∧ n = b ∧
          (named (storeWallRange w st).visplanes (nameOf skyflatnum sub.sector side)).length =
            (named st.visplanes (nameOf skyflatnum sub.sector side)).length) ∨
        (¬ Clear st.visplanes i w ∧
          n = (named st.visplanes (nameOf skyflatnum sub.sector side)).length ∧
          (named (storeWallRange w st).visplanes (nameOf skyflatnum sub.sector side)).length =
            (named st.visplanes (nameOf skyflatnum sub.sector side)).length + 1)) := by
  obtain ⟨j, points', rows, made⟩ := marked_name entered placed fits marks points
  have nodup := Engine.Visplanes.named_nodup (storeWallRange w st).visplanes
    (nameOf skyflatnum sub.sector side)
  have keep : ∀ n : Nat, (∀ m i' : Nat,
      (named st.visplanes (nameOf skyflatnum sub.sector side))[m]? = some i' →
      (named (storeWallRange w st).visplanes (nameOf skyflatnum sub.sector side))[m]? = some i') →
      (named (storeWallRange w st).visplanes (nameOf skyflatnum sub.sector side))[n]? = some j →
      (∀ m i' : Nat, (named (storeWallRange w st).visplanes
        (nameOf skyflatnum sub.sector side))[m]? = some i' → m ≠ n →
          (named st.visplanes (nameOf skyflatnum sub.sector side))[m]? = some i') →
      (∀ x r, w.rows side x = some r → rowsAt st.visplanes j x = none) →
      ((named st.visplanes (nameOf skyflatnum sub.sector side))[n]? = some j ∨
        ∀ x, rowsAt st.visplanes j x = none) →
      ∀ m x r, Holds (storeWallRange w st).visplanes (nameOf skyflatnum sub.sector side) m x r ↔
        (m = n ∧ w.rows side x = some r) ∨
          Holds st.visplanes (nameOf skyflatnum sub.sector side) m x r := by
    intro n later here earlier free old m x r
    constructor
    · rintro ⟨i', there, some⟩
      rw [rows i' (List.mem_of_getElem? there)] at some
      by_cases same : i' = j
      · subst same
        have number : m = n := by
          have low := (List.getElem?_eq_some_iff.1 there).1
          exact (List.getElem?_inj low nodup).1 (there.trans here.symm)
        subst number
        rw [if_pos rfl] at some
        cases drawn : w.rows side x with
        | none =>
          rw [drawn, Option.none_or] at some
          rcases old with old | bare
          · exact .inr ⟨i', old, some⟩
          · rw [bare] at some
            cases some
        | some r' =>
          rw [drawn] at some
          exact .inl ⟨rfl, some⟩
      · rw [if_neg same, Option.none_or] at some
        refine .inr ⟨i', earlier m i' there ?_, some⟩
        rintro rfl
        exact same (Option.some.inj (there.symm.trans here))
    · rintro (⟨rfl, drawn⟩ | ⟨i', there, some⟩)
      · refine ⟨j, here, ?_⟩
        rw [rows j (List.mem_of_getElem? here), if_pos rfl, drawn]
        rfl
      · refine ⟨i', later m i' there, ?_⟩
        rw [rows i' (List.mem_of_getElem? (later m i' there))]
        by_cases same : i' = j
        · subst same
          rw [if_pos rfl]
          cases drawn : w.rows side x with
          | none => exact some
          | some r' =>
            rw [free x r' drawn] at some
            cases some
        · rw [if_neg same]
          exact some
  rcases made with ⟨clear, rfl, names⟩ | ⟨met, names, bare⟩
  · refine ⟨j, b, points', by rw [names, place], ?_, .inl ⟨clear, rfl, by rw [names]⟩⟩
    refine keep b (fun m i' => by rw [names]; exact id) (by rw [names, place])
      (fun m i' there _ => by rwa [names] at there) (fun x r drawn => ?_) (.inl place)
    obtain ⟨-, first, last, -⟩ := w.rows_mark side x r drawn
    exact clear x first last
  · have here : (named (storeWallRange w st).visplanes (nameOf skyflatnum sub.sector side))[(named
        st.visplanes (nameOf skyflatnum sub.sector side)).length]? = some j := by
      rw [names, List.getElem?_append_right le_rfl, Nat.sub_self]
      rfl
    refine ⟨j, _, points', here, ?_, .inr ⟨met, rfl, by rw [names, List.length_append]; rfl⟩⟩
    refine keep _ (fun m i' there => ?_) here (fun m i' there ne => ?_) (fun x r _ => bare x)
      (.inr bare)
    · rw [names, List.getElem?_append_left (List.getElem?_eq_some_iff.1 there).1, there]
    · have low := (List.getElem?_eq_some_iff.1 there).1
      rw [names, List.length_append, List.length_singleton] at low
      rwa [names, List.getElem?_append_left (by omega)] at there

/-- What the fold finds at an event is what the engine's pointer finds. -/
theorem mem_baseOf (tracks : Tracks k ps st) (d : Nat) (side : Side) (c : Nat) :
    c ∈ baseOf (accOf k ps) (eventOf d (sub, w) side) ↔
      ∃ r, Holds st.visplanes k (numberIn k ps sub) c r := by
  rw [baseOf, numberIn]
  by_cases other : sub.num ≠ (accOf k ps).ssec
  · rw [if_pos (by exact other), if_pos other]
    exact tracks.first c
  · rw [if_neg (by exact other), if_neg other]
    exact tracks.current c

theorem holds_at {n i c : Nat} {r : Int × Int} (place : (named st.visplanes k)[n]? = some i) :
    Holds st.visplanes k n c r ↔ rowsAt st.visplanes i c = some r := by
  rw [Holds, place]
  constructor
  · rintro ⟨i', same, covered⟩
    cases same
    exact covered
  · exact fun covered => ⟨i, rfl, covered⟩

section
variable {st' : State} {side : Side} {x n : Nat} {r : Int × Int}

/-- The other side of a wall that leaves rows has another name. -/
theorem name_apart (placed : w ∈ sub.walls) (fits : Fits sub w st)
    (drawn : w.rows side x = some r) (key : planeKey skyflatnum sub.sector side = k) {t : Side}
    (ne : t ≠ side) (seen : sub.sector.seen viewz skyflatnum t)
    (plain : Plain skyflatnum sub.sector t) : nameOf skyflatnum sub.sector t ≠ k := by
  obtain ⟨marks, seen'⟩ := seen_of_rows placed drawn
  have plain' := plain_of_mark fits marks
  rw [← key, planeKey_eq plain']
  exact names_apart_of_ne ne seen' seen plain' plain

theorem rows_apart (placed : w ∈ sub.walls) (fits : Fits sub w st)
    (drawn : w.rows side x = some r) (key : planeKey skyflatnum sub.sector side = k) {t : Side}
    (ne : t ≠ side) (key' : planeKey skyflatnum sub.sector t = k) (y : Nat) :
    w.rows t y = none := by
  by_contra some
  obtain ⟨r', drawn'⟩ := Option.ne_none_iff_exists'.1 some
  obtain ⟨marks', seen'⟩ := seen_of_rows placed drawn'
  have plain' := plain_of_mark fits marks'
  exact name_apart placed fits drawn key ne seen' plain' ((planeKey_eq plain').symm.trans key')

/-- A wall that leaves rows is one step of the fold. -/
theorem accOf_marked (placed : w ∈ sub.walls) (fits : Fits sub w st)
    (drawn : w.rows side x = some r) (key : planeKey skyflatnum sub.sector side = k) :
    accOf k (ps ++ [(sub, w)]) =
      splitStep (accOf k ps) (eventOf (ps.length + 1) (sub, w) side) := by
  rw [accOf_append, wallEvents_one drawn key fun t ne => rows_apart placed fits drawn key ne]
  rfl

/-- The fold splits where the engine's plane is taken. -/
theorem meets_iff (tracks : Tracks k ps st) {i : Nat}
    (place : (named st.visplanes k)[numberIn k ps sub]? = some i) (d : Nat) :
    (∃ c ∈ baseOf (accOf k ps) (eventOf d (sub, w) side),
      (eventOf d (sub, w) side).x1 ≤ c ∧ c ≤ (eventOf d (sub, w) side).x2) ↔
      ¬ Clear st.visplanes i w := by
  have base := @mem_baseOf _ _ sub w st k ps tracks d side
  rw [Clear]
  push Not
  constructor
  · rintro ⟨c, there, first, last⟩
    obtain ⟨r', covered⟩ := (base c).1 there
    rw [holds_at place] at covered
    exact ⟨c, first, last, by rw [covered]; exact Option.some_ne_none _⟩
  · rintro ⟨c, first, last, covered⟩
    obtain ⟨r', covered⟩ := Option.ne_none_iff_exists'.1 covered
    exact ⟨c, (base c).2 ⟨r', (holds_at place).2 covered⟩, first, last⟩

/-- The columns of the plane with number `n` are the wall's besides its own. -/
theorem cols_marked (holds : ∀ m x r, Holds st'.visplanes k m x r ↔
    (m = n ∧ w.rows side x = some r) ∨ Holds st.visplanes k m x r) (m c : Nat) :
    (∃ r, Holds st'.visplanes k m c r) ↔
      (m = n ∧ c ∈ colsOf w side) ∨ ∃ r, Holds st.visplanes k m c r := by
  rw [mem_colsOf, ← exists_and_left, ← exists_or]
  exact exists_congr fun r => holds m c r

/-- The new answer is the number of the new rows, and the old ones stay. -/
theorem content_marked (tracks : Tracks k ps st) (placed : w ∈ sub.walls) (fits : Fits sub w st)
    (drawn : w.rows side x = some r) (key : planeKey skyflatnum sub.sector side = k)
    (answer : (accOf k (ps ++ [(sub, w)])).answer =
      (accOf k ps).answer ++ [((ps.length + 1) * 2 + kind side, n)])
    (holds : ∀ m x r, Holds st'.visplanes k m x r ↔
      (m = n ∧ w.rows side x = some r) ∨ Holds st.visplanes k m x r) (m y : Nat)
    (q : Int × Int) :
    (∃ ev, MarkedBy k (ps ++ [(sub, w)]) ev y q ∧
      (ev, m) ∈ (accOf k (ps ++ [(sub, w)])).answer) ↔ Holds st'.visplanes k m y q := by
  rw [answer, holds, ← tracks.content]
  have own : ∀ ev, MarkedBy k (ps ++ [(sub, w)]) ev y q ↔ MarkedBy k ps ev y q ∨
      ev = (ps.length + 1) * 2 + kind side ∧ w.rows side y = some q := by
    intro ev
    rw [markedBy_append]
    refine or_congr_right ⟨?_, fun both => ⟨side, key, both⟩⟩
    rintro ⟨t, key', same, covered⟩
    by_cases here : t = side
    · subst here
      exact ⟨same, covered⟩
    · rw [rows_apart placed fits drawn key here key' y] at covered
      cases covered
  constructor
  · rintro ⟨ev, marks', there⟩
    rcases (own ev).1 marks' with old | ⟨rfl, covered⟩
    · -- an older event has a lower number, and keeps its answer
      refine .inr ⟨ev, old, ?_⟩
      have := markedBy_lt old
      rcases List.mem_append.1 there with there | there
      · exact there
      · cases List.mem_singleton.1 there
        omega
    · rcases List.mem_append.1 there with there | there
      · have := answer_lt there
        omega
      · cases List.mem_singleton.1 there
        exact .inl ⟨rfl, covered⟩
  · rintro (⟨rfl, covered⟩ | ⟨ev, old, there⟩)
    · exact ⟨_, (own _).2 (.inr ⟨rfl, covered⟩),
        List.mem_append_right _ (List.mem_singleton_self _)⟩
    · exact ⟨ev, (own ev).2 (.inl old), List.mem_append_left _ there⟩

/-- The fold's step where the plane it finds is clear: the wall's columns go on that plane. -/
theorem Tracks.keeps (tracks : Tracks k ps st) (placed : w ∈ sub.walls) (fits : Fits sub w st)
    (drawn : w.rows side x = some r) (key : planeKey skyflatnum sub.sector side = k) {i : Nat}
    (place : (named st.visplanes k)[numberIn k ps sub]? = some i) (clear : Clear st.visplanes i w)
    (holds : ∀ m x r, Holds st'.visplanes k m x r ↔
      (m = numberIn k ps sub ∧ w.rows side x = some r) ∨ Holds st.visplanes k m x r)
    (same : (named st'.visplanes k).length = (named st.visplanes k).length) :
    Tracks k (ps ++ [(sub, w)]) st' ∧ (accOf k (ps ++ [(sub, w)])).num = numberIn k ps sub ∧
      (accOf k (ps ++ [(sub, w)])).ssec = sub.num := by
  have low := (List.getElem?_eq_some_iff.1 place).1
  have base := @mem_baseOf _ _ sub w st k ps tracks (ps.length + 1) side
  have acc : accOf k (ps ++ [(sub, w)]) =
      { first := if numberIn k ps sub = 0 then
            baseOf (accOf k ps) (eventOf (ps.length + 1) (sub, w) side) ++ colsOf w side
          else (accOf k ps).first
        current := baseOf (accOf k ps) (eventOf (ps.length + 1) (sub, w) side) ++ colsOf w side
        fresh := numberIn k ps sub = 0, num := numberIn k ps sub, ssec := sub.num
        next := (accOf k ps).next
        answer := (accOf k ps).answer ++
          [((ps.length + 1) * 2 + kind side, numberIn k ps sub)] } := by
    rw [accOf_marked placed fits drawn key, splitStep_eq tracks.fresh,
      if_neg fun some => (meets_iff tracks place _).1 some clear]
    rfl
  refine ⟨⟨fun c => ?_, fun c => ?_, ?_, ?_, ?_, ?_, ?_⟩, by rw [acc], by rw [acc]⟩
  · rw [cols_marked holds, acc]
    dsimp only
    -- the first plane's columns grow where the event lands on the first plane
    by_cases zero : numberIn k ps sub = 0
    · rw [if_pos zero, List.mem_append, base, or_comm, zero]
      simp
    · rw [if_neg zero, tracks.first, or_iff_right]
      exact fun both => zero both.1.symm
  · rw [cols_marked holds, acc]
    dsimp only
    rw [List.mem_append, base, or_comm]
    simp
  · rw [acc]
    exact decide_eq_true_iff
  · rw [acc, same]
    exact tracks.next
  · have length := tracks.next
    rw [acc]
    dsimp only
    omega
  · rw [acc]
    exact .inr ⟨(sub, w), List.mem_append_right _ (List.mem_singleton_self _), rfl⟩
  · exact content_marked tracks placed fits drawn key (by rw [acc]) holds

/-- The fold's step where it is taken: the wall's columns are a new plane's. -/
theorem Tracks.splits (tracks : Tracks k ps st) (placed : w ∈ sub.walls) (fits : Fits sub w st)
    (drawn : w.rows side x = some r) (key : planeKey skyflatnum sub.sector side = k) {i : Nat}
    (place : (named st.visplanes k)[numberIn k ps sub]? = some i)
    (taken : ¬ Clear st.visplanes i w)
    (holds : ∀ m x r, Holds st'.visplanes k m x r ↔
      (m = (named st.visplanes k).length ∧ w.rows side x = some r) ∨ Holds st.visplanes k m x r)
    (more : (named st'.visplanes k).length = (named st.visplanes k).length + 1) :
    Tracks k (ps ++ [(sub, w)]) st' ∧
      (accOf k (ps ++ [(sub, w)])).num = (named st.visplanes k).length ∧
      (accOf k (ps ++ [(sub, w)])).ssec = sub.num := by
  have low := (List.getElem?_eq_some_iff.1 place).1
  have length : (named st.visplanes k).length = (accOf k ps).next := by
    rw [tracks.next]
    omega
  have acc : accOf k (ps ++ [(sub, w)]) =
      { first := (accOf k ps).first, current := colsOf w side, fresh := false
        num := (named st.visplanes k).length, ssec := sub.num
        next := (named st.visplanes k).length + 1
        answer := (accOf k ps).answer ++
          [((ps.length + 1) * 2 + kind side, (named st.visplanes k).length)] } := by
    rw [accOf_marked placed fits drawn key, splitStep_eq tracks.fresh,
      if_pos ((meets_iff tracks place _).2 taken), length]
    rfl
  refine ⟨⟨fun c => ?_, fun c => ?_, ?_, ?_, ?_, ?_, ?_⟩, by rw [acc], by rw [acc]⟩
  · rw [cols_marked holds, acc, or_iff_right, tracks.first]
    exact fun both => by omega
  · rw [cols_marked holds, acc]
    dsimp only
    rw [or_iff_left]
    · simp
    · rintro ⟨r', i', there, -⟩
      rw [List.getElem?_eq_none le_rfl] at there
      cases there
  · rw [acc]
    simp only [Bool.false_eq_true, false_iff]
    omega
  · rw [acc, more]
    dsimp only
    omega
  · rw [acc]
    exact Nat.lt_succ_self _
  · rw [acc]
    exact .inr ⟨(sub, w), List.mem_append_right _ (List.mem_singleton_self _), rfl⟩
  · exact content_marked tracks placed fits drawn key (by rw [acc]) holds

/-- The side that left rows points at the plane its event was numbered with. -/
theorem linked_marked (placed : w ∈ sub.walls) (fits : Fits sub w st)
    (drawn : w.rows side x = some r) (key : planeKey skyflatnum sub.sector side = k) {j : Nat}
    (points : st'.plane side = some j) (place : (named st'.visplanes k)[n]? = some j)
    (num : (accOf k (ps ++ [(sub, w)])).num = n)
    (ssec : (accOf k (ps ++ [(sub, w)])).ssec = sub.num) :
    Linked k (ps ++ [(sub, w)]) sub st' := by
  intro t seen plain called
  by_cases here : t = side
  · subst here
    refine ⟨j, points, ?_⟩
    rw [numberIn, ssec, num]
    simpa using place
  · exact absurd called (name_apart placed fits drawn key here seen plain)

/-- A wall that leaves rows on a side of the name is one event, numbered with the plane the engine
puts its rows on. -/
theorem Tracks.marked (tracks : Tracks k ps st) (linked : Linked k ps sub st)
    (entered : Entered sub st) (placed : w ∈ sub.walls) (fits : Fits sub w st)
    (drawn : w.rows side x = some r) (key : planeKey skyflatnum sub.sector side = k) :
    Tracks k (ps ++ [(sub, w)]) (storeWallRange w st) ∧
      Linked k (ps ++ [(sub, w)]) sub (storeWallRange w st) := by
  obtain ⟨marks, seen⟩ := seen_of_rows placed drawn
  have plain := plain_of_mark fits marks
  have called : nameOf skyflatnum sub.sector side = k := (planeKey_eq plain).symm.trans key
  obtain ⟨i, points, place⟩ := linked side seen plain called
  have landed := holds_marked (b := numberIn k ps sub) entered placed fits marks points
    (by rw [called, place])
  rw [called] at landed
  obtain ⟨j, n, points', place', holds, ⟨clear, rfl, same⟩ | ⟨taken, rfl, more⟩⟩ := landed
  · obtain ⟨tracks', num, ssec⟩ := tracks.keeps placed fits drawn key place clear holds same
    exact ⟨tracks', linked_marked placed fits drawn key points' place' num ssec⟩
  · obtain ⟨tracks', num, ssec⟩ := tracks.splits placed fits drawn key place taken holds more
    exact ⟨tracks', linked_marked placed fits drawn key points' place' num ssec⟩

end

theorem check_points {side t : Side} (points : ∃ i, st.plane t = some i) :
    ∃ i, (Engine.Visplanes.check w side st).plane t = some i := by
  rw [Engine.Visplanes.check]
  split
  next i _ _ =>
    by_cases same : t = side
    · subst same
      exact ⟨_, Function.update_self _ _ _⟩
    · dsimp only
      rwa [Function.update_of_ne same]
  · exact points

theorem Entered.store (entered : Entered sub st) (w : Wall) :
    Entered sub (storeWallRange w st) := by
  obtain ⟨plane, -, valid, -⟩ := Engine.Visplanes.storeWallRange_eq entered.valid w
  refine ⟨valid, fun side seen => ?_⟩
  rw [plane]
  exact check_points (check_points (entered.points side seen))

/-- One wall: the fold goes on tracking the planes. -/
theorem Tracks.wall (tracks : Tracks k ps st) (linked : Linked k ps sub st)
    (entered : Entered sub st) (placed : w ∈ sub.walls) (fits : Fits sub w st) :
    Tracks k (ps ++ [(sub, w)]) (storeWallRange w st) ∧
      Linked k (ps ++ [(sub, w)]) sub (storeWallRange w st) := by
  by_cases some : ∃ side x r, planeKey skyflatnum sub.sector side = k ∧ w.rows side x = some r
  · obtain ⟨side, x, r, key, drawn⟩ := some
    exact tracks.marked linked entered placed fits drawn key
  · refine tracks.unmarked linked entered placed fits fun side key x => ?_
    by_contra covered
    obtain ⟨r, drawn⟩ := Option.ne_none_iff_exists'.1 covered
    exact some ⟨side, x, r, key, drawn⟩

end

/-! ## A whole frame -/

/-- The planes a frame leaves. -/
def planesOf (subs : List (Subsector viewz skyflatnum)) : State := (steps subs).foldl step cleared

/-- Every wall of a frame fits the planes it finds. -/
def AllFit (subs : List (Subsector viewz skyflatnum)) : Prop :=
  ∀ pre sub w post, steps subs = pre ++ Step.wall sub w :: post → Fits sub w (pre.foldl step cleared)

theorem steps_append (subs : List (Subsector viewz skyflatnum)) (sub : Subsector viewz skyflatnum) :
    steps (subs ++ [sub]) = steps subs ++ Step.enter sub :: sub.walls.map (Step.wall sub) := by
  rw [steps, List.flatMap_append, List.flatMap_singleton]
  rfl

theorem walls_append (subs : List (Subsector viewz skyflatnum)) (sub : Subsector viewz skyflatnum) :
    walls viewz skyflatnum (subs ++ [sub]) =
      walls viewz skyflatnum subs ++ sub.walls.map fun w => (sub, w) := by
  rw [walls, List.flatMap_append, List.flatMap_singleton]
  rfl

/-- The walls of one subsector. -/
theorem tracks_walls {k : Name} {ps : List (Placed viewz skyflatnum)} {st : State}
    {sub : Subsector viewz skyflatnum} (tracks : Tracks k ps st) (linked : Linked k ps sub st)
    (entered : Entered sub st) (ws : List Wall) (inside : ∀ w ∈ ws, w ∈ sub.walls)
    (fits : ∀ pre w post, ws = pre ++ w :: post →
      Fits sub w ((pre.map (Step.wall sub)).foldl step st)) :
    Tracks k (ps ++ ws.map fun w => (sub, w)) ((ws.map (Step.wall sub)).foldl step st) ∧
      Linked k (ps ++ ws.map fun w => (sub, w)) sub ((ws.map (Step.wall sub)).foldl step st) ∧
      Entered sub ((ws.map (Step.wall sub)).foldl step st) := by
  induction ws using List.reverseRecOn with
  | nil => exact ⟨by simpa using tracks, by simpa using linked, entered⟩
  | append_singleton ws w ih =>
    obtain ⟨tracks', linked', entered'⟩ := ih
      (fun w' there => inside w' (List.mem_append_left _ there))
      fun pre w' post same => fits pre w' (post ++ [w]) (by rw [same]; simp)
    have one := tracks'.wall linked' entered'
      (inside w (List.mem_append_right _ (List.mem_singleton_self _))) (fits ws w [] rfl)
    rw [List.map_append, List.map_append, List.foldl_append, ← List.append_assoc]
    exact ⟨one.1, one.2, entered'.store w⟩

/-- The fold of every name has the columns of its planes, whatever the frame. -/
theorem tracks_planesOf (k : Name) (subs : List (Subsector viewz skyflatnum))
    (once : (subs.map Subsector.num).Nodup) (fits : AllFit subs) :
    Tracks k (walls viewz skyflatnum subs) (planesOf subs) ∧
      Engine.Visplanes.Bounded (planesOf subs).visplanes := by
  induction subs using List.reverseRecOn with
  | nil =>
    refine ⟨tracks_cleared k, fun i pl x found => ?_⟩
    cases found
  | append_singleton subs sub ih =>
    rw [List.map_append] at once
    obtain ⟨once', -, apart⟩ := List.nodup_append.1 once
    obtain ⟨tracks, bounded⟩ := ih once' fun pre sub' w post same =>
      fits pre sub' w (post ++ Step.enter sub :: sub.walls.map (Step.wall sub)) (by
        rw [steps_append, same, List.append_assoc]
        rfl)
    have new : ∀ p ∈ walls viewz skyflatnum subs, p.1.num ≠ sub.num := by
      intro p there
      obtain ⟨sub', inside, here⟩ := List.mem_flatMap.1 there
      obtain ⟨w, -, rfl⟩ := List.mem_map.1 here
      exact apart _ (List.mem_map_of_mem inside) _ (List.mem_singleton_self _)
    obtain ⟨entered, linked⟩ := linked_enter tracks bounded new
    have walled := tracks_walls (tracks.enter bounded sub) linked entered sub.walls
      (fun _ => id) fun pre w post same => by
        have fit := fits (steps subs ++ Step.enter sub :: pre.map (Step.wall sub)) sub w
          (post.map (Step.wall sub)) (by
            rw [steps_append, same, List.map_append, List.append_assoc]
            rfl)
        rwa [List.foldl_append] at fit
    have run : planesOf (subs ++ [sub]) =
        (sub.walls.map (Step.wall sub)).foldl step (subsector sub (planesOf subs)) := by
      rw [planesOf, steps_append, List.foldl_append]
      rfl
    rw [run, walls_append]
    exact ⟨walled.1, walled.2.2.valid.bounded⟩

/-! ## Numbers of planes -/

theorem mem_plEvInst (subs : List (Subsector viewz skyflatnum)) {o : Nat × Nat} :
    o ∈ plEvInst viewz skyflatnum subs ↔ ∃ idx k n, (plKeys viewz skyflatnum subs)[idx]? = some k ∧
      (o.1, n) ∈ splitOf viewz skyflatnum subs k ∧ o.2 = idx * 1024 + n := by
  rw [plEvInst, List.mem_flatten]
  constructor
  · rintro ⟨os, there, here⟩
    obtain ⟨⟨res, ki⟩, paired, rfl⟩ := List.mem_map.1 there
    obtain ⟨idx, found⟩ := List.mem_iff_getElem?.1 paired
    obtain ⟨split, place⟩ := List.getElem?_zip_eq_some.1 found
    obtain ⟨low, rfl⟩ := List.getElem?_eq_some_iff.1 place
    have split : ((plKeys viewz skyflatnum subs).map (splitOf viewz skyflatnum subs))[idx]? =
      some res := split
    rw [List.getElem?_map, Option.map_eq_some_iff] at split
    obtain ⟨k, key, rfl⟩ := split
    obtain ⟨⟨ev, n⟩, answer, rfl⟩ := List.mem_map.1 here
    refine ⟨idx, k, n, key, answer, ?_⟩
    dsimp only
    rw [List.getElem_range']
    omega
  · rintro ⟨idx, k, n, key, answer, number⟩
    have split : (plSplit viewz skyflatnum subs)[idx]? = some (splitOf viewz skyflatnum subs k) := by
      rw [plSplit, List.getElem?_map, key]
      rfl
    have low := (List.getElem?_eq_some_iff.1 split).1
    have paired : ((plSplit viewz skyflatnum subs).zip (List.range' 1
        (plSplit viewz skyflatnum subs).length))[idx]? =
          some (splitOf viewz skyflatnum subs k, 1 + idx) := by
      refine List.getElem?_zip_eq_some.2 ⟨split, ?_⟩
      rw [List.getElem?_range' low, Nat.one_mul]
    refine ⟨_, List.mem_map_of_mem (List.mem_of_getElem? paired), List.mem_map.2
      ⟨(o.1, n), answer, ?_⟩⟩
    dsimp only
    rw [show 1 + idx - 1 = idx by omega, ← number]

/-- An answer is about an event of a wall. -/
theorem mem_splitOf {k : Name} {subs : List (Subsector viewz skyflatnum)} {ev n : Nat}
    (there : (ev, n) ∈ splitOf viewz skyflatnum subs k) :
    ∃ x r, MarkedBy k (walls viewz skyflatnum subs) ev x r := by
  have number := List.mem_map_of_mem (f := Prod.fst) there
  rw [splitOf_eq, answer_evs] at number
  rcases List.mem_append.1 number with never | here
  · cases never
  · obtain ⟨e, made, rfl⟩ := List.mem_map.1 here
    obtain ⟨i, p, side, found, rfl, some, key⟩ := mem_eventsFrom.1 made
    obtain ⟨x, column⟩ := List.exists_mem_of_ne_nil _ some
    obtain ⟨r, drawn⟩ := mem_colsOf.1 column
    refine ⟨x, r, i, p, side, found, key, ?_, drawn⟩
    simp only [eventOf]
    omega

theorem exists_splitOf {k : Name} {subs : List (Subsector viewz skyflatnum)} {ev x : Nat}
    {r : Int × Int} (marks : MarkedBy k (walls viewz skyflatnum subs) ev x r) :
    ∃ n, (ev, n) ∈ splitOf viewz skyflatnum subs k := by
  obtain ⟨i, p, side, found, key, rfl, drawn⟩ := marks
  have made : eventOf (1 + i) p side ∈ eventsFrom k 1 (walls viewz skyflatnum subs) :=
    mem_eventsFrom.2 ⟨i, p, side, found, rfl, List.ne_nil_of_mem (mem_colsOf.2 ⟨r, drawn⟩), key⟩
  have number : (i + 1) * 2 + kind side ∈ (splitOf viewz skyflatnum subs k).map Prod.fst := by
    rw [splitOf_eq, answer_evs]
    refine List.mem_append_right _ (List.mem_map.2 ⟨_, made, ?_⟩)
    simp only [eventOf]
    omega
  obtain ⟨⟨ev, n⟩, there, rfl⟩ := List.mem_map.1 number
  exact ⟨n, there⟩

theorem splitOf_unique {k : Name} {subs : List (Subsector viewz skyflatnum)} {ev n n' : Nat}
    (here : (ev, n) ∈ splitOf viewz skyflatnum subs k)
    (there : (ev, n') ∈ splitOf viewz skyflatnum subs k) : n = n' := by
  have nodup : ((splitOf viewz skyflatnum subs k).map Prod.fst).Nodup := by
    rw [splitOf_eq, answer_evs]
    refine List.Pairwise.imp (fun less => Nat.ne_of_lt less)
      (List.pairwise_map.2 (eventsFrom_increase k 1 _) : List.Pairwise (· < ·) _)
  have same := List.inj_on_of_nodup_map nodup here there rfl
  exact congrArg Prod.snd same

/-- An event belongs to one name. -/
theorem markedBy_unique {k k' : Name} {ps : List (Placed viewz skyflatnum)} {ev x x' : Nat}
    {r r' : Int × Int} (here : MarkedBy k ps ev x r) (there : MarkedBy k' ps ev x' r') : k = k' := by
  obtain ⟨i, p, side, found, rfl, number, -⟩ := here
  obtain ⟨i', p', side', found', rfl, number', -⟩ := there
  have bit : ∀ s : Side, kind s ≤ 1 := fun s => by cases s <;> decide
  have b := bit side
  have b' := bit side'
  have same : i = i' := by omega
  subst same
  cases found.symm.trans found'
  have kinds : kind side = kind side' := by omega
  cases side <;> cases side' <;> first | rfl | cases kinds

theorem foldr_max_eq {l : List (Nat × Nat)} {ev v : Nat} (f : Nat → Nat)
    (same : ∀ o ∈ l, o.1 = ev → f o.2 = v) (some : ∃ o ∈ l, o.1 = ev) :
    (l.map fun o => if o.1 = ev then f o.2 else 0).foldr max 0 = v := by
  have bound : ∀ l : List (Nat × Nat), (∀ o ∈ l, o.1 = ev → f o.2 = v) →
      (l.map fun o => if o.1 = ev then f o.2 else 0).foldr max 0 ≤ v ∧
      ((∃ o ∈ l, o.1 = ev) → v ≤ (l.map fun o => if o.1 = ev then f o.2 else 0).foldr max 0) := by
    intro l same
    induction l with
    | nil => exact ⟨Nat.zero_le _, fun ⟨o, there, _⟩ => absurd there List.not_mem_nil⟩
    | cons o l ih =>
      obtain ⟨high, low⟩ := ih fun o' there => same o' (List.mem_cons_of_mem _ there)
      rw [List.map_cons, List.foldr_cons]
      by_cases here : o.1 = ev
      · rw [if_pos here, same o List.mem_cons_self here]
        exact ⟨max_le le_rfl high, fun _ => le_max_left _ _⟩
      · rw [if_neg here]
        refine ⟨max_le (Nat.zero_le _) high, ?_⟩
        rintro ⟨o', there, number⟩
        rcases List.mem_cons.1 there with rfl | later
        · exact absurd number here
        · exact (low ⟨o', later, number⟩).trans (le_max_right _ _)
  exact Nat.le_antisymm (bound l same).1 ((bound l same).2 some)

/-- The planes of a frame are fewer than `MAXVISPLANES`, every subsector is reached once, and every
wall fits. -/
structure Frame (subs : List (Subsector viewz skyflatnum)) : Prop where
  once : (subs.map Subsector.num).Nodup
  few : (planesOf subs).visplanes.length < 128
  fits : AllFit subs

/-- The place among the engine's planes of the plane with a number of the pass, counted from zero. -/
def planeAt (subs : List (Subsector viewz skyflatnum)) (p : Nat) : Nat :=
  let num := (plInstNum viewz skyflatnum subs).getD p 0
  (named (planesOf subs).visplanes
    ((plKeys viewz skyflatnum subs).getD (num / 1024) ⟨0, 0, 0⟩)).getD (num % 1024) 0

section
variable {subs : List (Subsector viewz skyflatnum)} (frame : Frame subs)
include frame

theorem content_iff (k : Name) (n x : Nat) (r : Int × Int) :
    (∃ ev, MarkedBy k (walls viewz skyflatnum subs) ev x r ∧
      (ev, n) ∈ splitOf viewz skyflatnum subs k) ↔ Holds (planesOf subs).visplanes k n x r := by
  rw [splitOf_eq]
  exact (tracks_planesOf k subs frame.once frame.fits).1.content n x r

/-- A number given is that of a plane. -/
theorem exists_named {k : Name} {ev n : Nat} (there : (ev, n) ∈ splitOf viewz skyflatnum subs k) :
    ∃ i, (named (planesOf subs).visplanes k)[n]? = some i ∧ n < 1024 := by
  obtain ⟨x, r, marks⟩ := mem_splitOf there
  obtain ⟨i, found, -⟩ := (content_iff frame k n x r).1 ⟨ev, marks, there⟩
  refine ⟨i, found, ?_⟩
  have low := (List.getElem?_eq_some_iff.1 found).1
  have few := frame.few
  have named_le : (named (planesOf subs).visplanes k).length ≤
      (planesOf subs).visplanes.length :=
    (List.length_filter_le _ _).trans_eq List.length_range
  omega

/-- A number of `pl_inst_num` is a name's place and the number of one of its planes. -/
theorem plInstNum_eq {p num : Nat} (found : (plInstNum viewz skyflatnum subs)[p]? = some num) :
    ∃ k ev n, (plKeys viewz skyflatnum subs)[num / 1024]? = some k ∧
      (ev, n) ∈ splitOf viewz skyflatnum subs k ∧ n = num % 1024 := by
  obtain ⟨o, there, rfl⟩ := List.mem_map.1 (mem_arrayDistinct.1 (List.mem_of_getElem? found))
  obtain ⟨idx, k, n, key, answer, number⟩ := (mem_plEvInst subs).1 there
  obtain ⟨-, -, low⟩ := exists_named frame answer
  have place : o.2 / 1024 = idx := by omega
  exact ⟨k, o.1, n, by rw [place, key], answer, by omega⟩

omit frame in
/-- The plane of a mark is the one its event was given. -/
theorem planeOf_eq {side : Side} {m : Mark} (there : m ∈ marks viewz skyflatnum subs side) :
    ∃ idx k n, (plKeys viewz skyflatnum subs)[idx]? = some k ∧
      MarkedBy k (walls viewz skyflatnum subs) (m.ds * 2 + kind side) m.x (m.top, m.bottom) ∧
      (m.ds * 2 + kind side, n) ∈ splitOf viewz skyflatnum subs k ∧
      idx * 1024 + n ∈ plInstNum viewz skyflatnum subs ∧
      planeOf viewz skyflatnum subs side m =
        indexOf (plInstNum viewz skyflatnum subs) (idx * 1024 + n) := by
  obtain ⟨i, p, found, number, drawn⟩ := (mem_marks subs).1 there
  let k := planeKey skyflatnum p.1.sector side
  have marked : MarkedBy k (walls viewz skyflatnum subs) (m.ds * 2 + kind side) m.x
      (m.top, m.bottom) := ⟨i, p, side, found, rfl, by rw [number], drawn⟩
  obtain ⟨n, answer⟩ := exists_splitOf marked
  have listed : k ∈ plKeys viewz skyflatnum subs := mem_arrayDistinct.2 (List.mem_map.2
    ⟨eventOf (i + 1) p side, (mem_plEv subs).2 ⟨i, p, side, found, rfl,
      List.ne_nil_of_mem (mem_colsOf.2 ⟨_, drawn⟩)⟩, rfl⟩)
  obtain ⟨idx, key⟩ := List.mem_iff_getElem?.1 listed
  have own : (m.ds * 2 + kind side, idx * 1024 + n) ∈ plEvInst viewz skyflatnum subs :=
    (mem_plEvInst subs).2 ⟨idx, k, n, key, answer, rfl⟩
  refine ⟨idx, k, n, key, marked, answer, mem_arrayDistinct.2
    (List.mem_map_of_mem (f := Prod.snd) own), ?_⟩
  have low := (List.getElem?_eq_some_iff.1 found).1
  have bit : kind side ≤ 1 := by cases side <;> decide
  rw [planeOf, plOfEv, List.getD_eq_getElem?_getD, List.getElem?_map,
    List.getElem?_range (by omega), Option.map_some, Option.getD_some]
  refine foldr_max_eq _ (fun o inst same => ?_) ⟨_, own, rfl⟩
  obtain ⟨idx', k', n', key', answer', place'⟩ := (mem_plEvInst subs).1 inst
  rw [same] at answer'
  obtain ⟨x', r', marked'⟩ := mem_splitOf answer'
  have named := markedBy_unique marked' marked
  subst named
  have keys := List.getElem?_inj (List.getElem?_eq_some_iff.1 key').1 (nodup_arrayDistinct _) |>.1
    (key'.trans key.symm)
  rw [place', keys, splitOf_unique answer' answer]

omit frame in
/-- The engine's plane with a number of the pass. -/
theorem planeAt_eq {p num : Nat} {k : Name} {i : Nat}
    (found : (plInstNum viewz skyflatnum subs)[p]? = some num)
    (key : (plKeys viewz skyflatnum subs)[num / 1024]? = some k)
    (place : (named (planesOf subs).visplanes k)[num % 1024]? = some i) :
    planeAt subs p = i := by
  have number : (plInstNum viewz skyflatnum subs).getD p 0 = num := by
    rw [List.getD_eq_getElem?_getD, found]
    rfl
  have name : (plKeys viewz skyflatnum subs).getD (num / 1024) ⟨0, 0, 0⟩ = k := by
    rw [List.getD_eq_getElem?_getD, key]
    rfl
  rw [planeAt, number, name, List.getD_eq_getElem?_getD, place]
  rfl

/-- Every number stands for a plane of the engine. -/
theorem number_at {p : Nat} (low : p < (plInstNum viewz skyflatnum subs).length) :
    ∃ num k i, (plInstNum viewz skyflatnum subs)[p]? = some num ∧
      (plKeys viewz skyflatnum subs)[num / 1024]? = some k ∧
      (named (planesOf subs).visplanes k)[num % 1024]? = some i ∧ planeAt subs p = i := by
  obtain ⟨num, found⟩ : ∃ num, (plInstNum viewz skyflatnum subs)[p]? = some num :=
    ⟨_, List.getElem?_eq_getElem low⟩
  obtain ⟨k, ev, n, key, answer, same⟩ := plInstNum_eq frame found
  obtain ⟨i, place, -⟩ := exists_named frame answer
  rw [same] at place
  exact ⟨num, k, i, found, key, place, planeAt_eq found key place⟩

omit frame in
theorem plKeys_inj {idx idx' : Nat} {k : Name}
    (here : (plKeys viewz skyflatnum subs)[idx]? = some k)
    (there : (plKeys viewz skyflatnum subs)[idx']? = some k) : idx = idx' :=
  (List.getElem?_inj (List.getElem?_eq_some_iff.1 here).1 (nodup_arrayDistinct _)).1
    (here.trans there.symm)

/-- A mark of an event is a row of the plane its answer names. -/
theorem planeOf_of_answer {k : Name} {idx n ev x : Nat} {r : Int × Int}
    (key : (plKeys viewz skyflatnum subs)[idx]? = some k)
    (whole : MarkedBy k (walls viewz skyflatnum subs) ev x r)
    (answer : (ev, n) ∈ splitOf viewz skyflatnum subs k) :
    ∃ side, ∃ m ∈ marks viewz skyflatnum subs side, m.x = x ∧ (m.top, m.bottom) = r ∧
      idx * 1024 + n ∈ plInstNum viewz skyflatnum subs ∧ n < 1024 ∧
      planeOf viewz skyflatnum subs side m =
        indexOf (plInstNum viewz skyflatnum subs) (idx * 1024 + n) := by
  have marked' := whole
  obtain ⟨j, w, side, wall, -, rfl, drawn⟩ := marked'
  have there : (⟨j + 1, x, r.1, r.2⟩ : Mark) ∈ marks viewz skyflatnum subs side :=
    (mem_marks subs).2 ⟨j, w, wall, rfl, drawn⟩
  obtain ⟨idx', k', n', key', marked'', answer', listed, owner⟩ := planeOf_eq there
  obtain rfl := markedBy_unique marked'' whole
  obtain rfl := splitOf_unique answer' answer
  obtain rfl := plKeys_inj key' key
  obtain ⟨-, -, small⟩ := exists_named frame answer
  exact ⟨side, _, there, rfl, rfl, listed, small, owner⟩

omit frame in
theorem indexOf_plInstNum {p num : Nat} :
    indexOf (plInstNum viewz skyflatnum subs) num = p + 1 ↔
      (plInstNum viewz skyflatnum subs)[p]? = some num :=
  indexOf_eq_iff (nodup_arrayDistinct _)

/-- The marks of one number are the columns of its plane. -/
theorem planeOf_group {p : Nat} (low : p < (plInstNum viewz skyflatnum subs).length) (x : Nat)
    (r : Int × Int) :
    (∃ side, ∃ m ∈ marks viewz skyflatnum subs side,
      planeOf viewz skyflatnum subs side m = p + 1 ∧ m.x = x ∧ (m.top, m.bottom) = r) ↔
    rowsAt (planesOf subs).visplanes (planeAt subs p) x = some r := by
  obtain ⟨num, k, i, found, key, place, at'⟩ := number_at frame low
  rw [at', ← holds_at place, ← content_iff frame]
  constructor
  · rintro ⟨side, m, there, number, rfl, rfl⟩
    obtain ⟨idx, k', n, key', marked', answer', -, owner⟩ := planeOf_eq there
    obtain ⟨-, -, small⟩ := exists_named frame answer'
    rw [owner, indexOf_plInstNum, found, Option.some.injEq] at number
    have quotient : num / 1024 = idx := by omega
    have rest : num % 1024 = n := by omega
    rw [quotient, key', Option.some.injEq] at key
    subst key
    exact ⟨_, marked', rest ▸ answer'⟩
  · rintro ⟨ev, whole, answer⟩
    obtain ⟨side, m, there, column, rows, -, -, owner⟩ := planeOf_of_answer frame key whole answer
    refine ⟨side, m, there, ?_, column, rows⟩
    rw [owner, indexOf_plInstNum, Nat.div_add_mod']
    exact found

/-- Two numbers stand for two planes. -/
theorem planeAt_inj {p q : Nat} (low : p < (plInstNum viewz skyflatnum subs).length)
    (low' : q < (plInstNum viewz skyflatnum subs).length) (same : planeAt subs p = planeAt subs q) :
    p = q := by
  obtain ⟨num, k, i, found, key, place, at'⟩ := number_at frame low
  obtain ⟨num', k', i', found', key', place', at''⟩ := number_at frame low'
  have one : i' = i := at''.symm.trans (same.symm.trans at')
  subst one
  obtain rfl := name_unique (List.mem_of_getElem? place) (List.mem_of_getElem? place')
  have quotients : num / 1024 = num' / 1024 := plKeys_inj key key'
  have rests : num % 1024 = num' % 1024 := (List.getElem?_inj
    (List.getElem?_eq_some_iff.1 place).1 (Engine.Visplanes.named_nodup _ _)).1
    (place.trans place'.symm)
  have equal : num = num' := by omega
  rw [← equal] at found'
  exact (List.getElem?_inj low (nodup_arrayDistinct _)).1 (found.trans found'.symm)

/-- Every plane that covers something has a number. -/
theorem exists_planeAt {i x : Nat} {r : Int × Int}
    (covered : rowsAt (planesOf subs).visplanes i x = some r) :
    ∃ p < (plInstNum viewz skyflatnum subs).length, planeAt subs p = i := by
  obtain ⟨pl, found⟩ : ∃ pl, (planesOf subs).visplanes[i]? = some pl := by
    cases found : (planesOf subs).visplanes[i]? with
    | none =>
      rw [rowsAt, found] at covered
      cases covered
    | some pl => exact ⟨pl, rfl⟩
  obtain ⟨n, place⟩ := List.mem_iff_getElem?.1 (Engine.Visplanes.mem_named.2 ⟨pl, found, rfl⟩)
  obtain ⟨ev, whole, answer⟩ := (content_iff frame pl.name n x r).2 ⟨i, place, covered⟩
  obtain ⟨j, w, side, wall, key, number, drawn⟩ := whole
  have listed : pl.name ∈ plKeys viewz skyflatnum subs := mem_arrayDistinct.2 (List.mem_map.2
    ⟨eventOf (j + 1) w side, (mem_plEv subs).2 ⟨j, w, side, wall, rfl,
      List.ne_nil_of_mem (mem_colsOf.2 ⟨_, drawn⟩)⟩, key⟩)
  obtain ⟨idx, key'⟩ := List.mem_iff_getElem?.1 listed
  obtain ⟨-, -, -, -, -, numbered, small, -⟩ :=
    planeOf_of_answer frame key' ⟨j, w, side, wall, key, number, drawn⟩ answer
  obtain ⟨p, found'⟩ := List.mem_iff_getElem?.1 numbered
  have quotient : (idx * 1024 + n) / 1024 = idx := by omega
  have rest : (idx * 1024 + n) % 1024 = n := by omega
  exact ⟨p, (List.getElem?_eq_some_iff.1 found').1,
    planeAt_eq found' (by rw [quotient, key']) (by rw [rest, place])⟩

/-- The planes the pass numbers are the engine's planes that cover something, with their names and
the rows of every column. -/
theorem marks_planes :
    (∀ p < (plInstNum viewz skyflatnum subs).length, ∃ pl,
      (planesOf subs).visplanes[planeAt subs p]? = some pl ∧
      (plInstName viewz skyflatnum subs)[p]? = some pl.name) ∧
    (∀ p q, p < (plInstNum viewz skyflatnum subs).length →
      q < (plInstNum viewz skyflatnum subs).length → planeAt subs p = planeAt subs q → p = q) ∧
    (∀ i x r, rowsAt (planesOf subs).visplanes i x = some r →
      ∃ p < (plInstNum viewz skyflatnum subs).length, planeAt subs p = i) ∧
    (∀ side, ∀ m ∈ marks viewz skyflatnum subs side, 1 ≤ planeOf viewz skyflatnum subs side m ∧
      planeOf viewz skyflatnum subs side m ≤ (plInstNum viewz skyflatnum subs).length) ∧
    ∀ p < (plInstNum viewz skyflatnum subs).length, ∀ x r,
      (∃ side, ∃ m ∈ marks viewz skyflatnum subs side,
        planeOf viewz skyflatnum subs side m = p + 1 ∧ m.x = x ∧ (m.top, m.bottom) = r) ↔
      rowsAt (planesOf subs).visplanes (planeAt subs p) x = some r := by
  refine ⟨fun p low => ?_, fun p q low low' => planeAt_inj frame low low',
    fun i x r => exists_planeAt frame, fun side m there => ?_, fun p low => planeOf_group frame low⟩
  · obtain ⟨num, k, i, found, key, place, at'⟩ := number_at frame low
    obtain ⟨pl, here, rfl⟩ := Engine.Visplanes.mem_named.1 (List.mem_of_getElem? place)
    refine ⟨pl, by rw [at', here], ?_⟩
    rw [plInstName, List.getElem?_map, found, Option.map_some, List.getD_eq_getElem?_getD, key,
      Option.getD_some]
  · obtain ⟨idx, k, n, -, -, -, listed, owner⟩ := planeOf_eq there
    obtain ⟨p, found⟩ := List.mem_iff_getElem?.1 listed
    have low := (List.getElem?_eq_some_iff.1 found).1
    rw [owner, indexOf_plInstNum.2 found]
    exact ⟨Nat.succ_le_succ (Nat.zero_le p), low⟩

end

end

/-! ## Two frames -/

/-- A sector whose floor is at the eye. -/
def hall : Sector := ⟨128, 1, 0, 2, 160⟩

theorem hall_seen {side : Side} (marks : decide (side = .ceiling) = true) :
    hall.seen 0 99 side = true := by
  obtain rfl := of_decide_eq_true marks
  decide

/-- A wall that marks the ceiling in one column. -/
def pillar (x : Nat) (low : x < 320) : Wall where
  x1 := x
  x2 := x
  mark := fun side => side = .ceiling
  rows := fun side y => if side = .ceiling ∧ y = x then some (0, 10) else none
  x2_lt := low
  rows_mark := by
    intro side y r drawn
    split_ifs at drawn with here
    cases drawn
    obtain ⟨rfl, rfl⟩ := here
    exact ⟨rfl, le_rfl, le_rfl, by decide, by decide, by decide⟩

/-- A wall in column 0 that checks the ceiling's plane and leaves it no row. -/
def lintel : Wall where
  x1 := 0
  x2 := 0
  mark := fun side => side = .ceiling
  rows := fun _ _ => none
  x2_lt := by decide
  rows_mark := fun _ _ _ drawn => by cases drawn

def porch : Subsector 0 99 where
  num := 0
  num_lt := by decide
  sector := hall
  walls := [pillar 0 (by decide)]
  seen := by
    intro w there side marks
    cases List.mem_singleton.1 there
    exact hall_seen marks

def nave : Subsector 0 99 where
  num := 1
  num_lt := by decide
  sector := hall
  walls := [lintel, pillar 1 (by decide)]
  seen := by
    intro w there side marks
    have walls : w = lintel ∨ w = pillar 1 (by decide) := by simpa using there
    rcases walls with rfl | rfl <;> exact hall_seen marks

/-- A wall that marks the ceiling in column 0, below what a pillar there marks. -/
def arch : Wall where
  x1 := 0
  x2 := 0
  mark := fun side => side = .ceiling
  rows := fun side y => if side = .ceiling ∧ y = 0 then some (11, 20) else none
  x2_lt := by decide
  rows_mark := by
    intro side y r drawn
    split_ifs at drawn with here
    cases drawn
    obtain ⟨rfl, rfl⟩ := here
    exact ⟨rfl, le_rfl, le_rfl, by decide, by decide, by decide⟩

/-- The hall seen again behind the porch. -/
def yard : Subsector 0 99 where
  num := 1
  num_lt := by decide
  sector := hall
  walls := [arch]
  seen := by
    intro w there side marks
    cases List.mem_singleton.1 there
    exact hall_seen marks

theorem yard_frame : Frame [porch, yard] where
  once := by decide
  few := by decide
  fits := by
    intro pre sub w post same
    rcases pre with - | ⟨first, - | ⟨second, - | ⟨third, - | ⟨fourth, pre⟩⟩⟩⟩
    · cases same
    · cases same
      refine ⟨fun marks => (by cases marks), fun side marks none => ?_⟩
      obtain rfl : side = .ceiling := of_decide_eq_true marks
      cases none 0
    · cases same
    · cases same
      refine ⟨fun marks => (by cases marks), fun side marks none => ?_⟩
      obtain rfl : side = .ceiling := of_decide_eq_true marks
      cases none 0
    · have length := congrArg List.length same
      simp [steps, porch, yard] at length

/-- The column of the porch is taken when the yard comes to it, so one ceiling makes two planes. -/
theorem marks_planes_yard : Frame [porch, yard] ∧ (plInstNum 0 99 [porch, yard]).length = 2 ∧
    ∀ p < (plInstNum 0 99 [porch, yard]).length,
      (∃ pl, (planesOf [porch, yard]).visplanes[planeAt [porch, yard] p]? = some pl ∧
        (plInstName 0 99 [porch, yard])[p]? = some pl.name) ∧
      ∀ x r, (∃ side, ∃ m ∈ marks 0 99 [porch, yard] side,
          planeOf 0 99 [porch, yard] side m = p + 1 ∧ m.x = x ∧ (m.top, m.bottom) = r) ↔
        rowsAt (planesOf [porch, yard]).visplanes (planeAt [porch, yard] p) x = some r := by
  have planes := marks_planes yard_frame
  have two : (plInstNum 0 99 [porch, yard]).length = 2 := by
    have answers : splitOf 0 99 [porch, yard] = fun key =>
        ((eventsFrom key 1 (walls 0 99 [porch, yard])).foldl splitStep splitStart).answer :=
      funext (splitOf_eq [porch, yard])
    rw [plInstNum, plEvInst, plSplit, answers]
    decide +kernel
  exact ⟨yard_frame, two, fun p low => ⟨planes.1 p low, planes.2.2.2.2 p low⟩⟩

/-- The engine gives the second pillar a plane of its own, which the lintel made. -/
theorem rowsAt_nave (i : Nat) : rowsAt (planesOf [porch, nave]).visplanes i 0 = none ∨
    rowsAt (planesOf [porch, nave]).visplanes i 1 = none := by
  rcases i with - | - | i
  · exact .inr (by decide)
  · exact .inl (by decide)
  · have length : (planesOf [porch, nave]).visplanes.length = 2 := by decide
    refine .inl ?_
    rw [rowsAt, List.getElem?_eq_none (by omega)]

/-- The lintel leaves no event, so the pass puts both pillars on one plane, which no plane of the
engine's is. -/
theorem marks_planes_nave : ¬ ∃ plane : Nat → Nat, ∀ p < (plInstNum 0 99 [porch, nave]).length,
    ∀ x r, (∃ side, ∃ m ∈ marks 0 99 [porch, nave] side,
      planeOf 0 99 [porch, nave] side m = p + 1 ∧ m.x = x ∧ (m.top, m.bottom) = r) ↔
    rowsAt (planesOf [porch, nave]).visplanes (plane p) x = some r := by
  rintro ⟨plane, group⟩
  have first : (⟨1, 0, 0, 10⟩ : Mark) ∈ marks 0 99 [porch, nave] .ceiling :=
    (mem_marks _).2 ⟨0, (porch, pillar 0 (by decide)), rfl, rfl, rfl⟩
  have second : (⟨3, 1, 0, 10⟩ : Mark) ∈ marks 0 99 [porch, nave] .ceiling :=
    (mem_marks _).2 ⟨2, (nave, pillar 1 (by decide)), rfl, rfl, rfl⟩
  obtain ⟨idx, k, n, key, marked, answer, listed, owner⟩ := planeOf_eq first
  obtain ⟨idx', k', n', key', marked', answer', -, owner'⟩ := planeOf_eq second
  -- both events are of the hall's ceiling, and both are answered with its first plane
  have own : MarkedBy ⟨128, 1, 160⟩ (walls 0 99 [porch, nave]) 2 0 (0, 10) :=
    ⟨0, (porch, pillar 0 (by decide)), .ceiling, rfl, rfl, rfl, rfl⟩
  have own' : MarkedBy ⟨128, 1, 160⟩ (walls 0 99 [porch, nave]) 6 1 (0, 10) :=
    ⟨2, (nave, pillar 1 (by decide)), .ceiling, rfl, rfl, rfl, rfl⟩
  obtain rfl := markedBy_unique marked own
  obtain rfl := markedBy_unique marked' own'
  have answers : splitOf 0 99 [porch, nave] ⟨128, 1, 160⟩ = [(2, 0), (6, 0)] := by
    rw [splitOf_eq]
    decide +kernel
  rw [answers] at answer answer'
  have zero : n = 0 := by simpa [kind] using answer
  have zero' : n' = 0 := by simpa [kind] using answer'
  subst zero
  subst zero'
  obtain rfl := plKeys_inj key key'
  obtain ⟨p, found⟩ := List.mem_iff_getElem?.1 listed
  have low := (List.getElem?_eq_some_iff.1 found).1
  have number := indexOf_plInstNum.2 found
  have here := (group p low 0 (0, 10)).1
    ⟨.ceiling, _, first, owner.trans number, rfl, rfl⟩
  have there := (group p low 1 (0, 10)).1
    ⟨.ceiling, _, second, owner'.trans number, rfl, rfl⟩
  rcases rowsAt_nave (plane p) with none | none
  · rw [none] at here
    cases here
  · rw [none] at there
    cases there

end ClickDoom.Native.Visplanes

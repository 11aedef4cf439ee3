import ClickDoom.Native.Sight

/-! # The sight check answers what the walk answers

Where no difference of coordinates leaves 32 bits, the 64-bit side test and intercept are
the engine's.  The path test then picks the subsectors of the engine's descent, and the
comparison over all their segs is the engine's walk, which only narrows.
-/
namespace ClickDoom.Native.Sight
open Engine (SightLevel Viewer Seg Line Subsector Divline Sighting Slopes truth)
open RunningCounts SignedWords

/-! ## The 64-bit routines where nothing wraps -/

theorem widen_shiftRight16 (x : Int32) : x.toInt64 >>> 16 = (x >>> 16).toInt64 :=
  widen_shiftRight x rfl rfl

theorem widen_shiftRight8 (x : Int32) : x.toInt64 >>> 8 = (x >>> 8).toInt64 :=
  widen_shiftRight x rfl rfl

/-- No difference of a point and a line that runs on both axes leaves 32 bits; by a line
along an axis the side test forms none. -/
def SideFits (x y : Int32) (line : Divline) : Prop :=
  line.dx ≠ 0 → line.dy ≠ 0 → NoWrap x line.x ∧ NoWrap y line.y

instance (x y : Int32) (line : Divline) : Decidable (SideFits x y line) :=
  inferInstanceAs (Decidable (_ → _ → _))

theorem divlineSide_eq {x y : Int32} {line : Divline} (fits : SideFits x y line) :
    divlineSide x.toInt64 y.toInt64 line.x.toInt64 line.y.toInt64 line.dx.toInt64
      line.dy.toInt64 = Engine.divlineSide x y line := by
  have zero : ∀ a : Int32, a.toInt64 = 0 ↔ a = 0 := fun a => by rw [← widen_zero, widen_inj]
  have pos : ∀ a : Int32, a.toInt64 > 0 ↔ a > 0 := fun a => by
    rw [gt_iff_lt, ← widen_zero, widen_lt]
  have neg : ∀ a : Int32, a.toInt64 < 0 ↔ a < 0 := fun a => by rw [← widen_zero, widen_lt]
  simp only [divlineSide, Engine.divlineSide, zero, pos, neg, widen_inj, widen_le]
  by_cases vertical : line.dx = 0
  · simp only [if_pos vertical]
  · by_cases horizontal : line.dy = 0
    · simp only [if_neg vertical, if_pos horizontal]
    · obtain ⟨hx, hy⟩ := fits vertical horizontal
      simp only [if_neg vertical, if_neg horizontal, widen_sub hx, widen_sub hy,
        widen_shiftRight16, Int64.toInt32_mul, Int32.toInt32_toInt64]

theorem fixedMul_eq (a b : Int32) : fixedMul a.toInt64 b.toInt64 = Engine.fixedMul a b := rfl

theorem interceptVector_eq {trace line : Divline} (hx : NoWrap line.x trace.x)
    (hy : NoWrap trace.y line.y) :
    interceptVector trace.x.toInt64 trace.y.toInt64 trace.dx.toInt64 trace.dy.toInt64
      line.x.toInt64 line.y.toInt64 line.dx.toInt64 line.dy.toInt64 =
      Engine.interceptVector trace line := by
  simp only [interceptVector, Engine.interceptVector, widen_sub hx, widen_sub hy,
    widen_shiftRight8, fixedMul_eq, Fixed.sub32_eq, Fixed.add32_eq, Fixed.fixedDiv_eq]

/-- The segs of the subsectors that a descent that is not cut short crosses. -/
def alongTrace (level : SightLevel) (depth : Nat) (t1 t2 : Viewer) : List Seg :=
  (Engine.descended level.nodes (Engine.sighting t1 t2) (depth + 1)
    (Engine.headNode level)).flatMap level.segsAt

/-- No difference of coordinates formed at a line leaves 32 bits: those of the viewers
where the line's ends part, those of the intercept where the line narrows the view. -/
structure LineFits (t1 t2 : Viewer) (line : Line) (opening : Engine.Opening) : Prop where
  trace_x : NoWrap t2.x t1.x
  trace_y : NoWrap t2.y t1.y
  v1 : SideFits line.v1x line.v1y (Engine.sighting t1 t2).strace
  v2 : SideFits line.v2x line.v2y (Engine.sighting t1 t2).strace
  viewers : Engine.divlineSide line.v1x line.v1y (Engine.sighting t1 t2).strace ≠
    Engine.divlineSide line.v2x line.v2y (Engine.sighting t1 t2).strace →
    SideFits t1.x t1.y line.divline ∧ SideFits t2.x t2.y line.divline
  intercept : Engine.isWall line opening (Engine.sighting t1 t2) = true →
    opening.openbottom < opening.opentop → NoWrap line.v1x t1.x ∧ NoWrap t1.y line.v1y

/-- No difference of coordinates that the descent of a pair and its crossings form leaves
32 bits. -/
structure Near (level : SightLevel) (depth : Nat) (t1 t2 : Viewer) : Prop where
  nodes : ∀ node ∈ Engine.passed level.nodes (Engine.sighting t1 t2) (depth + 1)
    (Engine.headNode level),
    SideFits t1.x t1.y node.toDivline ∧ SideFits t2.x t2.y node.toDivline
  lines : ∀ seg ∈ alongTrace level depth t1 t2,
    LineFits t1 t2 (level.lines.getD seg.line default) seg.opening

variable {level : SightLevel} {paths : List (List (Nat × Nat))} {depth : Nat} {t1 t2 : Viewer}

theorem trace_dx (hx : NoWrap t2.x t1.x) :
    (trace t1 t2).dx = (Engine.sighting t1 t2).strace.dx.toInt64 := widen_sub hx

theorem trace_dy (hy : NoWrap t2.y t1.y) :
    (trace t1 t2).dy = (Engine.sighting t1 t2).strace.dy.toInt64 := widen_sub hy

theorem trace_zstart (t1 t2 : Viewer) :
    (trace t1 t2).zstart = (Engine.sighting t1 t2).sightzstart := by
  have shift : t1.height.toInt64 >>> 2 = (t1.height >>> 2).toInt64 := widen_shiftRight _ rfl rfl
  simp [trace, Engine.sighting, shift]

theorem trace_top0 (t1 t2 : Viewer) :
    (trace t1 t2).top0 = (Engine.firstSlopes t1 t2).topslope := by
  have shift : t1.height.toInt64 >>> 2 = (t1.height >>> 2).toInt64 := widen_shiftRight _ rfl rfl
  simp [trace, Engine.firstSlopes, Engine.sighting, shift]

theorem trace_bottom0 (t1 t2 : Viewer) :
    (trace t1 t2).bottom0 = (Engine.firstSlopes t1 t2).bottomslope := by
  have shift : t1.height.toInt64 >>> 2 = (t1.height >>> 2).toInt64 := widen_shiftRight _ rfl rfl
  simp [trace, Engine.firstSlopes, Engine.sighting, shift]

/-! ## The path test -/

/-- The paths are the ancestor paths of the level's node tree, one a subsector, each past
a partition line or more. -/
structure AncestorPaths (level : SightLevel) (paths : List (List (Nat × Nat))) (depth : Nat) :
    Prop where
  tree : Engine.Subtree level.nodes (Engine.headNode level) depth
  named : ∀ path leaf, Engine.AncestorPath level.nodes (Engine.headNode level) path leaf →
    paths[Engine.subsectorOf leaf]? = some path
  leads : ∀ i path, paths[i]? = some path → ∃ leaf,
    Engine.AncestorPath level.nodes (Engine.headNode level) path leaf ∧
      Engine.subsectorOf leaf = i
  nonempty : ∀ path ∈ paths, path ≠ []
  length_eq : paths.length = level.subsectors.length

theorem AncestorPaths.leavesNamed (ancestors : AncestorPaths level paths depth) :
    Engine.LeavesNamed level (Engine.headNode level) := by
  intro path leaf way
  have found := ancestors.named path leaf way
  rw [← ancestors.length_eq]
  exact (List.getElem?_eq_some_iff.1 found).1

theorem ancestorPath_nodes {bspnum leaf : UInt32} {path : List (Nat × Nat)}
    (way : Engine.AncestorPath level.nodes bspnum path leaf) :
    ∀ step ∈ path, ∃ node, level.nodes.list[step.1]? = some node := by
  induction way with
  | leaf _ => simp
  | step _ found _ _ ih =>
    rintro step member
    rcases List.mem_cons.1 member with rfl | member
    · exact ⟨_, found⟩
    · exact ih step member

/-- A step is shut where the trace does not take it. -/
theorem pathShut_eq {step : Nat × Nat} {node : Engine.Node}
    (found : level.nodes.list[step.1]? = some node) (fits1 : SideFits t1.x t1.y node.toDivline)
    (fits2 : SideFits t2.x t2.y node.toDivline) :
    pathShut level (trace t1 t2) step =
      !Engine.takes level.nodes (Engine.sighting t1 t2) step := by
  have start : divlineSide t1.x.toInt64 t1.y.toInt64 node.x.toInt64 node.y.toInt64
      node.dx.toInt64 node.dy.toInt64 = Engine.divlineSide t1.x t1.y node.toDivline :=
    divlineSide_eq fits1
  have finish : divlineSide t2.x.toInt64 t2.y.toInt64 node.x.toInt64 node.y.toInt64
      node.dx.toInt64 node.dy.toInt64 = Engine.divlineSide t2.x t2.y node.toDivline :=
    divlineSide_eq fits2
  simp only [pathShut, Engine.takes, Engine.getD_of_getElem? found, trace, start, finish,
    Engine.startSide, Engine.endSide, Engine.sighting]

/-- Two tests agree on a whole list where they agree at each entry that the second one
lets the list come to. -/
theorem forall_mem_congr_along {α : Type} {P Q : α → Prop} {list : List α}
    (same : ∀ before a rest, list = before ++ a :: rest → (∀ b ∈ before, Q b) → (P a ↔ Q a)) :
    (∀ a ∈ list, P a) ↔ ∀ a ∈ list, Q a := by
  induction list with
  | nil => simp
  | cons a list ih =>
    have here : P a ↔ Q a := same [] a list rfl (by simp)
    rw [List.forall_mem_cons, List.forall_mem_cons, here]
    refine and_congr_right fun holds => ih ?_
    rintro before b rest rfl passed
    exact same (a :: before) b rest rfl (List.forall_mem_cons.2 ⟨holds, passed⟩)

/-- No step of a path is shut exactly where the trace takes every one: the nodes past a
step that is not taken do not matter. -/
theorem path_open_iff (near : Near level depth t1 t2)
    (tree : Engine.Subtree level.nodes (Engine.headNode level) depth)
    {path : List (Nat × Nat)} {leaf : UInt32}
    (way : Engine.AncestorPath level.nodes (Engine.headNode level) path leaf) :
    (∀ step ∈ path, (!pathShut level (trace t1 t2) step) = true) ↔
      ∀ step ∈ path, Engine.takes level.nodes (Engine.sighting t1 t2) step = true := by
  refine forall_mem_congr_along ?_
  intro before step rest split taken
  obtain ⟨node, found⟩ := ancestorPath_nodes way step (by simp [split])
  obtain ⟨fits1, fits2⟩ := near.nodes node
    (Engine.mem_passed tree depth.lt_succ_self way split taken found)
  rw [pathShut_eq found fits1 fits2, Bool.not_not]

theorem range'_firstMarks (n : Nat) :
    (List.range' 1 (n + 1)).map (· == 1) = true :: List.replicate n false := by
  rw [List.range'_succ, List.map_cons]
  congr 1
  rw [List.eq_replicate_iff]
  refine ⟨by simp, ?_⟩
  intro b member
  obtain ⟨i, hi, rfl⟩ := List.mem_map.1 member
  have := (List.mem_range'_1.1 hi).1
  simp
  omega

theorem range'_lastMarks (n : Nat) :
    (List.range' 1 (n + 1)).map (· == n + 1) = List.replicate n false ++ [true] := by
  rw [List.range'_1_concat, List.map_append]
  congr 1
  · rw [List.eq_replicate_iff]
    refine ⟨by simp, ?_⟩
    intro b member
    obtain ⟨i, hi, rfl⟩ := List.mem_map.1 member
    have := (List.mem_range'_1.1 hi).2
    simp
    omega
  · simp [Nat.add_comm]

/-- The markers are the ends of the paths. -/
theorem pathMarks_eq (nonempty : ∀ path ∈ paths, path ≠ []) :
    pathBefore paths = firstMarks paths ++ [false] ∧ pathAfter paths = false :: lastMarks paths := by
  have first : ∀ path ∈ paths, (List.range' 1 path.length).map (· == 1) =
      true :: List.replicate (path.length - 1) false := by
    intro path member
    obtain ⟨step, path, rfl⟩ := List.exists_cons_of_ne_nil (nonempty path member)
    exact range'_firstMarks path.length
  have last : ∀ path ∈ paths, (List.range' 1 path.length).map (· == path.length) =
      List.replicate (path.length - 1) false ++ [true] := by
    intro path member
    obtain ⟨step, path, rfl⟩ := List.exists_cons_of_ne_nil (nonempty path member)
    exact range'_lastMarks path.length
  exact ⟨by rw [pathBefore, firstMarks, List.flatMap_congr first],
    by rw [pathAfter, lastMarks, List.flatMap_congr last]⟩

/-- The path test reaches the subsectors of the engine's descent. -/
theorem reached_iff {fuel : Nat} (ancestors : AncestorPaths level paths depth)
    (near : Near level depth t1 t2) (enough : depth < fuel) (num : Nat) :
    (reached level paths (trace t1 t2)).getD num false = true ↔
      num ∈ Engine.descended level.nodes (Engine.sighting t1 t2) fuel (Engine.headNode level) := by
  have flat : reached level paths (trace t1 t2) =
      paths.map fun path => path.all fun step => !pathShut level (trace t1 t2) step := by
    obtain ⟨before, after⟩ := pathMarks_eq ancestors.nonempty
    rw [reached, before, after]
    exact zipWith_pick_eq _ 0 ancestors.nonempty
  rw [flat, Engine.mem_descended ancestors.tree enough, List.getD_eq_getElem?_getD,
    List.getElem?_map]
  constructor
  · intro all
    cases found : paths[num]? with
    | none => simp [found] at all
    | some path =>
      obtain ⟨leaf, way, named⟩ := ancestors.leads num path found
      rw [found, Option.map_some, Option.getD_some, List.all_eq_true] at all
      exact ⟨path, leaf, way, named, (path_open_iff near ancestors.tree way).1 all⟩
  · rintro ⟨path, leaf, way, rfl, takes⟩
    rw [ancestors.named path leaf way, Option.map_some, Option.getD_some, List.all_eq_true]
    exact (path_open_iff near ancestors.tree way).2 takes

/-! ## The segs of the reached subsectors -/

theorem segSubsector_eq (level : SightLevel) :
    segSubsector level = labels 0 (level.subsectors.map Subsector.numlines) := by
  have sorted : level.subsectors.zipIdx.Pairwise fun a b => a.1.firstline ≤ b.1.firstline := by
    rw [List.pairwise_iff_getElem]
    intro i j hi hj less
    have hi' : i < level.subsectors.length := by simpa using hi
    have hj' : j < level.subsectors.length := by simpa using hj
    rw [List.getElem_zipIdx, List.getElem_zipIdx, level.firstline_eq i hi',
      level.firstline_eq j hj']
    have cut : level.subsectors.take j =
        level.subsectors.take i ++ (level.subsectors.take j).drop i := by
      conv_lhs => rw [← List.take_append_drop i (level.subsectors.take j)]
      rw [List.take_take, min_eq_left less.le]
    rw [cut, List.map_append, List.sum_append]
    exact Nat.le_add_right _ _
  rw [segSubsector, sorted.insertionSort_eq, flatMap_zipIdx_eq_labels]

theorem mem_segs_subsector {seg : Seg} {num : Nat} :
    (seg, num) ∈ level.segs.zip (segSubsector level) ↔
      num < level.subsectors.length ∧ seg ∈ level.segsAt num := by
  rw [segSubsector_eq, mem_zip_labels level.numlines_sum]
  constructor
  · rintro ⟨i, inside, rfl, member⟩
    have inside' : i < level.subsectors.length := by simpa using inside
    refine ⟨by omega, ?_⟩
    rw [SightLevel.segsAt, SightLevel.segsOf, Nat.zero_add, List.getD_eq_getElem _ _ inside',
      level.firstline_eq i inside']
    simpa [List.map_take] using member
  · rintro ⟨inside, member⟩
    refine ⟨num, by simpa using inside, by omega, ?_⟩
    rw [SightLevel.segsAt, SightLevel.segsOf, List.getD_eq_getElem _ _ inside,
      level.firstline_eq num inside] at member
    simpa [List.map_take] using member

/-- The segs the crossing looks at are those of the engine's descent. -/
theorem mem_reachedSegs {fuel : Nat} (ancestors : AncestorPaths level paths depth)
    (near : Near level depth t1 t2) (enough : depth < fuel) (seg : Seg) :
    seg ∈ reachedSegs level paths (trace t1 t2) ↔
      seg ∈ (Engine.descended level.nodes (Engine.sighting t1 t2) fuel
        (Engine.headNode level)).flatMap level.segsAt := by
  have named : ∀ num, num ∈ Engine.descended level.nodes (Engine.sighting t1 t2) fuel
      (Engine.headNode level) → num < level.subsectors.length := by
    intro num member
    obtain ⟨path, leaf, way, rfl, -⟩ := (Engine.mem_descended ancestors.tree enough).1 member
    exact ancestors.leavesNamed path leaf way
  simp only [reachedSegs, List.mem_map, List.mem_filter, List.mem_flatMap]
  constructor
  · rintro ⟨⟨seg', num⟩, ⟨member, reaches⟩, rfl⟩
    exact ⟨num, (reached_iff ancestors near enough num).1 reaches, (mem_segs_subsector.1 member).2⟩
  · rintro ⟨num, reaches, member⟩
    exact ⟨(seg, num), ⟨mem_segs_subsector.2 ⟨named num reaches, member⟩,
      (reached_iff ancestors near enough num).2 reaches⟩, rfl⟩

/-! ## What a seg does -/

theorem not_ge_eq (a b : Int32) : decide (a < b) = !decide (a ≥ b) := by
  rw [← decide_not]
  exact decide_eq_decide.2 Int32.not_le.symm

theorem interceptVector_ok (tx ty tdx tdy lx ly ldx ldy : Int64) :
    ∃ frac, interceptVector tx ty tdx tdy lx ly ldx ldy = .ok frac := by
  simp only [interceptVector, Fixed.fixedDiv_eq]
  split
  · exact ⟨0, rfl⟩
  · exact Engine.fixedDiv_ok fun trap => absurd trap.2 ‹_›

/-- A slope that is taken or left. -/
theorem slope_ok {height zstart frac : Int32} {taken : Bool}
    (clear : taken = true → frac = 0 → height - zstart ≠ Int32.minValue) (left : Int32) :
    (if taken = true then Fixed.fixedDiv (Fixed.sub32 height zstart) frac else .ok left) =
      .ok (if taken then Engine.valueOf (Engine.fixedDiv (height - zstart) frac) else left) := by
  cases taken with
  | true =>
    obtain ⟨slope, eq⟩ := Engine.fixedDiv_ok fun trap => clear rfl trap.2 trap.1
    simp [Fixed.fixedDiv_eq, Fixed.sub32_eq, eq, Engine.valueOf]
  | false => rfl

/-- No slope past a seg's opening divides the one number a quotient by zero has no value
for. -/
def Clear (level : SightLevel) (t : Trace) (seg : Seg) : Prop :=
  wall level t seg = true → seg.opening.openbottom < seg.opening.opentop →
    frac level t seg = .ok 0 →
      (seg.opening.ducked = true → seg.opening.opentop - t.zstart ≠ Int32.minValue) ∧
      (seg.opening.stepped = true → seg.opening.openbottom - t.zstart ≠ Int32.minValue)

/-- The crossing of a seg by its two slopes, which have values where its opening is clear. -/
theorem crossing_value {t : Trace} {seg : Seg} (clear : Clear level t seg) {part : Int32}
    (eqFrac : frac level t seg = .ok part) :
    crossing level t seg = .ok
      (let narrows := wall level t seg && decide (seg.opening.openbottom < seg.opening.opentop)
       let slope (height : Int32) := Engine.valueOf (Engine.fixedDiv (height - t.zstart) part)
       { shut := (crosses level t seg && !(level.lines.getD seg.line default).twosided) ||
          (wall level t seg && decide (seg.opening.openbottom ≥ seg.opening.opentop))
         top := (if narrows && seg.opening.ducked then slope seg.opening.opentop
          else t.top0).toInt
         bottom := (if narrows && seg.opening.stepped then slope seg.opening.openbottom
          else t.bottom0).toInt }) := by
  have top : (wall level t seg && decide (seg.opening.openbottom < seg.opening.opentop) &&
      seg.opening.ducked) = true → part = 0 → seg.opening.opentop - t.zstart ≠ Int32.minValue := by
    rintro taken rfl
    obtain ⟨⟨walls, opens⟩, ducked⟩ : (_ ∧ _) ∧ _ := by simpa using taken
    exact (clear walls opens eqFrac).1 ducked
  have bottom : (wall level t seg && decide (seg.opening.openbottom < seg.opening.opentop) &&
      seg.opening.stepped) = true → part = 0 →
      seg.opening.openbottom - t.zstart ≠ Int32.minValue := by
    rintro taken rfl
    obtain ⟨⟨walls, opens⟩, stepped⟩ : (_ ∧ _) ∧ _ := by simpa using taken
    exact (clear walls opens eqFrac).2 stepped
  simp only [crossing, eqFrac, Engine.ok_bind, slope_ok top, slope_ok bottom]
  rfl

/-- The crossing of a seg always has a value where its opening is clear of the eye. -/
theorem crossing_ok {t : Trace} {seg : Seg} (clear : Clear level t seg) :
    ∃ crossed, crossing level t seg = .ok crossed := by
  obtain ⟨part, eqFrac⟩ : ∃ part, frac level t seg = .ok part := interceptVector_ok ..
  exact ⟨_, crossing_value clear eqFrac⟩

section
variable {seg : Seg}

theorem crosses_eq
    (fits : LineFits t1 t2 (level.lines.getD seg.line default) seg.opening) :
    crosses level (trace t1 t2) seg =
      (level.lines.getD seg.line default).crossed (Engine.sighting t1 t2) := by
  rw [crosses]
  generalize level.lines.getD seg.line default = line at fits
  have traceSide : ∀ {x y : Int32}, SideFits x y (Engine.sighting t1 t2).strace →
      divlineSide x.toInt64 y.toInt64 (trace t1 t2).x1 (trace t1 t2).y1 (trace t1 t2).dx
        (trace t1 t2).dy = Engine.divlineSide x y (Engine.sighting t1 t2).strace := by
    intro x y side
    rw [trace_dx fits.trace_x, trace_dy fits.trace_y]
    exact divlineSide_eq side
  simp only [traceSide fits.v1, traceSide fits.v2, Line.crossed]
  by_cases part : Engine.divlineSide line.v1x line.v1y (Engine.sighting t1 t2).strace =
      Engine.divlineSide line.v2x line.v2y (Engine.sighting t1 t2).strace
  · simp [part]
  · obtain ⟨fits1, fits2⟩ := fits.viewers part
    have lineSide1 : divlineSide (trace t1 t2).x1 (trace t1 t2).y1 line.v1x.toInt64
        line.v1y.toInt64 line.divline.dx.toInt64 line.divline.dy.toInt64 =
        Engine.divlineSide t1.x t1.y line.divline := divlineSide_eq fits1
    have lineSide2 : divlineSide (trace t1 t2).x2 (trace t1 t2).y2 line.v1x.toInt64
        line.v1y.toInt64 line.divline.dx.toInt64 line.divline.dy.toInt64 =
        Engine.divlineSide t2.x t2.y line.divline := divlineSide_eq fits2
    rw [lineSide1, lineSide2]
    rfl

theorem wall_eq (fits : LineFits t1 t2 (level.lines.getD seg.line default) seg.opening) :
    wall level (trace t1 t2) seg = Engine.isWall (level.lines.getD seg.line default) seg.opening
      (Engine.sighting t1 t2) := by
  rw [wall, crosses_eq fits, Engine.isWall]

theorem frac_eq (fits : LineFits t1 t2 (level.lines.getD seg.line default) seg.opening)
    (walls : wall level (trace t1 t2) seg = true)
    (opens : seg.opening.openbottom < seg.opening.opentop) :
    frac level (trace t1 t2) seg = Engine.interceptVector (Engine.sighting t1 t2).strace
      (level.lines.getD seg.line default).divline := by
  obtain ⟨hx, hy⟩ := fits.intercept (by rw [← wall_eq fits, walls]) opens
  rw [frac]
  generalize level.lines.getD seg.line default = line at fits hx hy
  rw [trace_dx fits.trace_x, trace_dy fits.trace_y]
  exact @interceptVector_eq (Engine.sighting t1 t2).strace line.divline hx hy

theorem engine_clear (fits : LineFits t1 t2 (level.lines.getD seg.line default) seg.opening)
    (clear : Clear level (trace t1 t2) seg) :
    Engine.Clear (Engine.sighting t1 t2) (level.lines.getD seg.line default) seg.opening := by
  intro walls opens atZero
  rw [← wall_eq fits] at walls
  rw [← trace_zstart]
  exact clear walls opens ((frac_eq fits walls opens).trans atZero)

/-- The crossing of a seg is its line's effect on the view. -/
theorem crossing_eq (fits : LineFits t1 t2 (level.lines.getD seg.line default) seg.opening)
    (clear : Clear level (trace t1 t2) seg) :
    crossing level (trace t1 t2) seg = .ok
      (let e := Engine.segEffect (level.lines.getD seg.line default) seg.opening
        (Engine.sighting t1 t2) (Engine.firstSlopes t1 t2)
       ⟨e.shut, e.top, e.bottom⟩) := by
  obtain ⟨part, eqFrac⟩ : ∃ part, frac level (trace t1 t2) seg = .ok part :=
    interceptVector_ok ..
  rw [crossing_value clear eqFrac]
  cases narrows : wall level (trace t1 t2) seg &&
      decide (seg.opening.openbottom < seg.opening.opentop) with
  | true =>
    obtain ⟨walls, opens⟩ : wall level (trace t1 t2) seg = true ∧
        seg.opening.openbottom < seg.opening.opentop := by simpa using narrows
    have eqEngine := (frac_eq fits walls opens).symm.trans eqFrac
    have shows : decide (seg.opening.openbottom ≥ seg.opening.opentop) = false :=
      decide_eq_false (Int32.not_le.2 opens)
    simp only [Engine.segEffect, ← wall_eq fits, walls, shows, eqEngine, crosses_eq fits,
      Engine.valueOf, trace_zstart, trace_top0, trace_bottom0, apply_ite Int32.toInt]
    rfl
  | false =>
    have keeps : (Engine.isWall (level.lines.getD seg.line default) seg.opening
        (Engine.sighting t1 t2) &&
          !decide (seg.opening.openbottom ≥ seg.opening.opentop)) = false := by
      rw [← wall_eq fits, ← not_ge_eq, narrows]
    simp only [Engine.segEffect, wall_eq fits, crosses_eq fits, keeps, trace_top0, trace_bottom0,
      Bool.false_and, if_neg Bool.false_ne_true]

end

/-! ## The answer for a pair -/

theorem mem_segs_of_reached {seg : Seg} {t : Trace} (member : seg ∈ reachedSegs level paths t) :
    seg ∈ level.segs := by
  obtain ⟨⟨seg', num⟩, found, rfl⟩ := List.mem_map.1 member
  exact (List.of_mem_zip (List.mem_filter.1 found).1).1

theorem mapM_ok_exists {α β : Type} {f : α → Except Trap β} {list : List α}
    (h : ∀ a ∈ list, ∃ b, f a = .ok b) : ∃ bs, list.mapM f = .ok bs := by
  induction list with
  | nil => exact ⟨[], rfl⟩
  | cons a list ih =>
    obtain ⟨b, eq⟩ := h a List.mem_cons_self
    obtain ⟨bs, eqs⟩ := ih fun other member => h other (List.mem_cons_of_mem _ member)
    refine ⟨b :: bs, ?_⟩
    rw [List.mapM_cons, eq, Engine.ok_bind, eqs, Engine.ok_bind]
    rfl

theorem sees_of_crossed {crossed : List CrossedSeg}
    (eq : (reachedSegs level paths (trace t1 t2)).mapM (crossing level (trace t1 t2)) =
      .ok crossed) :
    sees level paths (t1, t2) = .ok (unobstructed (trace t1 t2) crossed) := by
  show ((reachedSegs level paths (trace t1 t2)).mapM (crossing level (trace t1 t2)) >>= _) = _
  rw [eq]
  rfl

theorem sees_ok
    (clear : ∀ seg ∈ reachedSegs level paths (trace t1 t2), Clear level (trace t1 t2) seg) :
    ∃ seen, sees level paths (t1, t2) = .ok seen := by
  obtain ⟨crossed, eq⟩ := mapM_ok_exists fun seg member => crossing_ok (clear seg member)
  exact ⟨_, sees_of_crossed eq⟩

/-- What the segs of a line do: those of one line carry one opening. -/
def lineEffect (level : SightLevel) (t1 t2 : Viewer) (number : Nat) : Narrowing.Effect Int :=
  match level.segs.find? fun seg => seg.line == number with
  | some seg => Engine.segEffect (level.lines.getD number default) seg.opening
      (Engine.sighting t1 t2) (Engine.firstSlopes t1 t2)
  | none => ⟨false, 0, 0⟩

theorem lineEffect_eq
    (agree : ∀ seg ∈ level.segs, ∀ seg' ∈ level.segs, seg.line = seg'.line →
      seg.opening = seg'.opening) {seg : Seg} (member : seg ∈ level.segs) :
    lineEffect level t1 t2 seg.line = Engine.segEffect (level.lines.getD seg.line default)
      seg.opening (Engine.sighting t1 t2) (Engine.firstSlopes t1 t2) := by
  rw [lineEffect]
  cases found : level.segs.find? fun other => other.line == seg.line with
  | none =>
    have := List.find?_eq_none.1 found seg member
    simp at this
  | some other =>
    have same : other.line = seg.line := by simpa using List.find?_some found
    show Engine.segEffect _ other.opening _ _ = _
    rw [agree other (List.mem_of_find?_eq_some found) seg member same]

/-- For a pair the matrix lets through, the comparison at the end is the engine's walk. -/
theorem sees_eq {fuel : Nat} (ancestors : AncestorPaths level paths depth)
    (agree : ∀ seg ∈ level.segs, ∀ seg' ∈ level.segs, seg.line = seg'.line →
      seg.opening = seg'.opening) (near : Near level depth t1 t2)
    (clear : ∀ seg ∈ reachedSegs level paths (trace t1 t2), Clear level (trace t1 t2) seg)
    (backed : ∀ seg ∈ alongTrace level depth t1 t2,
      Engine.Backed (Engine.sighting t1 t2) (level.lines.getD seg.line default) seg.opening)
    (apart : (Engine.firstSlopes t1 t2).bottomslope < (Engine.firstSlopes t1 t2).topslope)
    (enough : depth < fuel) :
    (sees level paths (t1, t2) = .ok true ∧ ∃ slopes, Engine.crossBspNode level
      (Engine.sighting t1 t2) fuel (Engine.headNode level) (Engine.firstSlopes t1 t2) =
      .ok slopes) ∨
    (sees level paths (t1, t2) = .ok false ∧ Engine.crossBspNode level
      (Engine.sighting t1 t2) fuel (Engine.headNode level) (Engine.firstSlopes t1 t2) =
      .error .blocked) := by
  set segs := reachedSegs level paths (trace t1 t2)
  have own : ∀ seg ∈ level.segs, lineEffect level t1 t2 seg.line = _ := fun seg member =>
    lineEffect_eq agree member
  have along : ∀ seg, seg ∈ segs → seg ∈ alongTrace level depth t1 t2 := fun seg =>
    (mem_reachedSegs ancestors near depth.lt_succ_self seg).1
  have fits : ∀ seg ∈ segs, LineFits t1 t2 (level.lines.getD seg.line default) seg.opening :=
    fun seg member => near.lines seg (along seg member)
  have each : ∀ seg ∈ segs, crossing level (trace t1 t2) seg =
      .ok ⟨(lineEffect level t1 t2 seg.line).shut, (lineEffect level t1 t2 seg.line).top,
        (lineEffect level t1 t2 seg.line).bottom⟩ := by
    intro seg member
    rw [own seg (mem_segs_of_reached member), crossing_eq (fits seg member) (clear seg member)]
  have value := sees_of_crossed (Engine.mapM_ok each)
  have opens : unobstructed (trace t1 t2) (segs.map fun seg =>
      ⟨(lineEffect level t1 t2 seg.line).shut, (lineEffect level t1 t2 seg.line).top,
        (lineEffect level t1 t2 seg.line).bottom⟩) = true ↔
      Narrowing.Open Seg.line (lineEffect level t1 t2) segs
        (Engine.firstSlopes t1 t2).window := by
    show _ ↔ Narrowing.Open Seg.line (lineEffect level t1 t2) segs
      ⟨[], (Engine.firstSlopes t1 t2).topslope.toInt, (Engine.firstSlopes t1 t2).bottomslope.toInt⟩
    rw [Narrowing.open_iff_extremes, unobstructed, trace_top0, trace_bottom0]
    simp [List.map_map, Function.comp_def]
  have between : Engine.Between (Engine.firstSlopes t1 t2) (Engine.firstSlopes t1 t2) :=
    ⟨Int32.lt_iff_toInt_lt.1 apart, le_rfl, le_rfl⟩
  set walked := (Engine.descended level.nodes (Engine.sighting t1 t2) fuel
    (Engine.headNode level)).flatMap level.segsAt
  have same : ∀ seg, seg ∈ segs ↔ seg ∈ walked := mem_reachedSegs ancestors near enough
  have inLevel : ∀ seg ∈ walked, seg ∈ level.segs := fun seg member =>
    mem_segs_of_reached ((same seg).2 member)
  have walks := Engine.foldlM_crossSeg
    (fun seg member => backed seg (along seg ((same seg).2 member)))
    (fun seg member => engine_clear (fits seg ((same seg).2 member))
      (clear seg ((same seg).2 member))) between
    (fun seg member => own seg (inLevel seg member))
  rw [Engine.crossBspNode_eq ancestors.tree ancestors.leavesNamed enough, value]
  rw [Narrowing.through_iff_open _ between.apart, ← Narrowing.open_congr same, ← opens] at walks
  rcases walks with ⟨next, eq, seen⟩ | ⟨eq, unseen⟩
  · exact .inl ⟨by rw [seen], next, eq⟩
  · exact .inr ⟨by rw [Bool.not_eq_true] at unseen; rw [unseen], eq⟩

/-! ## The list of pairs -/

/-- Both read the same bit of the matrix. -/
theorem rejected_eq (standing1 : t1.subsector < level.subsectors.length)
    (standing2 : t2.subsector < level.subsectors.length) :
    Engine.rejected level t1 t2 = .ok (rejected level (t1, t2)) := by
  set s1 := level.subsectors[t1.subsector]
  set s2 := level.subsectors[t2.subsector]
  have lt1 : s1.sector < level.numsectors := level.sector_lt s1 (List.getElem_mem _)
  have lt2 : s2.sector < level.numsectors := level.sector_lt s2 (List.getElem_mem _)
  have inside : s1.sector * level.numsectors + s2.sector < 8 * level.reject.length := by
    have := level.reject_length
    nlinarith
  have byte : (s1.sector * level.numsectors + s2.sector) >>> 3 < level.reject.length := by
    rw [Nat.shiftRight_eq_div_pow]
    omega
  have seven : ∀ n : Nat, n &&& 7 = n % 8 := fun n => Nat.and_two_pow_sub_one_eq_mod n 3
  have eight : ∀ n : Nat, n >>> 3 = n / 8 := fun n => Nat.shiftRight_eq_div_pow n 3
  rw [Engine.rejected, Engine.readTable_ok standing1, Engine.readTable_ok standing2]
  show (readTable level.reject
    ((s1.sector * level.numsectors + s2.sector) >>> 3 : Nat) >>= _) = _
  rw [Engine.readTable_ok byte, Engine.ok_bind, rejected]
  simp only [List.getD_eq_getElem _ _ standing1, List.getD_eq_getElem _ _ standing2]
  rw [List.getD_eq_getElem _ _ (by rw [← eight]; exact byte)]
  simp only [seven, eight]
  rfl

/-- The answer for a pair on its own. -/
def answerOf (level : SightLevel) (paths : List (List (Nat × Nat))) (pair : Viewer × Viewer) :
    Bool :=
  match sees level paths pair with
  | .ok seen => seen
  | .error _ => false

/-- The answers come back at the places of their pairs. -/
theorem checkSight_map (level : SightLevel) (paths : List (List (Nat × Nat)))
    (pairs : List (Viewer × Viewer))
    (clear : ∀ t1 t2, (t1, t2) ∈ pairs → rejected level (t1, t2) = false →
      ∀ seg ∈ reachedSegs level paths (trace t1 t2), Clear level (trace t1 t2) seg) :
    checkSight level paths pairs =
      .ok (pairs.map fun pair => !rejected level pair && answerOf level paths pair) := by
  have each : ∀ pair ∈ pairs.filter fun pair => !rejected level pair,
      sees level paths pair = .ok (answerOf level paths pair) := by
    rintro ⟨t1, t2⟩ member
    obtain ⟨member, passes⟩ := List.mem_filter.1 member
    obtain ⟨seen, eq⟩ := sees_ok (clear t1 t2 member (by simpa using passes))
    rw [answerOf, eq]
  rw [checkSight, Engine.mapM_ok each, Engine.ok_bind]
  exact congrArg Except.ok (zipWith_place_eq _ (answerOf level paths) [] pairs)

/-- On a level whose paths are the ancestor paths of its nodes and whose segs of one line
carry one opening, `check_sight` answers every pair as `P_CheckSight` does, at the pair's
own place, where for a pair the matrix lets through the slopes start apart, no coordinate
difference it forms leaves 32 bits, no line it crosses and does not find shut has the
two-sided flag without a back sector, and no slope is the least word over zero; and the path
test reaches the subsectors of the engine's descent. -/
theorem checkSight_eq_engine {level : SightLevel} {paths : List (List (Nat × Nat))} {depth : Nat}
    (ancestors : AncestorPaths level paths depth)
    (agree : ∀ seg ∈ level.segs, ∀ seg' ∈ level.segs, seg.line = seg'.line →
      seg.opening = seg'.opening)
    (pairs : List (Viewer × Viewer))
    (clear : ∀ t1 t2, (t1, t2) ∈ pairs → rejected level (t1, t2) = false →
      ∀ seg ∈ reachedSegs level paths (trace t1 t2), Clear level (trace t1 t2) seg) :
    ∃ answers, checkSight level paths pairs = .ok answers ∧ answers.length = pairs.length ∧
      ∀ (i : Nat) (t1 t2 : Viewer), pairs[i]? = some (t1, t2) →
        ∀ fuel, depth < fuel →
          (Near level depth t1 t2 →
            ∀ num, (reached level paths (trace t1 t2)).getD num false = true ↔
              num ∈ Engine.descended level.nodes (Engine.sighting t1 t2) fuel
                (Engine.headNode level)) ∧
          (t1.subsector < level.subsectors.length → t2.subsector < level.subsectors.length →
            (rejected level (t1, t2) = false →
              (Engine.firstSlopes t1 t2).bottomslope < (Engine.firstSlopes t1 t2).topslope ∧
              Near level depth t1 t2 ∧
              ∀ seg ∈ alongTrace level depth t1 t2, Engine.Backed (Engine.sighting t1 t2)
                (level.lines.getD seg.line default) seg.opening) →
            ∃ answer, answers[i]? = some answer ∧
              Engine.checkSight level fuel t1 t2 = .ok answer) := by
  refine ⟨_, checkSight_map level paths pairs clear, List.length_map .., ?_⟩
  intro i t1 t2 here fuel enough
  refine ⟨fun near => reached_iff ancestors near enough, fun standing1 standing2 passes => ?_⟩
  refine ⟨!rejected level (t1, t2) && answerOf level paths (t1, t2),
    by rw [List.getElem?_map, here]; rfl, ?_⟩
  rw [Engine.checkSight, rejected_eq standing1 standing2]
  cases rejects : rejected level (t1, t2) with
  -- the matrix answers before any of the missing tests
  | true => rfl
  | false =>
    obtain ⟨apart, near, backed⟩ := passes rejects
    rcases sees_eq ancestors agree near (clear t1 t2 (List.mem_of_getElem? here) rejects) backed
      apart enough with ⟨seen, slopes, crossed⟩ | ⟨unseen, blocked⟩
    · have answer : answerOf level paths (t1, t2) = true := by rw [answerOf, seen]
      rw [crossed, answer]
      rfl
    · have answer : answerOf level paths (t1, t2) = false := by rw [answerOf, unseen]
      rw [blocked, answer]
      rfl

/-! ## One line between two subsectors -/

/-- A partition line running north, a subsector on either side. -/
def paneNode : Engine.Node := ⟨⟨0, 0, 0, 65536⟩, 0x8000, 0x8001⟩

def paneNodes : Engine.Nodes := ⟨[paneNode], by decide⟩

/-- A line on the partition between two subsectors of one sector, flagged two-sided or
not, with a back sector or without. -/
def paneLevel (twosided backed : Bool) : SightLevel where
  nodes := paneNodes
  lines := [⟨0, -4194304, 0, 4194304, twosided, backed⟩]
  segs := [⟨0, ⟨8388608, 0, false, false⟩⟩, ⟨0, ⟨8388608, 0, false, false⟩⟩]
  subsectors := [⟨0, 1, 0⟩, ⟨1, 1, 0⟩]
  numsectors := 1
  reject := [0]
  seg_line := by simp
  firstline_eq := by decide
  numlines_sum := rfl
  numsectors_le := by decide
  sector_lt := by simp
  reject_length := by decide

def panePaths : List (List (Nat × Nat)) := [[(0, 0)], [(0, 1)]]

theorem ancestorPath_of_flagged {nodes : Engine.Nodes} {bspnum leaf : UInt32}
    {path : List (Nat × Nat)} (flagged : Engine.isSubsector bspnum = true)
    (way : Engine.AncestorPath nodes bspnum path leaf) : path = [] ∧ leaf = bspnum := by
  cases way with
  | leaf _ => exact ⟨rfl, rfl⟩
  | step unflagged => exact absurd flagged (by simp [unflagged])

theorem pane_path {path : List (Nat × Nat)} {leaf : UInt32} :
    Engine.AncestorPath paneNodes 0 path leaf ↔
      (path = [(0, 0)] ∧ leaf = 0x8000) ∨ (path = [(0, 1)] ∧ leaf = 0x8001) := by
  have root : paneNodes.list[(0 : UInt32).toNat]? = some paneNode := rfl
  constructor
  · intro way
    cases way with
    | leaf flagged => exact absurd flagged (by decide)
    | @step _ _ side rest _ _ found small way =>
      cases root.symm.trans found
      rcases (by omega : side = 0 ∨ side = 1) with rfl | rfl
      · obtain ⟨rfl, rfl⟩ := ancestorPath_of_flagged (by decide) way
        exact .inl ⟨rfl, rfl⟩
      · obtain ⟨rfl, rfl⟩ := ancestorPath_of_flagged (by decide) way
        exact .inr ⟨rfl, rfl⟩
  · rintro (⟨rfl, rfl⟩ | ⟨rfl, rfl⟩)
    · have front : Engine.AncestorPath paneNodes (paneNode.child 0) [] 0x8000 :=
        .leaf (by decide)
      exact Engine.AncestorPath.step (by decide) root (by decide) front
    · have back : Engine.AncestorPath paneNodes (paneNode.child 1) [] 0x8001 :=
        .leaf (by decide)
      exact Engine.AncestorPath.step (by decide) root (by decide) back

theorem pane_tree : Engine.Subtree paneNodes 0 1 := by
  have front : Engine.Subtree paneNodes paneNode.child0.toUInt32 0 :=
    .leaf (by decide) (by decide)
  have back : Engine.Subtree paneNodes paneNode.child1.toUInt32 0 :=
    .leaf (by decide) (by decide)
  have root : paneNodes.list[(0 : UInt32).toNat]? = some paneNode := rfl
  exact Engine.Subtree.node (by decide) root front back

theorem panePaths_ancestors (twosided backed : Bool) :
    AncestorPaths (paneLevel twosided backed) panePaths 1 := by
  have head : Engine.headNode (paneLevel twosided backed) = 0 := by
    show UInt32.ofNat 1 - 1 = 0
    decide
  refine ⟨by rw [head]; exact pane_tree, ?_, ?_, by decide, rfl⟩ <;> rw [head]
  · intro path leaf way
    rcases pane_path.1 way with ⟨rfl, rfl⟩ | ⟨rfl, rfl⟩ <;> rfl
  · intro i path found
    match i, found with
    | 0, found =>
      cases found
      exact ⟨0x8000, pane_path.2 (.inl ⟨rfl, rfl⟩), by decide⟩
    | 1, found =>
      cases found
      exact ⟨0x8001, pane_path.2 (.inr ⟨rfl, rfl⟩), by decide⟩

/-- A thing of a man's height 64 units west of the line, and one as far east. -/
def west : Viewer := ⟨1, -4194304, 1048576, 0, 3670016⟩
def east : Viewer := ⟨0, 4194304, 1048576, 0, 3670016⟩

/-- Things 20000 units from the line on either side, one 100 units further north. -/
def farWest : Viewer := ⟨1, -1310720000, 0, 0, 3670016⟩
def farEast : Viewer := ⟨0, 1310720000, 6553600, 0, 3670016⟩

/-- Both segs of the level lie along the trace. -/
theorem mem_alongTrace_pane {seg : Seg}
    (member : seg ∈ alongTrace (paneLevel true true) 1 west east) :
    seg = ⟨0, ⟨8388608, 0, false, false⟩⟩ := by
  have along : alongTrace (paneLevel true true) 1 west east =
      [⟨0, ⟨8388608, 0, false, false⟩⟩, ⟨0, ⟨8388608, 0, false, false⟩⟩] := by decide
  rw [along] at member
  simpa using member

theorem near_pane : Near (paneLevel true true) 1 west east := by
  constructor
  · have divides : Engine.passed (paneLevel true true).nodes (Engine.sighting west east) (1 + 1)
        (Engine.headNode (paneLevel true true)) = [paneNode] := by decide
    intro node member
    rw [divides] at member
    rw [List.mem_singleton.1 member]
    decide
  · intro seg member
    rw [mem_alongTrace_pane member]
    exact ⟨by decide, by decide, by decide, by decide, by decide, by decide⟩

/-- Sectors of one height make no wall. -/
theorem clear_pane (seg : Seg) (member : seg ∈ (paneLevel true true).segs) :
    Clear (paneLevel true true) (trace west east) seg := by
  have level : seg.opening.ducked = false ∧ seg.opening.stepped = false := by
    rcases List.mem_cons.1 member with rfl | member
    · exact ⟨rfl, rfl⟩
    · rw [List.mem_singleton.1 member]
      exact ⟨rfl, rfl⟩
  intro _ _ _
  constructor
  · intro ducked
    simp [level.1] at ducked
  · intro stepped
    simp [level.2] at stepped

/-- Through a line with a back sector and nothing in the way, both answer alike. -/
theorem checkSight_pane :
    ∃ answers, checkSight (paneLevel true true) panePaths [(west, east)] = .ok answers ∧
      ∃ answer, answers[0]? = some answer ∧
        Engine.checkSight (paneLevel true true) 2 west east = .ok answer := by
  have agree : ∀ seg ∈ (paneLevel true true).segs, ∀ seg' ∈ (paneLevel true true).segs,
      seg.line = seg'.line → seg.opening = seg'.opening := by
    simp [paneLevel]
  have clear : ∀ t1 t2, (t1, t2) ∈ [(west, east)] →
      rejected (paneLevel true true) (t1, t2) = false →
      ∀ seg ∈ reachedSegs (paneLevel true true) panePaths (trace t1 t2),
        Clear (paneLevel true true) (trace t1 t2) seg := by
    intro t1 t2 member _ seg reached
    obtain ⟨rfl, rfl⟩ := Prod.mk.inj (List.mem_singleton.1 member)
    exact clear_pane seg (mem_segs_of_reached reached)
  have backed : ∀ seg ∈ alongTrace (paneLevel true true) 1 west east,
      Engine.Backed (Engine.sighting west east)
        ((paneLevel true true).lines.getD seg.line default) seg.opening := by
    intro seg member _ _ _
    rw [mem_alongTrace_pane member]
    rfl
  obtain ⟨answers, eq, -, each⟩ := checkSight_eq_engine (panePaths_ancestors true true) agree
    [(west, east)] clear
  exact ⟨answers, eq, (each 0 west east rfl 2 (by decide)).2 (by decide) (by decide)
    fun _ => ⟨by decide, near_pane, backed⟩⟩

/-- A flagged line without a back sector stops the engine's view and not the check's; and
over 40000 units the engine's 32-bit trace wraps and passes a one-sided line that the
check's trace meets. -/
theorem glass_and_wrap_differ :
    checkSight (paneLevel true false) panePaths [(west, east)] = .ok [true] ∧
    Engine.checkSight (paneLevel true false) 2 west east = .ok false ∧
    checkSight (paneLevel false false) panePaths [(farWest, farEast)] = .ok [false] ∧
    Engine.checkSight (paneLevel false false) 2 farWest farEast = .ok true := by
  decide +kernel

end ClickDoom.Native.Sight

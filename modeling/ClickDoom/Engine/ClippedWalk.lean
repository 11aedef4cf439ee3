import ClickDoom.Engine.ClipSegs
import ClickDoom.Engine.Walk

/-! # The walk with the clip list

`r_bsp.c`: `R_AddLine` once it has a seg's columns, `R_CheckBBox` once it has a box's, `R_Subsector`
and `R_RenderBSPNode`; of `r_segs.c` the drawseg `R_StoreWallRange` takes.  What the angles of segs and
boxes come to is given.
-/
namespace ClickDoom.Engine.ClippedWalk
open Engine (ClipSegs Cliprange SegRun)

/-- The fields of a `sector_t` that decide whether a line shows. -/
structure Sector where
  floorheight : Int
  ceilingheight : Int
  floorpic : Int
  ceilingpic : Int
  lightlevel : Int
  deriving DecidableEq, Repr

/-- A seg; `columns` are its first column and the one after its last, unless it faces away, is off the
view or crosses no column. -/
structure Line where
  columns : Option (Int × Int)
  frontsector : Sector
  backsector : Option Sector
  midtexture : Int
  deriving DecidableEq, Repr

inductive LineClass
  | clipsolid
  | clippass
  | empty
  deriving DecidableEq, Repr

/-- Where `R_AddLine` goes with a line. -/
def Line.clips (line : Line) : LineClass :=
  match line.backsector with
  | none => .clipsolid
  | some backsector =>
    let frontsector := line.frontsector
    if backsector.ceilingheight ≤ frontsector.floorheight ∨
        backsector.floorheight ≥ frontsector.ceilingheight then .clipsolid
    else if backsector.ceilingheight ≠ frontsector.ceilingheight ∨
        backsector.floorheight ≠ frontsector.floorheight then .clippass
    else if backsector.ceilingpic = frontsector.ceilingpic ∧
        backsector.floorpic = frontsector.floorpic ∧
        backsector.lightlevel = frontsector.lightlevel ∧ line.midtexture = 0 then .empty
    else .clippass

/-- What `R_CheckBBox` makes of a box: seen whatever is closed, off the view, or some columns. -/
inductive Box
  | seen
  | off
  | columns (sx1 sx2 : Int)
  deriving DecidableEq, Repr

/-- `R_CheckBBox`. -/
def checkBBox (c : ClipSegs) : Box → Bool
  | .seen => true
  | .off => false
  | .columns sx1 sx2 => if sx1 = sx2 then false else !c.contains sx1 (sx2 - 1)

/-- `MAXDRAWSEGS`. -/
def maxdrawsegs : Nat := 256

/-- The clip list, and `drawsegs`: the seg and the columns of each. -/
structure View where
  clip : ClipSegs
  drawsegs : List (Nat × Cliprange)

/-- The level and the view point. -/
structure Scene where
  nodes : Nodes
  subsectors : List SegRun
  lines : Nat → Line
  /-- The box of each child of a node. -/
  boxes : Nat → Nat → Box
  viewx : Int32
  viewy : Int32

/-- `R_StoreWallRange`. -/
def storeWallRange (curline : Nat) (view : View) (range : Cliprange) : View :=
  if view.drawsegs.length = maxdrawsegs then view
  else { view with drawsegs := view.drawsegs ++ [(curline, range)] }

section
variable (scene : Scene)

/-- `R_AddLine`, with nothing where the clip list overflows. -/
def addLine (view : View) (curline : Nat) : Option View :=
  match (scene.lines curline).columns with
  | none => some view
  | some (x1, x2) =>
    match (scene.lines curline).clips with
    | .clipsolid => do
      let (calls, clip) ← view.clip.clipSolidWallSegment x1 (x2 - 1)
      some (calls.foldl (storeWallRange curline) { view with clip })
    | .clippass => some ((view.clip.clipPassWallSegment x1 (x2 - 1)).foldl (storeWallRange curline) view)
    | .empty => some view

/-- `R_Subsector`: its segs. -/
def subsector (view : View) (num : Nat) : Option View :=
  (addLines (scene.subsectors.getD num ⟨0, 0⟩)).foldlM (addLine scene) view

/-- `R_RenderBSPNode`, to the depth of `fuel`. -/
def renderBSPNode : Nat → UInt32 → View → Option View
  | 0, _, _ => none
  | fuel + 1, bspnum, view =>
    if isSubsector bspnum then
      subsector scene view (if bspnum = -1 then 0 else (bspnum &&& ~~~nfSubsector).toNat)
    else do
      let bsp ← scene.nodes.list[bspnum.toNat]?
      let side := pointOnSide scene.viewx scene.viewy bsp.toDivline
      let view ← renderBSPNode fuel (bsp.child side) view
      if checkBBox view.clip (scene.boxes bspnum.toNat (side ^^^ 1)) then
        renderBSPNode fuel (bsp.child (side ^^^ 1)) view
      else some view

/-! ## The walk of a tree -/

def side (id : Nat) : Nat := sideOf scene.nodes scene.viewx scene.viewy id

/-- The children of a node, the one on the view's side first. -/
def near (id : Nat) (child0 child1 : Bsp) : Bsp := if side scene id = 0 then child0 else child1

def far (id : Nat) (child0 child1 : Bsp) : Bsp := if side scene id = 0 then child1 else child0

/-- The same walk over the tree the nodes spell. -/
def render : Bsp → View → Option View
  | .leaf num, view => subsector scene view num
  | .node id child0 child1, view =>
    if side scene id = 0 then do
      let view ← render child0 view
      if checkBBox view.clip (scene.boxes id 1) then render child1 view else some view
    else do
      let view ← render child1 view
      if checkBBox view.clip (scene.boxes id 0) then render child0 view else some view

/-- The segs of a tree in the order a walk that rejects nothing meets them. -/
def segs (tree : Bsp) : List Nat :=
  (tree.walk (side scene)).flatMap fun num => addLines (scene.subsectors.getD num ⟨0, 0⟩)

theorem side_lt (id : Nat) : side scene id < 2 := by
  rw [side, sideOf]
  split
  · exact pointOnSide_lt _ _ _
  · exact Nat.two_pos

theorem segs_node (id : Nat) (child0 child1 : Bsp) :
    segs scene (.node id child0 child1) =
      segs scene (near scene id child0 child1) ++ segs scene (far scene id child0 child1) := by
  rw [segs, Bsp.walk, near, far]
  split_ifs <;> exact List.flatMap_append

theorem render_node (id : Nat) (child0 child1 : Bsp) (view : View) :
    render scene (.node id child0 child1) view =
      (render scene (near scene id child0 child1) view).bind fun view =>
        if checkBBox view.clip (scene.boxes id (side scene id ^^^ 1)) then
          render scene (far scene id child0 child1) view
        else some view := by
  have two := side_lt scene id
  rw [render, near, far]
  by_cases front : side scene id = 0
  · simp only [front, if_true]
    rfl
  · have back : side scene id = 1 := by omega
    simp only [back, if_neg Nat.one_ne_zero]
    rfl

theorem renderBSPNode_eq {tree : Bsp} {bspnum : UInt32} (spells : tree.Of scene.nodes bspnum)
    {fuel : Nat} (enough : tree.depth < fuel) (view : View) :
    renderBSPNode scene fuel bspnum view = render scene tree view := by
  induction tree generalizing bspnum fuel view with
  | leaf num =>
    obtain ⟨fuel, rfl⟩ := Nat.exists_eq_add_of_lt enough
    obtain ⟨low, same⟩ := spells
    have flagged := (isSubsector_iff (by omega : bspnum.toNat < 65536)).2 (by omega)
    have known : bspnum ≠ -1 := by
      rintro rfl
      revert same
      rw [show (-1 : UInt32).toNat = 4294967295 from rfl]
      omega
    rw [renderBSPNode, if_pos flagged, if_neg known, low_bits low same]
    rfl
  | node id child0 child1 ih0 ih1 =>
    obtain ⟨fuel, rfl⟩ := Nat.exists_eq_add_of_le' (by omega : 1 ≤ fuel)
    obtain ⟨rfl, low, bsp, found, spells0, spells1⟩ := spells
    rw [Bsp.depth] at enough
    have plain : isSubsector bspnum = false := by
      rw [← Bool.not_eq_true, isSubsector_iff (by omega)]
      omega
    have walk0 := fun view => ih0 spells0 (by omega : child0.depth < fuel) view
    have walk1 := fun view => ih1 spells1 (by omega : child1.depth < fuel) view
    have here : side scene bspnum.toNat = pointOnSide scene.viewx scene.viewy bsp.toDivline := by
      rw [side, sideOf, found]
    have two := side_lt scene bspnum.toNat
    rw [renderBSPNode, plain, if_neg Bool.false_ne_true, found, render_node, near, far]
    simp only [Option.bind_eq_bind, Option.bind_some, ← here]
    by_cases front : side scene bspnum.toNat = 0
    · simp [front, Node.child, walk0, walk1]
    · have back : side scene bspnum.toNat = 1 := by omega
      simp [back, Node.child, walk0, walk1]

end

/-! ## What is closed and what is drawn -/

/-- A line crosses a column. -/
def Line.Crosses (line : Line) (x : Int) : Prop :=
  ∃ x1 x2, line.columns = some (x1, x2) ∧ x1 ≤ x ∧ x < x2

/-- A line closes a column. -/
def Line.Closes (line : Line) (x : Int) : Prop := line.clips = .clipsolid ∧ line.Crosses x

/-- A line shows in a column, where some are closed. -/
def Line.Draws (line : Line) (closed : Int → Prop) (x : Int) : Prop :=
  line.clips ≠ .empty ∧ line.Crosses x ∧ ¬ closed x

/-- A line's columns are columns of the view. -/
def Line.InView (line : Line) : Prop :=
  ∀ x1 x2, line.columns = some (x1, x2) → 0 ≤ x1 ∧ x1 < x2 ∧ x2 ≤ 320

section
variable (scene : Scene)

/-- One of these segs closes a column. -/
def Closed (order : List Nat) (x : Int) : Prop := ∃ sg ∈ order, (scene.lines sg).Closes x

/-- The drawsegs of the seg at a place of the order: the runs of the columns no earlier seg closes. -/
noncomputable def fragments (order : List Nat) (place : Nat × Nat) : List (Nat × Cliprange) :=
  (Posts.runsOf ((scene.lines place.1).Draws (Closed scene (order.take place.2)))).map (place.1, ·)

end

theorem closed_append {scene : Scene} {order more : List Nat} {x : Int} :
    Closed scene (order ++ more) x ↔ Closed scene order x ∨ Closed scene more x := by
  simp [Closed, or_and_right, exists_or]

theorem take_take_append {α : Type} (n : Nat) (l m : List α) : (l.take n ++ m).take n = (l ++ m).take n := by
  rw [List.take_append, List.take_append, List.take_take, min_self, List.length_take]
  congr 2
  omega

theorem foldl_storeWallRange (curline : Nat) {view : View} (few : view.drawsegs.length ≤ maxdrawsegs)
    (ranges : List Cliprange) : ranges.foldl (storeWallRange curline) view =
      { view with drawsegs := (view.drawsegs ++ ranges.map (curline, ·)).take maxdrawsegs } := by
  induction ranges generalizing view with
  | nil => simp [List.take_of_length_le few]
  | cons range ranges ih =>
    rw [List.foldl_cons, storeWallRange]
    split_ifs with full
    · rw [ih few, List.take_append_of_le_length full.ge, List.take_append_of_le_length full.ge]
    · rw [ih (by simp; omega)]
      simp

theorem runsOf_empty {S : Int → Prop} (empty : ∀ x, ¬ S x) : Posts.runsOf S = [] :=
  Posts.Runs.runsOf_eq ⟨Posts.Separate.nil, fun x => iff_of_false Posts.covers_nil (empty x)⟩

/-- The open parts of a line's columns are the runs of what it draws. -/
theorem gaps_runs {line : Line} {c : ClipSegs} {closed : Int → Prop} {posts : List Cliprange}
    (holds : ClipSegs.Holds 320 c closed posts) (inView : line.InView) {x1 x2 : Int}
    (columns : line.columns = some (x1, x2)) (some : line.clips ≠ .empty) :
    Posts.runsOf (line.Draws closed) = Posts.gaps x1 (x2 - 1) posts := by
  obtain ⟨low, less, high⟩ := inView x1 x2 columns
  have runs := Posts.runs_gaps holds.separate (by omega : x1 ≤ x2 - 1)
  refine Posts.Runs.runsOf_eq ⟨runs.separate, fun x => (runs.covers x).trans ?_⟩
  have crosses : line.Crosses x ↔ x1 ≤ x ∧ x ≤ x2 - 1 := by
    constructor
    · rintro ⟨a, b, same, inside⟩
      obtain ⟨rfl, rfl⟩ := Prod.mk.inj (Option.some.inj (columns.symm.trans same))
      omega
    · exact fun inside => ⟨x1, x2, columns, inside.1, by omega⟩
  rw [Line.Draws, crosses, and_iff_right some]
  refine and_congr_right fun inside => ?_
  rw [holds.covers_inside (by omega) (by omega)]

variable {scene : Scene} {view view' : View} {order pre post : List Nat}

/-- One seg: it is drawn in the open columns it crosses, and a solid one closes them. -/
theorem addLine_spec {closed : Int → Prop} {posts : List Cliprange} {sg : Nat}
    (holds : ClipSegs.Holds 320 view.clip closed posts)
    (few : view.drawsegs.length ≤ maxdrawsegs) (inView : (scene.lines sg).InView)
    (ran : addLine scene view sg = some view') :
    (∃ posts', ClipSegs.Holds 320 view'.clip
      (fun x => closed x ∨ (scene.lines sg).Closes x) posts') ∧
    view'.drawsegs = (view.drawsegs ++
      (Posts.runsOf ((scene.lines sg).Draws closed)).map (sg, ·)).take maxdrawsegs := by
  have unchanged : (∀ x, ¬ (scene.lines sg).Closes x) →
      ClipSegs.Holds 320 view.clip (fun x => closed x ∨ (scene.lines sg).Closes x) posts := fun none =>
    holds.congr fun x _ _ => (or_iff_left (none x)).symm
  rw [addLine] at ran
  cases columns : (scene.lines sg).columns with
  | none =>
    have outside : ∀ x, ¬ (scene.lines sg).Crosses x := by
      rintro x ⟨x1, x2, there, -⟩
      rw [columns] at there
      cases there
    rw [columns] at ran
    obtain rfl := Option.some.inj ran
    refine ⟨⟨posts, unchanged fun x closes => outside x closes.2⟩, ?_⟩
    rw [runsOf_empty fun x draws => outside x draws.2.1]
    simp [List.take_of_length_le few]
  | some range =>
    obtain ⟨x1, x2⟩ := range
    rw [columns] at ran
    obtain ⟨low, less, high⟩ := inView x1 x2 columns
    cases clips : (scene.lines sg).clips with
    | clipsolid =>
      rw [clips] at ran
      obtain ⟨⟨calls, clip⟩, clipped, ran⟩ := Option.bind_eq_some_iff.1 ran
      obtain rfl := Option.some.inj ran
      obtain ⟨rfl, grown⟩ :=
        ClipSegs.clipSolidWallSegment_eq holds (by decide) low (by omega) (by omega) clipped
      rw [@foldl_storeWallRange sg { view with clip } few,
        gaps_runs holds inView columns (by simp [clips])]
      refine ⟨⟨_, grown.congr fun x _ _ => or_congr_right ?_⟩, rfl⟩
      constructor
      · exact fun inside => ⟨clips, x1, x2, columns, inside.1, by omega⟩
      · rintro ⟨-, a, b, same, inside⟩
        obtain ⟨rfl, rfl⟩ := Prod.mk.inj (Option.some.inj (columns.symm.trans same))
        omega
    | clippass =>
      rw [clips] at ran
      obtain rfl := Option.some.inj ran
      rw [ClipSegs.clipPassWallSegment_eq holds (by decide) (by omega) (by omega),
        foldl_storeWallRange sg few, gaps_runs holds inView columns (by simp [clips])]
      exact ⟨⟨posts, unchanged fun x closes => by simp [Line.Closes, clips] at closes⟩, rfl⟩
    | empty =>
      rw [clips] at ran
      obtain rfl := Option.some.inj ran
      refine ⟨⟨posts, unchanged fun x closes => by simp [Line.Closes, clips] at closes⟩, ?_⟩
      rw [runsOf_empty fun x draws => draws.1 clips]
      simp [List.take_of_length_le few]

/-- The segs of a subsector, one after another. -/
theorem addLines_spec {posts : List Cliprange} {list : List Nat}
    (whole : order = pre ++ list ++ post)
    (holds : ClipSegs.Holds 320 view.clip (Closed scene pre) posts)
    (few : view.drawsegs.length ≤ maxdrawsegs) (inView : ∀ sg, (scene.lines sg).InView)
    (ran : list.foldlM (addLine scene) view = some view') :
    (∃ posts', ClipSegs.Holds 320 view'.clip (Closed scene (pre ++ list)) posts') ∧
    view'.drawsegs = (view.drawsegs ++
      (list.zipIdx pre.length).flatMap (fragments scene order)).take maxdrawsegs := by
  induction list generalizing pre view posts with
  | nil =>
    obtain rfl := Option.some.inj ran
    rw [List.append_nil]
    exact ⟨⟨posts, holds⟩, by simp [List.take_of_length_le few]⟩
  | cons sg list ih =>
    rw [List.foldlM_cons] at ran
    obtain ⟨mid, first, ran⟩ := Option.bind_eq_some_iff.1 ran
    obtain ⟨⟨posts', grown⟩, drawn⟩ := addLine_spec holds few (inView sg) first
    have grown : ClipSegs.Holds 320 mid.clip (Closed scene (pre ++ [sg])) posts' :=
      grown.congr fun x _ _ => by rw [closed_append]; simp [Closed]
    have few' : mid.drawsegs.length ≤ maxdrawsegs := by
      rw [drawn]
      exact List.length_take_le _ _
    obtain ⟨closed, rest⟩ := ih (by simpa using whole) grown few' ran
    refine ⟨by simpa using closed, ?_⟩
    have here : fragments scene order (sg, pre.length) =
        (Posts.runsOf ((scene.lines sg).Draws (Closed scene pre))).map (sg, ·) := by
      rw [fragments, whole, List.append_assoc, List.take_left' rfl]
    rw [rest, drawn, take_take_append, List.zipIdx_cons, List.flatMap_cons, here, List.append_assoc]
    simp

/-! ## The walk of a tree -/

/-- Nothing of a box is to be seen when these columns are closed. -/
def Box.Hidden (closed : Int → Prop) : Box → Prop
  | .seen => False
  | .off => True
  | .columns sx1 sx2 => sx1 = sx2 ∨ ∀ x, sx1 ≤ x → x < sx2 → closed x

/-- A box's columns are columns of the view. -/
def Box.InView (box : Box) : Prop :=
  ∀ sx1 sx2, box = .columns sx1 sx2 → 0 ≤ sx1 ∧ sx1 ≤ sx2 ∧ sx2 ≤ 320

/-- A line crosses no column but the box's. -/
def Box.Around (line : Line) : Box → Prop
  | .seen => True
  | .off => ∀ x, ¬ line.Crosses x
  | .columns sx1 sx2 => ∀ x, line.Crosses x → sx1 ≤ x ∧ x < sx2

theorem checkBBox_eq {c : ClipSegs} {closed : Int → Prop} {posts : List Cliprange}
    (holds : ClipSegs.Holds 320 c closed posts) {box : Box} (inView : box.InView) :
    checkBBox c box = false ↔ box.Hidden closed := by
  cases box with
  | seen => simp [checkBBox, Box.Hidden]
  | off => simp [checkBBox, Box.Hidden]
  | columns sx1 sx2 =>
    obtain ⟨low, le, high⟩ := inView sx1 sx2 rfl
    rw [checkBBox, Box.Hidden]
    by_cases none : sx1 = sx2
    · simp [none]
    · rw [if_neg none, Bool.not_eq_false', or_iff_right none,
        ClipSegs.contains_eq holds (by decide) low (by omega) (by omega)]
      refine forall_congr' fun x => imp_congr_right fun _ => ?_
      rw [Int.le_sub_one_iff]

section
variable (scene : Scene)

/-- Each box contains the segs behind it. -/
def Inside : Bsp → Prop
  | .leaf _ => True
  | .node id child0 child1 =>
    (∀ sg ∈ segs scene (far scene id child0 child1),
      (scene.boxes id (side scene id ^^^ 1)).Around (scene.lines sg)) ∧
    Inside child0 ∧ Inside child1

/-- `culled` are the nodes whose far side is hidden when a walk that rejects nothing comes to it. -/
def Culls (order : List Nat) (culled : Nat → Bool) : Nat → Bsp → Prop
  | _, .leaf _ => True
  | base, .node id child0 child1 =>
    let beyond := base + (segs scene (near scene id child0 child1)).length
    (culled id = true ↔
      (scene.boxes id (side scene id ^^^ 1)).Hidden (Closed scene (order.take beyond))) ∧
    if side scene id = 0 then Culls order culled base child0 ∧ Culls order culled beyond child1
    else Culls order culled base child1 ∧ Culls order culled beyond child0

/-- The segs of the subsectors the walk comes to, with their places in the order of a walk that
rejects nothing. -/
def reached (culled : Nat → Bool) : Nat → Bsp → List (Nat × Nat)
  | base, .leaf num => (addLines (scene.subsectors.getD num ⟨0, 0⟩)).zipIdx base
  | base, .node id child0 child1 =>
    let beyond := base + (segs scene (near scene id child0 child1)).length
    if side scene id = 0 then
      reached culled base child0 ++ if culled id then [] else reached culled beyond child1
    else reached culled base child1 ++ if culled id then [] else reached culled beyond child0

end

theorem hidden_closes {line : Line} {box : Box} {closed : Int → Prop} (around : box.Around line)
    (hidden : box.Hidden closed) {x : Int} (crosses : line.Crosses x) : closed x := by
  cases box with
  | seen => cases hidden
  | off => exact absurd crosses (around x)
  | columns sx1 sx2 =>
    obtain ⟨low, high⟩ := around x crosses
    rcases hidden with none | all
    · omega
    · exact all x low high

section
variable {culled : Nat → Bool} {base id : Nat} {child0 child1 : Bsp}

theorem culls_node (culls : Culls scene order culled base (.node id child0 child1)) :
    let beyond := base + (segs scene (near scene id child0 child1)).length
    (culled id = true ↔
      (scene.boxes id (side scene id ^^^ 1)).Hidden (Closed scene (order.take beyond))) ∧
    Culls scene order culled base (near scene id child0 child1) ∧
    Culls scene order culled beyond (far scene id child0 child1) := by
  refine ⟨culls.1, ?_⟩
  have both := culls.2
  rw [near] at both ⊢
  rw [far]
  split_ifs at both ⊢ <;> exact both

theorem inside_node (inside : Inside scene (.node id child0 child1)) :
    (∀ sg ∈ segs scene (far scene id child0 child1),
      (scene.boxes id (side scene id ^^^ 1)).Around (scene.lines sg)) ∧
    Inside scene (near scene id child0 child1) ∧ Inside scene (far scene id child0 child1) := by
  refine ⟨inside.1, ?_⟩
  rw [near, far]
  split_ifs
  · exact inside.2
  · exact inside.2.symm

theorem reached_node : reached scene culled base (.node id child0 child1) =
    reached scene culled base (near scene id child0 child1) ++
      if culled id then [] else reached scene culled
        (base + (segs scene (near scene id child0 child1)).length) (far scene id child0 child1) := by
  rw [reached, near, far]
  split_ifs <;> rfl

end

/-- The walk of a tree that stands somewhere in the order draws what a walk that rejects nothing would
leave of the segs it comes to, and leaves closed what all the tree's segs close. -/
def Renders (scene : Scene) (order : List Nat) (culled : Nat → Bool) (tree : Bsp) : Prop :=
  ∀ (pre post : List Nat) (view view' : View) (posts : List Cliprange),
    order = pre ++ segs scene tree ++ post →
    ClipSegs.Holds 320 view.clip (Closed scene pre) posts →
    view.drawsegs.length ≤ maxdrawsegs → Inside scene tree →
    Culls scene order culled pre.length tree → render scene tree view = some view' →
    (∃ posts', ClipSegs.Holds 320 view'.clip (Closed scene (pre ++ segs scene tree)) posts') ∧
    view'.drawsegs = (view.drawsegs ++
      (reached scene culled pre.length tree).flatMap (fragments scene order)).take maxdrawsegs

variable {culled : Nat → Bool}

theorem renders_leaf (inView : ∀ sg, (scene.lines sg).InView) (num : Nat) :
    Renders scene order culled (.leaf num) := by
  intro pre post view view' posts whole holds few _ _ ran
  have list : segs scene (.leaf num) = addLines (scene.subsectors.getD num ⟨0, 0⟩) := by
    simp [segs, Bsp.walk]
  rw [list] at whole ⊢
  exact addLines_spec whole holds few inView ran

/-- A node: the near child, and the far one unless its box hides it. -/
theorem renders_node (boxes : ∀ id side, (scene.boxes id side).InView) {id : Nat}
    {child0 child1 : Bsp} (first : Renders scene order culled (near scene id child0 child1))
    (second : Renders scene order culled (far scene id child0 child1)) :
    Renders scene order culled (.node id child0 child1) := by
  intro pre post view view' posts whole holds few inside culls ran
  obtain ⟨around, inNear, inFar⟩ := inside_node inside
  obtain ⟨hidden, cullsNear, cullsFar⟩ := culls_node culls
  rw [segs_node] at whole ⊢
  rw [reached_node]
  rw [render_node] at ran
  obtain ⟨mid, ranNear, ran⟩ := Option.bind_eq_some_iff.1 ran
  obtain ⟨⟨posts', closed⟩, drawn⟩ := first pre (segs scene (far scene id child0 child1) ++ post)
    view mid posts (by simpa using whole) holds few inNear cullsNear ranNear
  have length : (pre ++ segs scene (near scene id child0 child1)).length =
      pre.length + (segs scene (near scene id child0 child1)).length := List.length_append
  have before : order.take (pre.length + (segs scene (near scene id child0 child1)).length) =
      pre ++ segs scene (near scene id child0 child1) := by
    rw [whole, ← List.append_assoc, List.append_assoc _ _ post, List.take_left' length]
  rw [before] at hidden
  have fewer : mid.drawsegs.length ≤ maxdrawsegs := by
    rw [drawn]
    exact List.length_take_le _ _
  have tested := checkBBox_eq closed (boxes id (side scene id ^^^ 1))
  by_cases cull : culled id = true
  · -- a hidden tree closes nothing new
    rw [tested.2 (hidden.1 cull), if_neg Bool.false_ne_true] at ran
    obtain rfl := Option.some.inj ran
    rw [if_pos cull, List.append_nil]
    refine ⟨⟨posts', closed.congr fun x _ _ => ?_⟩, drawn⟩
    rw [← List.append_assoc]
    refine Iff.trans (or_iff_left_of_imp ?_).symm closed_append.symm
    rintro ⟨sg, there, closes⟩
    exact hidden_closes (around sg there) (hidden.1 cull) closes.2
  · have seen : checkBBox mid.clip (scene.boxes id (side scene id ^^^ 1)) = true := by
      by_contra shut
      exact cull (hidden.2 (tested.1 (by simpa using shut)))
    rw [if_pos seen] at ran
    rw [← length] at cullsFar
    obtain ⟨closed', drawn'⟩ := second (pre ++ segs scene (near scene id child0 child1)) post mid view'
      posts' (by simpa using whole) closed fewer inFar cullsFar ran
    refine ⟨by simpa using closed', ?_⟩
    rw [if_neg cull, drawn', drawn, take_take_append, List.flatMap_append, List.append_assoc, length]

theorem renders (inView : ∀ sg, (scene.lines sg).InView)
    (boxes : ∀ id side, (scene.boxes id side).InView) : ∀ tree, Renders scene order culled tree
  | .leaf num => renders_leaf inView num
  | .node id child0 child1 => by
    refine renders_node boxes ?_ ?_
    · rw [near]
      split_ifs
      · exact renders inView boxes child0
      · exact renders inView boxes child1
    · rw [far]
      split_ifs
      · exact renders inView boxes child1
      · exact renders inView boxes child0

end ClickDoom.Engine.ClippedWalk

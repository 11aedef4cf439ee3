import ClickDoom.Base.RunningCounts
import ClickDoom.Engine.Crossing
import ClickDoom.Native.Fixed
import ClickDoom.Native.Openings

/-! # Line of sight without the walk

`check_sight` of `native/src/sql/sim/sight.rs`.  The descent is a test of every step of
every subsector's ancestor path, laid end to end and answered by running counts; the
crossing looks at every seg of the subsectors reached and compares the least top slope
with the greatest bottom slope at the end.  The module's side test and its intercept work
in 64 bits and do not narrow a difference of coordinates, where the C and the builders of
`fixed.rs` wrap at 32.
-/
namespace ClickDoom.Native.Sight
open Engine (SightLevel Viewer Seg Line Subsector truth)
open RunningCounts

/-! ## The side test and the intercept -/

/-- `divline_side`. -/
def divlineSide (x y lx ly ldx ldy : Int64) : Nat :=
  let left := ((ldy >>> 16) * ((x - lx) >>> 16)).toInt32
  let right := (((y - ly) >>> 16) * (ldx >>> 16)).toInt32
  if ldx = 0 then
    if x = lx then 2 else if x ≤ lx then truth (ldy > 0) else truth (ldy < 0)
  else if ldy = 0 then
    if x = ly then 2 else if y ≤ ly then truth (ldx < 0) else truth (ldx > 0)
  else if right < left then 0
  else if left = right then 2
  else 1

/-- `fixed_mul` of operands that are 64 bits wide. -/
def fixedMul (a b : Int64) : Int32 := ((a * b) >>> 16).toInt32

/-- `intercept_vector`. -/
def interceptVector (traceX traceY traceDx traceDy lineX lineY lineDx lineDy : Int64) :
    Except Trap Int32 :=
  let den := Fixed.sub32 (fixedMul (lineDy >>> 8) traceDx) (fixedMul (lineDx >>> 8) traceDy)
  let num := Fixed.add32 (fixedMul ((lineX - traceX) >>> 8) lineDy)
    (fixedMul ((traceY - lineY) >>> 8) lineDx)
  if den = 0 then .ok 0 else Fixed.fixedDiv num den

/-! ## The subsectors the trace reaches -/

/-- The trace of a pair, `si_dx` and `si_dy` in 64 bits. -/
structure Trace where
  x1 : Int64
  y1 : Int64
  x2 : Int64
  y2 : Int64
  dx : Int64
  dy : Int64
  zstart : Int32
  top0 : Int32
  bottom0 : Int32

def trace (t1 t2 : Viewer) : Trace where
  x1 := t1.x.toInt64
  y1 := t1.y.toInt64
  x2 := t2.x.toInt64
  y2 := t2.y.toInt64
  dx := t2.x.toInt64 - t1.x.toInt64
  dy := t2.y.toInt64 - t1.y.toInt64
  zstart := (t1.z.toInt64 + t1.height.toInt64 - (t1.height.toInt64 >>> 2)).toInt32
  top0 := (t2.z.toInt64 + t2.height.toInt64 -
    (t1.z.toInt64 + t1.height.toInt64 - (t1.height.toInt64 >>> 2)).toInt32.toInt64).toInt32
  bottom0 := (t2.z.toInt64 -
    (t1.z.toInt64 + t1.height.toInt64 - (t1.height.toInt64 >>> 2)).toInt32.toInt64).toInt32

/-- `si_path_shut`: whether the descent turns away at a step of a path. -/
def pathShut (level : SightLevel) (t : Trace) (step : Nat × Nat) : Bool :=
  let node := level.nodes.list.getD step.1 default
  let side (x y : Int64) :=
    divlineSide x y node.x.toInt64 node.y.toInt64 node.dx.toInt64 node.dy.toInt64
  let side1 := if side t.x1 t.y1 = 2 then 0 else side t.x1 t.y1
  let side2 := side t.x2 t.y2
  !(step.2 == side1 || side1 != side2)

/-- `path_before` and `path_after`: a mark at one end of each path. -/
def pathBefore (paths : List (List (Nat × Nat))) : List Bool :=
  (paths.flatMap fun path => (List.range' 1 path.length).map (· == 1)) ++ [false]

def pathAfter (paths : List (List (Nat × Nat))) : List Bool :=
  false :: paths.flatMap fun path => (List.range' 1 path.length).map (· == path.length)

/-- `si_reached`: where the running count of shut steps stands still. -/
def reached (level : SightLevel) (paths : List (List (Nat × Nat))) (t : Trace) : List Bool :=
  let upto := 0 :: sumsFrom 0 (flags (pathShut level t) paths.flatten)
  List.zipWith (fun before after => after == before) (pick upto (pathBefore paths))
    (pick upto (pathAfter paths))

/-- `seg_subsector`: the subsector of each seg. -/
def segSubsector (level : SightLevel) : List Nat :=
  (level.subsectors.zipIdx.insertionSort fun a b => a.1.firstline ≤ b.1.firstline).flatMap
    fun entry => List.replicate entry.1.numlines entry.2

/-- `si_segs`. -/
def reachedSegs (level : SightLevel) (paths : List (List (Nat × Nat))) (t : Trace) : List Seg :=
  ((level.segs.zip (segSubsector level)).filter fun entry =>
    (reached level paths t).getD entry.2 false).map Prod.fst

/-! ## What each of their segs does -/

/-- One entry of `si_crossed`; the server's 64 bits hold the slopes. -/
structure CrossedSeg where
  shut : Bool
  top : Int
  bottom : Int
  deriving DecidableEq, Repr

/-- `cr_crosses`: the trace crosses the line and the line crosses the trace. -/
def crosses (level : SightLevel) (t : Trace) (seg : Seg) : Bool :=
  let line := level.lines.getD seg.line default
  let traceSide (x y : Int32) := divlineSide x.toInt64 y.toInt64 t.x1 t.y1 t.dx t.dy
  let lineSide (x y : Int64) := divlineSide x y line.v1x.toInt64 line.v1y.toInt64
    line.divline.dx.toInt64 line.divline.dy.toInt64
  let endsPart := traceSide line.v1x line.v1y != traceSide line.v2x line.v2y
  endsPart && lineSide t.x1 t.y1 != lineSide t.x2 t.y2

/-- `cr_wall`: a seg whose two sides stand at the same heights is no wall at all. -/
def wall (level : SightLevel) (t : Trace) (seg : Seg) : Bool :=
  crosses level t seg && (level.lines.getD seg.line default).twosided &&
    (seg.opening.stepped || seg.opening.ducked)

/-- `cr_frac`. -/
def frac (level : SightLevel) (t : Trace) (seg : Seg) : Except Trap Int32 :=
  let line := level.lines.getD seg.line default
  interceptVector t.x1 t.y1 t.dx t.dy line.v1x.toInt64 line.v1y.toInt64
    line.divline.dx.toInt64 line.divline.dy.toInt64

/-- `crossing` at one seg. -/
def crossing (level : SightLevel) (t : Trace) (seg : Seg) : Except Trap CrossedSeg := do
  let solid := crosses level t seg && !(level.lines.getD seg.line default).twosided
  let shut := solid ||
    (wall level t seg && decide (seg.opening.openbottom ≥ seg.opening.opentop))
  let narrows := wall level t seg && decide (seg.opening.openbottom < seg.opening.opentop)
  let frac ← frac level t seg
  let slope (height : Int32) := Fixed.fixedDiv (Fixed.sub32 height t.zstart) frac
  let top ← (if narrows && seg.opening.ducked then slope seg.opening.opentop else .ok t.top0)
  let bottom ← (if narrows && seg.opening.stepped then slope seg.opening.openbottom
    else .ok t.bottom0)
  return ⟨shut, top.toInt, bottom.toInt⟩

/-- No seg shuts the view, and the least top slope is above the greatest bottom slope. -/
def unobstructed (t : Trace) (crossed : List CrossedSeg) : Bool :=
  let top := (crossed.map CrossedSeg.top).foldr min t.top0.toInt
  let bottom := (crossed.map CrossedSeg.bottom).foldr max t.bottom0.toInt
  !(crossed.any CrossedSeg.shut) && decide (top > bottom)

/-- The answer for a pair the matrix lets through. -/
def sees (level : SightLevel) (paths : List (List (Nat × Nat))) (pair : Viewer × Viewer) :
    Except Trap Bool := do
  let t := trace pair.1 pair.2
  let crossed ← (reachedSegs level paths t).mapM (crossing level t)
  return unobstructed t crossed

/-! ## The matrix and the answers -/

/-- `rejected`: past the matrix's end the server reads a zero. -/
def rejected (level : SightLevel) (pair : Viewer × Viewer) : Bool :=
  let sector (viewer : Viewer) := (level.subsectors.getD viewer.subsector ⟨0, 0, 0⟩).sector
  let pnum := sector pair.1 * level.numsectors + sector pair.2
  level.reject.getD (pnum / 8) 0 &&& (1 <<< UInt8.ofNat (pnum % 8)) != 0

/-- `check_sight` over the pairs. -/
def checkSight (level : SightLevel) (paths : List (List (Nat × Nat)))
    (pairs : List (Viewer × Viewer)) : Except Trap (List Bool) := do
  let seen ← (pairs.filter fun pair => !rejected level pair).mapM (sees level paths)
  let at' := sumsFrom 0 (flags (fun pair => !rejected level pair) pairs)
  return List.zipWith (fun pair place => !rejected level pair && seen.getD (max place 1 - 1) false)
    pairs at'

end ClickDoom.Native.Sight

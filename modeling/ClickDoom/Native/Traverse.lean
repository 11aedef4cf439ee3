import ClickDoom.Engine.Traverse
import ClickDoom.Native.Blocks
import ClickDoom.Native.Fixed

/-! # Path traversal as a fold, a dedup and a sort

`path_traverse` of `native/src/sql/sim/maputl.rs` for one trace of its array.  The block
walk is a fold of 64 steps that carries a flag for the end; what the two iterators reach
is one list, the intercepts on the trace are filtered out of it, and a sort by fraction and
place puts them in order.  The server's 64 bits hold every value on the way, so the
coordinates are integers here; `toInt32` is `Int32.ofInt`.
-/
namespace ClickDoom.Native.Traverse
open Engine (Blockmap Thing Entry Line PathLevel Intercept truth)

/-! ## The trace -/

/-- `nudged`; the mask of a block's low bits is a remainder. -/
def nudged (coord origin : Int) : Int :=
  coord + if (coord - origin) % 8388608 = 0 then 65536 else 0

/-- The values of a trace up to `pt_mapystep`. -/
structure Trace where
  x1 : Int
  y1 : Int
  dx : Int
  dy : Int
  rx1 : Int
  ry1 : Int
  rx2 : Int
  ry2 : Int

def trace (map : Blockmap) (x1 y1 x2 y2 : Int32) : Trace :=
  let px1 := nudged x1.toInt map.orgx.toInt
  let py1 := nudged y1.toInt map.orgy.toInt
  { x1 := px1
    y1 := py1
    dx := x2.toInt - px1
    dy := y2.toInt - py1
    rx1 := px1 - map.orgx.toInt
    ry1 := py1 - map.orgy.toInt
    rx2 := x2.toInt - map.orgx.toInt
    ry2 := y2.toInt - map.orgy.toInt }

def Trace.xt1 (t : Trace) : Int := t.rx1 >>> (23 : Nat)
def Trace.yt1 (t : Trace) : Int := t.ry1 >>> (23 : Nat)
def Trace.xt2 (t : Trace) : Int := t.rx2 >>> (23 : Nat)
def Trace.yt2 (t : Trace) : Int := t.ry2 >>> (23 : Nat)

/-- `pt_mapxstep` and `pt_mapystep`. -/
def mapstep (t1 t2 : Int) : Int := if t2 > t1 then 1 else if t2 < t1 then -1 else 0

/-- `pt_ystep` and `pt_xstep`. -/
def stepOf (mapstep other1 other2 c1 c2 : Int) : Except Trap Int :=
  if mapstep = 0 then .ok (256 * 65536)
  else do
    let quotient ← Fixed.fixedDiv (Int32.ofInt (other2 - other1)) (Int32.ofInt |c2 - c1|)
    return quotient.toInt

/-- The part of the first block that is left. -/
def partialOf (mapstep rel : Int) : Int :=
  if mapstep > 0 then 65536 - (rel >>> (7 : Nat)) % 65536
  else if mapstep < 0 then (rel >>> (7 : Nat)) % 65536
  else 65536

/-- `pt_yintercept` and `pt_xintercept`. -/
def interceptOf (rel mapstep other step : Int) : Int :=
  (rel >>> (7 : Nat)) + ((partialOf mapstep other * step) >>> (16 : Nat))

/-! ## The blocks -/

/-- The accumulator of the walk. -/
structure Walk where
  x : Int
  y : Int
  xintercept : Int
  yintercept : Int
  done : Bool
  seen : List Int

/-- The number of a block, -1 off the map. -/
def cell (map : Blockmap) (x y : Int) : Int :=
  if x ≥ 0 ∧ x < map.width ∧ y ≥ 0 ∧ y < map.height then y * map.width + x else -1

def walkStep (map : Blockmap) (t : Trace) (xstep ystep : Int) (w : Walk) : Walk :=
  if w.done then w
  else
    let seen := w.seen ++ [cell map w.x w.y]
    if w.x = t.xt2 ∧ w.y = t.yt2 then { w with done := true, seen := seen }
    else if w.yintercept >>> (16 : Nat) = w.y then
      { w with
        x := w.x + mapstep t.xt1 t.xt2, yintercept := w.yintercept + ystep, seen := seen }
    else if w.xintercept >>> (16 : Nat) = w.x then
      { w with
        y := w.y + mapstep t.yt1 t.yt2, xintercept := w.xintercept + xstep, seen := seen }
    else { w with seen := seen }

/-- `pt_cells`. -/
def cells (map : Blockmap) (t : Trace) (xstep ystep : Int) : List Int :=
  let start : Walk :=
    { x := t.xt1
      y := t.yt1
      xintercept := interceptOf t.rx1 (mapstep t.yt1 t.yt2) t.ry1 xstep
      yintercept := interceptOf t.ry1 (mapstep t.xt1 t.xt2) t.rx1 ystep
      done := false
      seen := [] }
  ((List.range 64).foldl (fun w _ => walkStep map t xstep ystep w) start).seen.filter (· ≥ 0)

/-! ## What the walk reaches -/

/-- `walked`: the distinct lines of the blocks, or block by block the lines and then the
things. -/
def walked (level : PathLevel) (things : Option (List Thing)) (cells : List Int) : List Entry :=
  match things with
  | none =>
    ((cells.map fun cell => level.blockLines.getD cell.toNat []).flatten.eraseDups).map Entry.line
  | some things => Blocks.walked level.map level.blockLines cells things

/-- `point_on_side` of a point and the trace, whose values are 64 bits wide. -/
def sideOfTrace (x y : Int32) (t : Trace) : Nat :=
  let lx := Int64.ofInt t.x1
  let ly := Int64.ofInt t.y1
  let ldx := Int64.ofInt t.dx
  let ldy := Int64.ofInt t.dy
  let dx := (x.toInt64 - lx).toInt32
  let dy := (y.toInt64 - ly).toInt32
  let left := (((ldy >>> 8) * (dx >>> 8).toInt64) >>> 16).toInt32
  let right := (((dy >>> 8).toInt64 * (ldx >>> 8)) >>> 16).toInt32
  if ldx = 0 then if x.toInt64 ≤ lx then truth (ldy > 0) else truth (ldy < 0)
  else if ldy = 0 then if y.toInt64 ≤ ly then truth (ldx < 0) else truth (ldx > 0)
  else if (((ldy ^^^ ldx) ^^^ dx.toInt64) ^^^ dy.toInt64) &&& -2147483648 ≠ 0 then
    truth ((ldy ^^^ dx.toInt64) &&& -2147483648 ≠ 0)
  else truth (right ≥ left)

/-- The fraction of a line, -1 where the trace does not cross it. -/
def lineFrac (t : Trace) (line : Line) : Except Trap Int32 :=
  let far := 16 * 65536
  let long := t.dx > far ∨ t.dy > far ∨ t.dx < -far ∨ t.dy < -far
  let sideOfLine (x y : Int) := Fixed.pointOnLineSide (Int32.ofInt x) (Int32.ofInt y)
    line.v1x line.v1y line.divline.dx line.divline.dy
  let crossed := if long then sideOfTrace line.v1x line.v1y t ≠ sideOfTrace line.v2x line.v2y t
    else sideOfLine t.x1 t.y1 ≠ sideOfLine (t.x1 + t.dx) (t.y1 + t.dy)
  if crossed then
    Fixed.interceptVector (Int32.ofInt t.x1) (Int32.ofInt t.y1) (Int32.ofInt t.dx)
      (Int32.ofInt t.dy) line.v1x line.v1y line.divline.dx line.divline.dy
  else .ok (-1)

/-- `thing_frac`. -/
def thingFrac (t : Trace) (thing : Thing) : Except Trap Int32 :=
  let positive := Int32.ofInt t.dx ^^^ Int32.ofInt t.dy > 0
  let x1 := Int32.ofInt (thing.x.toInt - thing.radius.toInt)
  let y1 := Int32.ofInt (if positive then thing.y.toInt + thing.radius.toInt
    else thing.y.toInt - thing.radius.toInt)
  let x2 := Int32.ofInt (thing.x.toInt + thing.radius.toInt)
  let y2 := Int32.ofInt (if positive then thing.y.toInt - thing.radius.toInt
    else thing.y.toInt + thing.radius.toInt)
  if sideOfTrace x1 y1 t = sideOfTrace x2 y2 t then .ok (-1)
  else
    Fixed.interceptVector (Int32.ofInt t.x1) (Int32.ofInt t.y1) (Int32.ofInt t.dx)
      (Int32.ofInt t.dy) x1 y1 (Fixed.sub32 x2 x1) (Fixed.sub32 y2 y1)

/-- An entry with its fraction; a walk without things reaches no thing. -/
def hit (level : PathLevel) (things : Option (List Thing)) (t : Trace) (entry : Entry) :
    Except Trap Intercept := do
  let frac ← match entry with
    | .line number => lineFrac t (level.lines.getD number default)
    | .thing slot => (readTable (things.getD []) slot).bind (thingFrac t)
  return ⟨frac, entry⟩

/-- `path_traverse` of one trace. -/
def pathTraverse (level : PathLevel) (things : Option (List Thing)) (x1 y1 x2 y2 : Int32) :
    Except Trap (List Intercept) := do
  let t := trace level.map x1 y1 x2 y2
  let ystep ← stepOf (mapstep t.xt1 t.xt2) t.ry1 t.ry2 t.rx1 t.rx2
  let xstep ← stepOf (mapstep t.yt1 t.yt2) t.rx1 t.rx2 t.ry1 t.ry2
  let reached := walked level things (cells level.map t xstep ystep)
  let hits ← reached.mapM (hit level things t)
  return StableSort.byKeyAndPlace (fun intercept => intercept.frac.toInt)
    (hits.filter fun intercept => intercept.frac ≥ 0 && intercept.frac ≤ 65536)

end ClickDoom.Native.Traverse

import ClickDoom.Base.ClickHouse
import ClickDoom.Engine.CheckPosition
import ClickDoom.Native.Blocks
import ClickDoom.Native.Bsp

/-! # The move check of the tic query

`line_reach` and `try_moves` of `native/src/sql/sim/map.rs` with what they use of `maputl.rs`.
The box and all differences are 64 bits wide, and no value here leaves them: they are written
as integers.
-/
namespace ClickDoom.Native.Moves
open Engine (Box MoveLine MoveLevel Mobj Blockmap Divline Sector truth fracUnit)
open SignedWords

/-- A pending move, `ask`; slots count from one. -/
structure Ask where
  slot : Nat
  x : Int32
  y : Int32
  radius : Int32
  height : Int32
  z : Int32
  flags : Int32
  isPlayer : Bool
  deriving DecidableEq, Repr

/-! ## `maputl.rs` -/

/-- `range(low, high)`. -/
def range (low high : Int) : List Int :=
  (List.range (high - low).toNat).map fun i : Nat => low + (i : Int)

def cells (map : Blockmap) (bbox : Box Int) (margin : Int) : List Int :=
  let xl := (bbox.left - map.orgx.toInt - margin) >>> (23 : Nat)
  let xh := (bbox.right - map.orgx.toInt + margin) >>> (23 : Nat)
  let yl := (bbox.bottom - map.orgy.toInt - margin) >>> (23 : Nat)
  let yh := (bbox.top - map.orgy.toInt + margin) >>> (23 : Nat)
  (range (max xl 0) (min xh (map.width - 1) + 1)).flatMap fun bx =>
    (range (max yl 0) (min yh (map.height - 1) + 1)).map fun by_ => by_ * map.width + bx

def linesIn (level : MoveLevel) (cells : List Int) : List Nat :=
  (cells.flatMap fun cell => level.blockLines.getD cell.toNat []).eraseDups

/-- `point_on_line_side` of a corner of the box. -/
def pointOnLineSide (x y : Int) (line : Divline) : Nat :=
  let dx := Int32.ofInt (x - line.x.toInt)
  let dy := Int32.ofInt (y - line.y.toInt)
  let left := Fixed.fixedMul (line.dy >>> 16) dx
  let right := Fixed.fixedMul dy (line.dx >>> 16)
  if line.dx = 0 then if x ≤ line.x.toInt then truth (line.dy > 0) else truth (line.dy < 0)
  else if line.dy = 0 then if y ≤ line.y.toInt then truth (line.dx < 0) else truth (line.dx > 0)
  else truth (right ≥ left)

/-- The two corners `box_on_line_side` compares. -/
def corners (bbox : Box Int) (ld : MoveLine) : Nat × Nat :=
  let line := ld.divline
  if ld.slopetype = .horizontal then
    (truth (bbox.top > line.y.toInt), truth (bbox.bottom > line.y.toInt))
  else if ld.slopetype = .vertical then
    (truth (bbox.right < line.x.toInt), truth (bbox.left < line.x.toInt))
  else
    (pointOnLineSide (if ld.slopetype = .positive then bbox.left else bbox.right) bbox.top line,
      pointOnLineSide (if ld.slopetype = .positive then bbox.right else bbox.left) bbox.bottom line)

def boxOnLineSide (bbox : Box Int) (ld : MoveLine) : Int :=
  let flip := truth ((ld.slopetype = .horizontal ∧ ld.divline.dx < 0) ∨
    (ld.slopetype = .vertical ∧ ld.divline.dy < 0))
  let sides := (corners bbox ld).1 + (corners bbox ld).2
  if sides = 0 then ((0 ^^^ flip : Nat) : Int)
  else if sides = 2 then ((1 ^^^ flip : Nat) : Int)
  else -1

/-- `opening`: the top, the bottom and the lower floor. -/
structure Window where
  top : Int32
  bottom : Int32
  lowfloor : Int32
  deriving DecidableEq, Repr

def opening (level : MoveLevel) (number : Nat) : Window :=
  let ld := level.line number
  match ld.back with
  | none => ⟨0, 0, 0⟩
  | some back =>
    let front := level.sector ld.front
    let back := level.sector back
    ⟨min front.ceilingheight back.ceilingheight, max front.floorheight back.floorheight,
      if front.floorheight > back.floorheight then back.floorheight else front.floorheight⟩

/-- One step of the fold of `tm_ceilingline`. -/
def ceilingStep (acc : Int32 × Int) (entry : Window × Nat) : Int32 × Int :=
  if entry.1.top < acc.1 then (entry.1.top, (entry.2 : Int)) else acc

/-! ## `line_reach` -/

section
variable (level : MoveLevel) (depth : Nat) (ask : Ask)

/-- `tm_bbox`. -/
def tmBbox : Box Int :=
  ⟨ask.y.toInt + ask.radius.toInt, ask.y.toInt - ask.radius.toInt,
    ask.x.toInt - ask.radius.toInt, ask.x.toInt + ask.radius.toInt⟩

/-- `tm_subsector`, `depth` steps down the tree. -/
def tmSubsector : UInt32 := Bsp.pointInSubsector level.nodes ask.x ask.y depth

def misses (bbox : Box Int) (ld : MoveLine) : Bool :=
  bbox.right ≤ ld.bbox.left.toInt || bbox.left ≥ ld.bbox.right.toInt ||
    bbox.top ≤ ld.bbox.bottom.toInt || bbox.bottom ≥ ld.bbox.top.toInt

def blocks (ld : MoveLine) : Bool :=
  ld.back = none || (ask.flags &&& 0x10000 = 0 &&
    (ld.flags &&& 1 ≠ 0 || (!ask.isPlayer && ld.flags &&& 2 ≠ 0)))

/-- `tm_line_hit`: the lines the box crosses, each with whether it blocks. -/
def crossing : List (Nat × Bool) :=
  ((linesIn level (cells level.map (tmBbox ask) 0)).filter fun number =>
    !misses (tmBbox ask) (level.line number) &&
      boxOnLineSide (tmBbox ask) (level.line number) = -1).map fun number =>
    (number, blocks ask (level.line number))

/-- `indexOf`: the first place that holds a value, counted from one, 0 where none does. -/
def indexOf (list : List Bool) : Nat := if list.idxOf true < list.length then list.idxOf true + 1
  else 0

def tmLineStop : Nat := indexOf ((crossing level ask).map Prod.snd)

def tmLineOpen : List Nat :=
  (if tmLineStop level ask = 0 then crossing level ask
    else ClickHouse.arraySlice (crossing level ask) 1 (tmLineStop level ask - 1)).map Prod.fst

def tmOpenings : List Window := (tmLineOpen level ask).map (opening level)

/-- `tm_floorz` and `tm_ceilingz`. -/
def tmFloorz : Int32 :=
  ((tmOpenings level ask).map Window.bottom).foldl max
    (level.sectorOf (tmSubsector level depth ask)).floorheight

def tmCeilingz : Int32 :=
  ((tmOpenings level ask).map Window.top).foldl min
    (level.sectorOf (tmSubsector level depth ask)).ceilingheight

end

/-! ## `try_moves` -/

/-- `answer`, as far as a mover that is no missile reads it. -/
structure Answer where
  ok : Bool
  floorz : Int32
  ceilingz : Int32
  dropoffz : Int32
  subsector : UInt32
  picked : List Nat
  spechit : List Nat
  ceilingline : Int
  deriving DecidableEq, Repr

section
variable (level : MoveLevel) (things : List Mobj) (depth : Nat) (ask : Ask)

/-- `tm_thing_touch`: the slots `touching` keeps, in the order of the walk. -/
def tmThingTouch : List Nat :=
  let at_ := Blocks.thingsIn level.map (cells level.map (tmBbox ask) 2097152)
    (things.map Mobj.thing)
  (at_.map fun entry => entry.1 + 1).filter fun slot =>
    let thing := Engine.mobjAt things (slot - 1)
    let blockdist := thing.radius.toInt + ask.radius.toInt
    slot ≠ ask.slot && thing.flags &&& 7 ≠ 0 &&
      |thing.x.toInt - ask.x.toInt| < blockdist && |thing.y.toInt - ask.y.toInt| < blockdist

def flagsOf (slot : Nat) : Int32 := (Engine.mobjAt things (slot - 1)).flags

def tmThingStop : Nat :=
  indexOf ((tmThingTouch level things ask).map fun slot => flagsOf things slot &&& 2 ≠ 0)

def tmPicked : List Nat :=
  if ask.flags &&& 0x800 = 0 then []
  else
    (if tmThingStop level things ask = 0 then tmThingTouch level things ask
      else ClickHouse.arraySlice (tmThingTouch level things ask) 1
        (tmThingStop level things ask)).filter fun slot => flagsOf things slot &&& 1 ≠ 0

/-- `tm_ceilingline`, -1 where no line brought the ceiling down. -/
def tmCeilingline : Int :=
  (((tmOpenings level ask).zip (tmLineOpen level ask)).foldl ceilingStep
    ((level.sectorOf (tmSubsector level depth ask)).ceilingheight, -1)).2

def tmDropoffz : Int32 :=
  ((tmOpenings level ask).map Window.lowfloor).foldl min
    (level.sectorOf (tmSubsector level depth ask)).floorheight

def fits : Bool :=
  let ceilingz := (tmCeilingz level depth ask).toInt
  let floorz := (tmFloorz level depth ask).toInt
  ask.flags &&& 0x1000 ≠ 0 ||
    (ceilingz - floorz ≥ ask.height.toInt &&
      (ask.flags &&& 0x8000 ≠ 0 || ceilingz - ask.z.toInt ≥ ask.height.toInt) &&
      (ask.flags &&& 0x8000 ≠ 0 || floorz - ask.z.toInt ≤ 1572864) &&
      (ask.flags &&& (0x400 ||| 0x4000) ≠ 0 ||
        floorz - (tmDropoffz level depth ask).toInt ≤ 1572864))

/-- `try_moves` of one move. -/
def tryMove : Answer where
  ok := tmThingStop level things ask = 0 && tmLineStop level ask = 0 && fits level depth ask
  floorz := tmFloorz level depth ask
  ceilingz := tmCeilingz level depth ask
  dropoffz := tmDropoffz level depth ask
  subsector := tmSubsector level depth ask
  picked := tmPicked level things ask
  spechit := (tmLineOpen level ask).filter fun number => (level.line number).special ≠ 0
  ceilingline := tmCeilingline level depth ask

end

end ClickDoom.Native.Moves

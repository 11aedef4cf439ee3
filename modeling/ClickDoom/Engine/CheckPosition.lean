import ClickDoom.Base.Halting
import ClickDoom.Engine.Nodes
import ClickDoom.Engine.Reached

/-! # The engine's move checks

`P_CheckPosition` and `P_TryMove` of `p_map.c` with the two routines their iterators call, and
`P_BoxOnLineSide` and `P_LineOpening` of `p_maputl.c`.  What a touched special thing gives, and
what a charge or a missile does to what it hits, is left out: the check reads none of it.
-/
namespace ClickDoom.Engine

/-! ## The level -/

/-- The sides of a box, in the order of `m_bbox.h`. -/
structure Box (α : Type) where
  top : α
  bottom : α
  left : α
  right : α
  deriving DecidableEq, Repr

inductive SlopeType
  | horizontal
  | vertical
  | positive
  | negative
  deriving DecidableEq, Repr

/-- What a move reads of a `line_t`: the first vertex and the direction, and no back sector
where `sidenum[1]` is -1. -/
structure MoveLine where
  divline : Divline
  slopetype : SlopeType
  bbox : Box Int32
  flags : Int16
  front : Nat
  back : Option Nat
  special : Int16
  deriving DecidableEq, Repr

instance : Inhabited MoveLine :=
  ⟨⟨⟨0, 0, 0, 0⟩, .horizontal, ⟨0, 0, 0, 0⟩, 0, 0, some 0, 0⟩⟩

/-- What a move reads of a level; `subsectors` gives each one's sector. -/
structure MoveLevel where
  map : Blockmap
  lines : List MoveLine
  blockLines : List (List Nat)
  nodes : Nodes
  subsectors : List Nat
  sectors : List Sector

def MoveLevel.line (level : MoveLevel) (number : Nat) : MoveLine :=
  level.lines.getD number default

def MoveLevel.sector (level : MoveLevel) (number : Nat) : Sector :=
  level.sectors.getD number ⟨0, 0⟩

/-- The sector of a subsector. -/
def MoveLevel.sectorOf (level : MoveLevel) (subsector : UInt32) : Sector :=
  level.sector (level.subsectors.getD subsector.toNat 0)

def mlBlocking : Int16 := 1
def mlBlockmonsters : Int16 := 2

/-! ## The things -/

def mfSpecial : Int32 := 0x1
def mfSolid : Int32 := 0x2
def mfShootable : Int32 := 0x4
def mfNoblockmap : Int32 := 0x10
def mfDropoff : Int32 := 0x400
def mfPickup : Int32 := 0x800
def mfNoclip : Int32 := 0x1000
def mfFloat : Int32 := 0x4000
def mfTeleport : Int32 := 0x8000
def mfMissile : Int32 := 0x10000
def mfDropped : Int32 := 0x20000
def mfSkullfly : Int32 := 0x1000000

/-- The types a missile tells apart, and all others by their number. -/
inductive Species
  | player
  | bruiser
  | knight
  | other (number : Nat)
  deriving DecidableEq, Repr

/-- What a move reads of a `mobj_t`; `target` is a slot. -/
structure Mobj where
  x : Int32
  y : Int32
  z : Int32
  floorz : Int32
  ceilingz : Int32
  radius : Int32
  height : Int32
  flags : Int32
  health : Int32
  type : Species
  target : Option Nat
  player : Bool
  linkseq : Nat
  alive : Bool
  deriving DecidableEq, Repr

instance : Inhabited Mobj := ⟨⟨0, 0, 0, 0, 0, 0, 0, 0, 0, .player, none, false, 0, false⟩⟩

/-- Whether a thing has one of some flags. -/
def Mobj.has (mobj : Mobj) (flags : Int32) : Bool := mobj.flags &&& flags != 0

/-- A thing as the block lists see it. -/
def Mobj.thing (mobj : Mobj) : Thing :=
  ⟨mobj.x, mobj.y, mobj.radius, mobj.linkseq, mobj.alive, mobj.has mfNoblockmap⟩

def mobjAt (things : List Mobj) (slot : Nat) : Mobj := things.getD slot default

/-! ## `PIT_CheckThing` -/

section
variable (things : List Mobj) (mover : Mobj) (self : Nat) (x y : Int32)

/-- Whether the routine gets past the tests it returns early from. -/
def touches (other : Nat) : Bool :=
  let thing := mobjAt things other
  let blockdist := thing.radius + mover.radius
  thing.has (mfSolid ||| mfSpecial ||| mfShootable) &&
    !((thing.x - x).abs ≥ blockdist || (thing.y - y).abs ≥ blockdist) && other != self

/-- The missile's target is of the thing's species. -/
def sameSpecies (target thing : Species) : Bool :=
  target = thing || (target = .knight && thing = .bruiser) ||
    (target = .bruiser && thing = .knight)

/-- Whether a missile goes on past a thing it touches. -/
def missilePasses (other : Nat) : Bool :=
  let thing := mobjAt things other
  if mover.z > thing.z + thing.height then true
  else if mover.z + mover.height < thing.z then true
  else if mover.target.any fun target =>
      sameSpecies (mobjAt things target).type thing.type && other = target then true
  else if mover.target.any fun target =>
      sameSpecies (mobjAt things target).type thing.type && thing.type ≠ .player then false
  else if !thing.has mfShootable then !thing.has mfSolid
  else false

/-- `PIT_CheckThing`: the special things touched so far, and whether to go on. -/
def checkThing (touched : List Nat) (other : Nat) : List Nat × Bool :=
  let thing := mobjAt things other
  if !touches things mover self x y other then (touched, true)
  else if mover.has mfSkullfly then (touched, false)
  else if mover.has mfMissile then (touched, missilePasses things mover other)
  else if thing.has mfSpecial then
    (if mover.has mfPickup then touched ++ [other] else touched, !thing.has mfSolid)
  else (touched, !thing.has mfSolid)

end

/-! ## `PIT_CheckLine` -/

/-- `P_BoxOnLineSide`: -1 where the line crosses the box. -/
def boxOnLineSide (box : Box Int32) (ld : MoveLine) : Int :=
  let line := ld.divline
  let (p1, p2) :=
    match ld.slopetype with
    | .horizontal =>
      if line.dx < 0 then (1 - truth (box.top > line.y), 1 - truth (box.bottom > line.y))
      else (truth (box.top > line.y), truth (box.bottom > line.y))
    | .vertical =>
      if line.dy < 0 then (1 - truth (box.right < line.x), 1 - truth (box.left < line.x))
      else (truth (box.right < line.x), truth (box.left < line.x))
    | .positive =>
      (pointOnLineSide box.left box.top line, pointOnLineSide box.right box.bottom line)
    | .negative =>
      (pointOnLineSide box.right box.top line, pointOnLineSide box.left box.bottom line)
  if p1 = p2 then p1 else -1

/-- The lower of two floors, `lowfloor` of `P_LineOpening`. -/
def lowfloor (front back : Sector) : Int32 :=
  if front.floorheight > back.floorheight then back.floorheight else front.floorheight

/-- The variables the check of the lines works on. -/
structure Tm where
  bbox : Box Int32
  floorz : Int32
  ceilingz : Int32
  dropoffz : Int32
  ceilingline : Option Nat
  spechit : List Nat
  deriving DecidableEq, Repr

/-- `SpechitOverrun`: the ninth to the twelfth line lie where `tmbbox` is, `addr` being the line's
address in the original; no later one lies where a move reads. -/
def spechitOverrun (tm : Tm) (addr : Int32) : Tm :=
  match tm.spechit.length with
  | 9 => { tm with bbox := { tm.bbox with top := addr } }
  | 10 => { tm with bbox := { tm.bbox with bottom := addr } }
  | 11 => { tm with bbox := { tm.bbox with left := addr } }
  | 12 => { tm with bbox := { tm.bbox with right := addr } }
  | _ => tm

section
variable (level : MoveLevel) (mover : Mobj) (magic : Int32)

/-- Whether a crossed line stops the mover. -/
def lineBlocks (ld : MoveLine) : Bool :=
  ld.back.isNone || (!mover.has mfMissile &&
    (ld.flags &&& mlBlocking != 0 || (!mover.player && ld.flags &&& mlBlockmonsters != 0)))

/-- What a crossed line that stops nothing does to the heights. -/
def lowerInto (tm : Tm) (number : Nat) : Tm :=
  let ld := level.line number
  let front := level.sector ld.front
  let back := level.sector (ld.back.getD 0)
  { tm with
    ceilingz := if (opening front back).opentop < tm.ceilingz then (opening front back).opentop
      else tm.ceilingz
    ceilingline := if (opening front back).opentop < tm.ceilingz then some number
      else tm.ceilingline
    floorz := if (opening front back).openbottom > tm.floorz then (opening front back).openbottom
      else tm.floorz
    dropoffz := if lowfloor front back < tm.dropoffz then lowfloor front back else tm.dropoffz }

/-- A special line is put on the list; from the ninth on other variables are overwritten. -/
def hitSpecial (tm : Tm) (number : Nat) : Tm :=
  if (level.line number).special = 0 then tm
  else
    let tm := { tm with spechit := tm.spechit ++ [number] }
    if tm.spechit.length > 8 then spechitOverrun tm (magic + Int32.ofNat (number * 0x3E)) else tm

/-- The box lies beside the line's. -/
def boxMisses (box : Box Int32) (ld : MoveLine) : Bool :=
  box.right ≤ ld.bbox.left || box.left ≥ ld.bbox.right || box.top ≤ ld.bbox.bottom ||
    box.bottom ≥ ld.bbox.top

/-- `PIT_CheckLine`. -/
def checkLine (tm : Tm) (number : Nat) : Tm × Bool :=
  let ld := level.line number
  if boxMisses tm.bbox ld then (tm, true)
  else if boxOnLineSide tm.bbox ld ≠ -1 then (tm, true)
  else if lineBlocks mover ld then (tm, false)
  else (hitSpecial level magic (lowerInto level tm number) number, true)

end

/-! ## The iterators -/

/-- `P_BlockThingsIterator` and `P_BlockLinesIterator` hand on a block's list, nothing where the
map has no such block. -/
def blockList (map : Blockmap) (lists : Nat → List Nat) (block : Int × Int) : List Nat :=
  match numberAt map block.1 block.2 with
  | none => []
  | some number => lists number

/-- The numbers from one to another, both taken. -/
def span (low high : Int) : List Int :=
  (List.range (high + 1 - low).toNat).map fun i : Nat => low + (i : Int)

/-- The blocks of two nested loops, a column at a time. -/
def blocksOver (xl xh yl yh : Int) : List (Int × Int) :=
  (span xl xh).flatMap fun bx => (span yl yh).map fun by_ => (bx, by_)

/-- The blocks a box covers, once it is made wider by a margin. -/
def blocksUnder (map : Blockmap) (box : Box Int32) (margin : Int32) : List (Int × Int) :=
  blocksOver ((box.left - map.orgx - margin) >>> 23).toInt
    ((box.right - map.orgx + margin) >>> 23).toInt
    ((box.bottom - map.orgy - margin) >>> 23).toInt ((box.top - map.orgy + margin) >>> 23).toInt

def maxRadius : Int32 := 32 * 65536

/-! ## `P_CheckPosition` and `P_TryMove` -/

/-- What `P_CheckPosition` leaves, and its answer. -/
structure Position where
  subsector : UInt32
  tm : Tm
  touched : List Nat
  clear : Bool
  deriving DecidableEq, Repr

section
variable (level : MoveLevel) (things : List Mobj) (mover : Mobj) (self : Nat) (magic : Int32)
  (x y : Int32)

def tmBbox : Box Int32 :=
  ⟨y + mover.radius, y - mover.radius, x - mover.radius, x + mover.radius⟩

/-- The variables before anything is checked. -/
def startTm (subsector : UInt32) : Tm :=
  let sector := level.sectorOf subsector
  ⟨tmBbox mover x y, sector.floorheight, sector.ceilingheight, sector.floorheight, none, []⟩

/-- The loop over the things. -/
def checkThings : List Nat × Bool :=
  Halting.walk (fun touched block =>
      Halting.walk (checkThing things mover self x y) touched
        (blockList level.map (blocklinks level.map (things.map Mobj.thing)) block))
    [] (blocksUnder level.map (tmBbox mover x y) maxRadius)

/-- The loop over the lines, each checked once. -/
def checkLines (tm : Tm) : (List Nat × Tm) × Bool :=
  Halting.walk (fun state block =>
      Halting.walk (Halting.marking (checkLine level mover magic)) state
        (blockList level.map (level.blockLines.getD · []) block))
    ([], tm) (blocksUnder level.map (tmBbox mover x y) 0)

/-- `P_CheckPosition` after the subsector is found.  Past `MAXSPECIALCROSS` special lines the
engine writes behind its array, and there is no answer. -/
def checkPositionAt (subsector : UInt32) : Option Position :=
  let start := startTm level mover x y subsector
  if mover.has mfNoclip then some ⟨subsector, start, [], true⟩
  else
    let checked := checkThings level things mover self x y
    if !checked.2 then some ⟨subsector, start, checked.1, false⟩
    else
      let lines := checkLines level mover magic x y start
      if lines.1.2.spechit.length > 20 then none
      else some ⟨subsector, lines.1.2, checked.1, lines.2⟩

/-- `P_CheckPosition`, `none` also while `fuel` steps have not reached a subsector. -/
def checkPosition (fuel : Nat) : Option Position :=
  (pointInSubsector level.nodes x y fuel).bind
    (checkPositionAt level things mover self magic x y)

/-- The tests of `P_TryMove`. -/
def fitsThere (tm : Tm) : Bool :=
  mover.has mfNoclip ||
    (!(tm.ceilingz - tm.floorz < mover.height) &&
      !(!mover.has mfTeleport && tm.ceilingz - mover.z < mover.height) &&
      !(!mover.has mfTeleport && tm.floorz - mover.z > 24 * fracUnit) &&
      !(!mover.has (mfDropoff ||| mfFloat) && tm.floorz - tm.dropoffz > 24 * fracUnit))

/-- `P_TryMove` up to the link: the position checked and the answer. -/
def tryMove (fuel : Nat) : Option (Position × Bool) :=
  (checkPosition level things mover self magic x y fuel).map fun position =>
    (position, position.clear && fitsThere mover position.tm)

end

end ClickDoom.Engine

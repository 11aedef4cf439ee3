import ClickDoom.Base.Narrowing
import ClickDoom.Engine.Nodes

/-! # The engine's line of sight

`p_sight.c`: the `REJECT` matrix, the descent of the trace through the node tree and the
crossing of a subsector's segs, with its early returns and the marks of `validcount`.
What a seg divides is carried by the seg; `opening` is what the engine computes for it.
-/
namespace ClickDoom.Engine

/-! ## The level -/

/-- The heights of a `sector_t`. -/
structure Sector where
  floorheight : Int32
  ceilingheight : Int32
  deriving DecidableEq, Repr

/-- The opening between two sectors, and which of their planes part. -/
structure Opening where
  opentop : Int32
  openbottom : Int32
  stepped : Bool
  ducked : Bool
  deriving DecidableEq, Repr

/-- The opening `P_CrossSubsector` finds at a two-sided seg. -/
def opening (front back : Sector) : Opening where
  opentop :=
    if front.ceilingheight < back.ceilingheight then front.ceilingheight else back.ceilingheight
  openbottom :=
    if front.floorheight > back.floorheight then front.floorheight else back.floorheight
  stepped := front.floorheight != back.floorheight
  ducked := front.ceilingheight != back.ceilingheight

/-- A `line_t`: its two vertices, whether it has the flag `ML_TWOSIDED` and whether it
has a back sector. -/
structure Line where
  v1x : Int32
  v1y : Int32
  v2x : Int32
  v2y : Int32
  twosided : Bool
  backed : Bool
  deriving DecidableEq, Repr

instance : Inhabited Line := ⟨⟨0, 0, 0, 0, false, false⟩⟩

def Line.divline (line : Line) : Divline where
  x := line.v1x
  y := line.v1y
  dx := line.v2x - line.v1x
  dy := line.v2y - line.v1y

structure Seg where
  line : Nat
  opening : Opening
  deriving DecidableEq, Repr

structure Subsector where
  firstline : Nat
  numlines : Nat
  sector : Nat
  deriving DecidableEq, Repr

/-- What a check reads of a level: its subsectors cut the segs in order, a sector's number
is 16 bits wide, and `REJECT` has a bit for every pair of sectors. -/
structure SightLevel where
  nodes : Nodes
  lines : List Line
  segs : List Seg
  subsectors : List Subsector
  numsectors : Nat
  reject : List UInt8
  seg_line : ∀ seg ∈ segs, seg.line < lines.length
  firstline_eq : ∀ i (h : i < subsectors.length),
    subsectors[i].firstline = ((subsectors.take i).map Subsector.numlines).sum
  numlines_sum : (subsectors.map Subsector.numlines).sum = segs.length
  numsectors_le : numsectors ≤ 32768
  sector_lt : ∀ subsector ∈ subsectors, subsector.sector < numsectors
  reject_length : numsectors * numsectors ≤ 8 * reject.length

/-- The ends of a trace and what the heights are compared from. -/
structure Sighting where
  strace : Divline
  t2x : Int32
  t2y : Int32
  sightzstart : Int32
  deriving DecidableEq, Repr

/-- The lines checked under this `validcount` and the slopes left. -/
structure Slopes where
  checked : List Nat
  topslope : Int32
  bottomslope : Int32
  deriving DecidableEq, Repr

/-- Why a crossing does not go on. -/
inductive Stop
  | blocked
  | trap (why : Trap)
  | unfinished
  deriving DecidableEq, Repr

def orTrap {α : Type} : Except Trap α → Except Stop α
  | .ok a => .ok a
  | .error why => .error (.trap why)

/-! ## `P_CrossSubsector` -/

/-- Whether the trace crosses the line and the line the trace. -/
def Line.crossed (line : Line) (sight : Sighting) : Bool :=
  divlineSide line.v1x line.v1y sight.strace != divlineSide line.v2x line.v2y sight.strace &&
  divlineSide sight.strace.x sight.strace.y line.divline !=
    divlineSide sight.t2x sight.t2y line.divline

/-- The bottom slope past an opening; equal floors leave it. -/
def raisedBottom (opening : Opening) (sight : Sighting) (frac bottomslope : Int32) :
    Except Trap Int32 :=
  if opening.stepped then do
    let slope ← fixedDiv (opening.openbottom - sight.sightzstart) frac
    return if slope > bottomslope then slope else bottomslope
  else .ok bottomslope

/-- The top slope past an opening; equal ceilings leave it. -/
def loweredTop (opening : Opening) (sight : Sighting) (frac topslope : Int32) :
    Except Trap Int32 :=
  if opening.ducked then do
    let slope ← fixedDiv (opening.opentop - sight.sightzstart) frac
    return if slope < topslope then slope else topslope
  else .ok topslope

/-- The slopes past an opening of a line the trace crosses. -/
def narrow (line : Line) (opening : Opening) (sight : Sighting) (slopes : Slopes) :
    Except Stop Slopes := do
  let frac ← orTrap (interceptVector sight.strace line.divline)
  let bottomslope ← orTrap (raisedBottom opening sight frac slopes.bottomslope)
  let topslope ← orTrap (loweredTop opening sight frac slopes.topslope)
  if topslope ≤ bottomslope then .error .blocked
  else .ok ⟨slopes.checked, topslope, bottomslope⟩

/-- A line that has not been checked before. -/
def crossLine (line : Line) (opening : Opening) (sight : Sighting) (slopes : Slopes) :
    Except Stop Slopes :=
  if !line.crossed sight then .ok slopes
  else if !line.backed then .error .blocked
  else if !line.twosided then .error .blocked
  else if !opening.stepped && !opening.ducked then .ok slopes
  else if opening.openbottom ≥ opening.opentop then .error .blocked
  else narrow line opening sight slopes

/-- The mark of `validcount` on a line. -/
def Slopes.check (slopes : Slopes) (line : Nat) : Slopes :=
  { slopes with checked := line :: slopes.checked }

/-- One seg of `P_CrossSubsector`. -/
def crossSeg (lines : List Line) (sight : Sighting) (slopes : Slopes) (seg : Seg) :
    Except Stop Slopes :=
  if seg.line ∈ slopes.checked then .ok slopes
  else crossLine (lines.getD seg.line default) seg.opening sight (slopes.check seg.line)

/-- The segs of a subsector. -/
def SightLevel.segsOf (level : SightLevel) (subsector : Subsector) : List Seg :=
  (level.segs.drop subsector.firstline).take subsector.numlines

def crossSubsector (level : SightLevel) (sight : Sighting) (slopes : Slopes) (num : Nat) :
    Except Stop Slopes := do
  let subsector ← orTrap (readTable level.subsectors num)
  (level.segsOf subsector).foldlM (crossSeg level.lines sight) slopes

/-! ## `P_CrossBSPNode` -/

/-- The side of a node the trace starts on; a start on the line counts as the front. -/
def startSide (sight : Sighting) (node : Node) : Nat :=
  let side := divlineSide sight.strace.x sight.strace.y node.toDivline
  if side = 2 then 0 else side

def endSide (sight : Sighting) (node : Node) : Nat :=
  divlineSide sight.t2x sight.t2y node.toDivline

/-- The number of the subsector a child names. -/
def subsectorOf (bspnum : UInt32) : Nat :=
  if bspnum = 0xFFFFFFFF then 0 else (bspnum &&& ~~~nfSubsector).toNat

def crossBspNode (level : SightLevel) (sight : Sighting) :
    Nat → UInt32 → Slopes → Except Stop Slopes
  | 0, _, _ => .error .unfinished
  | fuel + 1, bspnum, slopes =>
    if isSubsector bspnum then crossSubsector level sight slopes (subsectorOf bspnum)
    else do
      let bsp ← orTrap (readTable level.nodes.list bspnum.toNat)
      let side := startSide sight bsp
      let slopes ← crossBspNode level sight fuel (bsp.child side) slopes
      if side = endSide sight bsp then return slopes
      else crossBspNode level sight fuel (bsp.child (side ^^^ 1)) slopes

/-! ## `P_CheckSight` -/

/-- What a check reads of a thing. -/
structure Viewer where
  subsector : Nat
  x : Int32
  y : Int32
  z : Int32
  height : Int32
  deriving DecidableEq, Repr

/-- The bit of the `REJECT` matrix for two sectors. -/
def rejected (level : SightLevel) (t1 t2 : Viewer) : Except Trap Bool := do
  let s1 ← readTable level.subsectors t1.subsector
  let s2 ← readTable level.subsectors t2.subsector
  let pnum := s1.sector * level.numsectors + s2.sector
  let byte ← readTable level.reject (pnum >>> 3 : Nat)
  return byte &&& (1 <<< UInt8.ofNat (pnum &&& 7)) != 0

def sighting (t1 t2 : Viewer) : Sighting where
  strace := ⟨t1.x, t1.y, t2.x - t1.x, t2.y - t1.y⟩
  t2x := t2.x
  t2y := t2.y
  sightzstart := t1.z + t1.height - (t1.height >>> 2)

def firstSlopes (t1 t2 : Viewer) : Slopes where
  checked := []
  topslope := t2.z + t2.height - (sighting t1 t2).sightzstart
  bottomslope := t2.z - (sighting t1 t2).sightzstart

/-- The head node is the last one. -/
def headNode (level : SightLevel) : UInt32 := UInt32.ofNat level.nodes.list.length - 1

def checkSight (level : SightLevel) (fuel : Nat) (t1 t2 : Viewer) : Except Stop Bool := do
  if ← orTrap (rejected level t1 t2) then return false
  match crossBspNode level (sighting t1 t2) fuel (headNode level) (firstSlopes t1 t2) with
  | .ok _ => return true
  | .error .blocked => return false
  | .error stop => throw stop

end ClickDoom.Engine

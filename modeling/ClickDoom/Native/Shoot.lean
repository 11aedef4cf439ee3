import ClickDoom.Engine.Shoot
import ClickDoom.Native.TraverseAgrees

/-! # Shots as one fold

`native/src/sql/sim/shoot.rs`: aims and shots fold over the intercepts of their traces with one
accumulator, whose stop flag stands for the traverser's return.  Every value of a step is
computed before the stop flag is read and whichever kind of intercept it is for, so a division
the engine never makes may be one that has no value here.  A number that is not a line's or a
slot's reads the arrays' zeros.
-/
namespace ClickDoom.Native.Shoot
open Engine (Wall Room Body Scene Attack Intercept Entry Blockmap Aim Hit Shot Shooter)
open Fixed (fixedMul fixedDiv sub32 add32)

/-- One intercept as `path_traverse` answers it: a line's number, or a slot from one. -/
structure In where
  id : Nat
  frac : Int32
  isLine : Bool
  deriving DecidableEq, Repr

def inOf (intercept : Intercept) : In :=
  match intercept.entry with
  | .line number => ⟨number, intercept.frac, true⟩
  | .thing slot => ⟨slot + 1, intercept.frac, false⟩

/-- An ask; the shooter is a slot from one. -/
structure Ask where
  shooter : Nat
  x : Int32
  y : Int32
  z : Int32
  height : Int32
  angle : UInt32
  range : Int32
  slope : Int32
  aims : Bool
  deriving DecidableEq, Repr

/-- `ends`: where the trace ends.  The cosine is read a quarter turn on, within a whole turn. -/
def ends (trig : Trig) (ask : Ask) : Int32 × Int32 :=
  let fine := (ask.angle >>> 19).toNat
  let reach := ask.range.toInt / 65536
  let along (wave start : Int32) := Int32.ofInt (start.toInt + (Int32.ofInt (reach * wave.toInt)).toInt)
  (along (trig.finesine.getD ((fine + 2048) % 8192) 0) ask.x,
    along (trig.finesine.getD (fine % 8192) 0) ask.y)

/-- `shoot_z`. -/
def shootZ (ask : Ask) : Int32 :=
  Int32.ofInt (ask.z.toInt + ask.height.toInt / 2 + 8 * 65536)

/-- The accumulator. -/
structure Reached where
  slope : Int32
  target : Nat
  kind : Nat
  id : Nat
  x : Int32
  y : Int32
  z : Int32
  spechit : List Nat
  stopped : Bool
  topslope : Int32
  bottomslope : Int32
  deriving DecidableEq, Repr

def Reached.start : Reached := ⟨0, 0, 0, 0, 0, 0, 0, [], false, 40960, -40960⟩

/-- The thing at a slot from one. -/
def bodyAt (scene : Scene) (id : Nat) : Body :=
  if id = 0 then ⟨0, 0, false⟩ else scene.body (id - 1)

section
variable (scene : Scene) (wall : Wall)

/-- The heights of the sector a column names; the server gives zeros for -1. -/
def backRoom : Room :=
  match wall.back with
  | none => ⟨0, 0, 0⟩
  | some back => scene.room back

/-- `opening`: the top and the bottom. -/
def opening : Int32 × Int32 :=
  match wall.back with
  | none => (0, 0)
  | some back =>
    (min (scene.room wall.front).ceilingheight (scene.room back).ceilingheight,
      max (scene.room wall.front).floorheight (scene.room back).floorheight)

/-- `am_backless`. -/
def backless : Bool := wall.back = none

/-- `am_floor_steps` and `am_ceiling_steps`. -/
def floorSteps : Bool :=
  backless wall || (scene.room wall.front).floorheight ≠ (backRoom scene wall).floorheight

def ceilingSteps : Bool :=
  backless wall || (scene.room wall.front).ceilingheight ≠ (backRoom scene wall).ceilingheight

end

/-- The slopes of a step that divide by the distance. -/
structure Slopes where
  openBottom : Int32
  openTop : Int32
  thingTop : Int32
  thingBottom : Int32
  deriving DecidableEq, Repr

section
variable (scene : Scene) (ask : Ask) (shootz : Int32) (at_ : In)

/-- The four numerators of a step. -/
def rises : List Int32 :=
  let wall := scene.wall at_.id
  let body := bodyAt scene at_.id
  [sub32 (opening scene wall).2 shootz, sub32 (opening scene wall).1 shootz,
    Int32.ofInt (body.z.toInt + body.height.toInt - shootz.toInt), sub32 body.z shootz]

/-- `am_open_bottom` to `am_thing_bottom`. -/
def slopes : Except Trap Slopes := do
  let dist := fixedMul ask.range at_.frac
  let wall := scene.wall at_.id
  let body := bodyAt scene at_.id
  let openBottom ← fixedDiv (sub32 (opening scene wall).2 shootz) dist
  let openTop ← fixedDiv (sub32 (opening scene wall).1 shootz) dist
  let thingTop ← fixedDiv
    (Int32.ofInt (body.z.toInt + body.height.toInt - shootz.toInt)) dist
  let thingBottom ← fixedDiv (sub32 body.z shootz) dist
  return ⟨openBottom, openTop, thingTop, thingBottom⟩

/-- `am_frac`. -/
def shortened : Except Trap Int32 := do
  let less ← if at_.isLine then fixedDiv 262144 ask.range else fixedDiv 655360 ask.range
  return sub32 at_.frac less

end

section
variable (scene : Scene) (specials : List Int) (ask : Ask) (shootz : Int32)
  (start ends_ : Int × Int) (held : Reached) (at_ : In) (slopes : Slopes) (frac : Int32)

/-- `am_bottom` and `am_top`. -/
def bottom : Int32 :=
  if floorSteps scene (scene.wall at_.id) then max held.bottomslope slopes.openBottom
  else held.bottomslope

def top : Int32 :=
  if ceilingSteps scene (scene.wall at_.id) then min held.topslope slopes.openTop
  else held.topslope

/-- `am_line_stops`. -/
def lineStops : Bool :=
  !(scene.wall at_.id).twoSided ||
    (opening scene (scene.wall at_.id)).2 ≥ (opening scene (scene.wall at_.id)).1 ||
    top scene held at_ slopes ≤ bottom scene held at_ slopes

/-- `am_line_blocks`. -/
def lineBlocks : Bool :=
  !(scene.wall at_.id).twoSided ||
    (floorSteps scene (scene.wall at_.id) && slopes.openBottom > ask.slope) ||
    (ceilingSteps scene (scene.wall at_.id) && slopes.openTop < ask.slope)

/-- `am_shootable`. -/
def shootable : Bool := at_.id ≠ ask.shooter && (bodyAt scene at_.id).shootable

/-- `am_aimed`. -/
def aimed : Bool :=
  shootable scene ask at_ && slopes.thingTop ≥ held.bottomslope &&
    slopes.thingBottom ≤ held.topslope

/-- `am_thing_blocks`. -/
def thingBlocks : Bool :=
  shootable scene ask at_ && slopes.thingTop ≥ ask.slope && slopes.thingBottom ≤ ask.slope

/-- `am_slope`. -/
def slope : Int32 :=
  Int32.ofInt (((min slopes.thingTop held.topslope).toInt +
    (max slopes.thingBottom held.bottomslope).toInt).tdiv 2)

/-- `am_x` and `am_y`. -/
def along (start end_ : Int) : Int32 :=
  Int32.ofInt (start + (fixedMul (Int32.ofInt (end_ - start)) frac).toInt)

/-- `am_z`. -/
def z : Int32 := add32 shootz (fixedMul ask.slope (fixedMul frac ask.range))

/-- `am_sky`. -/
def sky : Bool :=
  let wall := scene.wall at_.id
  (scene.room wall.front).ceilingpic = scene.skyflatnum &&
    (z ask shootz frac > (scene.room wall.front).ceilingheight ||
      (!backless wall && (backRoom scene wall).ceilingpic = scene.skyflatnum))

/-- `am_spechit`. -/
def spechit : List Nat :=
  if at_.isLine ∧ specials.getD at_.id 0 ≠ 0 then held.spechit ++ [at_.id] else held.spechit

/-- `am_stops`. -/
def stops : Bool :=
  if ask.aims then
    (at_.isLine && lineStops scene held at_ slopes) || (!at_.isLine && aimed scene ask held at_ slopes)
  else
    (at_.isLine && lineBlocks scene ask at_ slopes) ||
      (!at_.isLine && thingBlocks scene ask at_ slopes)

/-- `am_takes`. -/
def takes : Bool := ask.aims && !at_.isLine && aimed scene ask held at_ slopes

/-- `am_ends`. -/
def endsOn : Bool :=
  !ask.aims && stops scene ask held at_ slopes && !(at_.isLine && sky scene ask shootz at_ frac)

/-- Only an aim narrows the window, and only on a line it crossed. -/
def narrows : Bool := ask.aims && at_.isLine && !lineStops scene held at_ slopes

/-- The accumulator after a step, given the quotients of the step. -/
def stepWith : Reached :=
  if held.stopped then held
  else
    let takes := takes scene ask held at_ slopes
    let ends := endsOn scene ask shootz held at_ slopes frac
    let narrows := narrows scene ask held at_ slopes
    { slope := if takes then slope held slopes else held.slope
      target := if takes then at_.id else held.target
      kind := if ends then if at_.isLine then 1 else 2 else held.kind
      id := if ends then at_.id else held.id
      x := if ends then along frac start.1 ends_.1 else held.x
      y := if ends then along frac start.2 ends_.2 else held.y
      z := if ends then z ask shootz frac else held.z
      spechit := spechit specials held at_
      stopped := stops scene ask held at_ slopes
      topslope := if narrows then top scene held at_ slopes else held.topslope
      bottomslope := if narrows then bottom scene held at_ slopes else held.bottomslope }

end

/-- One step of the fold. -/
def step (scene : Scene) (specials : List Int) (ask : Ask) (shootz : Int32)
    (start ends_ : Int × Int) (held : Reached) (at_ : In) : Except Trap Reached := do
  let slopes ← slopes scene ask shootz at_
  let frac ← shortened ask at_
  return stepWith scene specials ask shootz start ends_ held at_ slopes frac

/-- `traverser` for one ask, given the intercepts of its trace. -/
def traverser (trig : Trig) (map : Blockmap) (scene : Scene) (specials : List Int) (ask : Ask)
    (hits : List In) : Except Trap Reached :=
  let last := ends trig ask
  let start := (Traverse.nudged ask.x.toInt map.orgx.toInt,
    Traverse.nudged ask.y.toInt map.orgy.toInt)
  hits.foldlM (step scene specials ask (shootZ ask) start (last.1.toInt, last.2.toInt))
    Reached.start

/-- `bullet_slope` for one shooter: the three tries are asked together. -/
def bulletSlope (trig : Trig) (map : Blockmap) (scene : Scene) (specials : List Int)
    (shooter : Ask) (hits : UInt32 → List In) : Except Trap (Int32 × Nat) := do
  let turned (by_ : Nat) : UInt32 :=
    UInt32.ofNat ((shooter.angle.toNat + by_) % 4294967296)
  let asking (angle : UInt32) : Ask :=
    { shooter with angle, range := 67108864, slope := 0, aims := true }
  let try_ (angle : UInt32) := traverser trig map scene specials (asking angle) (hits angle)
  let ahead ← try_ shooter.angle
  let left ← try_ (turned 67108864)
  let right ← try_ (turned 4227858432)
  return if ahead.target ≠ 0 then (ahead.slope, ahead.target)
    else if left.target ≠ 0 then (left.slope, left.target)
    else (right.slope, right.target)

end ClickDoom.Native.Shoot

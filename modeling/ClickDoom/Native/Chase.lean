import ClickDoom.Engine.Chase
import ClickDoom.Native.Fixed

/-! # A chase, with its eight moves asked up front

`native/src/sql/sim/enemy.rs`: `shape`, `draws` and `chased`, without the angle.  The arrays at the
mover's slot and at its target's are the fields of an `Actor` and a `Target`; the mover has a target,
and `base` is how many numbers the actor has drawn.  A sum of 64 bits is one of the integers, since
none of these leaves them.
-/
namespace ClickDoom.Native.Chase
open Engine.Chase (Dir Answer Actor Setting noDir opposite mfShootable mfJusthit mfJustattacked mfFloat
  mfShadow mtVile mtUndead mtSkull mtSpider mtCyborg)

/-- What a mover's eight answers and its own state decide before any random number is read. -/
structure Shape where
  newchase : Bool
  direct : Bool
  first : Bool
  loop : Bool
  turnaround : Bool
  sound : Bool
  stuck : Bool
  movedir : Dir
  turn : Dir
  e1 : Dir
  e2 : Dir
  diag : Dir
  deltax : Int
  deltay : Int
  count : Int
  directtried : Bool
  missiledraw : Bool
  missiledist : Int
  missilehit : Bool
  justattacked : Bool
  melee : Bool
  deriving DecidableEq, Repr

def slop : Int := 655360

section
variable (s : Setting) (actor : Actor)

def walks (dir : Dir) : Bool := dir ≠ noDir && (s.answers dir).ok

/-- `cs_missile_far` to `cs_missile_dist`: whether the distance is one to fire from, and the number
a draw is compared with. -/
def missileRange (distance : Int) : Bool × Int :=
  let far := (distance - 4194304 - if s.info.meleestate = 0 then 8388608 else 0) >>> (16 : Nat)
  let ranged := !(s.type = mtVile && far > 896) && !(s.type = mtUndead && far < 196)
  let halved := min (if s.type = mtUndead ∨ s.type = mtCyborg ∨ s.type = mtSpider ∨ s.type = mtSkull
    then far >>> (1 : Nat) else far) 200
  (ranged, if s.type = mtCyborg ∧ halved > 160 then 160 else halved)

/-- `dirs`: the eight directions. -/
def directions : List Dir := [0, 1, 2, 3, 4, 5, 6, 7]

def deltax : Int := s.target.x.toInt - actor.x.toInt

def deltay : Int := s.target.y.toInt - actor.y.toInt

/-- `cs_d1`. -/
def eastWest (deltax : Int) : Dir :=
  if deltax > slop then 0 else if deltax < -slop then 4 else noDir

/-- `cs_d2`. -/
def northSouth (deltay : Int) : Dir :=
  if deltay < -slop then 6 else if deltay > slop then 2 else noDir

/-- `cs_diag`. -/
def diagonal (deltax deltay : Int) : Dir :=
  [3, 1, 5, 7].getD ((if deltay < 0 then 2 else 0) + if deltax > 0 then 1 else 0) noDir

/-- `cs_distance`. -/
def distance : Int :=
  (Fixed.aproxDistance (Int32.ofInt (deltax s actor)) (Int32.ofInt (deltay s actor))).toInt

/-- `cs_justattacked`. -/
def justattacked : Bool := actor.flags &&& mfJustattacked ≠ 0

/-- `cs_melee`. -/
def melee : Bool :=
  !justattacked actor && s.info.meleestate ≠ 0 &&
    distance s actor < 2883584 + s.target.radius.toInt && s.sight

/-- `cs_missile_asked`. -/
def missileAsked : Bool :=
  !justattacked actor && !melee s actor && s.info.missilestate ≠ 0 &&
    !(s.gameskill.value.toInt < 4 && actor.movecount ≠ 0)

/-- `cs_newchase`. -/
def newchase : Bool :=
  if justattacked actor then s.gameskill.value.toInt < 4
  else !(decide (actor.movecount.toInt - 1 ≥ 0) && walks s actor.movedir)

/-- `cs_reactiontime`. -/
def reactiontime : Int32 :=
  if actor.reactiontime ≠ 0 then actor.reactiontime - 1 else actor.reactiontime

/-- `shape`, of a mover that entered `entries` states carrying `A_Chase`. -/
def shape (entries : Nat) : Shape :=
  let turn := opposite actor.movedir
  let d1 := eastWest (deltax s actor)
  let d2 := northSouth (deltay s actor)
  let diag := diagonal (deltax s actor) (deltay s actor)
  let e1 := if d1 = turn then noDir else d1
  let e2 := if d2 = turn then noDir else d2
  let newchase := newchase s actor
  let directtried := newchase && d1 ≠ noDir && d2 ≠ noDir && diag ≠ turn
  let direct := directtried && walks s diag
  let first := walks s e1 || walks s e2 || walks s actor.movedir
  let loop := directions.any fun d => d ≠ turn && (s.answers d).ok
  let turnaround := walks s turn
  let range := missileRange s (distance s actor)
  let asked := missileAsked s actor && s.sight
  { newchase
    direct
    first := newchase && !direct && first
    loop := newchase && !direct && !first && loop
    turnaround := newchase && !direct && !first && !loop && turnaround
    sound := !justattacked actor && s.info.activesound ≠ 0
    stuck := entries ≠ 1 || s.target.flags &&& mfShootable = 0 || actor.flags &&& mfFloat ≠ 0 ||
      s.target.flags &&& mfShadow ≠ 0
    movedir := actor.movedir
    turn
    e1
    e2
    diag
    deltax := deltax s actor
    deltay := deltay s actor
    count := actor.movecount.toInt - 1
    directtried
    missiledraw := asked && actor.flags &&& mfJusthit = 0 && reactiontime actor = 0 && range.1
    missiledist := range.2
    missilehit := asked && actor.flags &&& mfJusthit ≠ 0
    justattacked := justattacked actor
    melee := melee s actor }

/-- `draws`: how many random numbers a mover draws. -/
def draws (sh : Shape) (stops : Bool) : Nat :=
  sh.missiledraw.toNat + if stops then 0
    else (if !sh.newchase then 0 else if sh.direct then 1 else if sh.first then 2
      else if sh.loop || sh.turnaround then 3 else 2) + sh.sound.toNat

/-- The number at an index past the `base`. -/
def number (nth : Nat) : Nat :=
  (s.rndtable.getD ((s.prndindex + actor.drawn + nth + 1) &&& 255) 0).toNat

/-- What a chase leaves behind. -/
structure Chased where
  x : Int32
  y : Int32
  z : Int32
  movedir : Dir
  movecount : Int32
  reactiontime : Int32
  threshold : Int32
  floorz : Int32
  ceilingz : Int32
  subsector : Int32
  draws : Nat
  stuck : Bool
  state : Option Int32
  flags : Int32
  deriving DecidableEq, Repr

/-- Whether the missile check answers yes. -/
def attacked (sh : Shape) : Bool :=
  sh.missilehit || (sh.missiledraw && sh.missiledist ≤ number s actor 0)

/-- `cc_order`: the directions in the order the search would reach them. -/
def order (sh : Shape) : List Dir :=
  let walkAt := sh.missiledraw.toNat
  let swap : Bool := number s actor walkAt > 200 || sh.deltay.natAbs > sh.deltax.natAbs
  [if swap then sh.e2 else sh.e1, if swap then sh.e1 else sh.e2, sh.movedir] ++
    (if number s actor (walkAt + 1) &&& 1 ≠ 0 then directions else directions.reverse).filter
      (fun d => d ≠ sh.turn) ++ [sh.turn]

/-- `cc_won`, by `arrayFirstIndex`: an index from one, and 0 where no direction works. -/
def won (sh : Shape) : Nat := (((order s actor sh).findIdx? (walks s)).map (· + 1)).getD 0

/-- `cc_dir`: the direction the thing walked. -/
def walkedDir (sh : Shape) : Dir :=
  if !sh.newchase then sh.movedir
  else if sh.direct then sh.diag
  else if won s actor sh = 0 then noDir
  else (order s actor sh).getD (won s actor sh - 1) noDir

/-- `cc_attacked = 1 OR cc_meleed = 1`. -/
def stops (sh : Shape) : Bool := attacked s actor sh || sh.melee

/-- `cc_moved`. -/
def moved (sh : Shape) : Bool :=
  !attacked s actor sh && !sh.melee &&
    if sh.justattacked && !sh.newchase then false
    else if !sh.newchase then true
    else if sh.direct then true
    else won s actor sh ≠ 0

/-- `cc_count_draw`. -/
def countDraw (sh : Shape) : Nat :=
  number s actor (draws sh (stops s actor sh) - sh.sound.toNat - 1)

/-- `cc_movecount`. -/
def movecount (sh : Shape) : Int :=
  if stops s actor sh then actor.movecount.toInt
  else if sh.justattacked && !moved s actor sh then actor.movecount.toInt
  else if !sh.newchase then sh.count
  else if !moved s actor sh then sh.count
  else (countDraw s actor sh &&& 15 : Nat)

/-- `cc_special`: one of the directions the engine reached touches a special line. -/
def special (sh : Shape) : Bool :=
  let tried := (if !sh.justattacked && sh.count ≥ 0 then [sh.movedir] else []) ++
    if !sh.newchase then [] else (if sh.directtried then [sh.diag] else []) ++
      (order s actor sh).take
        (if won s actor sh > 0 then won s actor sh else (order s actor sh).length)
  tried.any fun d => d ≠ noDir && (s.answers d).spechit ≠ []

/-- `chased`. -/
def chased (entries : Nat) : Chased :=
  let sh := shape s actor entries
  let moved := moved s actor sh
  let dir := walkedDir s actor sh
  let answer := s.answers (if moved then dir else 0)
  { x := if moved then
      Int32.ofInt (actor.x.toInt + s.info.speed.toInt * (Engine.Chase.xspeed dir).toInt)
      else actor.x
    y := if moved then
      Int32.ofInt (actor.y.toInt + s.info.speed.toInt * (Engine.Chase.yspeed dir).toInt)
      else actor.y
    z := if moved then answer.floorz else actor.z
    movedir := if stops s actor sh then sh.movedir else if !sh.newchase then sh.movedir else dir
    movecount := Int32.ofInt (movecount s actor sh)
    reactiontime := reactiontime actor
    threshold := if actor.threshold = 0 then actor.threshold
      else if s.target.health ≤ 0 then 0 else actor.threshold - 1
    floorz := if moved then answer.floorz else actor.floorz
    ceilingz := if moved then answer.ceilingz else actor.ceilingz
    subsector := if moved then answer.subsector else actor.subsector
    draws := draws sh (stops s actor sh)
    stuck := sh.stuck || special s actor sh
    state := if attacked s actor sh then some s.info.missilestate
      else if sh.melee then some s.info.meleestate else none
    flags := if sh.justattacked then actor.flags &&& ~~~mfJustattacked
      else if attacked s actor sh then
        (actor.flags &&& if sh.missilehit then ~~~(32 ||| mfJusthit) else ~~~32) ||| mfJustattacked
      else if sh.melee then actor.flags &&& ~~~32
      else actor.flags }

end

end ClickDoom.Native.Chase

import ClickDoom.Engine.Fixed
import ClickDoom.Engine.Lights

/-! # Chasing a target

`p_enemy.c`: `P_Move`, `P_TryWalk`, `P_NewChaseDir`, `P_CheckMeleeRange`, `P_CheckMissileRange` and
`A_Chase`, without the turn of the angle.  What `P_TryMove` answers for each of the eight directions
is given, and so is what `P_CheckSight` answers; a failed move leaves the actor where it is, so the
answers are those of one position.  The game is not a net game and `fastparm` is not set.
-/
namespace ClickDoom.Engine.Chase

/-- `dirtype_t`: eight directions, and 8 for `DI_NODIR`. -/
abbrev Dir := Fin 9

instance neZero_dir : NeZero 9 := ⟨by decide⟩

def noDir : Dir := 8

def opposite (dir : Dir) : Dir := [4, 5, 6, 7, 0, 1, 2, 3, 8].getD dir 8

/-- `diags[((deltay<0)<<1)+(deltax>0)]`. -/
def diag (deltax deltay : Int32) : Dir :=
  [3, 1, 5, 7].getD ((if deltay < 0 then 2 else 0) + if deltax > 0 then 1 else 0) 8

def xspeed (dir : Dir) : Int32 :=
  [65536, 47000, 0, -47000, -65536, -47000, 0, 47000].getD dir 0

def yspeed (dir : Dir) : Int32 :=
  [0, 47000, 65536, 47000, 0, -47000, -65536, -47000].getD dir 0

def mfShootable : Int32 := 4
def mfJusthit : Int32 := 64
def mfJustattacked : Int32 := 128
def mfFloat : Int32 := 0x4000
def mfShadow : Int32 := 0x40000
def mfInfloat : Int32 := 0x200000

def mtVile : Int32 := 3
def mtUndead : Int32 := 5
def mtSkull : Int32 := 18
def mtSpider : Int32 := 19
def mtCyborg : Int32 := 21

/-- `skill_t`. -/
inductive Skill
  | noitems
  | baby
  | easy
  | medium
  | hard
  | nightmare
  deriving DecidableEq, Repr

def Skill.value : Skill → Int32
  | .noitems => -1
  | .baby => 0
  | .easy => 1
  | .medium => 2
  | .hard => 3
  | .nightmare => 4

def fracunit : Int32 := 65536
def meleerange : Int32 := 64 * fracunit
def floatspeed : Int32 := 4 * fracunit

/-- What `P_TryMove` answers, and what it leaves in `tmfloorz`, `floatok` and `spechit`. -/
structure Answer where
  ok : Bool
  floorz : Int32
  ceilingz : Int32
  subsector : Int32
  floatok : Bool
  spechit : List Nat
  deriving DecidableEq, Repr

/-- The fields of `mobjinfo_t` a chase reads. -/
structure Info where
  speed : Int32
  meleestate : Int32
  missilestate : Int32
  activesound : Int32
  deriving DecidableEq, Repr

/-- The target, with the radius its info has. -/
structure Target where
  x : Int32
  y : Int32
  radius : Int32
  flags : Int32
  health : Int32
  deriving DecidableEq, Repr

/-- The fields of the actor a chase changes, and how many numbers have been drawn. -/
structure Actor where
  x : Int32
  y : Int32
  z : Int32
  floorz : Int32
  ceilingz : Int32
  subsector : Int32
  movedir : Dir
  movecount : Int32
  reactiontime : Int32
  threshold : Int32
  flags : Int32
  /-- The state an attack enters. -/
  entered : Option Int32
  drawn : Nat
  deriving DecidableEq, Repr

/-- What a chase reads: the actor's kind and target, the answers, and `rndtable` with the index the
chase starts from.  `uses` is what `P_UseSpecialLine` answers for a line, and `looks` the chase of
an actor whose target cannot be shot. -/
structure Setting where
  type : Int32
  info : Info
  target : Target
  sight : Bool
  gameskill : Skill
  answers : Dir → Answer
  uses : Nat → Bool
  looks : Actor → Actor
  rndtable : List UInt8
  prndindex : Nat

section
variable (s : Setting)

/-- `P_Random`, after the numbers drawn so far. -/
def draw (actor : Actor) : Int32 × Actor :=
  ((random s.rndtable (s.prndindex + actor.drawn)).1, { actor with drawn := actor.drawn + 1 })

/-- `P_Move`. -/
def move (actor : Actor) : Bool × Actor :=
  if actor.movedir = noDir then (false, actor)
  else
    let answer := s.answers actor.movedir
    if !answer.ok then
      if actor.flags &&& mfFloat ≠ 0 ∧ answer.floatok then
        (true, { actor with
          z := if actor.z < answer.floorz then actor.z + floatspeed else actor.z - floatspeed
          flags := actor.flags ||| mfInfloat })
      else if answer.spechit = [] then (false, actor)
      else (answer.spechit.any s.uses, { actor with movedir := noDir })
    else
      let actor := { actor with
        x := actor.x + s.info.speed * xspeed actor.movedir
        y := actor.y + s.info.speed * yspeed actor.movedir
        floorz := answer.floorz
        ceilingz := answer.ceilingz
        subsector := answer.subsector
        flags := actor.flags &&& ~~~mfInfloat }
      (true, if actor.flags &&& mfFloat = 0 then { actor with z := actor.floorz } else actor)

/-- `P_TryWalk`. -/
def tryWalk (actor : Actor) : Bool × Actor :=
  let (moved, actor) := move s actor
  if !moved then (false, actor)
  else
    let (number, actor) := draw s actor
    (true, { actor with movecount := number &&& 15 })

/-- `actor->movedir = dir` and `P_TryWalk`, unless there is no direction. -/
def attempt (dir : Dir) (actor : Actor) : Bool × Actor :=
  if dir = noDir then (false, actor) else tryWalk s { actor with movedir := dir }

/-- The search through directions, in the order they are given. -/
def sweep (turnaround : Dir) : List Dir → Actor → Bool × Actor
  | [], actor => (false, actor)
  | dir :: dirs, actor =>
    if dir = turnaround then sweep turnaround dirs actor
    else
      let (walked, actor) := tryWalk s { actor with movedir := dir }
      if walked then (true, actor) else sweep turnaround dirs actor

def upward : List Dir := [0, 1, 2, 3, 4, 5, 6, 7]

/-- The order of the search, by a drawn number. -/
def searchOrder (number : Int32) : List Dir :=
  if number &&& 1 ≠ 0 then upward else upward.reverse

/-- Whether the second axis goes first. -/
def swaps (number deltax deltay : Int32) : Bool := number > 200 || deltay.abs > deltax.abs

/-- A direction, unless it is the way back. -/
def forward (turnaround dir : Dir) : Dir := if dir = turnaround then noDir else dir

/-- `P_NewChaseDir` where no direct path is left: any direction, in a drawn order, and the way
back. -/
def anyDirection (turnaround : Dir) (actor : Actor) : Actor :=
  let (number, actor) := draw s actor
  let (walked, actor) := sweep s turnaround (searchOrder number) actor
  if walked then actor
  else
    let (walked, actor) := attempt s turnaround actor
    if walked then actor else { actor with movedir := noDir }

/-- `P_NewChaseDir` once the axes are in their order: one, the other, and the old direction. -/
def axes (olddir d1 d2 : Dir) (actor : Actor) : Actor :=
  let (walked, actor) := attempt s d1 actor
  if walked then actor
  else
    let (walked, actor) := attempt s d2 actor
    if walked then actor
    else
      let (walked, actor) := attempt s olddir actor
      if walked then actor else anyDirection s (opposite olddir) actor

/-- `P_NewChaseDir` past the direct route. -/
def otherDirections (olddir d1 d2 : Dir) (deltax deltay : Int32) (actor : Actor) : Actor :=
  let turnaround := opposite olddir
  let (number, actor) := draw s actor
  let swaps := swaps number deltax deltay
  axes s olddir (forward turnaround (if swaps then d2 else d1))
    (forward turnaround (if swaps then d1 else d2)) actor

/-- The direct route of `P_NewChaseDir`. -/
def directRoute (olddir d1 d2 : Dir) (deltax deltay : Int32) (actor : Actor) : Bool × Actor :=
  if d1 ≠ noDir ∧ d2 ≠ noDir then
    let actor := { actor with movedir := diag deltax deltay }
    if actor.movedir ≠ opposite olddir then tryWalk s actor else (false, actor)
  else (false, actor)

/-- The direction along the x axis. -/
def eastWest (deltax : Int32) : Dir :=
  if deltax > 10 * fracunit then 0 else if deltax < -(10 * fracunit) then 4 else noDir

/-- The direction along the y axis. -/
def northSouth (deltay : Int32) : Dir :=
  if deltay < -(10 * fracunit) then 6 else if deltay > 10 * fracunit then 2 else noDir

/-- `P_NewChaseDir`. -/
def newChaseDir (actor : Actor) : Actor :=
  let olddir := actor.movedir
  let deltax := s.target.x - actor.x
  let deltay := s.target.y - actor.y
  let d1 := eastWest deltax
  let d2 := northSouth deltay
  let (walked, actor) := directRoute s olddir d1 d2 deltax deltay actor
  if walked then actor else otherDirections s olddir d1 d2 deltax deltay actor

/-- `P_CheckMeleeRange`. -/
def checkMeleeRange (actor : Actor) : Bool :=
  let dist := aproxDistance (s.target.x - actor.x) (s.target.y - actor.y)
  if dist ≥ meleerange - 20 * fracunit + s.target.radius then false else s.sight

/-- The distance of `P_CheckMissileRange` before it is halved and cut. -/
def rawDistance (actor : Actor) : Int32 :=
  let dist := aproxDistance (actor.x - s.target.x) (actor.y - s.target.y) - 64 * fracunit
  (if s.info.meleestate = 0 then dist - 128 * fracunit else dist) >>> 16

/-- The distance halved and cut. -/
def cutDistance (dist : Int32) : Int32 :=
  let dist := if s.type = mtUndead then dist >>> 1 else dist
  let dist := if s.type = mtCyborg ∨ s.type = mtSpider ∨ s.type = mtSkull then dist >>> 1 else dist
  let dist := if dist > 200 then 200 else dist
  if s.type = mtCyborg ∧ dist > 160 then 160 else dist

/-- The distance `P_CheckMissileRange` fires by, none where it does not fire. -/
def missileDistance (actor : Actor) : Option Int32 :=
  let dist := rawDistance s actor
  if s.type = mtVile ∧ dist > 14 * 64 then none
  else if s.type = mtUndead ∧ dist < 196 then none
  else some (cutDistance s dist)

/-- `P_CheckMissileRange`. -/
def checkMissileRange (actor : Actor) : Bool × Actor :=
  if !s.sight then (false, actor)
  else if actor.flags &&& mfJusthit ≠ 0 then
    (true, { actor with flags := actor.flags &&& ~~~mfJusthit })
  else if actor.reactiontime ≠ 0 then (false, actor)
  else match missileDistance s actor with
  | none => (false, actor)
  | some dist =>
    let (number, actor) := draw s actor
    (!decide (number < dist), actor)

/-- The move in the old direction, and a new one where the count is out or the move fails. -/
def advance (actor : Actor) : Actor :=
  let (moved, actor) := if actor.movecount < 0 then (false, actor) else move s actor
  if moved then actor else newChaseDir s actor

/-- The chase towards the player, and the active sound. -/
def walk (actor : Actor) : Actor :=
  let actor := advance s { actor with movecount := actor.movecount - 1 }
  if s.info.activesound ≠ 0 then (draw s actor).2 else actor

/-- `A_Chase`. -/
def chase (actor : Actor) : Actor :=
  let actor := { actor with
    reactiontime := if actor.reactiontime ≠ 0 then actor.reactiontime - 1 else actor.reactiontime
    threshold := if actor.threshold = 0 then 0
      else if s.target.health ≤ 0 then 0
      else actor.threshold - 1
    entered := none }
  if s.target.flags &&& mfShootable = 0 then s.looks actor
  else if actor.flags &&& mfJustattacked ≠ 0 then
    let actor := { actor with flags := actor.flags &&& ~~~mfJustattacked }
    if s.gameskill ≠ .nightmare then newChaseDir s actor else actor
  else if s.info.meleestate ≠ 0 ∧ checkMeleeRange s actor then
    { actor with entered := some s.info.meleestate }
  else if s.info.missilestate = 0 then walk s actor
  else if s.gameskill.value < Skill.nightmare.value ∧ actor.movecount ≠ 0 then walk s actor
  else
    let (fires, actor) := checkMissileRange s actor
    if !fires then walk s actor
    else { actor with
      entered := some s.info.missilestate
      flags := actor.flags ||| mfJustattacked }

end

end ClickDoom.Engine.Chase

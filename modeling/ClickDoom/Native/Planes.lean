import ClickDoom.Base.SignedWords
import ClickDoom.Engine.Planes
import ClickDoom.Native.Thinkers

/-! # The planes pass

`planes` of `native/src/sql/sim/specials.rs` with `vertical_door`, `plat_raise` and
`move_plane`: one map over the sector thinkers, each reading the heights the tic began with.
A move is computed for every slot and kept for the slots that run.  Heights are added and
compared in 64 bits and stored in 32.  What `P_ChangeSector` answers for a sector is given.
-/
namespace ClickDoom.Native.Planes
open Engine (Result Which Heights VlDoor DoorType Plat PlatStatus PlatType FloorMove Mover
  PlaneThinker)

/-! ## `plane.rs` -/

section
variable (which : Which) (direction last speed dest : Int)

/-- `past`: whether one more step would pass the destination. -/
def past : Bool :=
  (direction = -1 && last - speed < dest) || (direction = 1 && last + speed > dest)

/-- `target`: the height `T_MovePlane` sets before it clips. -/
def target : Int :=
  if past direction last speed dest then dest
  else if direction = 1 then last + speed
  else last - speed

structure Moved where
  result : Result
  height : Int
  reverted : Bool
  deriving DecidableEq, Repr

/-- `move_plane`. -/
def movePlane (crush stuck : Bool) : Moved :=
  let reports : Bool := !(which ≠ .floor && direction = 1)
  let keeps : Bool := crush && !(which = .floor && direction = -1)
  if past direction last speed dest && stuck then ⟨.pastdest, last, true⟩
  else if past direction last speed dest then
    ⟨.pastdest, target direction last speed dest, false⟩
  else if stuck && reports && keeps then ⟨.crushed, target direction last speed dest, false⟩
  else if stuck && reports then ⟨.crushed, last, true⟩
  else ⟨.ok, target direction last speed dest, false⟩

end

/-! ## `doors.rs` and `plats.rs` -/

structure DoorRan where
  direction : Int
  count : Int
  type : Int
  done : Bool
  unresolved : Bool
  deriving DecidableEq, Repr

/-- `vertical_door`; the kinds are `vldoor_e` in the order it declares them. -/
def verticalDoor (type direction count wait : Int) (moved : Moved) : DoorRan :=
  let res := moved.result
  { direction :=
      if direction = 0 ∧ count - 1 = 0 ∧ type ∈ [5, 0] then -1
      else if direction = 0 ∧ count - 1 = 0 ∧ type = 1 then 1
      else if direction = 2 ∧ count - 1 = 0 ∧ type = 4 then 1
      else if direction = -1 ∧ res = .pastdest ∧ type = 1 then 0
      else if direction = -1 ∧ res = .crushed ∧ type ∉ [7, 2] then 1
      else if direction = 1 ∧ res = .pastdest ∧ type ∈ [5, 0] then 0
      else direction
    count :=
      if direction ∈ [0, 2] then count - 1
      else if direction = -1 ∧ res = .pastdest ∧ type = 1 then 35 * 30
      else if direction = 1 ∧ res = .pastdest ∧ type ∈ [5, 0] then wait
      else count
    type := if direction = 2 ∧ count - 1 = 0 ∧ type = 4 then 0 else type
    done := res = .pastdest ∧ ((direction = -1 ∧ type ∈ [5, 7, 0, 2]) ∨
      (direction = 1 ∧ type ∈ [1, 6, 3]))
    unresolved := false }

structure PlatRan where
  status : Int
  count : Int
  done : Bool
  deriving DecidableEq, Repr

/-- `plat_raise`; the statuses are `plat_e` and the kinds `plattype_e` in their order. -/
def platRaise (type status count wait : Int) (crush : Bool) (low floorheight : Int)
    (moved : Moved) : PlatRan :=
  let res := moved.result
  { status :=
      if status = 0 ∧ res = .crushed ∧ !crush then 1
      else if status = 0 ∧ res = .pastdest then 2
      else if status = 1 ∧ res = .pastdest then 2
      else if (status = 2 ∧ count - 1 = 0) ∧ floorheight = low then 0
      else if status = 2 ∧ count - 1 = 0 then 1
      else status
    count :=
      if status = 0 ∧ ((res = .crushed ∧ !crush) ∨ res = .pastdest) then wait
      else if status = 1 ∧ res = .pastdest then wait
      else if status = 2 then count - 1
      else count
    done := status = 0 ∧ res = .pastdest ∧ type ≠ 0 }

/-! ## One slot -/

/-- What the pass reads and leaves: the thinkers and the sectors' heights and `specialdata`. -/
structure World where
  thinkers : List SectorThinker
  floors : List Int32
  ceilings : List Int32
  specialdata : List Nat
  deriving DecidableEq, Repr

/-- What the clip answers in a tic. -/
structure Clip where
  nofit : Nat → Bool
  unresolved : Bool

/-- The heights of a sector. -/
def World.heights (w : World) (sector : Nat) : Heights :=
  ⟨w.floors.getD sector 0, w.ceilings.getD sector 0⟩

section
variable (t : SectorThinker) (h : Heights) (stuck : Bool)

/-- `plane_runs`. -/
def runs : Bool :=
  t.active && ((t.kind = .door && t.direction ≠ 0) || (t.kind = .floor && t.direction ≠ 0) ||
    (t.kind = .plat && (t.status = 0 || t.status = 1)))

/-- `plane_direction`. -/
def direction : Int :=
  if t.kind = .plat then if t.status = 0 then 1 else -1 else t.direction

/-- `plane_dest`. -/
def dest : Int :=
  if t.kind = .plat then if t.status = 0 then t.dest2.toInt else t.dest.toInt
  else if t.kind = .door ∧ direction t = -1 then h.floor.toInt
  else t.dest.toInt

/-- `plane_which`. -/
def which : Which := if t.kind = .door ∨ t.kind = .ceiling then .ceiling else .floor

/-- `plane_height`. -/
def height : Int := if which t = .ceiling then h.ceiling.toInt else h.floor.toInt

/-- `plane_moved`: the plane of `door_plane`, which never crushes. -/
def moved : Moved :=
  movePlane (which t) (direction t) (height t h) t.speed.toInt (dest t h) false stuck

/-- `plane_door`. -/
def doorRan : DoorRan :=
  verticalDoor t.type t.direction t.count.toInt t.wait.toInt (moved t h stuck)

/-- `plane_plat`, which reads the floor out of the move. -/
def platRan : PlatRan :=
  platRaise t.type t.status t.count.toInt t.wait.toInt t.crush t.dest.toInt
    (moved t h stuck).height (moved t h stuck)

/-- `plane_ticks`. -/
def ticks : Bool := t.active && ((t.kind = .plat || t.kind = .door) || runs t)

/-- `plane_done`. -/
def done : Bool :=
  if t.kind = .plat then ticks t && (platRan t h stuck).done
  else if t.kind = .floor then runs t && (moved t h stuck).result = .pastdest
  else runs t && (doorRan t h stuck).done

/-- The row the pass leaves for a slot it keeps. -/
def ran : SectorThinker :=
  { t with
    direction := if t.kind = .door ∧ ticks t then (doorRan t h stuck).direction else t.direction
    type := if t.kind = .door ∧ ticks t then (doorRan t h stuck).type else t.type
    count :=
      if t.kind = .plat ∧ ticks t then Int32.ofInt (platRan t h stuck).count
      else if t.kind = .plat then t.count
      else if t.kind = .door ∧ ticks t then Int32.ofInt (doorRan t h stuck).count
      else t.count
    status := if t.kind = .plat ∧ ticks t then (platRan t h stuck).status else t.status }

end

/-! ## The pass -/

/-- The planes' bits of `unresolved`. -/
inductive Unresolved
  | planeShared
  | planeClipStuck
  | planeFloorChanger
  | planeReverted
  | doorRunStuck
  | planeCrush
  deriving DecidableEq, Repr

/-- The kinds that drive a plane. -/
def drivesPlane (kind : Kind) : Bool :=
  kind = .door || kind = .plat || kind = .floor || kind = .ceiling

/-- `plane_act`: the slots the pass was entered for, as their rows. -/
def act (w : World) : List SectorThinker :=
  w.thinkers.filter fun t => t.active && drivesPlane t.kind

/-- `plane_running`. -/
def running (w : World) : List SectorThinker := (act w).filter runs

/-- `plane_moving`. -/
def moving (w : World) : List Nat := (running w).map (·.sector)

/-- `plane_stuck`: the answer of the clip for the slot's own sector. -/
def stuck (clip : Clip) (w : World) (t : SectorThinker) : Bool :=
  runs t && ((moving w).map clip.nofit).getD ((moving w).idxOf t.sector) false

section
variable (clip : Clip) (w : World) (t : SectorThinker)

def movedOf : Moved := moved t (w.heights t.sector) (stuck clip w t)
def doneOf : Bool := done t (w.heights t.sector) (stuck clip w t)
def ranOf : SectorThinker := ran t (w.heights t.sector) (stuck clip w t)

/-- `scatter`: the heights of one plane. -/
def scatter (plane : Which) (heights : List Int32) : List Int32 :=
  (running w).foldl (fun acc t =>
    if which t = plane then acc.set t.sector (Int32.ofInt (movedOf clip w t).height) else acc)
    heights

/-- `kept`. -/
def kept : List Bool := w.thinkers.map fun t => !doneOf clip w t

/-- The sectors' `specialdata`, with the ones whose thinker came off the list cleared. -/
def cleared : List Nat :=
  (w.thinkers.filter (doneOf clip w)).foldl (fun acc t => acc.set t.sector 0) w.specialdata

/-- `plane_unresolved`. -/
def unresolved : List Unresolved :=
  (if ¬(moving w).Nodup then [.planeShared] else []) ++
  (if clip.unresolved ∧ moving w ≠ [] then [.planeClipStuck] else []) ++
  (if w.thinkers.any fun t => doneOf clip w t && t.kind = .floor && (t.type = 6 || t.type = 11)
    then [.planeFloorChanger] else []) ++
  (if w.thinkers.any fun t => runs t && (movedOf clip w t).reverted
    then [.planeReverted] else []) ++
  (if w.thinkers.any fun t =>
      runs t && (doorRan t (w.heights t.sector) (stuck clip w t)).unresolved
    then [.doorRunStuck] else []) ++
  (if w.thinkers.any fun t => runs t && t.crush then [.planeCrush] else [])

end

/-- `thinker_slot`: the slot a slot moves to, or zero where it comes off the list. -/
def thinkerSlot (kept : List Bool) (slot : Nat) : Nat :=
  if slot ≠ 0 ∧ kept.getD (slot - 1) false then (kept.take slot).count true else 0

/-- `planes`: the world it leaves and the bits it raises.  A tic with no plane thinker on the
list runs nothing. -/
def planes (clip : Clip) (w : World) : World × List Unresolved :=
  if act w = [] then
    ({ w with specialdata := w.specialdata.map (thinkerSlot (w.thinkers.map fun _ => true)) }, [])
  else
    ({ thinkers := (w.thinkers.filter fun t => !doneOf clip w t).map (ranOf clip w)
       floors := scatter clip w .floor w.floors
       ceilings := scatter clip w .ceiling w.ceilings
       specialdata := (cleared clip w).map (thinkerSlot (kept clip w)) },
      unresolved clip w)

/-- The worlds the pass leaves, tic after tic. -/
def run : List Clip → World → World
  | [], w => w
  | clip :: rest, w => run rest (planes clip w).1

/-- No tic of the run is unresolved. -/
def Resolved : List Clip → World → Prop
  | [], _ => True
  | clip :: rest, w => (planes clip w).2 = [] ∧ Resolved rest (planes clip w).1

end ClickDoom.Native.Planes

import Mathlib

/-! # The engine's plane thinkers

`T_MovePlane`, `T_VerticalDoor`, `T_PlatRaise` and `T_MoveFloor` of `p_floor.c`, `p_doors.c` and
`p_plats.c`, on the heights of the sector they drive.  What `P_ChangeSector` answers at the
height a move sets is given as `nofit`.  Sounds, and the special and the floor picture a floor
leaves when it arrives, are left out.
-/
namespace ClickDoom.Engine

/-- `result_e`. -/
inductive Result
  | ok
  | crushed
  | pastdest
  deriving DecidableEq, Repr

/-- The `floorOrCeiling` argument of `T_MovePlane`. -/
inductive Which
  | floor
  | ceiling
  deriving DecidableEq, Repr

/-- `T_MovePlane`: the answer and the height it leaves. -/
def movePlane (nofit : Bool) (which : Which) (direction : Int) (speed dest : Int32)
    (crush : Bool) (height : Int32) : Result × Int32 :=
  match which with
  | .floor =>
    if direction = -1 then
      if height - speed < dest then (.pastdest, if nofit then height else dest)
      else if nofit then (.crushed, height)
      else (.ok, height - speed)
    else if direction = 1 then
      if height + speed > dest then (.pastdest, if nofit then height else dest)
      else if nofit then (.crushed, if crush then height + speed else height)
      else (.ok, height + speed)
    else (.ok, height)
  | .ceiling =>
    if direction = -1 then
      if height - speed < dest then (.pastdest, if nofit then height else dest)
      else if nofit then (.crushed, if crush then height - speed else height)
      else (.ok, height - speed)
    else if direction = 1 then
      -- the test for a crush is compiled out here
      if height + speed > dest then (.pastdest, if nofit then height else dest)
      else (.ok, height + speed)
    else (.ok, height)

/-- The two heights of a sector. -/
structure Heights where
  floor : Int32
  ceiling : Int32
  deriving DecidableEq, Repr

/-! ## Doors -/

/-- `vldoor_e`. -/
inductive DoorType
  | normal
  | close30ThenOpen
  | close
  | open
  | raiseIn5Mins
  | blazeRaise
  | blazeOpen
  | blazeClose
  deriving DecidableEq, Repr

/-- `vldoor_t`, less its sector. -/
structure VlDoor where
  type : DoorType
  topheight : Int32
  speed : Int32
  direction : Int
  topwait : Int32
  topcountdown : Int32
  deriving DecidableEq, Repr

/-- `T_VerticalDoor`: the door it leaves, or none where it takes it off the list. -/
def verticalDoor (nofit : Bool) (heights : Heights) (door : VlDoor) : Option VlDoor × Heights :=
  if door.direction = 0 then
    let left := { door with topcountdown := door.topcountdown - 1 }
    if left.topcountdown ≠ 0 then (some left, heights)
    else
      match door.type with
      | .blazeRaise | .normal => (some { left with direction := -1 }, heights)
      | .close30ThenOpen => (some { left with direction := 1 }, heights)
      | _ => (some left, heights)
  else if door.direction = 2 then
    let left := { door with topcountdown := door.topcountdown - 1 }
    if left.topcountdown ≠ 0 then (some left, heights)
    else
      match door.type with
      | .raiseIn5Mins => (some { left with direction := 1, type := .normal }, heights)
      | _ => (some left, heights)
  else if door.direction = -1 then
    let (res, height) := movePlane nofit .ceiling (-1) door.speed heights.floor false
      heights.ceiling
    let heights := { heights with ceiling := height }
    match res with
    | .pastdest =>
      match door.type with
      | .blazeRaise | .blazeClose | .normal | .close => (none, heights)
      | .close30ThenOpen => (some { door with direction := 0, topcountdown := 35 * 30 }, heights)
      | _ => (some door, heights)
    | .crushed =>
      match door.type with
      | .blazeClose | .close => (some door, heights)
      | _ => (some { door with direction := 1 }, heights)
    | .ok => (some door, heights)
  else if door.direction = 1 then
    let (res, height) := movePlane nofit .ceiling 1 door.speed door.topheight false
      heights.ceiling
    let heights := { heights with ceiling := height }
    match res with
    | .pastdest =>
      match door.type with
      | .blazeRaise | .normal =>
        (some { door with direction := 0, topcountdown := door.topwait }, heights)
      | .close30ThenOpen | .blazeOpen | .open => (none, heights)
      | _ => (some door, heights)
    | _ => (some door, heights)
  else (some door, heights)

/-! ## Plats -/

/-- `plat_e`. -/
inductive PlatStatus
  | up
  | down
  | waiting
  | inStasis
  deriving DecidableEq, Repr

/-- `plattype_e`. -/
inductive PlatType
  | perpetualRaise
  | downWaitUpStay
  | raiseAndChange
  | raiseToNearestAndChange
  | blazeDWUS
  deriving DecidableEq, Repr

/-- `plat_t`, less its sector, its tag and the status it went into stasis with. -/
structure Plat where
  type : PlatType
  speed : Int32
  low : Int32
  high : Int32
  wait : Int32
  count : Int32
  status : PlatStatus
  crush : Bool
  deriving DecidableEq, Repr

/-- `T_PlatRaise`. -/
def platRaise (nofit : Bool) (heights : Heights) (plat : Plat) : Option Plat × Heights :=
  match plat.status with
  | .up =>
    let (res, height) := movePlane nofit .floor 1 plat.speed plat.high plat.crush heights.floor
    let heights := { heights with floor := height }
    if res = .crushed ∧ !plat.crush then
      (some { plat with count := plat.wait, status := .down }, heights)
    else if res = .pastdest then
      match plat.type with
      | .blazeDWUS | .downWaitUpStay | .raiseAndChange | .raiseToNearestAndChange =>
        (none, heights)
      | .perpetualRaise => (some { plat with count := plat.wait, status := .waiting }, heights)
    else (some plat, heights)
  | .down =>
    let (res, height) := movePlane nofit .floor (-1) plat.speed plat.low false heights.floor
    let heights := { heights with floor := height }
    if res = .pastdest then
      (some { plat with count := plat.wait, status := .waiting }, heights)
    else (some plat, heights)
  | .waiting =>
    let left := { plat with count := plat.count - 1 }
    if left.count ≠ 0 then (some left, heights)
    else if heights.floor = plat.low then (some { left with status := .up }, heights)
    else (some { left with status := .down }, heights)
  | .inStasis => (some plat, heights)

/-! ## Floors -/

/-- `floormove_t`: what moves the floor. -/
structure FloorMove where
  speed : Int32
  direction : Int
  floordestheight : Int32
  crush : Bool
  deriving DecidableEq, Repr

/-- `T_MoveFloor`. -/
def moveFloor (nofit : Bool) (heights : Heights) (floor : FloorMove) :
    Option FloorMove × Heights :=
  let (res, height) := movePlane nofit .floor floor.direction floor.speed floor.floordestheight
    floor.crush heights.floor
  (if res = .pastdest then none else some floor, { heights with floor := height })

/-! ## The list -/

inductive Mover
  | door (door : VlDoor)
  | plat (plat : Plat)
  | floor (floor : FloorMove)
  deriving DecidableEq, Repr

/-- A mover on the thinker list; one in stasis has no function and is passed over. -/
structure PlaneThinker where
  active : Bool
  mover : Mover
  deriving DecidableEq, Repr

def PlaneThinker.run (nofit : Bool) (heights : Heights) (thinker : PlaneThinker) :
    Option PlaneThinker × Heights :=
  if !thinker.active then (some thinker, heights)
  else
    match thinker.mover with
    | .door door =>
      let (left, heights) := verticalDoor nofit heights door
      (left.map fun door => { thinker with mover := .door door }, heights)
    | .plat plat =>
      let (left, heights) := platRaise nofit heights plat
      (left.map fun plat => { thinker with mover := .plat plat }, heights)
    | .floor floor =>
      let (left, heights) := moveFloor nofit heights floor
      (left.map fun floor => { thinker with mover := .floor floor }, heights)

/-- `P_RunThinkers` down the movers of one sector. -/
def runMovers (nofit : Bool) : Heights → List PlaneThinker → Heights × List PlaneThinker
  | heights, [] => (heights, [])
  | heights, thinker :: rest =>
    let (left, heights) := thinker.run nofit heights
    let (heights, rest) := runMovers nofit heights rest
    (heights, left.toList ++ rest)

theorem runMovers_cons (nofit : Bool) (heights : Heights) (thinker : PlaneThinker)
    (rest : List PlaneThinker) :
    runMovers nofit heights (thinker :: rest) =
      ((runMovers nofit (thinker.run nofit heights).2 rest).1,
        (thinker.run nofit heights).1.toList ++
          (runMovers nofit (thinker.run nofit heights).2 rest).2) := rfl

/-- The sector tic after tic, given what `P_ChangeSector` answers in each. -/
def runSector : List Bool → Heights × List PlaneThinker → Heights × List PlaneThinker
  | [], state => state
  | nofit :: rest, state => runSector rest (runMovers nofit state.1 state.2)

/-! ## One plane at a time -/

def Heights.height (heights : Heights) : Which → Int32
  | .floor => heights.floor
  | .ceiling => heights.ceiling

/-- A door drives the ceiling of its sector; a plat and a floor mover drive its floor. -/
def PlaneThinker.drives (plane : Which) (thinker : PlaneThinker) : Bool :=
  match thinker.mover with
  | .door _ => plane = .ceiling
  | _ => plane = .floor

/-- A closing door is the one mover that reads the other plane. -/
def PlaneThinker.closes (thinker : PlaneThinker) : Bool :=
  match thinker.mover with
  | .door door => thinker.active && door.direction = -1
  | _ => false

section
variable {nofit : Bool} {heights heights' : Heights} {thinker left : PlaneThinker} {plane : Which}

theorem PlaneThinker.drives_run (kept : (thinker.run nofit heights).1 = some left) :
    left.drives plane = thinker.drives plane := by
  obtain ⟨active, mover⟩ := thinker
  unfold PlaneThinker.run at kept
  split at kept
  · cases kept
    rfl
  · cases mover <;>
    · obtain ⟨_, -, rfl⟩ := Option.map_eq_some_iff.mp kept
      rfl

theorem verticalDoor_floor (nofit : Bool) (heights : Heights) (door : VlDoor) :
    (verticalDoor nofit heights door).2.floor = heights.floor := by
  unfold verticalDoor
  dsimp only
  repeat' split
  all_goals rfl

theorem platRaise_ceiling (nofit : Bool) (heights : Heights) (plat : Plat) :
    (platRaise nofit heights plat).2.ceiling = heights.ceiling := by
  unfold platRaise
  dsimp only
  repeat' split
  all_goals rfl

/-- A mover leaves the plane it does not drive alone. -/
theorem PlaneThinker.height_run (other : thinker.drives plane = false) :
    (thinker.run nofit heights).2.height plane = heights.height plane := by
  obtain ⟨active, mover⟩ := thinker
  unfold PlaneThinker.run
  split
  · rfl
  · cases mover with
    | door door =>
      cases plane
      · exact verticalDoor_floor nofit heights door
      · simp [drives] at other
    | plat plat =>
      cases plane
      · simp [drives] at other
      · exact platRaise_ceiling nofit heights plat
    | floor floor =>
      cases plane
      · simp [drives] at other
      · rfl

/-- A mover of the floor reads the floor alone. -/
theorem PlaneThinker.run_floor (drives : thinker.drives .floor)
    (same : heights.floor = heights'.floor) :
    (thinker.run nofit heights).1 = (thinker.run nofit heights').1 ∧
      (thinker.run nofit heights).2.floor = (thinker.run nofit heights').2.floor := by
  obtain ⟨active, mover⟩ := thinker
  unfold PlaneThinker.run
  split
  · exact ⟨rfl, same⟩
  · cases mover with
    | door door => simp [PlaneThinker.drives] at drives
    | plat plat =>
      simp only [platRaise, same]
      repeat' split
      all_goals simp [same]
    | floor floor => simp [moveFloor, same]

/-- A door that is not closing reads the ceiling alone. -/
theorem PlaneThinker.run_ceiling (drives : thinker.drives .ceiling)
    (opens : thinker.closes = false) (same : heights.ceiling = heights'.ceiling) :
    (thinker.run nofit heights).1 = (thinker.run nofit heights').1 ∧
      (thinker.run nofit heights).2.ceiling = (thinker.run nofit heights').2.ceiling := by
  obtain ⟨active, mover⟩ := thinker
  unfold PlaneThinker.run
  split
  · exact ⟨rfl, same⟩
  · next hactive =>
    cases mover with
    | door door =>
      have hdown : door.direction ≠ -1 := by simp_all [closes]
      simp only [verticalDoor, same, if_neg hdown]
      repeat' split
      all_goals simp_all
    | plat plat => simp [PlaneThinker.drives] at drives
    | floor floor => simp [PlaneThinker.drives] at drives

/-- The movers of one plane run as they do without the others, given that what they read of the
heights is kept by both. -/
theorem runMovers_filter (nofit : Bool) (plane : Which) (movers : List PlaneThinker)
    (Reads : Heights → Heights → Prop)
    (drive : ∀ m ∈ movers, m.drives plane → ∀ h h', Reads h h' →
      (m.run nofit h).1 = (m.run nofit h').1 ∧ Reads (m.run nofit h).2 (m.run nofit h').2)
    (others : ∀ m ∈ movers, m.drives plane = false → ∀ h h', Reads h h' →
      Reads (m.run nofit h).2 h') (reads : Reads heights heights') :
    Reads (runMovers nofit heights movers).1
        (runMovers nofit heights' (movers.filter (·.drives plane))).1 ∧
      (runMovers nofit heights movers).2.filter (·.drives plane) =
        (runMovers nofit heights' (movers.filter (·.drives plane))).2 := by
  induction movers generalizing heights heights' with
  | nil => exact ⟨reads, rfl⟩
  | cons m rest ih =>
    rw [List.forall_mem_cons] at drive others
    have hkind : ∀ h, (m.run nofit h).1.toList.filter (·.drives plane) =
        if m.drives plane then (m.run nofit h).1.toList else [] := by
      intro h
      cases hleft : (m.run nofit h).1 with
      | none => simp
      | some left => simp [List.filter_cons, PlaneThinker.drives_run hleft]
    by_cases hm : m.drives plane = true
    · -- a mover of the plane runs on both sides
      obtain ⟨hleft, hreads⟩ := drive.1 hm _ _ reads
      obtain ⟨hrest, hlist⟩ := ih drive.2 others.2 hreads
      rw [List.filter_cons_of_pos hm, runMovers_cons, runMovers_cons]
      refine ⟨hrest, ?_⟩
      rw [List.filter_append, hkind, if_pos hm, hlist, hleft]
    · -- any other is on one side alone, and keeps what is read
      have hm' : m.drives plane = false := Bool.eq_false_iff.mpr hm
      obtain ⟨hrest, hlist⟩ := ih drive.2 others.2 (others.1 hm' _ _ reads)
      rw [List.filter_cons_of_neg hm, runMovers_cons]
      refine ⟨hrest, ?_⟩
      rw [List.filter_append, hkind, if_neg hm, hlist]
      rfl

end

end ClickDoom.Engine

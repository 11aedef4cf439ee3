import ClickDoom.Native.Switches
import ClickDoom.Native.Thinkers

/-! # A use press

`use_special_line` of `native/src/sql/sim/specials.rs` with `opening` of `doors.rs`: what a
press that reaches a line starts.  An array is read past its end as its type's zero.
-/
namespace ClickDoom.Native.Press
open Engine (Pictures Switched Where)

/-- The constant tables a press reads. -/
structure Level where
  lineFront : List Int
  lineBack : List Int
  lineSide0 : List Nat
  lineFlags : List Nat
  lineTag : List Int
  secLines : List (List Nat)
  secTag : List Int
  switches : List (Int × Int)

/-- One slot of the `btn_` columns. -/
structure Button where
  line : Int
  place : Int
  texture : Int
  timer : Int
  deriving DecidableEq, Repr

/-- The sides' pictures and the buttons that put them back. -/
structure Walls where
  top : List Int16
  middle : List Int16
  bottom : List Int16
  buttons : List Button
  deriving DecidableEq, Repr

structure State where
  thinkers : List SectorThinker
  nextSeq : UInt32
  secSpecialdata : List Nat
  secFloorheight : List Int32
  secCeilingheight : List Int32
  lineSpecial : List Int
  cards : List Bool
  walls : Walls
  message : Option String
  deriving DecidableEq, Repr

/-! ## `EV_VerticalDoor` -/

/-- The sector across a line. -/
def otherSector (level : Level) (sector : Int) (line : Nat) : Int :=
  if level.lineFront.getD line 0 = sector then level.lineBack.getD line 0
  else level.lineFront.getD line 0

/-- The heights of the sectors across the two-sided lines of a sector. -/
def neighbours (level : Level) (heights : List Int32) (sector : Int) : List Int :=
  ((level.secLines.getD sector.toNat []).filter fun line =>
    level.lineFlags.getD line 0 &&& 4 ≠ 0 ∧ otherSector level sector line ≥ 0).map fun line =>
      (heights.getD (otherSector level sector line).toNat 0).toInt

/-- `lowest_ceiling_surrounding`. -/
def lowestCeilingSurrounding (level : Level) (heights : List Int32) (sector : Int) : Int :=
  (neighbours level heights sector).foldl min 2147483647

/-- `lowest_floor_surrounding`. -/
def lowestFloorSurrounding (level : Level) (heights : List Int32) (sector : Int) : Int :=
  (neighbours level heights sector).foldl min (heights.getD sector.toNat 0).toInt

def vdoorSpeed : Int := 131072
def vdoorWait : Int32 := 150

/-- The answer of `opening`, by its cases. -/
inductive Opened
  | oneSided
  | locked (message : String)
  | reopens (slot : Nat)
  | makes (sector : Nat) (type : Int) (speed topheight : Int) (clears : Bool)
  deriving DecidableEq, Repr

/-- `missing_key` with the message it leaves. -/
def missingKey (cards : List Bool) (special : Int) : Option String :=
  let held (card : Nat) := cards.getD card false
  if special = 26 ∨ special = 32 then
    if !held 0 && !held 3 then some "You need a blue key to open this door" else none
  else if special = 27 ∨ special = 34 then
    if !held 1 && !held 4 then some "You need a yellow key to open this door" else none
  else if special = 28 ∨ special = 33 then
    if !held 2 && !held 5 then some "You need a red key to open this door" else none
  else none

/-- `opening`: the specials are 1, 26, 27, 28, 31, 32, 33, 34, 117 and 118. -/
def opening (level : Level) (state : State) (line : Nat) : Opened :=
  let special := state.lineSpecial.getD line 0
  let sector := level.lineBack.getD line 0
  let held := state.secSpecialdata.getD sector.toNat 0
  if sector < 0 then .oneSided
  else
    match missingKey state.cards special with
    | some message => .locked message
    | none =>
      if held ≠ 0 ∧ special ∈ [1, 26, 27, 28, 117] then .reopens held
      else
        .makes sector.toNat
          (if special ∈ [1, 26, 27, 28] then 0 else if special ∈ [31, 32, 33, 34] then 3
            else if special = 117 then 5 else if special = 118 then 6 else -1)
          (if special ∈ [117, 118] then vdoorSpeed * 4 else vdoorSpeed)
          (lowestCeilingSurrounding level state.secCeilingheight sector - 262144)
          (special ∈ [31, 32, 33, 34, 118])

/-- The specials a press opens a door for. -/
def doorSpecials : List Int := [1, 26, 27, 28, 31, 32, 33, 34, 117, 118]

/-- `use_opened`, nothing for a line no door hangs on. -/
def useOpened (level : Level) (state : State) (line : Nat) : Option Opened :=
  if state.lineSpecial.getD line 0 ∈ doorSpecials then some (opening level state line) else none

/-- The row of a door the press made. -/
def doorRows (state : State) : Option Opened → List SectorThinker
  | some (.makes sector type speed topheight _) =>
    [{ SectorThinker.blank with
        seq := state.nextSeq, kind := .door, sector := sector, type := type, direction := 1
        speed := Int32.ofInt speed, dest := Int32.ofInt topheight, wait := vdoorWait }]
  | _ => []

/-- `held_direction`: the press turns the thinkers whose `seq` is the slot it was given. -/
def heldDirection (opened : Option Opened) (thinker : SectorThinker) : SectorThinker :=
  match opened with
  | some (.reopens slot) =>
    if thinker.seq.toNat = slot then
      { thinker with direction := if thinker.direction = -1 then 1 else -1 }
    else thinker
  | _ => thinker

/-! ## `EV_DoPlat` -/

/-- `use_plat_sectors`: the sectors with the line's tag that hold no thinker. -/
def platSectors (level : Level) (state : State) (line : Nat) : List Nat :=
  if state.lineSpecial.getD line 0 = 62 then
    (List.range level.secTag.length).filter fun sector =>
      level.secTag.getD sector 0 = level.lineTag.getD line 0 ∧
        state.secSpecialdata.getD sector 0 = 0
  else []

/-- The rows of the plats the press made; `first` is the identity of the first, before it is
written in 32 bits. -/
def platRows (level : Level) (state : State) (first : Nat) (sectors : List Nat) :
    List SectorThinker :=
  sectors.zipIdx.map fun entry =>
    let floor := (state.secFloorheight.getD entry.1 0).toInt
    { SectorThinker.blank with
      seq := UInt32.ofNat (first + entry.2), kind := .plat, sector := entry.1, type := 1
      speed := 262144
      dest := Int32.ofInt (min (lowestFloorSurrounding level state.secFloorheight entry.1) floor)
      dest2 := Int32.ofInt floor
      wait := 105
      status := 1
      tag := level.secTag.getD entry.1 0 }

/-! ## The switch -/

/-- The pictures of a side. -/
def Walls.pictures (walls : Walls) (side : Nat) : Pictures :=
  ⟨(walls.top.getD side 0).toInt, (walls.middle.getD side 0).toInt,
    (walls.bottom.getD side 0).toInt⟩

/-- `where_`. -/
def number : Where → Int
  | .top => 0
  | .middle => 1
  | .bottom => 2

/-- A picture put on a side, where it is not past the end. -/
def put (pictures : List Int16) (side : Nat) (picture : Int) : List Int16 :=
  pictures.set side (Int16.ofInt picture)

/-- The three columns with one picture put at a place. -/
def Walls.put (walls : Walls) (place : Int) (side : Nat) (picture : Int) : Walls :=
  { walls with
    top := if place = 0 then Press.put walls.top side picture else walls.top
    middle := if place = 1 then Press.put walls.middle side picture else walls.middle
    bottom := if place = 2 then Press.put walls.bottom side picture else walls.bottom }

/-- `already_pressed`. -/
def alreadyPressed (buttons : List Button) (line : Nat) : Bool :=
  buttons.any fun button => button.timer != 0 && button.line == (line : Int) + 1

/-- `P_StartButton`: into the first free slot, or a new one. -/
def startButton (buttons : List Button) (button : Button) : List Button :=
  match buttons.findIdx? (fun button => button.timer == 0) with
  | some slot => buttons.set slot button
  | none => buttons ++ [button]

/-- The pictures and the buttons after a press that moved a plat. -/
def pressSwitch (level : Level) (line : Nat) (walls : Walls) : Walls :=
  let side := level.lineSide0.getD line 0
  match Switches.switched level.switches (walls.pictures side) with
  | none => walls
  | some switched =>
    let flipped := walls.put (number switched.place) side switched.picture
    if alreadyPressed walls.buttons line then flipped
    else
      { flipped with
        buttons := startButton walls.buttons
          ⟨(line : Int) + 1, number switched.place, switched.before, 35⟩ }

/-! ## The whole press -/

/-- `use_special_line` at a line the press reached. -/
def useSpecialLine (level : Level) (state : State) (line : Nat) : State :=
  let opened := useOpened level state line
  let doors := doorRows state opened
  let sectors := platSectors level state line
  let base := state.thinkers.length
  { state with
    thinkers := state.thinkers.map (heldDirection opened) ++
      (doors ++ platRows level state (state.nextSeq.toNat + doors.length) sectors)
    nextSeq := UInt32.ofNat (state.nextSeq.toNat + doors.length + sectors.length)
    secSpecialdata := state.secSpecialdata.mapIdx fun sector slot =>
      if doors.any (·.sector == sector) then base + 1
      else if sector ∈ sectors then base + doors.length + sectors.idxOf sector + 1
      else slot
    lineSpecial := state.lineSpecial.mapIdx fun number special =>
      match opened with
      | some (.makes _ _ _ _ true) => if number = line then 0 else special
      | _ => special
    walls := if sectors ≠ [] then pressSwitch level line state.walls else state.walls
    message := match opened with
      | some (.locked message) => some message
      | _ => none }

/-! ## A door that is already moving -/

variable {level : Level} {state : State} {line slot : Nat}

/-- The press reaches the door at a slot: the sector behind the line names the slot, the
line's special is one that turns a door around, and its key is held. -/
structure Reaches (level : Level) (state : State) (line slot : Nat) : Prop where
  sector : 0 ≤ level.lineBack.getD line 0
  special : state.lineSpecial.getD line 0 ∈ [1, 26, 27, 28, 117]
  key : missingKey state.cards (state.lineSpecial.getD line 0) = none
  held : state.secSpecialdata.getD (level.lineBack.getD line 0).toNat 0 = slot
  door : ∃ thinker, state.thinkers[slot - 1]? = some thinker ∧ thinker.kind = .door
  named : slot ≠ 0

/-- A thinker turned around. -/
def turned (thinker : SectorThinker) : SectorThinker :=
  { thinker with direction := if thinker.direction = -1 then 1 else -1 }

/-- The press turns the thinker at the slot around and does nothing else to the list, its
identities or the sectors' slots. -/
structure TurnsOnly (state after : State) (slot : Nat) : Prop where
  thinkers : after.thinkers = state.thinkers.modify (slot - 1) turned
  nextSeq : after.nextSeq = state.nextSeq
  secSpecialdata : after.secSpecialdata = state.secSpecialdata

theorem turned_ne (thinker : SectorThinker) : turned thinker ≠ thinker := by
  intro eq
  have direction : (if thinker.direction = -1 then 1 else -1) = thinker.direction :=
    congrArg SectorThinker.direction eq
  split at direction <;> omega

theorem useOpened_of_reaches (reaches : Reaches level state line slot) :
    useOpened level state line = some (.reopens slot) := by
  have handled : state.lineSpecial.getD line 0 ∈ doorSpecials := by
    have := reaches.special
    simp only [doorSpecials, List.mem_cons, List.not_mem_nil, or_false] at this ⊢
    tauto
  rw [useOpened, if_pos handled, opening]
  simp only [if_neg (not_lt.2 reaches.sector), reaches.key, reaches.held]
  rw [if_pos ⟨reaches.named, reaches.special⟩]

theorem platSectors_of_reaches (reaches : Reaches level state line slot) :
    platSectors level state line = [] := by
  rw [platSectors, if_neg]
  intro plat
  have := reaches.special
  rw [plat] at this
  revert this
  decide

/-- The list after such a press. -/
theorem thinkers_of_reaches (reaches : Reaches level state line slot) :
    (useSpecialLine level state line).thinkers =
      state.thinkers.map fun thinker =>
        if thinker.seq.toNat = slot then turned thinker else thinker := by
  simp only [useSpecialLine, useOpened_of_reaches reaches, platSectors_of_reaches reaches, doorRows,
    platRows, List.zipIdx_nil, List.map_nil, List.append_nil]
  rfl

/-- A press turns exactly the door its sector names where that door is the one thinker
whose identity is the number of its slot. -/
theorem turnsOnly_iff (reaches : Reaches level state line slot) :
    TurnsOnly state (useSpecialLine level state line) slot ↔
      ∀ (j : Nat) (thinker : SectorThinker), state.thinkers[j]? = some thinker →
        (thinker.seq.toNat = slot ↔ j + 1 = slot) := by
  have named := reaches.named
  have rest : (useSpecialLine level state line).nextSeq = state.nextSeq ∧
      (useSpecialLine level state line).secSpecialdata = state.secSpecialdata := by
    have same : state.secSpecialdata.mapIdx (fun _ slot => slot) = state.secSpecialdata :=
      List.ext_getElem? fun j => by simp
    simp [useSpecialLine, useOpened_of_reaches reaches, platSectors_of_reaches reaches, doorRows,
      same]
  have lists : TurnsOnly state (useSpecialLine level state line) slot ↔
      ∀ j : Nat, (state.thinkers.map fun thinker =>
          if thinker.seq.toNat = slot then turned thinker else thinker)[j]? =
        (state.thinkers.modify (slot - 1) turned)[j]? := by
    rw [← List.ext_getElem?_iff, ← thinkers_of_reaches reaches]
    exact ⟨fun turns => turns.thinkers, fun eq => ⟨eq, rest.1, rest.2⟩⟩
  rw [lists]
  refine forall_congr' fun j => ?_
  rw [List.getElem?_map, List.getElem?_modify]
  cases state.thinkers[j]? with
  | none => simp
  | some thinker =>
    have here : slot - 1 = j ↔ j + 1 = slot := by omega
    simp only [Option.map_some, Option.some.injEq, forall_eq', here]
    by_cases seq : thinker.seq.toNat = slot <;> by_cases place : j + 1 = slot <;>
      simp [seq, place, turned_ne, (turned_ne thinker).symm]

/-- A door at slot 1 that was made second, and the other thinker of the list. -/
def drifted : State where
  thinkers := [{ SectorThinker.blank with seq := 2, direction := 1 },
    { SectorThinker.blank with seq := 1, sector := 1, direction := 1 }]
  nextSeq := 3
  secSpecialdata := [1, 2]
  secFloorheight := [0, 0]
  secCeilingheight := [0, 0]
  lineSpecial := [1]
  cards := [false, false, false, false, false, false]
  walls := ⟨[], [], [], []⟩
  message := none

/-- One line with the first sector behind it. -/
def oneDoor : Level where
  lineFront := [1]
  lineBack := [0]
  lineSide0 := [0]
  lineFlags := [4]
  lineTag := [0]
  secLines := [[0], [0]]
  secTag := [0, 0]
  switches := []

theorem drifted_reaches : Reaches oneDoor drifted 0 1 :=
  ⟨by decide, by decide, by decide, by decide, ⟨_, rfl, rfl⟩, by decide⟩

/-- The press turns the other sector's door. -/
theorem turns_other :
    (useSpecialLine oneDoor drifted 0).thinkers =
      [{ SectorThinker.blank with seq := 2, direction := 1 },
        { SectorThinker.blank with seq := 1, sector := 1, direction := -1 }] ∧
    ¬TurnsOnly drifted (useSpecialLine oneDoor drifted 0) 1 := by
  refine ⟨by decide, fun turns => ?_⟩
  exact absurd turns.thinkers (by decide)

/-- The two doors before any removal. -/
def undrifted : State :=
  { drifted with
    thinkers := [{ SectorThinker.blank with seq := 1, direction := 1 },
      { SectorThinker.blank with seq := 2, sector := 1, direction := 1 }] }

/-- Before any removal the identities are the slots, and the press turns its own door. -/
theorem turnsOnly_fresh : TurnsOnly undrifted (useSpecialLine oneDoor undrifted 0) 1 := by
  refine (turnsOnly_iff ⟨by decide, by decide, by decide, by decide, ⟨_, rfl, rfl⟩, by decide⟩).2
    fun j thinker there => ?_
  rcases j with _ | _ | j
  · cases there
    decide
  · cases there
    decide
  · cases there

end ClickDoom.Native.Press

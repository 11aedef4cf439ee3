import ClickDoom.Base.Distinct
import ClickDoom.Native.Surroundings

/-! # Crossed lines

`cross_dispatch` of `native/src/sql/sim/specials.rs`: what the lines crossed in a tic start.  The
stage reads the state a use press has left.  Sectors are counted from one, as its arrays are; the
columns of a sector's row are at the count before.
-/
namespace ClickDoom.Native.Crossings
open ClickHouse
open Press (Level lowestCeilingSurrounding lowestFloorSurrounding)
open Surroundings (NextHighest highestFloorSurrounding nextHighestFloor platNextHigh)

/-- The columns a press keeps, and what a plat copies. -/
structure State where
  press : Press.State
  secFloorpic : List Int
  secSpecial : List Int
  deriving DecidableEq, Repr

def platTriggerSpecials : List Int := [10, 88, 22]
def doorTriggerSpecials : List Int := [2, 90]
def floorTriggerSpecials : List Int := [91, 98]

/-- `cx_lines`. -/
def cxLines (pxCrossedLine : Int) (txCrossedLine : List Int) : List Nat :=
  ((pxCrossedLine :: txCrossedLine).filter (· ≠ -1)).map Int.toNat

/-- `sectors_by_tag`. -/
def sectorsByTag (level : Level) (tag : Int) : List Nat :=
  (List.range' 1 level.secTag.length).filter fun sec => level.secTag.getD (sec - 1) 0 = tag

section
variable (level : Level) (s : Press.State) (lines : List Nat)

/-- The crossed lines with one of the specials. -/
def triggered (specials : List Int) : List Nat :=
  lines.filter fun l => s.lineSpecial.getD l 0 ∈ specials

/-- `sectors_for`: the sectors with a tag of the lines that hold no thinker. -/
def sectorsFor (lines : List Nat) : List Nat :=
  (arrayDistinct ((arrayDistinct (lines.map fun l => level.lineTag.getD l 0)).flatMap
    (sectorsByTag level))).filter fun sec => s.secSpecialdata.getD (sec - 1) 0 = 0

/-- The special of the first of some lines, zero for none. -/
def firstSpecial : List Nat → Int
  | [] => 0
  | l :: _ => s.lineSpecial.getD l 0

/-! ## Plats -/

def platLines : List Nat := triggered s lines platTriggerSpecials

def platSectors : List Nat := sectorsFor level s (platLines s lines)

/-- `cx_plat_type`. -/
def platType : Int :=
  if platLines s lines = [] then 0 else if firstSpecial s (platLines s lines) = 22 then 3 else 1

/-- `raises`: the plat rises to the nearest floor and takes the floor's picture. -/
def raises : Bool := platType s lines = 3

/-- `cx_plat_rows`. -/
def platRows : List SectorThinker :=
  (platSectors level s lines).zipIdx.map fun (sec, i) =>
    let floor := (s.secFloorheight.getD (sec - 1) 0).toInt
    let low := lowestFloorSurrounding level s.secFloorheight (sec - 1 : Nat)
    { SectorThinker.blank with
      seq := UInt32.ofNat (s.nextSeq.toNat + i), kind := .plat, sector := sec - 1, type := platType s lines
      speed := if raises s lines then 32768 else 262144
      dest := Int32.ofInt (if raises s lines then 0 else min low floor)
      dest2 := Int32.ofInt (if raises s lines then
        platNextHigh level s.secFloorheight (sec - 1 : Nat) else floor)
      wait := if raises s lines then 0 else 105
      status := if raises s lines then 0 else 1
      tag := level.secTag.getD (sec - 1) 0 }

/-! ## Doors -/

def doorLines : List Nat := triggered s lines doorTriggerSpecials

/-- A sector that a plat has claimed is not claimed again. -/
def doorSectors : List Nat :=
  (sectorsFor level s (doorLines s lines)).filter fun sec =>
    indexOf (platSectors level s lines) sec = 0

/-- `cx_door_type`. -/
def doorType : Int :=
  if doorLines s lines = [] then 0 else if firstSpecial s (doorLines s lines) = 2 then 3 else 0

/-- `cx_door_rows`. -/
def doorRows : List SectorThinker :=
  (doorSectors level s lines).zipIdx.map fun (sec, i) =>
    { SectorThinker.blank with
      seq := UInt32.ofNat (s.nextSeq.toNat + (platSectors level s lines).length + i)
      kind := .door, sector := sec - 1
      type := doorType s lines, direction := 1, speed := 131072
      dest := Int32.ofInt
        (lowestCeilingSurrounding level s.secCeilingheight (sec - 1 : Nat) - 262144)
      wait := 150
      tag := level.secTag.getD (sec - 1) 0 }

/-! ## Floors -/

def floorLines : List Nat := triggered s lines floorTriggerSpecials

def floorSectors : List Nat :=
  (sectorsFor level s (floorLines s lines)).filter fun sec =>
    indexOf (platSectors level s lines) sec = 0 ∧ indexOf (doorSectors level s lines) sec = 0

def floorSpecial : Int := firstSpecial s (floorLines s lines)

/-- `floor_dest`. -/
def floorDest (sector : Nat) : Int :=
  let raise := lowestCeilingSurrounding level s.secCeilingheight sector
  let turbo := highestFloorSurrounding level s.secFloorheight sector
  if floorSpecial s lines = 91 then min raise (s.secCeilingheight.getD sector 0).toInt
  else if floorSpecial s lines = 98 ∧ turbo ≠ (s.secFloorheight.getD sector 0).toInt then
    turbo + 524288
  else turbo

/-- `cx_floor_rows`. -/
def floorRows : List SectorThinker :=
  (floorSectors level s lines).zipIdx.map fun (sec, i) =>
    { SectorThinker.blank with
      seq := UInt32.ofNat (s.nextSeq.toNat + (platSectors level s lines).length +
        (doorSectors level s lines).length + i)
      kind := .floor, sector := sec - 1
      type := if floorSpecial s lines = 98 then 2 else 3
      direction := if floorSpecial s lines = 98 then -1 else 1
      speed := if floorSpecial s lines = 98 then 262144 else 65536
      dest := Int32.ofInt (floorDest level s lines (sec - 1))
      tag := level.secTag.getD (sec - 1) 0 }

/-! ## The stage -/

/-- `cx_rows`. -/
def rows : List SectorThinker :=
  platRows level s lines ++ doorRows level s lines ++ floorRows level s lines

/-- `now_sec_specialdata`. -/
def specialdata : List Nat :=
  let base := s.thinkers.length
  let plats := platSectors level s lines
  let doors := doorSectors level s lines
  let floors := floorSectors level s lines
  s.secSpecialdata.mapIdx fun sector slot =>
    if indexOf plats (sector + 1) ≠ 0 then base + indexOf plats (sector + 1)
    else if indexOf doors (sector + 1) ≠ 0 then base + plats.length + indexOf doors (sector + 1)
    else if indexOf floors (sector + 1) ≠ 0 then
      base + plats.length + doors.length + indexOf floors (sector + 1)
    else slot

/-- The picture of the floor before the first plat line. -/
def frontFloorpic (secFloorpic : List Int) : Int :=
  let front := level.lineFront.getD ((platLines s lines).headD 0) 0
  if front < 0 then 0 else secFloorpic.getD front.toNat 0

end

/-- `cross_dispatch`, with whether it raises `PLAT_NEXT_HIGHEST_OVERFLOW`.  It leaves `next_seq` as
it was. -/
def crossDispatch (level : Level) (pxCrossedLine : Int) (txCrossedLine : List Int)
    (state : State) : State × Bool :=
  let s := state.press
  let lines := cxLines pxCrossedLine txCrossedLine
  let claims (sector : Nat) : Bool :=
    raises s lines ∧ indexOf (platSectors level s lines) (sector + 1) ≠ 0
  ({ press :=
      { s with
        thinkers := s.thinkers ++ rows level s lines
        secSpecialdata := specialdata level s lines
        lineSpecial := s.lineSpecial.mapIdx fun l special =>
          if special ∈ [10, 2, 22] ∧ l ∈ lines then 0 else special }
     secFloorpic := state.secFloorpic.mapIdx fun sector pic =>
       if claims sector then frontFloorpic level s lines state.secFloorpic else pic
     secSpecial := state.secSpecial.mapIdx fun sector special =>
       if claims sector then 0 else special },
   raises s lines && (platSectors level s lines).any fun sec =>
     (nextHighestFloor level s.secFloorheight (sec - 1 : Nat)).overflow)

end ClickDoom.Native.Crossings

import ClickDoom.Engine.Fixed

/-! # The heights around a sector

`getNextSector` and the searches of `p_spec.c` through the lines of a sector.  A side without a
sector is a null pointer.
-/
namespace ClickDoom.Engine

/-- What the searches read of a `line_t`. -/
structure Border where
  flags : Nat
  front : Option Nat
  back : Option Nat
  deriving DecidableEq, Repr

def mlTwosided : Nat := 4

/-- `getNextSector`. -/
def getNextSector (line : Border) (sec : Nat) : Option Nat :=
  if line.flags &&& mlTwosided = 0 then none
  else if line.front = some sec then line.back
  else line.front

section
variable (lines : List Border) (heights : List Int32) (sec : Nat)

/-- The height of a sector. -/
def heightAt (other : Nat) : Int32 := heights.getD other 0

/-- A search that keeps the height which passes the one it holds. -/
def findSurrounding (passes : Int32 → Int32 → Bool) (start : Int32) : Int32 :=
  lines.foldl (fun height line =>
    match getNextSector line sec with
    | none => height
    | some other =>
      if passes (heightAt heights other) height then heightAt heights other else height) start

/-- `P_FindLowestFloorSurrounding`. -/
def findLowestFloorSurrounding : Int32 :=
  findSurrounding lines heights sec (fun other floor => other < floor) (heightAt heights sec)

/-- `P_FindHighestFloorSurrounding`. -/
def findHighestFloorSurrounding : Int32 :=
  findSurrounding lines heights sec (fun other floor => other > floor) (-500 * fracUnit)

/-- `P_FindLowestCeilingSurrounding`, from `INT_MAX` down. -/
def findLowestCeilingSurrounding : Int32 :=
  findSurrounding lines heights sec (fun other height => other < height) 2147483647

/-- `height` and `heightlist` of `P_FindNextHighestFloor`. -/
structure Climb where
  height : Int32
  heightlist : List Int32
  deriving DecidableEq, Repr

/-- One line of `P_FindNextHighestFloor`; `none` is its `I_Error`. -/
def climb (state : Climb) (line : Border) : Option Climb :=
  match getNextSector line sec with
  | none => some state
  | some other =>
    if heightAt heights other > state.height then
      if state.heightlist.length = 21 then
        some ⟨heightAt heights other, state.heightlist ++ [heightAt heights other]⟩
      else if state.heightlist.length = 22 then none
      else some ⟨state.height, state.heightlist ++ [heightAt heights other]⟩
    else some state

/-- The lowest of a list, `currentheight` where it is empty. -/
def lowestOf (currentheight : Int32) : List Int32 → Int32
  | [] => currentheight
  | first :: rest => rest.foldl (fun min height => if height < min then height else min) first

/-- `P_FindNextHighestFloor`. -/
def findNextHighestFloor (currentheight : Int32) : Option Int32 :=
  (lines.foldlM (climb heights sec) ⟨currentheight, []⟩).map fun state =>
    lowestOf currentheight state.heightlist

end

end ClickDoom.Engine

import Mathlib

/-! # The sector thinkers

The `s_` columns of the state row as one list of records, in `THINKER_COLUMNS` order.  A
thinker is named by its slot, which is its place on the list from one, or by its `seq`,
which it keeps.
-/
namespace ClickDoom.Native

/-- `sector_thinker_kind`. -/
inductive Kind
  | door
  | plat
  | floor
  | ceiling
  | lightFlash
  | strobe
  | glow
  | fireFlicker
  deriving DecidableEq, Repr

structure SectorThinker where
  seq : UInt32
  kind : Kind
  sector : Nat
  type : Int
  direction : Int
  speed : Int32
  dest : Int32
  dest2 : Int32
  count : Int32
  wait : Int32
  status : Int
  oldstatus : Int
  crush : Bool
  tag : Int
  texture : Int
  newspecial : Int
  minlight : Int32
  maxlight : Int32
  mintime : Int32
  maxtime : Int32
  active : Bool
  activeplatSlot : Int
  activeceilSlot : Int
  deriving DecidableEq, Repr

/-- The fields a new thinker starts on zero. -/
def SectorThinker.blank : SectorThinker where
  seq := 0
  kind := .door
  sector := 0
  type := 0
  direction := 0
  speed := 0
  dest := 0
  dest2 := 0
  count := 0
  wait := 0
  status := 0
  oldstatus := 0
  crush := false
  tag := 0
  texture := 0
  newspecial := 0
  minlight := 0
  maxlight := 0
  mintime := 0
  maxtime := 0
  active := true
  activeplatSlot := 0
  activeceilSlot := 0

end ClickDoom.Native

import Mathlib

/-! # The engine's light thinkers

`T_FireFlicker`, `T_LightFlash`, `T_StrobeFlash` and `T_Glow` of `p_lights.c`, as
`P_RunThinkers` runs them down the list.  A sector's light level is a `short`, a thinker's
numbers are `int`s, and `P_Random` steps the index before it reads.
-/
namespace ClickDoom.Engine

/-- A light thinker; `other` is one that leaves the light alone. -/
inductive LightThinker
  | flicker (sector : Nat) (count maxlight minlight : Int32)
  | flash (sector : Nat) (count maxlight minlight maxtime mintime : Int32)
  | strobe (sector : Nat) (count minlight maxlight darktime brighttime : Int32)
  | glow (sector : Nat) (minlight maxlight : Int32) (direction : Int)
  | other
  deriving DecidableEq, Repr

/-- The light levels of the sectors and `prndindex`. -/
structure Lights where
  levels : List Int16
  prndindex : Nat
  deriving DecidableEq, Repr

/-- `P_Random`, given `rndtable`: the number and the index it leaves. -/
def random (rndtable : List UInt8) (prndindex : Nat) : Int32 × Nat :=
  let next := (prndindex + 1) &&& 0xff
  (Int32.ofNat (rndtable.getD next 0).toNat, next)

/-- An `int` stored in a `short`. -/
def short (x : Int32) : Int16 := x.toInt16

/-- `sector->lightlevel = level`. -/
def Lights.put (lights : Lights) (sector : Nat) (level : Int16) : Lights :=
  { lights with levels := lights.levels.set sector level }

def glowspeed : Int16 := 8

/-- One thinker of the list, and what it leaves. -/
def runLight (rndtable : List UInt8) (lights : Lights) : LightThinker → LightThinker × Lights
  | .flicker sector count maxlight minlight =>
    let level := lights.levels.getD sector 0
    if count - 1 ≠ 0 then (.flicker sector (count - 1) maxlight minlight, lights)
    else
      let (number, prndindex) := random rndtable lights.prndindex
      let amount := (number &&& 3) * 16
      let left := if level.toInt32 - amount < minlight then short minlight
        else short (maxlight - amount)
      (.flicker sector 4 maxlight minlight, { lights.put sector left with prndindex })
  | .flash sector count maxlight minlight maxtime mintime =>
    let level := lights.levels.getD sector 0
    if count - 1 ≠ 0 then (.flash sector (count - 1) maxlight minlight maxtime mintime, lights)
    else
      let (number, prndindex) := random rndtable lights.prndindex
      if level.toInt32 = maxlight then
        (.flash sector ((number &&& mintime) + 1) maxlight minlight maxtime mintime,
          { lights.put sector (short minlight) with prndindex })
      else
        (.flash sector ((number &&& maxtime) + 1) maxlight minlight maxtime mintime,
          { lights.put sector (short maxlight) with prndindex })
  | .strobe sector count minlight maxlight darktime brighttime =>
    let level := lights.levels.getD sector 0
    if count - 1 ≠ 0 then
      (.strobe sector (count - 1) minlight maxlight darktime brighttime, lights)
    else if level.toInt32 = minlight then
      (.strobe sector brighttime minlight maxlight darktime brighttime,
        lights.put sector (short maxlight))
    else
      (.strobe sector darktime minlight maxlight darktime brighttime,
        lights.put sector (short minlight))
  | .glow sector minlight maxlight direction =>
    let level := lights.levels.getD sector 0
    if direction = -1 then
      let lower := level - glowspeed
      if lower.toInt32 ≤ minlight then
        (.glow sector minlight maxlight 1, lights.put sector (lower + glowspeed))
      else (.glow sector minlight maxlight (-1), lights.put sector lower)
    else if direction = 1 then
      let higher := level + glowspeed
      if higher.toInt32 ≥ maxlight then
        (.glow sector minlight maxlight (-1), lights.put sector (higher - glowspeed))
      else (.glow sector minlight maxlight 1, lights.put sector higher)
    else (.glow sector minlight maxlight direction, lights)
  | .other => (.other, lights)

/-- The list from its head down. -/
def runLights (rndtable : List UInt8) : List LightThinker → Lights → List LightThinker × Lights
  | [], lights => ([], lights)
  | thinker :: rest, lights =>
    let (left, lights) := runLight rndtable lights thinker
    let (others, lights) := runLights rndtable rest lights
    (left :: others, lights)

end ClickDoom.Engine

import ClickDoom.Engine.CheckPosition

/-! # The engine's clip under a moving plane

`P_ThingHeightClip`, `PIT_ChangeSector` and `P_ChangeSector` of `p_map.c`, called without
`crunch`, as doors and lifts call it.  The state a crushed corpse is set to is left out.
-/
namespace ClickDoom.Engine

/-- The block box `P_GroupLines` gives a sector from the box around its lines. -/
def blockbox (map : Blockmap) (bbox : Box Int32) : Box Int :=
  let top := ((bbox.top - map.orgy + maxRadius) >>> 23).toInt
  let bottom := ((bbox.bottom - map.orgy - maxRadius) >>> 23).toInt
  let right := ((bbox.right - map.orgx + maxRadius) >>> 23).toInt
  let left := ((bbox.left - map.orgx - maxRadius) >>> 23).toInt
  ⟨if top ≥ map.height then map.height - 1 else top, if bottom < 0 then 0 else bottom,
    if left < 0 then 0 else left, if right ≥ map.width then map.width - 1 else right⟩

/-- The heights `P_ThingHeightClip` leaves a thing. -/
def heightClip (thing : Mobj) (floorz ceilingz : Int32) : Mobj :=
  { thing with
    floorz := floorz
    ceilingz := ceilingz
    z := if thing.z = thing.floorz then floorz
      else if thing.z + thing.height > ceilingz then ceilingz - thing.height
      else thing.z }

/-- What `PIT_ChangeSector` does to a thing that does not fit, and whether the thing counts. -/
def crush (thing : Mobj) : Mobj × Bool :=
  if thing.health ≤ 0 then
    ({ thing with flags := thing.flags &&& ~~~mfSolid, height := 0, radius := 0 }, false)
  else if thing.has mfDropped then ({ thing with alive := false }, false)
  else (thing, thing.has mfShootable)

section
variable (level : MoveLevel) (magic : Int32) (fuel : Nat)

/-- `PIT_ChangeSector`: the things and `nofit` after a thing is clipped.  The thirteenth and the
fourteenth special line of its check are written over `crushchange` and `nofit`, and there is no
answer. -/
def changeThing (state : List Mobj × Bool) (slot : Nat) : Option (List Mobj × Bool) :=
  let thing := mobjAt state.1 slot
  (checkPosition level state.1 thing slot magic thing.x thing.y fuel).bind fun position =>
    let clipped := heightClip thing position.tm.floorz position.tm.ceilingz
    if position.tm.spechit.length > 12 then none
    else if clipped.ceilingz - clipped.floorz < clipped.height then
      some (state.1.set slot (crush clipped).1, state.2 || (crush clipped).2)
    else some (state.1.set slot clipped, state.2)

/-- The things of one block. -/
def changeBlock (state : List Mobj × Bool) (block : Int × Int) : Option (List Mobj × Bool) :=
  (blockList level.map (blocklinks level.map (state.1.map Mobj.thing)) block).foldlM
    (changeThing level magic fuel) state

/-- `P_ChangeSector` of a sector by the box around its lines. -/
def changeSector (bbox : Box Int32) (things : List Mobj) : Option (List Mobj × Bool) :=
  let box := blockbox level.map bbox
  (blocksOver box.left box.right box.bottom box.top).foldlM (changeBlock level magic fuel)
    (things, false)

end

end ClickDoom.Engine

import ClickDoom.Base.Panics
import ClickDoom.Refemu.Memory

/-! # The probe's walk of the thinker list

`refemu/src/probe/ram.rs` and `walk` of `refemu/src/probe/world.rs`: the engine's thinkers read
out of raw guest memory, from `thinkercap` along the `next` links.  A sum of addresses that passes
32 bits is a panic.
-/
namespace ClickDoom.Probe

inductive ProbeError
  | outsideRam (addr : Word) (len : Nat) (what : String)
  | unknownThinker (addr function : Word)
  | thinkerListRuns (limit : Nat)
  deriving DecidableEq, Repr

/-- `Ram`: the machine's RAM, addressed the way the program addresses it. -/
structure Ram where
  base : Word
  bytes : List Byte

/-- `Ram::u32`. -/
def Ram.u32 (ram : Ram) (addr : Word) (what : String) : Panics ProbeError Word :=
  if ram.base ≤ addr ∧ (addr - ram.base).toNat + 4 ≤ ram.bytes.length then
    .ok (readLe ram.bytes (addr - ram.base) .word)
  else Panics.fail (.outsideRam addr 4 what)

/-- A checked sum of two words. -/
def add32 (a b : Word) : Panics ProbeError Word :=
  if a.toNat + b.toNat < 2 ^ 32 then .ok (a + b) else .error .panic

/-- A checked product of two words. -/
def mul32 (a b : Word) : Panics ProbeError Word :=
  if a.toNat * b.toNat < 2 ^ 32 then .ok (a * b) else .error .panic

/-! ## The engine, resolved -/

inductive ThinkerKind
  | mobj | door | plat | floor | ceiling | lightFlash | strobe | glow | fireFlicker
  deriving DecidableEq, Repr

/-- A global and how many elements it holds. -/
structure Global where
  addr : Word
  count : Word
  deriving DecidableEq, Repr

/-- What the walk reads of `Engine`.  A hash map is the list of its inserts, latest first. -/
structure Engine where
  next : Word
  function : Word
  thinkercap : Word
  activeplats : Global
  activeceilings : Global
  byFunction : List (Word × ThinkerKind)

def thinkerLimit : Nat := 1048576

/-- What `P_RemoveThinker` leaves in the function slot. -/
def thinkerRemoved : Word := 0xFFFFFFFF

def thinkerStasis : Word := 0

structure Thinker where
  addr : Word
  kind : ThinkerKind
  active : Bool
  deriving DecidableEq, Repr

structure Walk where
  mobjs : List Thinker
  sectorThinkers : List Thinker
  setupThings : Nat
  slots : List (Word × Nat)
  sectorSlots : List (Word × Nat)
  deriving DecidableEq, Repr

/-- The one-based slot of the mobj at this address, 0 for none. -/
def Walk.mobjSlot (walk : Walk) (addr : Word) : Nat := (walk.slots.lookup addr).getD 0

/-- The one-based slot of the sector thinker at this address, 0 for none. -/
def Walk.sectorSlot (walk : Walk) (addr : Word) : Nat := (walk.sectorSlots.lookup addr).getD 0

/-! ## The walk -/

/-- One table of the thinkers the engine can stop. -/
def stasisTable (ram : Ram) (table : Global) (kind : ThinkerKind) (what : String) :
    List Nat → List (Word × ThinkerKind) → Panics ProbeError (List (Word × ThinkerKind))
  | [], kinds => .ok kinds
  | index :: rest, kinds => do
    let offset ← mul32 (BitVec.ofNat 32 index) 4
    let addr ← add32 table.addr offset
    let entry ← ram.u32 addr what
    stasisTable ram table kind what rest (if entry ≠ 0 then (entry, kind) :: kinds else kinds)

/-- `stasis_kinds`. -/
def stasisKinds (engine : Engine) (ram : Ram) : Panics ProbeError (List (Word × ThinkerKind)) := do
  let plats ← stasisTable ram engine.activeplats .plat "activeplats"
    (List.range engine.activeplats.count.toNat) []
  stasisTable ram engine.activeceilings .ceiling "activeceilings"
    (List.range engine.activeceilings.count.toNat) plats

/-- A field of a thinker. -/
def readAt (ram : Ram) (at' offset : Word) (what : String) : Panics ProbeError Word := do
  let addr ← add32 at' offset
  ram.u32 addr what

/-- What a function word makes a thinker; none where nothing names it. -/
def kindOf (engine : Engine) (inStasis : List (Word × ThinkerKind)) (at' function : Word) :
    Option (ThinkerKind × Bool) :=
  if function = thinkerStasis then (inStasis.lookup at').map (·, false)
  else (engine.byFunction.lookup function).map (·, true)

/-- The walk before `setup_things` is filled in, with where the first sector thinker stood. -/
structure Walking where
  mobjs : List Thinker
  sectorThinkers : List Thinker
  slots : List (Word × Nat)
  sectorSlots : List (Word × Nat)
  split : Option Nat

/-- A thinker goes on the end of its own sequence and takes the next slot there. -/
def Walking.push (walk : Walking) (thinker : Thinker) : Walking :=
  if thinker.kind = .mobj then
    { walk with
      mobjs := walk.mobjs ++ [thinker]
      slots := (thinker.addr, walk.mobjs.length + 1) :: walk.slots }
  else
    { walk with
      split := some (walk.split.getD walk.mobjs.length)
      sectorThinkers := walk.sectorThinkers ++ [thinker]
      sectorSlots := (thinker.addr, walk.sectorThinkers.length + 1) :: walk.sectorSlots }

/-- The loop, with how many entries it may still visit. -/
def walkFrom (engine : Engine) (ram : Ram) (inStasis : List (Word × ThinkerKind)) :
    Nat → Word → Walking → Panics ProbeError Walking
  | 0, at', walk =>
    if at' = engine.thinkercap then .ok walk
    else Panics.fail (.thinkerListRuns thinkerLimit)
  | left + 1, at', walk =>
    if at' = engine.thinkercap then .ok walk
    else do
      let function ← readAt ram at' engine.function "a thinker's function"
      if function = thinkerRemoved then
        let next ← readAt ram at' engine.next "a thinker's next link"
        walkFrom engine ram inStasis left next walk
      else
        match kindOf engine inStasis at' function with
        | none => Panics.fail (.unknownThinker at' function)
        | some (kind, active) =>
          let next ← readAt ram at' engine.next "a thinker's next link"
          walkFrom engine ram inStasis left next (walk.push ⟨at', kind, active⟩)

/-- What the loop leaves, with `setup_things`. -/
def Walking.finish (walk : Walking) : Walk where
  mobjs := walk.mobjs
  sectorThinkers := walk.sectorThinkers
  setupThings := walk.split.getD walk.mobjs.length
  slots := walk.slots
  sectorSlots := walk.sectorSlots

/-- `walk`. -/
def walk (engine : Engine) (ram : Ram) : Panics ProbeError Walk := do
  let inStasis ← stasisKinds engine ram
  let first ← readAt ram engine.thinkercap engine.next "thinkercap.next"
  let walked ← walkFrom engine ram inStasis thinkerLimit first ⟨[], [], [], [], none⟩
  return walked.finish

end ClickDoom.Probe

import ClickDoom.Engine.Fixed

/-! # The engine's block lists

The blockmap of a level and the list of things each of its blocks holds, as
`P_SetThingPosition` of `p_maputl.c` links them.
-/
namespace ClickDoom.Engine

/-- The blockmap's header. -/
structure Blockmap where
  orgx : Int32
  orgy : Int32
  width : Nat
  height : Nat
  deriving DecidableEq, Repr

/-- What a thing's place in the block lists depends on.  `linkseq` counts the links
made so far; `alive` is false once the thing has left the list. -/
structure Thing where
  x : Int32
  y : Int32
  radius : Int32
  linkseq : Nat
  alive : Bool
  noblockmap : Bool
  deriving DecidableEq, Repr

/-- A block by its column and row. -/
structure Block where
  x : Nat
  y : Nat
  deriving DecidableEq, Repr

/-- What the iterators of a block hand on: a line, or a thing by its slot. -/
inductive Entry
  | line (number : Nat)
  | thing (slot : Nat)
  deriving DecidableEq, Repr

/-- `MAPBLOCKSHIFT` of a distance from the origin. -/
def blockAt (coordinate origin : Int32) : Int := ((coordinate - origin) >>> 23).toInt

/-- The block a thing stands in, if the map has it. -/
def Blockmap.blockOf (map : Blockmap) (thing : Thing) : Option Block :=
  let blockx := blockAt thing.x map.orgx
  let blocky := blockAt thing.y map.orgy
  if 0 ≤ blockx ∧ blockx < map.width ∧ 0 ≤ blocky ∧ blocky < map.height then
    some ⟨blockx.toNat, blocky.toNat⟩
  else none

/-- The number of a block in `blocklinks`. -/
def Blockmap.number (map : Blockmap) (block : Block) : Nat := block.y * map.width + block.x

/-- `P_SetThingPosition`: the block a thing is linked into, at the head of its list. -/
def setThingPosition (map : Blockmap) (links : Nat → List Nat) (entry : Nat × Thing) :
    Nat → List Nat :=
  if entry.2.noblockmap then links
  else
    match map.blockOf entry.2 with
    | some block => fun number =>
      if number = map.number block then entry.1 :: links number else links number
    | none => links

/-- The things on the list, each with its slot, in the order they were linked. -/
def linkOrder (things : List Thing) : List (Nat × Thing) :=
  ((things.zipIdx.map Prod.swap).filter fun entry => entry.2.alive).insertionSort fun a b =>
    a.2.linkseq ≤ b.2.linkseq

/-- The block lists of a state. -/
def blocklinks (map : Blockmap) (things : List Thing) : Nat → List Nat :=
  (linkOrder things).foldl (setThingPosition map) fun _ => []

/-! ## What a list holds -/

variable {map : Blockmap} {things : List Thing}

theorem mem_linkOrder {slot : Nat} {thing : Thing} :
    (slot, thing) ∈ linkOrder things ↔ things[slot]? = some thing ∧ thing.alive = true := by
  simp [linkOrder, List.mem_zipIdx_iff_getElem?]

theorem mem_setThingPosition {links : Nat → List Nat} {entry : Nat × Thing} {number slot : Nat} :
    slot ∈ setThingPosition map links entry number ↔
      slot ∈ links number ∨ (slot = entry.1 ∧ entry.2.noblockmap = false ∧
        ∃ block, map.blockOf entry.2 = some block ∧ number = map.number block) := by
  rw [setThingPosition]
  cases entry.2.noblockmap with
  | true => simp
  | false =>
    cases found : map.blockOf entry.2 with
    | none => simp
    | some block =>
      by_cases here : number = map.number block
      · simp [here, or_comm]
      · simp [here]

theorem mem_foldl_setThingPosition {entries : List (Nat × Thing)} {links : Nat → List Nat}
    {number slot : Nat} :
    slot ∈ entries.foldl (setThingPosition map) links number ↔
      slot ∈ links number ∨ ∃ thing, (slot, thing) ∈ entries ∧ thing.noblockmap = false ∧
        ∃ block, map.blockOf thing = some block ∧ number = map.number block := by
  induction entries generalizing links with
  | nil => simp
  | cons entry entries ih =>
    rw [List.foldl_cons, ih, mem_setThingPosition]
    constructor
    · rintro ((before | ⟨rfl, linked⟩) | ⟨thing, later, linked⟩)
      · exact .inl before
      · exact .inr ⟨entry.2, List.mem_cons_self, linked⟩
      · exact .inr ⟨thing, List.mem_cons_of_mem _ later, linked⟩
    · rintro (before | ⟨thing, here | later, linked⟩)
      · exact .inl (.inl before)
      · exact .inl (.inr ⟨rfl, linked⟩)
      · exact .inr ⟨thing, ‹_›, linked⟩

/-- A block's list holds the linked things that stand in the block. -/
theorem mem_blocklinks {number slot : Nat} :
    slot ∈ blocklinks map things number ↔
      ∃ thing, things[slot]? = some thing ∧ thing.alive = true ∧ thing.noblockmap = false ∧
        ∃ block, map.blockOf thing = some block ∧ number = map.number block := by
  rw [blocklinks, mem_foldl_setThingPosition]
  simp only [List.not_mem_nil, false_or, mem_linkOrder, and_assoc]

theorem blockOf_eq_some {thing : Thing} {block : Block} :
    map.blockOf thing = some block ↔
      blockAt thing.x map.orgx = block.x ∧ blockAt thing.y map.orgy = block.y ∧
      block.x < map.width ∧ block.y < map.height := by
  rw [Blockmap.blockOf]
  split
  · rename_i inside
    obtain ⟨bx, by'⟩ := block
    simp only [Option.some.injEq, Block.mk.injEq]
    omega
  · rename_i outside
    simp only [reduceCtorEq, false_iff]
    omega

/-- Whether a thing is linked into the list of a block. -/
def Blockmap.holds (map : Blockmap) (number : Nat) (thing : Thing) : Bool :=
  !thing.noblockmap && (map.blockOf thing).any fun block => number == map.number block

/-- A block's list runs back from the thing linked last. -/
theorem foldl_setThingPosition (entries : List (Nat × Thing)) (links : Nat → List Nat)
    (number : Nat) :
    entries.foldl (setThingPosition map) links number =
      ((entries.filter fun entry => map.holds number entry.2).reverse).map Prod.fst ++
        links number := by
  induction entries generalizing links with
  | nil => rfl
  | cons entry rest ih =>
    rw [List.foldl_cons, ih, List.filter_cons, setThingPosition, Blockmap.holds]
    cases entry.2.noblockmap with
    | true => simp
    | false =>
      cases found : map.blockOf entry.2 with
      | none => simp
      | some block =>
        by_cases here : number = map.number block
        · simp [here]
        · simp [here]

end ClickDoom.Engine

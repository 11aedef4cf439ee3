import ClickDoom.Engine.ChangeSector
import ClickDoom.Native.TryMoveAgrees

/-! # The clip of the tic query

`change_sector` of `native/src/sql/sim/plane.rs` over `heights` of `map.rs`, as the stage of the
planes in `specials.rs` calls it: every slot counts as alive there, since the stage before has
compacted the list.
-/
namespace ClickDoom.Native.Clip
open Engine (Box MoveLevel Mobj Blockmap Sector)
open Moves (Ask tmFloorz tmCeilingz)
open SignedWords (Fits32)

/-- The slots whose block lies in a sector's box, `cs_near` of one sector; slots count from
one. -/
def near (map : Blockmap) (things : List Mobj) (bbox : Box Int32) : List Nat :=
  let block (coordinate origin : Int32) : Int :=
    (coordinate.toInt - origin.toInt) >>> (23 : Nat)
  let low (side origin : Int32) : Int :=
    (side.toInt - origin.toInt - 2097152) >>> (23 : Nat)
  let high (side origin : Int32) : Int :=
    (side.toInt - origin.toInt + 2097152) >>> (23 : Nat)
  ((List.range things.length).map (· + 1)).filter fun k =>
    let thing := Engine.mobjAt things (k - 1)
    block thing.x map.orgx ≥ max (low bbox.left map.orgx) 0 &&
      block thing.x map.orgx ≤ min (high bbox.right map.orgx) (map.width - 1) &&
      block thing.y map.orgy ≥ max (low bbox.bottom map.orgy) 0 &&
      block thing.y map.orgy ≤ min (high bbox.top map.orgy) (map.height - 1)

/-- A thing's ask: its own place, and never as the player. -/
def asking (things : List Mobj) (k : Nat) : Ask :=
  let thing := Engine.mobjAt things (k - 1)
  ⟨k, thing.x, thing.y, thing.radius, thing.height, thing.z, thing.flags, false⟩

/-- A row of `cs_each`. -/
structure Each where
  slot : Nat
  z : Int32
  floorz : Int32
  ceilingz : Int32
  stuck : Bool
  deriving DecidableEq, Repr

section
variable (level : MoveLevel) (depth : Nat) (things : List Mobj)

def each (k : Nat) : Each :=
  let thing := Engine.mobjAt things (k - 1)
  let floorz := tmFloorz level depth (asking things k)
  let ceilingz := tmCeilingz level depth (asking things k)
  { slot := k
    z := if thing.z.toInt = thing.floorz.toInt then floorz
      else if thing.z.toInt + thing.height.toInt > ceilingz.toInt then
        Int32.ofInt (ceilingz.toInt - thing.height.toInt)
      else thing.z
    floorz := floorz
    ceilingz := ceilingz
    stuck := ceilingz.toInt - floorz.toInt < thing.height.toInt }

/-- A thing that `NOFIT` reports. -/
def shootable (k : Nat) : Bool :=
  let thing := Engine.mobjAt things (k - 1)
  thing.flags &&& 0x4 ≠ 0 && thing.health.toInt > 0 && thing.flags &&& 0x10000000 = 0

/-- The writes of one member of the rows. -/
def put (rows : List Each) (member : Each → Int32) (array : List Int32) : List Int32 :=
  rows.foldl (fun acc c => acc.mapIdx fun k v => if k + 1 = c.slot then member c else v) array

/-- `clipped`. -/
structure Clipped where
  nofit : List Bool
  z : List Int32
  floorz : List Int32
  ceilingz : List Int32
  unresolved : Bool
  deriving DecidableEq, Repr

/-- `change_sector` of the sectors by the boxes around their lines. -/
def changeSector (bboxes : List (Box Int32)) : Clipped :=
  let nears := bboxes.map (near level.map things)
  let all := nears.flatten
  let slots := all.eraseDups
  let rows := slots.map (each level depth things)
  let stuck := (rows.filter Each.stuck).map Each.slot
  { nofit := nears.map fun near => near.any fun k => stuck.contains k && shootable things k
    z := put rows Each.z (things.map Mobj.z)
    floorz := put rows Each.floorz (things.map Mobj.floorz)
    ceilingz := put rows Each.ceilingz (things.map Mobj.ceilingz)
    unresolved := all.length ≠ slots.length || stuck.any fun k => !shootable things k }

end

/-! ## What a clip leaves alone -/

/-- A thing without the three heights a clip writes. -/
def flat (thing : Mobj) : Mobj := { thing with z := 0, floorz := 0, ceilingz := 0 }

theorem mobjAt_flat (things : List Mobj) (slot : Nat) :
    Engine.mobjAt (things.map flat) slot = flat (Engine.mobjAt things slot) := by
  rw [Engine.mobjAt, Engine.mobjAt, List.getD_eq_getElem?_getD, List.getD_eq_getElem?_getD,
    List.getElem?_map]
  cases things[slot]? with
  | none => rfl
  | some thing => rfl

theorem thing_flat (things : List Mobj) :
    (things.map flat).map Mobj.thing = things.map Mobj.thing := by
  rw [List.map_map]
  rfl

section
variable {level : MoveLevel} {things after : List Mobj} (same : after.map flat = things.map flat)
include same

theorem map_thing_eq : after.map Mobj.thing = things.map Mobj.thing := by
  rw [← thing_flat, same, thing_flat]

theorem touches_like (mover : Mobj) (self : Nat) (x y : Int32) (other : Nat) :
    Engine.touches after mover self x y other = Engine.touches things mover self x y other := by
  have like : flat (Engine.mobjAt after other) = flat (Engine.mobjAt things other) := by
    rw [← mobjAt_flat, same, mobjAt_flat]
  have flattened : ∀ list : List Mobj, Engine.touches list mover self x y other =
      (let thing := flat (Engine.mobjAt list other)
      let blockdist := thing.radius + mover.radius
      thing.has (Engine.mfSolid ||| Engine.mfSpecial ||| Engine.mfShootable) &&
        !((thing.x - x).abs ≥ blockdist || (thing.y - y).abs ≥ blockdist) && other != self) :=
    fun list => rfl
  rw [flattened, flattened, like]

theorem solid_like (other : Nat) : Moves.solid after other = Moves.solid things other := by
  have like : flat (Engine.mobjAt after other) = flat (Engine.mobjAt things other) := by
    rw [← mobjAt_flat, same, mobjAt_flat]
  have flattened : ∀ list : List Mobj,
      Moves.solid list other = (flat (Engine.mobjAt list other)).has Engine.mfSolid :=
    fun list => rfl
  rw [flattened, flattened, like]

theorem slotsUnder_like (mover : Mobj) (x y : Int32) :
    Moves.slotsUnder level after mover x y = Moves.slotsUnder level things mover x y := by
  rw [Moves.slotsUnder, map_thing_eq same, Moves.slotsUnder]

end

/-! ## A thing that is clipped as the engine clips it -/

/-- The lowest ceiling less the highest floor where a thing stands, of its own sector and those
beside the lines it passes. -/
def gapAt (level : MoveLevel) (depth : Nat) (mobj : Mobj) : Int :=
  let base := level.sectorOf (Bsp.pointInSubsector level.nodes mobj.x mobj.y depth)
  Moves.lowestCeiling base (Moves.sectorsBeside level mobj mobj.x mobj.y) -
    Moves.highestFloor base (Moves.sectorsBeside level mobj mobj.x mobj.y)

/-- Nothing stops the check of a thing at its own place before the lines, and the lines leave
the heights the query finds: the thing is not NOCLIP, touches nothing solid, as a charging skull
or a missile nothing at all, and as the player passes no line that blocks monsters.  The other
fields keep the differences in 32 bits, the box and `crushchange` as they are, and out of the way a
dropped thing that does not fit. -/
structure Clear (level : MoveLevel) (depth : Nat) (things : List Mobj) (magic : Int32) (slot : Nat)
    (mobj : Mobj) : Prop where
  noclip : mobj.has Engine.mfNoclip = false
  ordinary : ∀ other ∈ Moves.touchedSlots level things mobj slot mobj.x mobj.y,
    mobj.has Engine.mfSkullfly = false ∧ mobj.has Engine.mfMissile = false ∧
      Moves.solid things other = false
  player : mobj.player = true → ∀ number ∈ Moves.openLines level mobj mobj.x mobj.y,
    (level.line number).flags &&& Engine.mlBlockmonsters = 0
  box : Moves.BoxFits mobj mobj.x mobj.y
  lines : Moves.Measured level.map (Moves.widen (Engine.tmBbox mobj mobj.x mobj.y)) 0
  same : Moves.kept level mobj magic (Engine.tmBbox mobj mobj.x mobj.y) []
    (Moves.linesUnder level mobj mobj.x mobj.y) = true
  few : ((Moves.openLines level mobj mobj.x mobj.y).filter (Moves.isSpecial level)).length ≤ 12
  gap : Fits32 (gapAt level depth mobj)
  head : mobj.z ≠ mobj.floorz → Fits32 (mobj.z.toInt + mobj.height.toInt)
  dropped : gapAt level depth mobj < mobj.height.toInt → mobj.has Engine.mfShootable = true →
    mobj.has Engine.mfDropped = false

variable {level : MoveLevel} {depth : Nat} {things after : List Mobj} {magic : Int32} {slot : Nat}

theorem checkThings_clear (same : after.map flat = things.map flat)
    (clear : Clear level depth things magic slot (Engine.mobjAt things slot)) :
    (Engine.checkThings level after (Engine.mobjAt things slot) slot
      (Engine.mobjAt things slot).x (Engine.mobjAt things slot).y).2 = true := by
  rw [Engine.checkThings, Halting.walk_walk, Moves.flatMap_blockList]
  apply Halting.walk_true
  intro other member touched
  have under : other ∈ Moves.slotsUnder level things (Engine.mobjAt things slot)
      (Engine.mobjAt things slot).x (Engine.mobjAt things slot).y := by
    rw [← slotsUnder_like same]
    exact member
  cases touches : Engine.touches after (Engine.mobjAt things slot) slot
      (Engine.mobjAt things slot).x (Engine.mobjAt things slot).y other with
  | false =>
    rw [Engine.checkThing, touches]
    rfl
  | true =>
    rw [touches_like same] at touches
    obtain ⟨flies, missile, passed⟩ := clear.ordinary other (List.mem_filter.2 ⟨under, touches⟩)
    rw [← touches_like same] at touches
    rw [Moves.checkThing_touched flies missile touches, solid_like same, passed]
    rfl

/-- A thing as the query asks about it. -/
def asMonster (mobj : Mobj) : Mobj := { mobj with player := false }

theorem asking_eq (things : List Mobj) (slot : Nat) :
    asking things (slot + 1) = Moves.askOf (asMonster (Engine.mobjAt things slot)) slot
      (Engine.mobjAt things slot).x (Engine.mobjAt things slot).y := rfl

/-- A list cut where a stricter test fails, when all that is kept passes it. -/
theorem takeWhile_stricter {α : Type} {p q : α → Bool} {list : List α}
    (weaker : ∀ a, q a = true → p a = true) (kept : ∀ a ∈ list.takeWhile p, q a = true) :
    list.takeWhile q = list.takeWhile p := by
  induction list with
  | nil => rfl
  | cons a rest ih =>
    cases here : p a with
    | true =>
      rw [List.takeWhile_cons_of_pos here] at kept ⊢
      rw [List.takeWhile_cons_of_pos (kept a List.mem_cons_self),
        ih fun b member => kept b (List.mem_cons_of_mem _ member)]
    | false =>
      have strict : q a = false := by
        cases there : q a with
        | true => rw [weaker a there] at here; exact absurd here (by simp)
        | false => rfl
      rw [List.takeWhile_cons_of_neg (by simp [strict]), List.takeWhile_cons_of_neg (by simp [here])]

/-- Lines that block monsters are all that stops a monster more than the player. -/
theorem lineBlocks_asMonster (mobj : Mobj) (ld : Engine.MoveLine) :
    Engine.lineBlocks (asMonster mobj) ld = (Engine.lineBlocks mobj ld ||
      (!mobj.has Engine.mfMissile && ld.flags &&& Engine.mlBlockmonsters != 0)) := by
  have flags : (asMonster mobj).has Engine.mfMissile = mobj.has Engine.mfMissile := rfl
  have role : (asMonster mobj).player = false := rfl
  rw [Engine.lineBlocks, Engine.lineBlocks, flags, role]
  generalize ld.back.isNone = a
  generalize mobj.has Engine.mfMissile = b
  generalize (ld.flags &&& Engine.mlBlocking != 0) = c
  generalize (ld.flags &&& Engine.mlBlockmonsters != 0) = d
  generalize mobj.player = e
  revert a b c d e
  decide

theorem openLines_asMonster {mobj : Mobj}
    (player : mobj.player = true → ∀ number ∈ Moves.openLines level mobj mobj.x mobj.y,
      (level.line number).flags &&& Engine.mlBlockmonsters = 0) :
    Moves.openLines level (asMonster mobj) mobj.x mobj.y =
      Moves.openLines level mobj mobj.x mobj.y := by
  cases role : mobj.player with
  | false =>
    have same : asMonster mobj = mobj := by
      rw [asMonster, ← role]
    rw [same]
  | true =>
    refine takeWhile_stricter ?_ ?_
    · intro number passed
      rw [lineBlocks_asMonster, Bool.not_or, Bool.and_eq_true] at passed
      exact passed.1
    · intro number member
      have passed := List.mem_takeWhile_imp member
      rw [lineBlocks_asMonster, player role number member, Bool.not_or, passed]
      simp

/-- The lines the query passes are those the engine does. -/
theorem tmLineOpen_clear (clear : Clear level depth things magic slot (Engine.mobjAt things slot)) :
    Moves.tmLineOpen level (asking things (slot + 1)) =
      Moves.openLines level (Engine.mobjAt things slot) (Engine.mobjAt things slot).x
        (Engine.mobjAt things slot).y := by
  have box : Moves.BoxFits (asMonster (Engine.mobjAt things slot)) (Engine.mobjAt things slot).x
      (Engine.mobjAt things slot).y :=
    ⟨clear.box.top, clear.box.bottom, clear.box.left, clear.box.right⟩
  rw [asking_eq, Moves.tmLineOpen_eq slot box clear.lines, openLines_asMonster clear.player]

/-- The engine's check at a thing's own place leaves the heights the query finds. -/
theorem checkPosition_clear {deep fuel : Nat} (tree : level.nodes.Tree deep)
    (le : deep ≤ depth) (enough : deep ≤ fuel) (same : after.map flat = things.map flat)
    (clear : Clear level depth things magic slot (Engine.mobjAt things slot)) :
    ∃ position, Engine.checkPosition level after (Engine.mobjAt things slot) slot magic
        (Engine.mobjAt things slot).x (Engine.mobjAt things slot).y fuel = some position ∧
      position.tm.floorz = tmFloorz level depth (asking things (slot + 1)) ∧
      position.tm.ceilingz = tmCeilingz level depth (asking things (slot + 1)) ∧
      position.tm.spechit.length ≤ 12 := by
  have descent : Engine.pointInSubsector level.nodes (Engine.mobjAt things slot).x
      (Engine.mobjAt things slot).y fuel =
        some (Moves.tmSubsector level depth (asking things (slot + 1))) :=
    (Bsp.pointInSubsector_eq_engine tree _ _ le).1 fuel enough
  obtain ⟨floorz, ceilingz, -, -, spechit⟩ :=
    Moves.openLines_pass magic depth (tmLineOpen_clear clear) rfl
  have few := clear.few
  rw [← tmLineOpen_clear clear] at few
  rw [Engine.checkPosition, descent, Option.bind_some,
    Moves.checkPositionAt_clear clear.noclip (checkThings_clear same clear) clear.same
      (clear.few.trans (by decide))]
  exact ⟨_, rfl, floorz, ceilingz, by rw [spechit]; exact few⟩

/-- A thing with the heights the query finds. -/
def clippedOf (level : MoveLevel) (depth : Nat) (things : List Mobj) (slot : Nat) : Mobj :=
  Engine.heightClip (Engine.mobjAt things slot) (tmFloorz level depth (asking things (slot + 1)))
    (tmCeilingz level depth (asking things (slot + 1)))

theorem flat_clippedOf (level : MoveLevel) (depth : Nat) (things : List Mobj) (slot : Nat) :
    flat (clippedOf level depth things slot) = flat (Engine.mobjAt things slot) := rfl

/-- The row of a thing is the thing clipped. -/
theorem each_z (clear : Clear level depth things magic slot (Engine.mobjAt things slot)) :
    (each level depth things (slot + 1)).z = (clippedOf level depth things slot).z := by
  have head := clear.head
  dsimp only [each, clippedOf, Engine.heightClip]
  rw [Nat.add_sub_cancel, SignedWords.ofInt_sub]
  by_cases standing : (Engine.mobjAt things slot).z = (Engine.mobjAt things slot).floorz
  · rw [if_pos (congrArg Int32.toInt standing), if_pos standing]
  · rw [if_neg (fun h => standing (Int32.toInt_inj.1 h)), if_neg standing]
    simp only [gt_iff_lt, Int32.lt_iff_toInt_lt, SignedWords.toInt_add (head standing)]

theorem gapAt_eq (clear : Clear level depth things magic slot (Engine.mobjAt things slot)) :
    (tmCeilingz level depth (asking things (slot + 1))).toInt -
      (tmFloorz level depth (asking things (slot + 1))).toInt =
        gapAt level depth (Engine.mobjAt things slot) := by
  obtain ⟨floor, ceiling, -⟩ := Moves.heights_read depth (tmLineOpen_clear clear)
  rw [floor, ceiling]
  rfl

theorem each_stuck (clear : Clear level depth things magic slot (Engine.mobjAt things slot)) :
    (each level depth things (slot + 1)).stuck = true ↔
      (clippedOf level depth things slot).ceilingz - (clippedOf level depth things slot).floorz <
        (clippedOf level depth things slot).height := by
  have gap := clear.gap
  rw [← gapAt_eq clear] at gap
  dsimp only [each, clippedOf, Engine.heightClip]
  rw [Nat.add_sub_cancel, decide_eq_true_iff, Moves.sub_lt_iff gap]
  omega

/-- A thing that does not fit has too small a gap. -/
theorem gapAt_lt (clear : Clear level depth things magic slot (Engine.mobjAt things slot))
    (stuck : (each level depth things (slot + 1)).stuck = true) :
    gapAt level depth (Engine.mobjAt things slot) < (Engine.mobjAt things slot).height.toInt := by
  rw [← gapAt_eq clear]
  exact of_decide_eq_true stuck

/-- One call of `PIT_ChangeSector`, for a thing no call before has clipped. -/
theorem changeThing_eq {deep fuel : Nat} (tree : level.nodes.Tree deep)
    (le : deep ≤ depth) (enough : deep ≤ fuel) (same : after.map flat = things.map flat)
    (clear : Clear level depth things magic slot (Engine.mobjAt things slot))
    (fresh : Engine.mobjAt after slot = Engine.mobjAt things slot)
    (resolved : (each level depth things (slot + 1)).stuck = true →
      shootable things (slot + 1) = true) (nofit : Bool) :
    Engine.changeThing level magic fuel (after, nofit) slot =
      some (after.set slot (clippedOf level depth things slot),
        nofit || (each level depth things (slot + 1)).stuck) := by
  obtain ⟨position, checked, floorz, ceilingz, few⟩ := checkPosition_clear tree le enough same clear
  rw [Engine.changeThing]
  dsimp only
  rw [fresh, checked, Option.bind_some, floorz, ceilingz, if_neg (Nat.not_lt.2 few)]
  change (if (clippedOf level depth things slot).ceilingz -
    (clippedOf level depth things slot).floorz < (clippedOf level depth things slot).height then
      some (after.set slot (Engine.crush (clippedOf level depth things slot)).1,
        nofit || (Engine.crush (clippedOf level depth things slot)).2)
    else some (after.set slot (clippedOf level depth things slot), nofit)) = _
  cases stuck : (each level depth things (slot + 1)).stuck with
  | false =>
    rw [if_neg (fun h => absurd ((each_stuck clear).2 h) (by rw [stuck]; simp)), Bool.or_false]
  | true =>
    have crushed : Engine.crush (clippedOf level depth things slot) =
        (clippedOf level depth things slot, true) := by
      have counts := resolved stuck
      simp only [shootable, Nat.add_sub_cancel, Bool.and_eq_true, decide_eq_true_eq] at counts
      obtain ⟨⟨flag, health⟩, -⟩ := counts
      have shoot : (Engine.mobjAt things slot).has Engine.mfShootable = true := by
        simpa [Mobj.has, Engine.mfShootable] using flag
      have lives : ¬(clippedOf level depth things slot).health ≤ 0 := by
        rw [Int32.not_le, Int32.lt_iff_toInt_lt]
        exact health
      have kept : (clippedOf level depth things slot).has Engine.mfDropped = false :=
        clear.dropped (gapAt_lt clear stuck) shoot
      have counted : (clippedOf level depth things slot).has Engine.mfShootable = true := shoot
      rw [Engine.crush, if_neg lives, kept, if_neg Bool.false_ne_true, counted]
    rw [if_pos ((each_stuck clear).1 stuck), crushed]

/-! ## The whole walk -/

/-- The things with some slots clipped. -/
def clipAll (level : MoveLevel) (depth : Nat) (things : List Mobj) (slots : List Nat)
    (after : List Mobj) : List Mobj :=
  slots.foldl (fun acc slot => acc.set slot (clippedOf level depth things slot)) after

theorem map_flat_set (same : after.map flat = things.map flat) :
    (after.set slot (clippedOf level depth things slot)).map flat = things.map flat := by
  rw [List.map_set, flat_clippedOf, ← mobjAt_flat, same]
  apply List.ext_getElem?
  intro i
  rw [List.getElem?_set]
  split
  · rename_i here
    subst here
    split
    · rename_i inside
      rw [Engine.mobjAt, List.getD_eq_getElem?_getD, List.getElem?_eq_getElem inside]
      rfl
    · rename_i outside
      rw [List.getElem?_eq_none (Nat.le_of_not_lt outside)]
  · rfl

theorem mobjAt_set_ne {other : Nat} (ne : slot ≠ other) (mobj : Mobj) :
    Engine.mobjAt (after.set slot mobj) other = Engine.mobjAt after other := by
  rw [Engine.mobjAt, Engine.mobjAt, List.getD_eq_getElem?_getD, List.getD_eq_getElem?_getD,
    List.getElem?_set_ne ne]

/-- What the walk needs of the slots still ahead of it. -/
structure Ahead (level : MoveLevel) (depth : Nat) (things : List Mobj) (magic : Int32)
    (slots : List Nat) : Prop where
  once : slots.Nodup
  clear : ∀ slot ∈ slots, Clear level depth things magic slot (Engine.mobjAt things slot)
  resolved : ∀ slot ∈ slots, (each level depth things (slot + 1)).stuck = true →
    shootable things (slot + 1) = true

theorem foldlM_changeThing {deep fuel : Nat} (tree : level.nodes.Tree deep)
    (le : deep ≤ depth) (enough : deep ≤ fuel) {slots : List Nat}
    (ahead : Ahead level depth things magic slots) (same : after.map flat = things.map flat)
    (fresh : ∀ slot ∈ slots, Engine.mobjAt after slot = Engine.mobjAt things slot)
    (nofit : Bool) :
    slots.foldlM (Engine.changeThing level magic fuel) (after, nofit) =
        some (clipAll level depth things slots after,
          nofit || slots.any fun slot => (each level depth things (slot + 1)).stuck) ∧
      (clipAll level depth things slots after).map flat = things.map flat ∧
      ∀ slot ∉ slots, Engine.mobjAt (clipAll level depth things slots after) slot =
        Engine.mobjAt after slot := by
  induction slots generalizing after nofit with
  | nil => simp [clipAll, same]
  | cons slot rest ih =>
    obtain ⟨apart, once⟩ := List.nodup_cons.1 ahead.once
    have later : Ahead level depth things magic rest :=
      ⟨once, fun other member => ahead.clear other (List.mem_cons_of_mem _ member),
        fun other member => ahead.resolved other (List.mem_cons_of_mem _ member)⟩
    have called := changeThing_eq tree le enough same
      (ahead.clear slot List.mem_cons_self) (fresh slot List.mem_cons_self)
      (ahead.resolved slot List.mem_cons_self) nofit
    have still : ∀ other ∈ rest, Engine.mobjAt (after.set slot
        (clippedOf level depth things slot)) other = Engine.mobjAt things other := by
      intro other member
      have ne : slot ≠ other := by
        rintro rfl
        exact apart member
      rw [mobjAt_set_ne ne, fresh other (List.mem_cons_of_mem _ member)]
    obtain ⟨walked, flattened, others⟩ := ih later (map_flat_set same) still
      (nofit || (each level depth things (slot + 1)).stuck)
    refine ⟨?_, flattened, ?_⟩
    · rw [List.foldlM_cons, called]
      refine walked.trans ?_
      rw [List.any_cons, Bool.or_assoc]
      rfl
    · intro other outside
      rw [List.mem_cons, not_or] at outside
      exact (others other outside.2).trans (mobjAt_set_ne (Ne.symm outside.1) _)

/-- The slots of the blocks of a sector, in the order the engine visits them. -/
def visited (level : MoveLevel) (things : List Mobj) (blocks : List (Int × Int)) : List Nat :=
  (Engine.onMap level.map blocks).flatMap
    (Engine.blocklinks level.map (things.map Mobj.thing))

theorem visited_cons (block : Int × Int) (rest : List (Int × Int)) :
    visited level things (block :: rest) =
      Engine.blockList level.map (Engine.blocklinks level.map (things.map Mobj.thing)) block ++
        visited level things rest := by
  rw [visited, visited, ← Moves.flatMap_blockList, ← Moves.flatMap_blockList, List.flatMap_cons]

theorem Ahead.of_append {front back : List Nat}
    (ahead : Ahead level depth things magic (front ++ back)) :
    Ahead level depth things magic front ∧ Ahead level depth things magic back :=
  ⟨⟨ahead.once.of_append_left, fun slot member => ahead.clear slot (List.mem_append_left _ member),
      fun slot member => ahead.resolved slot (List.mem_append_left _ member)⟩,
    ⟨ahead.once.of_append_right,
      fun slot member => ahead.clear slot (List.mem_append_right _ member),
      fun slot member => ahead.resolved slot (List.mem_append_right _ member)⟩⟩

theorem foldlM_changeBlock {deep fuel : Nat} (tree : level.nodes.Tree deep)
    (le : deep ≤ depth) (enough : deep ≤ fuel) {blocks : List (Int × Int)}
    (ahead : Ahead level depth things magic (visited level things blocks))
    (same : after.map flat = things.map flat)
    (fresh : ∀ slot ∈ visited level things blocks,
      Engine.mobjAt after slot = Engine.mobjAt things slot) (nofit : Bool) :
    blocks.foldlM (Engine.changeBlock level magic fuel) (after, nofit) =
      some (clipAll level depth things (visited level things blocks) after,
        nofit || (visited level things blocks).any fun slot =>
          (each level depth things (slot + 1)).stuck) := by
  induction blocks generalizing after nofit with
  | nil => simp [visited, Engine.onMap, clipAll]
  | cons block rest ih =>
    rw [visited_cons] at ahead fresh ⊢
    obtain ⟨here, later⟩ := ahead.of_append
    obtain ⟨walked, flattened, others⟩ := foldlM_changeThing tree le enough here same
      (fun slot member => fresh slot (List.mem_append_left _ member)) nofit
    rw [List.foldlM_cons, Engine.changeBlock, map_thing_eq same, walked]
    refine (ih later flattened ?_ _).trans ?_
    · intro slot member
      have outside := fun front => List.disjoint_of_nodup_append ahead.once front member
      rw [others slot outside]
      exact fresh slot (List.mem_append_right _ member)
    · rw [clipAll, clipAll, clipAll, List.foldl_append, List.any_append, Bool.or_assoc]

/-! ## Who is visited -/

theorem mem_onMap {map : Blockmap} {xl xh yl yh : Int} {number : Nat} :
    number ∈ Engine.onMap map (Engine.blocksOver xl xh yl yh) ↔
      ∃ block : Engine.Block, block.x < map.width ∧ block.y < map.height ∧
        xl ≤ block.x ∧ block.x ≤ xh ∧ yl ≤ block.y ∧ block.y ≤ yh ∧
        number = map.number block := by
  rw [Moves.onMap_blocksOver]
  simp only [List.mem_flatMap, List.mem_map, Moves.mem_range]
  constructor
  · rintro ⟨bx, column, by_, row, rfl⟩
    obtain ⟨bx, rfl⟩ := Int.eq_ofNat_of_zero_le (show 0 ≤ bx by omega)
    obtain ⟨by_, rfl⟩ := Int.eq_ofNat_of_zero_le (show 0 ≤ by_ by omega)
    refine ⟨⟨bx, by_⟩, ?_, ?_, ?_, ?_, ?_, ?_, ?_⟩
    · dsimp only; omega
    · dsimp only; omega
    · dsimp only; omega
    · dsimp only; omega
    · dsimp only; omega
    · dsimp only; omega
    · rw [Blockmap.number]
      norm_cast
  · rintro ⟨⟨bx, by_⟩, width, height, left, right, bottom, top, rfl⟩
    dsimp only at width height left right bottom top
    refine ⟨bx, by omega, by_, by omega, ?_⟩
    rw [Blockmap.number]
    norm_cast

theorem nodup_blocklinks (map : Blockmap) (list : List Engine.Thing) (number : Nat) :
    (Engine.blocklinks map list number).Nodup := by
  have slots : (Engine.linkOrder list).Pairwise fun a b => a.1 ≠ b.1 := by
    have perm := List.perm_insertionSort (fun a b : Nat × Engine.Thing => a.2.linkseq ≤ b.2.linkseq)
      ((list.zipIdx.map Prod.swap).filter fun entry => entry.2.alive)
    refine perm.symm.pairwise (List.Pairwise.filter _ ?_) fun h => h.symm
    have indices : (list.zipIdx.map Prod.swap).map Prod.fst = List.range' 0 list.length := by
      rw [List.map_map]
      exact List.zipIdx_map_snd 0 list
    rw [← List.pairwise_map (f := Prod.fst) (R := (· ≠ ·)), indices]
    exact List.nodup_range'
  rw [Engine.blocklinks, Engine.foldl_setThingPosition, List.append_nil]
  rw [List.Nodup, List.pairwise_map, List.pairwise_reverse]
  exact (slots.filter _).imp fun h => h.symm

theorem mem_visited {xl xh yl yh : Int} :
    slot ∈ visited level things (Engine.blocksOver xl xh yl yh) ↔
      ∃ mobj block, things[slot]? = some mobj ∧ mobj.alive = true ∧
        mobj.has Engine.mfNoblockmap = false ∧ level.map.blockOf mobj.thing = some block ∧
        xl ≤ block.x ∧ block.x ≤ xh ∧ yl ≤ block.y ∧ block.y ≤ yh := by
  rw [visited, List.mem_flatMap]
  simp only [Engine.mem_blocklinks, mem_onMap, List.getElem?_map]
  constructor
  · rintro ⟨number, ⟨block, width, -, left, right, bottom, top, rfl⟩, thing, found, alive, linked,
      block', at_, same⟩
    obtain ⟨mobj, there, rfl⟩ := Option.map_eq_some_iff.1 found
    obtain ⟨-, -, width', -⟩ := Engine.blockOf_eq_some.1 at_
    have blocks := Blocks.block_eq_of_number width width' (by exact_mod_cast same)
    subst blocks
    exact ⟨mobj, block, there, alive, linked, at_, left, right, bottom, top⟩
  · rintro ⟨mobj, block, there, alive, linked, at_, left, right, bottom, top⟩
    obtain ⟨-, -, width, height⟩ := Engine.blockOf_eq_some.1 at_
    refine ⟨level.map.number block, ⟨block, width, height, left, right, bottom, top, rfl⟩,
      mobj.thing, ?_, alive, linked, block, at_, rfl⟩
    rw [there]
    rfl

theorem nodup_visited (xl xh yl yh : Int) :
    (visited level things (Engine.blocksOver xl xh yl yh)).Nodup := by
  rw [visited, List.nodup_flatMap]
  refine ⟨fun number _ => nodup_blocklinks _ _ _, (Moves.nodup_onMap ..).imp ?_⟩
  intro number number' ne slot here there
  rw [Engine.mem_blocklinks] at here there
  obtain ⟨thing, found, -, -, block, at_, rfl⟩ := here
  obtain ⟨thing', found', -, -, block', at', rfl⟩ := there
  rw [found, Option.some.injEq] at found'
  subst found'
  rw [at_, Option.some.injEq] at at'
  exact ne (congrArg _ at')

/-- The slots the engine visits for a sector. -/
def sectorSlots (level : MoveLevel) (things : List Mobj) (bbox : Box Int32) : List Nat :=
  let box := Engine.blockbox level.map bbox
  visited level things (Engine.blocksOver box.left box.right box.bottom box.top)

/-- The condition under which the clip is the engine's: the box's distances from the blockmap's
origin stay in 32 bits, so do those of the things in the sector's blocks, and every thing whose
place lies there is linked and is clipped as the engine clips it. -/
structure Clips (level : MoveLevel) (depth : Nat) (things : List Mobj) (magic : Int32)
    (bbox : Box Int32) : Prop where
  measured : Moves.Measured level.map (Moves.widen bbox) 2097152
  fits : ∀ slot, slot ∈ sectorSlots level things bbox ∨ slot + 1 ∈ near level.map things bbox →
    Blocks.Fits level.map (Engine.mobjAt things slot).thing
  linked : ∀ k ∈ near level.map things bbox,
    (Engine.mobjAt things (k - 1)).has Engine.mfNoblockmap = false
  clear : ∀ k ∈ near level.map things bbox,
    Clear level depth things magic (k - 1) (Engine.mobjAt things (k - 1))

variable {bbox : Box Int32}

theorem mem_near {map : Blockmap} : slot + 1 ∈ near map things bbox ↔
    ∃ mobj, things[slot]? = some mobj ∧
      max ((bbox.left.toInt - map.orgx.toInt - 2097152) >>> (23 : Nat)) 0 ≤
        (mobj.x.toInt - map.orgx.toInt) >>> (23 : Nat) ∧
      (mobj.x.toInt - map.orgx.toInt) >>> (23 : Nat) ≤
        min ((bbox.right.toInt - map.orgx.toInt + 2097152) >>> (23 : Nat)) (map.width - 1) ∧
      max ((bbox.bottom.toInt - map.orgy.toInt - 2097152) >>> (23 : Nat)) 0 ≤
        (mobj.y.toInt - map.orgy.toInt) >>> (23 : Nat) ∧
      (mobj.y.toInt - map.orgy.toInt) >>> (23 : Nat) ≤
        min ((bbox.top.toInt - map.orgy.toInt + 2097152) >>> (23 : Nat)) (map.height - 1) := by
  have place : (∃ a < things.length, a + 1 = slot + 1) ↔ slot < things.length := by
    constructor
    · rintro ⟨a, inside, same⟩
      omega
    · exact fun inside => ⟨slot, inside, rfl⟩
  simp only [near, List.mem_filter, List.mem_map, List.mem_range, Bool.and_eq_true,
    decide_eq_true_eq, ge_iff_le, Nat.add_sub_cancel, place]
  constructor
  · rintro ⟨inside, ⟨⟨left, right⟩, bottom⟩, top⟩
    refine ⟨things[slot], List.getElem?_eq_getElem inside, ?_⟩
    rw [Engine.mobjAt, List.getD_eq_getElem _ _ inside] at left right bottom top
    exact ⟨left, right, bottom, top⟩
  · rintro ⟨mobj, found, left, right, bottom, top⟩
    obtain ⟨inside, same⟩ := List.getElem?_eq_some_iff.1 found
    have there : Engine.mobjAt things slot = mobj := by
      rw [Engine.mobjAt, List.getD_eq_getElem _ _ inside, same]
    rw [there]
    exact ⟨inside, ⟨⟨left, right⟩, bottom⟩, top⟩

theorem blockbox_eq {map : Blockmap}
    (measured : Moves.Measured map (Moves.widen bbox) 2097152) :
    Engine.blockbox map bbox =
      ⟨min ((bbox.top.toInt - map.orgy.toInt + 2097152) >>> (23 : Nat)) (map.height - 1),
        max ((bbox.bottom.toInt - map.orgy.toInt - 2097152) >>> (23 : Nat)) 0,
        max ((bbox.left.toInt - map.orgx.toInt - 2097152) >>> (23 : Nat)) 0,
        min ((bbox.right.toInt - map.orgx.toInt + 2097152) >>> (23 : Nat)) (map.width - 1)⟩ := by
  have margin : Engine.maxRadius.toInt = 2097152 := by decide
  have low : ∀ {side origin : Int32}, Fits32 (side.toInt - origin.toInt - 2097152) →
      ((side - origin - Engine.maxRadius) >>> 23).toInt =
        (side.toInt - origin.toInt - 2097152) >>> (23 : Nat) := by
    intro side origin fits
    rw [← margin] at fits ⊢
    exact Moves.low_block fits
  have high : ∀ {side origin : Int32}, Fits32 (side.toInt - origin.toInt + 2097152) →
      ((side - origin + Engine.maxRadius) >>> 23).toInt =
        (side.toInt - origin.toInt + 2097152) >>> (23 : Nat) := by
    intro side origin fits
    rw [← margin] at fits ⊢
    exact Moves.high_block fits
  have above : ∀ a : Int, (if a < 0 then 0 else a) = max a 0 := by
    intro a
    split <;> omega
  have below : ∀ (a : Int) (size : Nat), (if a ≥ size then (size : Int) - 1 else a) =
      min a (size - 1) := by
    intro a size
    split <;> omega
  rw [Engine.blockbox, low measured.left, high measured.right, low measured.bottom,
    high measured.top]
  simp only [above, below]

/-- The slots whose block lies in the box are the slots the engine visits. -/
theorem mem_sectorSlots (alive : ∀ mobj ∈ things, mobj.alive = true)
    (clips : Clips level depth things magic bbox) :
    slot ∈ sectorSlots level things bbox ↔ slot + 1 ∈ near level.map things bbox := by
  have blocks : ∀ mobj, things[slot]? = some mobj →
      slot ∈ sectorSlots level things bbox ∨ slot + 1 ∈ near level.map things bbox →
      Engine.mobjAt things slot = mobj ∧ Engine.blockAt mobj.x level.map.orgx =
          (mobj.x.toInt - level.map.orgx.toInt) >>> (23 : Nat) ∧
        Engine.blockAt mobj.y level.map.orgy =
          (mobj.y.toInt - level.map.orgy.toInt) >>> (23 : Nat) := by
    intro mobj found either
    have there : Engine.mobjAt things slot = mobj := by
      rw [Engine.mobjAt, List.getD_eq_getElem?_getD, found]
      rfl
    have fits := clips.fits slot either
    rw [there] at fits
    exact ⟨there, Blocks.blockAt_eq fits.1, Blocks.blockAt_eq fits.2⟩
  constructor
  · intro member
    have either := member
    rw [sectorSlots, blockbox_eq clips.measured, mem_visited] at member
    obtain ⟨mobj, block, found, -, -, at_, left, right, bottom, top⟩ := member
    obtain ⟨column, row, -, -⟩ := Engine.blockOf_eq_some.1 at_
    obtain ⟨-, hx, hy⟩ := blocks mobj found (.inl either)
    rw [show mobj.thing.x = mobj.x from rfl, hx] at column
    rw [show mobj.thing.y = mobj.y from rfl, hy] at row
    rw [mem_near]
    rw [← column] at left right
    rw [← row] at bottom top
    exact ⟨mobj, found, left, right, bottom, top⟩
  · intro member
    have linked := clips.linked (slot + 1) member
    have either := member
    rw [mem_near] at member
    obtain ⟨mobj, found, left, right, bottom, top⟩ := member
    obtain ⟨there, hx, hy⟩ := blocks mobj found (.inr either)
    rw [Nat.add_sub_cancel, there] at linked
    obtain ⟨bx, column⟩ := Int.eq_ofNat_of_zero_le ((le_max_right _ _).trans left)
    obtain ⟨by_, row⟩ := Int.eq_ofNat_of_zero_le ((le_max_right _ _).trans bottom)
    rw [column] at left right
    rw [row] at bottom top
    rw [sectorSlots, blockbox_eq clips.measured, mem_visited]
    refine ⟨mobj, ⟨bx, by_⟩, found, alive mobj (List.mem_of_getElem? found), linked, ?_, left,
      right, bottom, top⟩
    rw [Engine.blockOf_eq_some]
    refine ⟨hx.trans column, hy.trans row, ?_, ?_⟩
    · dsimp only
      omega
    · dsimp only
      omega

/-! ## The lists that are left -/

theorem getElem?_clipAll (slots : List Nat) (after : List Mobj) (i : Nat) :
    (clipAll level depth things slots after)[i]? =
      after[i]?.map fun mobj => if i ∈ slots then clippedOf level depth things i else mobj := by
  induction slots generalizing after with
  | nil => simp [clipAll]
  | cons slot rest ih =>
    rw [clipAll, List.foldl_cons]
    refine (ih _).trans ?_
    rw [List.getElem?_set]
    by_cases here : slot = i
    · subst here
      by_cases inside : slot < after.length
      · simp [inside]
      · simp [inside]
    · simp [here, Ne.symm here]

theorem getElem?_put (member : Each → Int32) (ks : List Nat) (array : List Int32) (i : Nat) :
    (put (ks.map (each level depth things)) member array)[i]? =
      array[i]?.map fun v =>
        if i + 1 ∈ ks then member (each level depth things (i + 1)) else v := by
  induction ks generalizing array with
  | nil => simp [put]
  | cons k rest ih =>
    rw [put, List.map_cons, List.foldl_cons]
    refine (ih _).trans ?_
    rw [List.getElem?_mapIdx, Option.map_map]
    congr 1
    funext v
    by_cases later : i + 1 ∈ rest
    · simp [later]
    · by_cases here : i + 1 = k
      · subst here
        simp [later, each]
      · simp [later, here, each]

theorem nodup_near (map : Blockmap) (things : List Mobj) (bbox : Box Int32) :
    (near map things bbox).Nodup :=
  (List.nodup_range.map fun _ _ same => Nat.succ.inj same).filter _

theorem eraseDups_of_nodup {list : List Nat} (once : list.Nodup) : list.eraseDups = list := by
  induction list with
  | nil => rfl
  | cons a rest ih =>
    obtain ⟨apart, once⟩ := List.nodup_cons.1 once
    rw [List.eraseDups_cons, List.filter_eq_self.2, ih once]
    intro b member
    have ne : b ≠ a := by
      rintro rfl
      exact apart member
    simpa using ne

/-- The clip of one sector, without the lists of lists. -/
theorem changeSector_one :
    changeSector level depth things [bbox] =
      { nofit := [(near level.map things bbox).any fun k =>
          (((((near level.map things bbox).map (each level depth things)).filter Each.stuck).map
            Each.slot).contains k && shootable things k)]
        z := put ((near level.map things bbox).map (each level depth things)) Each.z
          (things.map Mobj.z)
        floorz := put ((near level.map things bbox).map (each level depth things)) Each.floorz
          (things.map Mobj.floorz)
        ceilingz := put ((near level.map things bbox).map (each level depth things)) Each.ceilingz
          (things.map Mobj.ceilingz)
        unresolved := ((((near level.map things bbox).map (each level depth things)).filter
          Each.stuck).map Each.slot).any fun k => !shootable things k } := by
  have one : (List.map (near level.map things) [bbox]).flatten = near level.map things bbox := by
    simp
  rw [changeSector, one, eraseDups_of_nodup (nodup_near ..)]
  simp

theorem mem_stuck {k : Nat} {slots : List Nat} :
    k ∈ ((slots.map (each level depth things)).filter Each.stuck).map Each.slot ↔
      k ∈ slots ∧ (each level depth things k).stuck = true := by
  simp only [List.mem_map, List.mem_filter]
  constructor
  · rintro ⟨row, ⟨⟨k', member, rfl⟩, stuck⟩, rfl⟩
    exact ⟨member, stuck⟩
  · rintro ⟨member, stuck⟩
    exact ⟨each level depth things k, ⟨⟨k, member, rfl⟩, stuck⟩, rfl⟩

/-- One height of every thing, as the engine and as the query leave it. -/
theorem heights_left {slots ks : List Nat} {height : Mobj → Int32} {member : Each → Int32}
    (same : ∀ slot, slot ∈ slots ↔ slot + 1 ∈ ks)
    (clipped : ∀ slot ∈ slots, member (each level depth things (slot + 1)) =
      height (clippedOf level depth things slot)) :
    (clipAll level depth things slots things).map height =
      put (ks.map (each level depth things)) member (things.map height) := by
  apply List.ext_getElem?
  intro i
  rw [List.getElem?_map, getElem?_clipAll, getElem?_put, List.getElem?_map, Option.map_map,
    Option.map_map]
  congr 1
  funext mobj
  by_cases here : i ∈ slots
  · simp [here, (same i).1 here, clipped i here]
  · have there : i + 1 ∉ ks := fun h => here ((same i).2 h)
    simp [here, there]

theorem no_nodes_lt : ([] : List Engine.Node).length < 2 ^ 31 := by decide

/-- A lift and a ledge east of it, the line between them down the middle of the one block. -/
def liftLevel : MoveLevel :=
  ⟨⟨0, 0, 1, 1⟩,
    [⟨⟨4194304, 0, 0, 8388608⟩, .vertical, ⟨8388608, 0, 4194304, 4194304⟩, 4, 0, some 1, 0⟩],
    [[0]], ⟨[], no_nodes_lt⟩, [0], [⟨0, 8388608⟩, ⟨1048576, 8388608⟩]⟩

/-- A trooper on the line. -/
def trooper : Mobj :=
  ⟨4194304, 4194304, 524288, 524288, 8388608, 1310720, 3670016, 0x6, 20, .other 1, none, false, 0,
    true⟩

/-- A puff above, which is NOBLOCKMAP. -/
def puff : Mobj :=
  ⟨4194304, 4194304, 2097152, 524288, 8388608, 1310720, 1048576, 0x210, 1000, .other 38, none, false,
    1, true⟩

/-- The box around the lift's lines. -/
def liftBox : Box Int32 := ⟨8388608, 0, 0, 8388608⟩

theorem trooper_clear : Clear liftLevel 0 [trooper] 0 0 trooper := by
  constructor
  case noclip => decide
  case ordinary => decide +kernel
  case player => decide
  case box => constructor <;> decide
  case lines => constructor <;> decide
  case same => decide +kernel
  case few => decide +kernel
  case gap => decide +kernel
  case head => decide
  case dropped => decide +kernel

theorem trooper_clips : Clips liftLevel 0 [trooper] 0 liftBox where
  measured := by constructor <;> decide
  fits := by
    intro slot either
    have here : slot = 0 := by
      have visited : sectorSlots liftLevel [trooper] liftBox = [0] := by decide +kernel
      have alone : near liftLevel.map [trooper] liftBox = [1] := by decide +kernel
      rw [visited, alone] at either
      simpa using either
    rw [here]
    decide
  linked := by decide +kernel
  clear := by
    have alone : near liftLevel.map [trooper] liftBox = [1] := by decide +kernel
    rw [alone]
    intro k member
    rw [List.mem_singleton.1 member]
    exact trooper_clear

end ClickDoom.Native.Clip

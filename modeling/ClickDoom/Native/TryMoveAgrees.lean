import ClickDoom.Native.TryMove

/-! # The move check against the engine's

Where the 64-bit differences are the engine's 32-bit ones, the filters and slices of the query
keep what the engine's loops reach before the first thing or line that stops the mover.
-/
namespace ClickDoom.Native.Moves
open Engine (Box MoveLine MoveLevel Mobj Blockmap Divline Sector Tm Position truth fracUnit)
open SignedWords (Fits32 toInt_ofInt ofInt_sub toInt_add toInt_sub)

/-! ## The side tests -/

/-- A box of 32-bit sides as the query holds it. -/
def widen (box : Box Int32) : Box Int :=
  ⟨box.top.toInt, box.bottom.toInt, box.left.toInt, box.right.toInt⟩

theorem pointOnLineSide_eq (x y : Int32) (line : Divline) :
    pointOnLineSide x.toInt y.toInt line = Engine.pointOnLineSide x y line := by
  simp only [pointOnLineSide, ofInt_sub, Engine.pointOnLineSide, Fixed.truth_ge, Fixed.fixedMul_eq,
    ← Int32.le_iff_toInt_le]

theorem truth_le (p : Prop) [Decidable p] : truth p ≤ 1 := by
  unfold truth
  split <;> omega

theorem pointOnLineSide_le (x y : Int32) (line : Divline) :
    Engine.pointOnLineSide x y line ≤ 1 := by
  unfold Engine.pointOnLineSide
  dsimp only
  repeat' split
  all_goals first | exact truth_le _ | omega

/-- Two corners on one side, where the sides are as they are and where they are swapped. -/
theorem sides_eq {p1 p2 : Nat} (h1 : p1 ≤ 1) (h2 : p2 ≤ 1) :
    (if p1 + p2 = 0 then ((0 ^^^ 0 : Nat) : Int)
      else if p1 + p2 = 2 then ((1 ^^^ 0 : Nat) : Int) else -1) =
      if p1 = p2 then (p1 : Int) else -1 := by
  interval_cases p1 <;> interval_cases p2 <;> rfl

theorem swapped_eq {p1 p2 : Nat} (h1 : p1 ≤ 1) (h2 : p2 ≤ 1) :
    (if p1 + p2 = 0 then ((0 ^^^ 1 : Nat) : Int)
      else if p1 + p2 = 2 then ((1 ^^^ 1 : Nat) : Int) else -1) =
      if 1 - p1 = 1 - p2 then ((1 - p1 : Nat) : Int) else -1 := by
  interval_cases p1 <;> interval_cases p2 <;> rfl

theorem boxOnLineSide_eq (box : Box Int32) (ld : MoveLine) :
    boxOnLineSide (widen box) ld = Engine.boxOnLineSide box ld := by
  have yes : truth True = 1 := rfl
  have no : truth False = 0 := rfl
  unfold boxOnLineSide Engine.boxOnLineSide corners widen
  cases slope : ld.slopetype with
  | horizontal =>
    by_cases west : ld.divline.dx < 0
    · simp only [west, reduceCtorEq, and_true, false_and, or_false, if_true, yes, gt_iff_lt,
        ← Int32.lt_iff_toInt_lt, swapped_eq (truth_le _) (truth_le _)]
    · simp only [west, reduceCtorEq, and_false, false_and, or_false, if_true, if_false, no,
        gt_iff_lt, ← Int32.lt_iff_toInt_lt, sides_eq (truth_le _) (truth_le _)]
  | vertical =>
    by_cases south : ld.divline.dy < 0
    · simp only [south, reduceCtorEq, and_true, false_and, false_or, if_true, if_false, yes,
        ← Int32.lt_iff_toInt_lt, swapped_eq (truth_le _) (truth_le _)]
    · simp only [south, reduceCtorEq, and_false, false_and, or_false, if_true, if_false, no,
        ← Int32.lt_iff_toInt_lt, sides_eq (truth_le _) (truth_le _)]
  | positive =>
    simp only [reduceCtorEq, false_and, or_false, if_false, if_true, no, pointOnLineSide_eq,
      sides_eq (pointOnLineSide_le ..) (pointOnLineSide_le ..)]
  | negative =>
    simp only [reduceCtorEq, false_and, or_false, if_false, no, pointOnLineSide_eq,
      sides_eq (pointOnLineSide_le ..) (pointOnLineSide_le ..)]

/-! ## The blocks under a box -/

theorem mem_range {low high i : Int} : i ∈ range low high ↔ low ≤ i ∧ i < high := by
  simp only [range, List.mem_map, List.mem_range]
  constructor
  · rintro ⟨n, small, rfl⟩
    omega
  · rintro ⟨ge, lt⟩
    exact ⟨(i - low).toNat, by omega, by omega⟩

theorem pairwise_range (low high : Int) : (range low high).Pairwise (· < ·) := by
  rw [range, List.pairwise_map]
  exact List.pairwise_lt_range.imp fun less => by omega

theorem span_eq (low high : Int) : Engine.span low high = range low (high + 1) := rfl

/-- What the two bounds cut off is what the iterators return early for. -/
theorem filter_span (low high : Int) (size : Nat) :
    (Engine.span low high).filter (fun i : Int => 0 ≤ i ∧ i < size) =
      range (max low 0) (min high (size - 1) + 1) := by
  rw [span_eq]
  refine ((pairwise_range low (high + 1)).filter _).eq_of_mem_iff (pairwise_range ..) ?_
  intro i
  simp only [List.mem_filter, mem_range, decide_eq_true_eq]
  omega

theorem numberAt_eq (map : Blockmap) (bx by_ : Int) :
    Engine.numberAt map bx by_ =
      if (0 ≤ bx ∧ bx < map.width) ∧ (0 ≤ by_ ∧ by_ < map.height) then
        some (by_ * map.width + bx).toNat
      else none := by
  rw [Engine.numberAt]
  by_cases inside : (0 ≤ bx ∧ bx < map.width) ∧ (0 ≤ by_ ∧ by_ < map.height)
  · rw [if_pos inside, if_neg (by omega), Blockmap.number]
    obtain ⟨column, rfl⟩ := Int.eq_ofNat_of_zero_le inside.1.1
    obtain ⟨row, rfl⟩ := Int.eq_ofNat_of_zero_le inside.2.1
    congr 1
  · rw [if_neg inside, if_pos (by omega)]

/-- A column that is not on the map adds nothing. -/
theorem flatMap_filter {α β : Type} {p : α → Bool} {f : α → List β} {list : List α}
    (nothing : ∀ a, p a = false → f a = []) :
    (list.filter p).flatMap f = list.flatMap f := by
  induction list with
  | nil => rfl
  | cons a rest ih =>
    cases here : p a with
    | true => rw [List.filter_cons_of_pos here, List.flatMap_cons, List.flatMap_cons, ih]
    | false =>
      rw [List.filter_cons_of_neg (by simp [here]), List.flatMap_cons, nothing a here, ih]
      rfl

theorem filterMap_row (map : Blockmap) {bx : Int} (column : 0 ≤ bx ∧ bx < map.width)
    (rows : List Int) :
    (rows.map fun by_ => (bx, by_)).filterMap
        (fun block : Int × Int => Engine.numberAt map block.1 block.2) =
      (rows.filter fun by_ : Int => 0 ≤ by_ ∧ by_ < map.height).map fun by_ =>
        (by_ * map.width + bx).toNat := by
  induction rows with
  | nil => rfl
  | cons row rest ih =>
    rw [List.map_cons, List.filterMap_cons, List.filter_cons, numberAt_eq]
    by_cases inside : 0 ≤ row ∧ row < map.height
    · simp only [column, inside, and_self, if_true, decide_true, List.map_cons, ih]
    · simp only [inside, and_false, if_false, decide_false, Bool.false_eq_true, ih]

theorem onMap_blocksOver (map : Blockmap) (xl xh yl yh : Int) :
    Engine.onMap map (Engine.blocksOver xl xh yl yh) =
      (range (max xl 0) (min xh (map.width - 1) + 1)).flatMap fun bx : Int =>
        (range (max yl 0) (min yh (map.height - 1) + 1)).map fun by_ : Int =>
          (by_ * map.width + bx).toNat := by
  have column : ∀ bx ∈ range (max xl 0) (min xh (map.width - 1) + 1),
      0 ≤ bx ∧ bx < map.width := by
    intro bx member
    have := mem_range.1 member
    omega
  rw [Engine.onMap, Engine.blocksOver, List.filterMap_flatMap,
    ← flatMap_filter (p := fun bx : Int => 0 ≤ bx ∧ bx < map.width), filter_span]
  · apply List.flatMap_congr
    intro bx member
    rw [filterMap_row map (column bx member), filter_span]
  · intro bx outside
    rw [List.filterMap_eq_nil_iff]
    intro block member
    obtain ⟨row, -, rfl⟩ := List.mem_map.1 member
    rw [numberAt_eq, if_neg]
    simp only [decide_eq_false_iff_not] at outside
    tauto

/-- No block is covered twice. -/
theorem nodup_onMap (map : Blockmap) (xl xh yl yh : Int) :
    (Engine.onMap map (Engine.blocksOver xl xh yl yh)).Nodup := by
  have once : (Engine.blocksOver xl xh yl yh).Nodup :=
    List.Nodup.product ((pairwise_range _ _).imp fun less => ne_of_lt less)
      ((pairwise_range _ _).imp fun less => ne_of_lt less)
  refine once.filterMap ?_
  rintro ⟨bx, row⟩ ⟨bx', row'⟩ number here there
  simp only [numberAt_eq, Option.mem_def, Option.ite_none_right_eq_some, Option.some.injEq]
    at here there
  obtain ⟨⟨⟨column, width⟩, low, -⟩, rfl⟩ := here
  obtain ⟨⟨⟨column', width'⟩, low', -⟩, same⟩ := there
  obtain ⟨bx, rfl⟩ := Int.eq_ofNat_of_zero_le column
  obtain ⟨bx', rfl⟩ := Int.eq_ofNat_of_zero_le column'
  obtain ⟨row, rfl⟩ := Int.eq_ofNat_of_zero_le low
  obtain ⟨row', rfl⟩ := Int.eq_ofNat_of_zero_le low'
  norm_cast at width width'
  have number : row * map.width + bx = row' * map.width + bx' := by
    exact_mod_cast same.symm
  obtain ⟨rfl, rfl⟩ := Blocks.number_injective width width' number
  rfl

/-- The sides of a box, a margin wider and measured from the blockmap's origin, stay in 32
bits. -/
structure Measured (map : Blockmap) (box : Box Int) (margin : Int) : Prop where
  left : Fits32 (box.left - map.orgx.toInt - margin)
  right : Fits32 (box.right - map.orgx.toInt + margin)
  bottom : Fits32 (box.bottom - map.orgy.toInt - margin)
  top : Fits32 (box.top - map.orgy.toInt + margin)

theorem low_block {side origin margin : Int32}
    (fits : Fits32 (side.toInt - origin.toInt - margin.toInt)) :
    ((side - origin - margin) >>> 23).toInt =
      (side.toInt - origin.toInt - margin.toInt) >>> (23 : Nat) := by
  have wraps : side - origin - margin =
      Int32.ofInt (side.toInt - origin.toInt - margin.toInt) := by
    simp only [Int32.ofInt_sub, Int32.ofInt_toInt]
  rw [SignedWords.toInt_shiftRight (n := 23) rfl, wraps, toInt_ofInt fits,
    Int.shiftRight_eq_div_pow]
  norm_cast

theorem high_block {side origin margin : Int32}
    (fits : Fits32 (side.toInt - origin.toInt + margin.toInt)) :
    ((side - origin + margin) >>> 23).toInt =
      (side.toInt - origin.toInt + margin.toInt) >>> (23 : Nat) := by
  have wraps : side - origin + margin =
      Int32.ofInt (side.toInt - origin.toInt + margin.toInt) := by
    simp only [Int32.ofInt_sub, Int32.ofInt_add, Int32.ofInt_toInt]
  rw [SignedWords.toInt_shiftRight (n := 23) rfl, wraps, toInt_ofInt fits,
    Int.shiftRight_eq_div_pow]
  norm_cast

/-- The cells are the blocks the engine's two loops find on the map, in their order. -/
theorem cells_eq {map : Blockmap} {box : Box Int32} {margin : Int32}
    (fits : Measured map (widen box) margin.toInt) :
    cells map (widen box) margin.toInt =
      (Engine.onMap map (Engine.blocksUnder map box margin)).map Nat.cast := by
  have row : ∀ {low high : Int}, ∀ by_ ∈ range (max low 0) high, 0 ≤ by_ := by
    intro low high by_ member
    have := mem_range.1 member
    omega
  rw [Engine.blocksUnder, low_block fits.left, high_block fits.right, low_block fits.bottom,
    high_block fits.top, onMap_blocksOver, List.map_flatMap, cells]
  apply List.flatMap_congr
  intro bx column
  rw [List.map_map]
  apply List.map_congr_left
  intro by_ member
  have here := row by_ member
  have there := row bx column
  have number : 0 ≤ by_ * map.width + bx := by positivity
  exact (Int.toNat_of_nonneg number).symm

/-! ## Up to the first that stops -/

theorem indexOf_cons (b : Bool) (rest : List Bool) :
    indexOf (b :: rest) = if b then 1 else if indexOf rest = 0 then 0 else indexOf rest + 1 := by
  cases b with
  | true => simp [indexOf]
  | false =>
    rw [indexOf, indexOf, List.idxOf_cons_ne _ (by simp), List.length_cons]
    by_cases found : List.idxOf true rest < rest.length
    · simp [found]
    · simp [found]

section
variable {α : Type} (p : α → Bool)

theorem indexOf_eq_zero (list : List α) : indexOf (list.map p) = 0 ↔ list.any p = false := by
  induction list with
  | nil => simp [indexOf]
  | cons a rest ih =>
    rw [List.map_cons, indexOf_cons, List.any_cons]
    cases p a with
    | true => simp
    | false =>
      rw [Bool.false_or, ← ih]
      split <;> simp_all

/-- The slice with the first that is found is what a loop it refuses reaches. -/
theorem slice_eq_reached (list : List α) :
    (if indexOf (list.map p) = 0 then list
      else ClickHouse.arraySlice list 1 (indexOf (list.map p))) = Halting.reached p list := by
  induction list with
  | nil => rfl
  | cons a rest ih =>
    rw [List.map_cons, indexOf_cons, Halting.reached, ← ih]
    cases p a with
    | true => rfl
    | false =>
      by_cases none : indexOf (rest.map p) = 0
      · simp [none]
      · simp [none, ClickHouse.arraySlice]

/-- The slice before it is what the loop passes. -/
theorem slice_eq_takeWhile (list : List α) :
    (if indexOf (list.map p) = 0 then list
      else ClickHouse.arraySlice list 1 (indexOf (list.map p) - 1)) =
      list.takeWhile fun a => !p a := by
  induction list with
  | nil => rfl
  | cons a rest ih =>
    rw [List.map_cons, indexOf_cons, List.takeWhile_cons, ← ih]
    cases p a with
    | true => rfl
    | false =>
      by_cases none : indexOf (rest.map p) = 0
      · simp [none]
      · obtain ⟨n, found⟩ := Nat.exists_eq_succ_of_ne_zero none
        simp [found, ClickHouse.arraySlice]

end

/-! ## The things -/

/-- The things on the list stand on the map and are linked in it, no two at once. -/
structure Standing (map : Blockmap) (things : List Mobj) : Prop where
  linked : ∀ mobj ∈ things, mobj.alive = true →
    mobj.has Engine.mfNoblockmap = false ∧ (map.blockOf mobj.thing).isSome = true
  column : ∀ mobj ∈ things, mobj.alive = true →
    0 ≤ mobj.x.toInt - map.orgx.toInt ∧ mobj.x.toInt - map.orgx.toInt < map.width * 8388608
  row : ∀ mobj ∈ things, mobj.alive = true →
    0 ≤ mobj.y.toInt - map.orgy.toInt ∧ mobj.y.toInt - map.orgy.toInt < map.height * 8388608
  apart : (things.filter (·.alive)).Pairwise fun a b => a.linkseq ≠ b.linkseq

/-- A place on the map that the engine finds a block for is at a distance 32 bits hold. -/
theorem fits_of_block {coordinate origin : Int32} (beyond : 0 ≤ coordinate.toInt - origin.toInt)
    (found : 0 ≤ Engine.blockAt coordinate origin) :
    (coordinate - origin).toInt = coordinate.toInt - origin.toInt := by
  have high := coordinate.toInt_lt
  have low := origin.le_toInt
  have positive : 0 ≤ (coordinate - origin).toInt := by
    rw [Engine.blockAt, SignedWords.toInt_shiftRight (n := 23) rfl] at found
    omega
  rw [Int32.toInt_sub, Int.bmod_def] at positive ⊢
  split at positive <;> split <;> omega

theorem Standing.toOrdered {map : Blockmap} {things : List Mobj} (standing : Standing map things) :
    Blocks.Ordered map (things.map Mobj.thing) where
  held thing member alive := by
    obtain ⟨mobj, there, rfl⟩ := List.mem_map.1 member
    obtain ⟨linked, found⟩ := standing.linked mobj there alive
    obtain ⟨block, at_⟩ := Option.isSome_iff_exists.1 found
    obtain ⟨column, row, -, -⟩ := Engine.blockOf_eq_some.1 at_
    refine Blocks.cellOf_beq ⟨?_, ?_⟩ linked found
    · exact fits_of_block (standing.column mobj there alive).1 (by omega)
    · exact fits_of_block (standing.row mobj there alive).1 (by omega)
  apart := by
    rw [List.filter_map, List.pairwise_map]
    exact standing.apart

section
variable (level : MoveLevel) (things : List Mobj) (mover : Mobj) (self : Nat) (x y : Int32)

/-- The move of a thing, as it is asked. -/
def askOf : Ask :=
  ⟨self + 1, x, y, mover.radius, mover.height, mover.z, mover.flags, mover.player⟩

/-- The slots of the blocks the check of the things covers, in the order they are reached. -/
def slotsUnder : List Nat :=
  (Engine.onMap level.map
    (Engine.blocksUnder level.map (Engine.tmBbox mover x y) Engine.maxRadius)).flatMap
    (Engine.blocklinks level.map (things.map Mobj.thing))

/-- The ones the mover touches. -/
def touchedSlots : List Nat :=
  (slotsUnder level things mover x y).filter (Engine.touches things mover self x y)

/-- Whether a thing stops a mover that neither charges nor flies. -/
def solid (other : Nat) : Bool := (Engine.mobjAt things other).has Engine.mfSolid

theorem flatMap_blockList (map : Blockmap) (lists : Nat → List Nat) (blocks : List (Int × Int)) :
    blocks.flatMap (Engine.blockList map lists) = (Engine.onMap map blocks).flatMap lists := by
  induction blocks with
  | nil => rfl
  | cons block rest ih =>
    rw [List.flatMap_cons, ih, Engine.blockList, Engine.onMap, Engine.onMap, List.filterMap_cons]
    cases Engine.numberAt map block.1 block.2 with
    | none => rfl
    | some number => rfl

/-- The special things of a list, for a mover that picks up. -/
def specials (list : List Nat) : List Nat :=
  if mover.has Engine.mfPickup then
    list.filter fun other => (Engine.mobjAt things other).has Engine.mfSpecial
  else []

theorem foldl_specials (touched list : List Nat) :
    list.foldl (fun touched other => touched ++ specials things mover [other]) touched =
      touched ++ specials things mover list := by
  induction list generalizing touched with
  | nil => simp [specials]
  | cons other rest ih =>
    rw [List.foldl_cons, ih, List.append_assoc]
    congr 1
    unfold specials
    cases mover.has Engine.mfPickup with
    | true => rw [if_pos rfl, if_pos rfl, if_pos rfl, ← List.filter_append, List.singleton_append]
    | false => rfl

variable {level things mover self x y}

theorem checkThing_touched (flies : mover.has Engine.mfSkullfly = false)
    (missile : mover.has Engine.mfMissile = false) {other : Nat}
    (touches : Engine.touches things mover self x y other = true) (touched : List Nat) :
    Engine.checkThing things mover self x y touched other =
      (touched ++ specials things mover [other], !solid things other) := by
  unfold Engine.checkThing specials solid
  rw [touches, flies, missile]
  cases special : (Engine.mobjAt things other).has Engine.mfSpecial with
  | true => cases mover.has Engine.mfPickup <;> simp [special]
  | false => simp [special]

/-- The engine's loop over the things: what is picked up, and whether nothing stops the mover. -/
theorem checkThings_eq (flies : mover.has Engine.mfSkullfly = false)
    (missile : mover.has Engine.mfMissile = false) :
    Engine.checkThings level things mover self x y =
      (specials things mover
          (Halting.reached (solid things) (touchedSlots level things mover self x y)),
        !(touchedSlots level things mover self x y).any (solid things)) := by
  have passed : ∀ touched other, Engine.touches things mover self x y other = false →
      Engine.checkThing things mover self x y touched other = (touched, true) := by
    intro touched other apart
    rw [Engine.checkThing, apart]
    rfl
  have stopped : ∀ other ∈ touchedSlots level things mover self x y, ∀ touched,
      Engine.checkThing things mover self x y touched other =
        (touched ++ specials things mover [other], !solid things other) := by
    intro other member touched
    exact checkThing_touched flies missile (List.mem_filter.1 member).2 touched
  rw [Engine.checkThings, Halting.walk_walk, flatMap_blockList, Halting.walk_filter passed]
  change Halting.walk _ [] (touchedSlots level things mover self x y) = _
  rw [Halting.walk_eq_foldl stopped, foldl_specials, List.nil_append]

/-- How far a thing that can be touched stands from the mover's place stays in 32 bits, across
only where it is near enough along the other axis. -/
def Distant (mover : Mobj) (x y : Int32) (thing : Mobj) : Prop :=
  Fits32 (thing.radius.toInt + mover.radius.toInt) ∧
    |thing.x.toInt - x.toInt| < 2147483648 ∧
    (|thing.x.toInt - x.toInt| < thing.radius.toInt + mover.radius.toInt →
      |thing.y.toInt - y.toInt| < 2147483648)

instance (mover : Mobj) (x y : Int32) (thing : Mobj) : Decidable (Distant mover x y thing) :=
  inferInstanceAs (Decidable (_ ∧ _ ∧ (_ → _)))

theorem abs_sub_lt {a b reach : Int32} {far : Int} (near : |a.toInt - b.toInt| < 2147483648)
    (same : reach.toInt = far) : ¬(a - b).abs ≥ reach ↔ |a.toInt - b.toInt| < far := by
  have fits : Fits32 (a.toInt - b.toInt) := by
    rw [abs_lt] at near
    exact ⟨by omega, near.2⟩
  have fits' : Fits32 |a.toInt - b.toInt| := ⟨by have := abs_nonneg (a.toInt - b.toInt); omega, near⟩
  rw [ge_iff_le, Int32.not_le, Int32.lt_iff_toInt_lt, ← ofInt_sub, ← SignedWords.ofInt_abs fits,
    toInt_ofInt fits', same]

/-- The filter of the query is the tests of the engine. -/
theorem touches_eq {other : Nat}
    (distant : other ≠ self → (Engine.mobjAt things other).flags &&& 7 ≠ 0 →
      Distant mover x y (Engine.mobjAt things other)) :
    Engine.touches things mover self x y other =
      (let thing := Engine.mobjAt things other
      let blockdist := thing.radius.toInt + mover.radius.toInt
      other + 1 ≠ self + 1 && thing.flags &&& 7 ≠ 0 &&
        |thing.x.toInt - x.toInt| < blockdist && |thing.y.toInt - y.toInt| < blockdist) := by
  have mask : Engine.mfSolid ||| Engine.mfSpecial ||| Engine.mfShootable = 7 := by decide
  rw [Engine.touches, Mobj.has, mask, Bool.eq_iff_iff]
  by_cases touchable : other ≠ self ∧ (Engine.mobjAt things other).flags &&& 7 ≠ 0
  · obtain ⟨reach, column, row⟩ := distant touchable.1 touchable.2
    have sum : ((Engine.mobjAt things other).radius + mover.radius).toInt =
        (Engine.mobjAt things other).radius.toInt + mover.radius.toInt := by
      rw [← toInt_ofInt reach, Int32.ofInt_add, Int32.ofInt_toInt, Int32.ofInt_toInt]
    have east := abs_sub_lt column sum
    by_cases beside : |(Engine.mobjAt things other).x.toInt - x.toInt| <
        (Engine.mobjAt things other).radius.toInt + mover.radius.toInt
    · have north := abs_sub_lt (row beside) sum
      simp [touchable, ← east, ← north]
    · have far := not_not.1 (east.not.2 beside)
      simp [touchable, beside, far]
  · simp only [Bool.and_eq_true, decide_eq_true_eq, bne_iff_ne]
    constructor
    · rintro ⟨⟨flags, -⟩, other⟩
      exact absurd ⟨other, flags⟩ touchable
    · rintro ⟨⟨⟨other, flags⟩, -⟩, -⟩
      exact absurd ⟨by omega, flags⟩ touchable

/-- The sides of the mover's box stay in 32 bits. -/
structure BoxFits (mover : Mobj) (x y : Int32) : Prop where
  top : Fits32 (y.toInt + mover.radius.toInt)
  bottom : Fits32 (y.toInt - mover.radius.toInt)
  left : Fits32 (x.toInt - mover.radius.toInt)
  right : Fits32 (x.toInt + mover.radius.toInt)

theorem tmBbox_eq (box : BoxFits mover x y) :
    tmBbox (askOf mover self x y) = widen (Engine.tmBbox mover x y) := by
  rw [widen, Engine.tmBbox, toInt_add box.top, toInt_sub box.bottom, toInt_sub box.left,
    toInt_add box.right]
  rfl

/-- The slots that are reached before something solid stops the mover, with that one. -/
def reachedSlots (level : MoveLevel) (things : List Mobj) (mover : Mobj) (self : Nat)
    (x y : Int32) : List Nat :=
  Halting.reached (fun other => Engine.touches things mover self x y other && solid things other)
    (slotsUnder level things mover x y)

/-- What the query touches is what the engine touches, in its order, up to what stops the mover. -/
theorem tmThingTouch_eq (standing : Standing level.map things) (box : BoxFits mover x y)
    (measured : Measured level.map (widen (Engine.tmBbox mover x y)) Engine.maxRadius.toInt)
    (distant : ∀ other ∈ reachedSlots level things mover self x y, other ≠ self →
      (Engine.mobjAt things other).flags &&& 7 ≠ 0 →
      Distant mover x y (Engine.mobjAt things other)) :
    ∃ list, tmThingTouch level things (askOf mover self x y) = list.map (· + 1) ∧
      Halting.reached (solid things) list =
        Halting.reached (solid things) (touchedSlots level things mover self x y) ∧
      list.any (solid things) = (touchedSlots level things mover self x y).any (solid things) := by
  have walked : (Blocks.thingsIn level.map
      (cells level.map (widen (Engine.tmBbox mover x y)) Engine.maxRadius.toInt)
      (things.map Mobj.thing)).map Prod.fst = slotsUnder level things mover x y := by
    rw [cells_eq measured]
    exact standing.toOrdered.thingsIn_eq (nodup_onMap ..)
  have slots : (Blocks.thingsIn level.map
      (cells level.map (widen (Engine.tmBbox mover x y)) 2097152)
      (things.map Mobj.thing)).map (fun entry => entry.1 + 1) =
      (slotsUnder level things mover x y).map (· + 1) := by
    rw [← walked, List.map_map]
    rfl
  rw [tmThingTouch, tmBbox_eq box, slots, List.filter_map]
  refine ⟨_, rfl, Halting.reached_filter_congr ?_⟩
  intro other member
  rw [touches_eq (distant other member)]
  rfl

theorem tmThingStop_eq {list : List Nat}
    (touch : tmThingTouch level things (askOf mover self x y) = list.map (· + 1)) :
    tmThingStop level things (askOf mover self x y) = indexOf (list.map (solid things)) := by
  have flagged : ∀ other ∈ list,
      ((fun slot => decide (flagsOf things slot &&& 2 ≠ 0)) ∘ (· + 1)) other =
        solid things other := by
    intro other _
    rw [Bool.eq_iff_iff]
    simp [flagsOf, solid, Mobj.has, Engine.mfSolid]
  rw [tmThingStop, touch, List.map_map]
  exact congrArg indexOf (List.map_congr_left flagged)

theorem tmPicked_eq {list : List Nat}
    (touch : tmThingTouch level things (askOf mover self x y) = list.map (· + 1)) :
    tmPicked level things (askOf mover self x y) =
      (specials things mover (Halting.reached (solid things) list)).map (· + 1) := by
  have special : ((fun slot => decide (flagsOf things slot &&& 1 ≠ 0)) ∘ (· + 1)) =
      fun other => (Engine.mobjAt things other).has Engine.mfSpecial := by
    funext other
    rw [Bool.eq_iff_iff]
    simp [flagsOf, Mobj.has, Engine.mfSpecial]
  have slice : ∀ (stop : Nat) (list : List Nat),
      (if stop = 0 then list.map (· + 1) else ClickHouse.arraySlice (list.map (· + 1)) 1 stop) =
        (if stop = 0 then list else ClickHouse.arraySlice list 1 stop).map (· + 1) := by
    intro stop list
    split
    · rfl
    · rw [ClickHouse.arraySlice, ClickHouse.arraySlice, ← List.map_drop, ← List.map_take]
  rw [tmPicked, tmThingStop_eq touch, touch, slice, slice_eq_reached, List.filter_map, special,
    specials]
  by_cases pickup : mover.flags &&& 2048 = 0
  · rw [askOf, if_pos pickup, if_neg (by simp [Mobj.has, Engine.mfPickup, pickup])]
    rfl
  · rw [askOf, if_neg pickup, if_pos (by simpa [Mobj.has, Engine.mfPickup] using pickup)]

end

/-! ## The lines -/

section
variable (level : MoveLevel) (mover : Mobj) (magic : Int32) (x y : Int32)

/-- The lines of the blocks under the box, each once. -/
def linesUnder : List Nat :=
  Marks.fresh [] ((Engine.onMap level.map
    (Engine.blocksUnder level.map (Engine.tmBbox mover x y) 0)).flatMap
    (level.blockLines.getD · []))

def crosses (box : Box Int32) (number : Nat) : Bool :=
  !Engine.boxMisses box (level.line number) &&
    Engine.boxOnLineSide box (level.line number) = -1

/-- The lines the box crosses. -/
def crossedLines : List Nat :=
  (linesUnder level mover x y).filter (crosses level (Engine.tmBbox mover x y))

/-- The ones reached before the first that stops the mover. -/
def openLines : List Nat :=
  (crossedLines level mover x y).takeWhile fun number =>
    !Engine.lineBlocks mover (level.line number)

def isSpecial (number : Nat) : Bool := (level.line number).special ≠ 0

/-- One line that is passed. -/
def pass (tm : Tm) (number : Nat) : Tm :=
  Engine.hitSpecial level magic (Engine.lowerInto level tm number) number

/-- The box past some special lines: the ninth to the twelfth lie on its sides. -/
def overrun (box : Box Int32) (hits : List Nat) : Box Int32 :=
  let side (i : Nat) (old : Int32) : Int32 :=
    (hits[i]?.map fun number => magic + Int32.ofNat (number * 0x3E)).getD old
  ⟨side 8 box.top, side 9 box.bottom, side 10 box.left, side 11 box.right⟩

/-- The lines that come after some special ones are crossed by what those leave of the box as by
the box itself, up to the first that stops the mover. -/
def kept (box : Box Int32) : List Nat → List Nat → Bool
  | _, [] => true
  | hits, number :: rest =>
    crosses level (overrun magic box hits) number == crosses level box number &&
      if !crosses level box number then kept box hits rest
      else if Engine.lineBlocks mover (level.line number) then true
      else kept box (hits ++ [number].filter (isSpecial level)) rest

variable {level mover magic x y}

theorem overrun_nil (box : Box Int32) : overrun magic box [] = box := rfl

theorem overrun_concat (box : Box Int32) (hits : List Nat) (number : Nat) :
    overrun magic box (hits ++ [number]) =
      let addr := magic + Int32.ofNat (number * 0x3E)
      { top := if hits.length = 8 then addr else (overrun magic box hits).top
        bottom := if hits.length = 9 then addr else (overrun magic box hits).bottom
        left := if hits.length = 10 then addr else (overrun magic box hits).left
        right := if hits.length = 11 then addr else (overrun magic box hits).right } := by
  have side : ∀ i old, ((hits ++ [number])[i]?.map fun number =>
      magic + Int32.ofNat (number * 0x3E)).getD old =
      if hits.length = i then magic + Int32.ofNat (number * 0x3E)
      else (hits[i]?.map fun number => magic + Int32.ofNat (number * 0x3E)).getD old := by
    intro i old
    rcases Nat.lt_trichotomy hits.length i with less | rfl | more
    · rw [if_neg (by omega), List.getElem?_eq_none (by simp; omega),
        List.getElem?_eq_none (by omega)]
    · simp
    · rw [if_neg (by omega), List.getElem?_append_left more]
  simp only [overrun, side]

theorem spechitOverrun_past {tm : Tm} (past : 12 < tm.spechit.length) (addr : Int32) :
    Engine.spechitOverrun tm addr = tm := by
  unfold Engine.spechitOverrun
  split
  · omega
  · omega
  · omega
  · omega
  · rfl

/-- A passed line leaves the heights, its mark on the list and what it overwrites of the box. -/
theorem pass_eq {box : Box Int32} {tm : Tm} (shown : tm.bbox = overrun magic box tm.spechit)
    (number : Nat) :
    pass level magic tm number =
      { Engine.lowerInto level tm number with
        bbox := overrun magic box (tm.spechit ++ [number].filter (isSpecial level))
        spechit := tm.spechit ++ [number].filter (isSpecial level) } := by
  rw [pass, Engine.hitSpecial]
  by_cases plain : (level.line number).special = 0
  · rw [if_pos plain]
    simp [isSpecial, plain, Engine.lowerInto, ← shown]
  · have here : [number].filter (isSpecial level) = [number] := by simp [isSpecial, plain]
    have length : (tm.spechit ++ [number]).length = tm.spechit.length + 1 := by simp
    rw [if_neg plain, here, overrun_concat, ← shown]
    dsimp only [Engine.lowerInto]
    by_cases few : tm.spechit.length < 8
    · have none : ∀ i, 8 ≤ i → tm.spechit.length ≠ i := fun i le => by omega
      rw [if_neg (by omega), if_neg (none 8 le_rfl), if_neg (none 9 (by decide)),
        if_neg (none 10 (by decide)), if_neg (none 11 (by decide))]
    · rw [if_pos (by omega)]
      -- the sides are overwritten in the order of the box
      rcases (by omega : tm.spechit.length = 8 ∨ tm.spechit.length = 9 ∨
        tm.spechit.length = 10 ∨ tm.spechit.length = 11 ∨ 12 ≤ tm.spechit.length) with
        at_ | at_ | at_ | at_ | past
      · simp [Engine.spechitOverrun, at_]
      · simp [Engine.spechitOverrun, at_]
      · simp [Engine.spechitOverrun, at_]
      · simp [Engine.spechitOverrun, at_]
      · have none : ∀ i ≤ 11, tm.spechit.length ≠ i := fun i le => by omega
        rw [if_neg (none 8 (by decide)), if_neg (none 9 (by decide)), if_neg (none 10 (by decide)),
          if_neg (none 11 le_rfl)]
        exact spechitOverrun_past (by dsimp only; omega) _

theorem checkLine_eq (tm : Tm) (number : Nat) :
    Engine.checkLine level mover magic tm number =
      if crosses level tm.bbox number then
        if Engine.lineBlocks mover (level.line number) then (tm, false)
        else (pass level magic tm number, true)
      else (tm, true) := by
  unfold Engine.checkLine crosses pass
  cases misses : Engine.boxMisses tm.bbox (level.line number) with
  | true => simp [misses]
  | false =>
    by_cases side : Engine.boxOnLineSide tm.bbox (level.line number) = -1
    · simp [misses, side]
    · simp [misses, side]

/-- The loop over the lines, while the box crosses what it crossed. -/
theorem walk_checkLine {box : Box Int32} {tm : Tm} {list : List Nat}
    (shown : tm.bbox = overrun magic box tm.spechit)
    (same : kept level mover magic box tm.spechit list = true) :
    Halting.walk (Engine.checkLine level mover magic) tm list =
      (((list.filter (crosses level box)).takeWhile fun number =>
          !Engine.lineBlocks mover (level.line number)).foldl (pass level magic) tm,
        !(list.filter (crosses level box)).any fun number =>
          Engine.lineBlocks mover (level.line number)) := by
  induction list generalizing tm with
  | nil => rfl
  | cons number rest ih =>
    rw [kept, Bool.and_eq_true, beq_iff_eq] at same
    obtain ⟨crossed, later⟩ := same
    have called : Engine.checkLine level mover magic tm number = _ := checkLine_eq tm number
    rw [shown, crossed] at called
    cases here : crosses level box number with
    | false =>
      rw [here, if_neg Bool.false_ne_true] at called
      rw [here, Bool.not_false, if_pos rfl] at later
      rw [List.filter_cons_of_neg (by simp [here])]
      rw [Halting.walk_cons_true rest (by rw [called]), called]
      exact ih shown later
    | true =>
      rw [here, if_pos rfl] at called
      rw [here, Bool.not_true, if_neg Bool.false_ne_true] at later
      rw [List.filter_cons_of_pos here]
      cases blocked : Engine.lineBlocks mover (level.line number) with
      | true =>
        rw [blocked, if_pos rfl] at called
        rw [Halting.walk_cons_false rest (by rw [called]), called,
          List.takeWhile_cons_of_neg (by simp [blocked]), List.any_cons, blocked]
        rfl
      | false =>
        rw [blocked, if_neg Bool.false_ne_true] at called later
        rw [List.takeWhile_cons_of_pos (by simp [blocked])]
        rw [Halting.walk_cons_true rest (by rw [called]), called, List.any_cons, blocked,
          Bool.false_or]
        exact ih (by rw [pass_eq shown]) (by rw [pass_eq shown]; exact later)

/-- The engine's loop over the lines. -/
theorem checkLines_eq {tm : Tm} (box : tm.bbox = Engine.tmBbox mover x y)
    (nothing : tm.spechit = [])
    (same : kept level mover magic (Engine.tmBbox mover x y) [] (linesUnder level mover x y) =
      true) :
    (Engine.checkLines level mover magic x y tm).1.2 =
        (openLines level mover x y).foldl (pass level magic) tm ∧
      (Engine.checkLines level mover magic x y tm).2 =
        !(crossedLines level mover x y).any fun number =>
          Engine.lineBlocks mover (level.line number) := by
  have marked : ((Engine.checkLines level mover magic x y tm).1.2,
      (Engine.checkLines level mover magic x y tm).2) =
        Halting.walk (Engine.checkLine level mover magic) tm (linesUnder level mover x y) := by
    rw [Engine.checkLines, Halting.walk_walk, flatMap_blockList]
    exact Halting.walk_marking ..
  have shown : tm.bbox = overrun magic (Engine.tmBbox mover x y) tm.spechit := by
    rw [nothing, overrun_nil, box]
  rw [walk_checkLine shown (by rw [nothing]; exact same)] at marked
  exact Prod.mk.inj marked

/-! ## The lines of the query -/

theorem linesIn_eq (measured : Measured level.map (widen (Engine.tmBbox mover x y)) 0) :
    linesIn level (cells level.map (widen (Engine.tmBbox mover x y)) 0) =
      linesUnder level mover x y := by
  have cells : cells level.map (widen (Engine.tmBbox mover x y)) (0 : Int32).toInt = _ :=
    cells_eq measured
  rw [Int32.toInt_zero] at cells
  rw [linesIn, cells, List.flatMap_map, linesUnder, Marks.fresh_eq]
  simp

theorem misses_eq (box : Box Int32) (ld : MoveLine) :
    misses (widen box) ld = Engine.boxMisses box ld := by
  simp only [misses, widen, Engine.boxMisses, ge_iff_le, ← Int32.le_iff_toInt_le]

theorem blocks_eq (self : Nat) (ld : MoveLine) :
    blocks (askOf mover self x y) ld = Engine.lineBlocks mover ld := by
  have unfolded : blocks (askOf mover self x y) ld = (ld.back = none ||
      (mover.flags &&& 0x10000 = 0 &&
        (ld.flags &&& 1 ≠ 0 || (!mover.player && ld.flags &&& 2 ≠ 0)))) := rfl
  rw [unfolded, Bool.eq_iff_iff]
  simp [Engine.lineBlocks, Mobj.has, Engine.mfMissile, Engine.mlBlocking, Engine.mlBlockmonsters]

theorem crossing_eq (self : Nat) (box : BoxFits mover x y)
    (measured : Measured level.map (widen (Engine.tmBbox mover x y)) 0) :
    crossing level (askOf mover self x y) =
      (crossedLines level mover x y).map fun number =>
        (number, Engine.lineBlocks mover (level.line number)) := by
  rw [crossing, tmBbox_eq box, linesIn_eq measured]
  simp only [misses_eq, boxOnLineSide_eq, blocks_eq]
  rfl

theorem tmLineStop_eq (self : Nat) (box : BoxFits mover x y)
    (measured : Measured level.map (widen (Engine.tmBbox mover x y)) 0) :
    tmLineStop level (askOf mover self x y) =
      indexOf ((crossedLines level mover x y).map fun number =>
        Engine.lineBlocks mover (level.line number)) := by
  rw [tmLineStop, crossing_eq self box measured, List.map_map]
  rfl

theorem tmLineOpen_eq (self : Nat) (box : BoxFits mover x y)
    (measured : Measured level.map (widen (Engine.tmBbox mover x y)) 0) :
    tmLineOpen level (askOf mover self x y) = openLines level mover x y := by
  rw [tmLineOpen, tmLineStop_eq self box measured, crossing_eq self box measured, openLines,
    ← slice_eq_takeWhile]
  split
  · rw [List.map_map]
    exact List.map_id _
  · rw [ClickHouse.arraySlice, ClickHouse.arraySlice, ← List.map_drop, ← List.map_take,
      List.map_map]
    exact List.map_id _

/-! ## The heights -/

/-- The line's number as the query holds it. -/
def lineNumber : Option Nat → Int
  | none => -1
  | some number => number

/-- What a passed line does to the heights, in the words of the query. -/
theorem pass_heights {box : Box Int32} {tm : Tm}
    (shown : tm.bbox = overrun magic box tm.spechit) {number : Nat}
    (backed : (level.line number).back.isSome = true) :
    (pass level magic tm number).floorz = max tm.floorz (opening level number).bottom ∧
      (pass level magic tm number).dropoffz = min tm.dropoffz (opening level number).lowfloor ∧
      ((pass level magic tm number).ceilingz, lineNumber (pass level magic tm number).ceilingline) =
        ceilingStep (tm.ceilingz, lineNumber tm.ceilingline) (opening level number, number) := by
  obtain ⟨back, behind⟩ := Option.isSome_iff_exists.1 backed
  have window : opening level number =
      ⟨(Engine.opening (level.sector (level.line number).front) (level.sector back)).opentop,
        (Engine.opening (level.sector (level.line number).front) (level.sector back)).openbottom,
        Engine.lowfloor (level.sector (level.line number).front) (level.sector back)⟩ := by
    rw [opening, behind, Engine.opening]
    simp only [SignedWords.min_eq_ite, SignedWords.max_eq_ite]
    rfl
  rw [pass_eq shown, window, SignedWords.max_held, SignedWords.min_held, ceilingStep]
  simp only [Engine.lowerInto, behind, Option.getD_some, true_and]
  split
  · rfl
  · rfl

theorem foldl_pass {box : Box Int32} {list : List Nat}
    (backed : ∀ number ∈ list, (level.line number).back.isSome = true) {tm : Tm}
    (shown : tm.bbox = overrun magic box tm.spechit) :
    (list.foldl (pass level magic) tm).floorz =
        ((list.map (opening level)).map Window.bottom).foldl max tm.floorz ∧
      (list.foldl (pass level magic) tm).dropoffz =
        ((list.map (opening level)).map Window.lowfloor).foldl min tm.dropoffz ∧
      ((list.foldl (pass level magic) tm).ceilingz,
          lineNumber (list.foldl (pass level magic) tm).ceilingline) =
        ((list.map (opening level)).zip list).foldl ceilingStep
          (tm.ceilingz, lineNumber tm.ceilingline) ∧
      (list.foldl (pass level magic) tm).spechit = tm.spechit ++ list.filter (isSpecial level) := by
  induction list generalizing tm with
  | nil => simp
  | cons number rest ih =>
    obtain ⟨floor, drop, ceiling⟩ := pass_heights shown (backed number List.mem_cons_self)
    have hit : (pass level magic tm number).spechit =
        tm.spechit ++ [number].filter (isSpecial level) := by rw [pass_eq shown]
    obtain ⟨floors, drops, ceilings, hits⟩ :=
      ih (fun other member => backed other (List.mem_cons_of_mem _ member))
        (show (pass level magic tm number).bbox =
          overrun magic box (pass level magic tm number).spechit by rw [pass_eq shown])
    refine ⟨?_, ?_, ?_, ?_⟩
    · rw [List.foldl_cons, floors, floor]
      rfl
    · rw [List.foldl_cons, drops, drop]
      rfl
    · rw [List.foldl_cons, ceilings, ceiling]
      rfl
    · rw [List.foldl_cons, hits, hit, List.append_assoc, ← List.filter_append,
        List.singleton_append]

/-- The first half of the fold is the running minimum. -/
theorem foldl_ceilingStep (list : List Nat) (acc : Int32 × Int) :
    (((list.map (opening level)).zip list).foldl ceilingStep acc).1 =
      ((list.map (opening level)).map Window.top).foldl min acc.1 := by
  induction list generalizing acc with
  | nil => rfl
  | cons number rest ih =>
    rw [List.map_cons, List.zip_cons_cons, List.foldl_cons, ih, List.map_cons, List.foldl_cons,
      SignedWords.min_held, ceilingStep]
    split
    · rfl
    · rfl

theorem backed_openLines {number : Nat} (member : number ∈ openLines level mover x y) :
    (level.line number).back.isSome = true := by
  have passed := List.mem_takeWhile_imp member
  rw [Engine.lineBlocks, Bool.not_or, Bool.and_eq_true] at passed
  simpa [Option.isNone_iff_eq_none, Option.isSome_iff_ne_none] using passed.1

/-- The heights, the ceiling's line and the special lines the engine leaves are the query's. -/
theorem openLines_pass (magic : Int32) (depth : Nat) {ask : Ask}
    (lines : tmLineOpen level ask = openLines level mover x y) {tm : Tm}
    (base : tm = Engine.startTm level mover x y (tmSubsector level depth ask)) :
    ((openLines level mover x y).foldl (pass level magic) tm).floorz = tmFloorz level depth ask ∧
      ((openLines level mover x y).foldl (pass level magic) tm).ceilingz =
        tmCeilingz level depth ask ∧
      ((openLines level mover x y).foldl (pass level magic) tm).dropoffz =
        tmDropoffz level depth ask ∧
      lineNumber ((openLines level mover x y).foldl (pass level magic) tm).ceilingline =
        tmCeilingline level depth ask ∧
      ((openLines level mover x y).foldl (pass level magic) tm).spechit =
        (tmLineOpen level ask).filter fun number => (level.line number).special ≠ 0 := by
  have backed : ∀ number ∈ openLines level mover x y, (level.line number).back.isSome = true :=
    fun number member => backed_openLines member
  have start : tm.floorz = (level.sectorOf (tmSubsector level depth ask)).floorheight ∧
      tm.ceilingz = (level.sectorOf (tmSubsector level depth ask)).ceilingheight ∧
      tm.dropoffz = (level.sectorOf (tmSubsector level depth ask)).floorheight ∧
      tm.ceilingline = none ∧ tm.spechit = [] ∧ tm.bbox = Engine.tmBbox mover x y := by
    rw [base]
    exact ⟨rfl, rfl, rfl, rfl, rfl, rfl⟩
  obtain ⟨hfloor, hceiling, hdrop, hline, hhits, hbox⟩ := start
  have shown : tm.bbox = overrun magic (Engine.tmBbox mover x y) tm.spechit := by
    rw [hhits, overrun_nil, hbox]
  obtain ⟨floor, drop, ceiling, hits⟩ := foldl_pass backed shown
  have height := congrArg Prod.fst ceiling
  have line := congrArg Prod.snd ceiling
  rw [foldl_ceilingStep] at height
  dsimp only at height line
  refine ⟨?_, ?_, ?_, ?_, ?_⟩
  · rw [floor, hfloor, tmFloorz, tmOpenings, lines]
  · rw [height, hceiling, tmCeilingz, tmOpenings, lines]
  · rw [drop, hdrop, tmDropoffz, tmOpenings, lines]
  · rw [line, hceiling, hline, tmCeilingline, tmOpenings, lines, lineNumber]
  · rw [hits, hhits, lines, List.nil_append]
    exact List.filter_congr fun _ _ => rfl

/-- The sectors beside a line. -/
def besides (level : MoveLevel) (number : Nat) : List Sector :=
  [level.sector (level.line number).front, level.sector ((level.line number).back.getD 0)]

/-- The sectors beside the lines the box passes. -/
def sectorsBeside (level : MoveLevel) (mover : Mobj) (x y : Int32) : List Sector :=
  (openLines level mover x y).flatMap (besides level)

def lowestCeiling (base : Sector) (sectors : List Sector) : Int :=
  (sectors.map fun s => s.ceilingheight.toInt).foldl min base.ceilingheight.toInt

def highestFloor (base : Sector) (sectors : List Sector) : Int :=
  (sectors.map fun s => s.floorheight.toInt).foldl max base.floorheight.toInt

def lowestFloor (base : Sector) (sectors : List Sector) : Int :=
  (sectors.map fun s => s.floorheight.toInt).foldl min base.floorheight.toInt

/-- A running extreme over openings is the extreme of the heights beside the lines. -/
theorem foldl_openings {f : Int32 → Int32 → Int32} {g : Int → Int → Int}
    (same : ∀ a b, (f a b).toInt = g a.toInt b.toInt) (assoc : ∀ a b c, g (g a b) c = g a (g b c))
    {side : Window → Int32} {height : Sector → Int32} {list : List Nat}
    (sides : ∀ number ∈ list, (side (opening level number)).toInt =
      g (height (level.sector (level.line number).front)).toInt
        (height (level.sector ((level.line number).back.getD 0))).toInt) (base : Int32) :
    (((list.map (opening level)).map side).foldl f base).toInt =
      ((list.flatMap (besides level)).map fun s => (height s).toInt).foldl g base.toInt := by
  induction list generalizing base with
  | nil => rfl
  | cons number rest ih =>
    rw [List.map_cons, List.map_cons, List.foldl_cons,
      ih (fun other member => sides other (List.mem_cons_of_mem _ member)), same,
      sides number List.mem_cons_self, ← assoc]
    rfl

/-- The heights the check leaves are the extremes of the sectors it reads. -/
theorem heights_read (depth : Nat) {ask : Ask} (lines : tmLineOpen level ask =
      openLines level mover x y) :
    (tmFloorz level depth ask).toInt = highestFloor
        (level.sectorOf (tmSubsector level depth ask)) (sectorsBeside level mover x y) ∧
      (tmCeilingz level depth ask).toInt = lowestCeiling
        (level.sectorOf (tmSubsector level depth ask)) (sectorsBeside level mover x y) ∧
      (tmDropoffz level depth ask).toInt = lowestFloor
        (level.sectorOf (tmSubsector level depth ask)) (sectorsBeside level mover x y) := by
  have window : ∀ number ∈ openLines level mover x y,
      opening level number =
        ⟨min (level.sector (level.line number).front).ceilingheight
            (level.sector ((level.line number).back.getD 0)).ceilingheight,
          max (level.sector (level.line number).front).floorheight
            (level.sector ((level.line number).back.getD 0)).floorheight,
          if (level.sector (level.line number).front).floorheight >
            (level.sector ((level.line number).back.getD 0)).floorheight then
            (level.sector ((level.line number).back.getD 0)).floorheight
          else (level.sector (level.line number).front).floorheight⟩ := by
    intro number member
    obtain ⟨back, behind⟩ := Option.isSome_iff_exists.1 (backed_openLines member)
    rw [opening, behind]
    rfl
  rw [tmFloorz, tmCeilingz, tmDropoffz, tmOpenings, lines]
  refine ⟨foldl_openings SignedWords.toInt_max max_assoc ?_ _,
    foldl_openings SignedWords.toInt_min min_assoc ?_ _,
    foldl_openings SignedWords.toInt_min min_assoc ?_ _⟩
  · intro number member
    rw [window number member]
    exact SignedWords.toInt_max ..
  · intro number member
    rw [window number member]
    exact SignedWords.toInt_min ..
  · intro number member
    rw [window number member, ← SignedWords.toInt_min]
    exact congrArg Int32.toInt (SignedWords.min_held ..).symm

/-- The differences of heights that `P_TryMove` tests, as far as it comes, stay in 32 bits. -/
structure HeightsFit (mover : Mobj) (ceiling floor drop : Int) : Prop where
  gap : Fits32 (ceiling - floor)
  above : ceiling - floor ≥ mover.height.toInt → mover.has Engine.mfTeleport = false →
    Fits32 (ceiling - mover.z.toInt)
  step : ceiling - floor ≥ mover.height.toInt → mover.has Engine.mfTeleport = false →
    ceiling - mover.z.toInt ≥ mover.height.toInt → Fits32 (floor - mover.z.toInt)
  dropoff : ceiling - floor ≥ mover.height.toInt →
    (mover.has Engine.mfTeleport = false →
      ceiling - mover.z.toInt ≥ mover.height.toInt ∧ floor - mover.z.toInt ≤ 1572864) →
    mover.has (Engine.mfDropoff ||| Engine.mfFloat) = false → Fits32 (floor - drop)

/-! ## The answer -/

theorem sub_lt_iff {a b c : Int32} (fits : Fits32 (a.toInt - b.toInt)) :
    a - b < c ↔ ¬a.toInt - b.toInt ≥ c.toInt := by
  rw [Int32.lt_iff_toInt_lt, toInt_sub fits]
  omega

theorem lt_sub_iff {a b : Int32} (fits : Fits32 (a.toInt - b.toInt)) :
    24 * fracUnit < a - b ↔ ¬a.toInt - b.toInt ≤ 1572864 := by
  have step : (24 * fracUnit).toInt = 1572864 := by decide
  rw [Int32.lt_iff_toInt_lt, toInt_sub fits, step]
  omega

theorem fits_eq {depth self : Nat} {tm : Tm}
    (floorz : tm.floorz = tmFloorz level depth (askOf mover self x y))
    (ceilingz : tm.ceilingz = tmCeilingz level depth (askOf mover self x y))
    (dropoffz : tm.dropoffz = tmDropoffz level depth (askOf mover self x y))
    (heights : HeightsFit mover tm.ceilingz.toInt tm.floorz.toInt tm.dropoffz.toInt) :
    fits level depth (askOf mover self x y) = Engine.fitsThere mover tm := by
  have unfolded : fits level depth (askOf mover self x y) =
      (mover.has Engine.mfNoclip ||
        (tm.ceilingz.toInt - tm.floorz.toInt ≥ mover.height.toInt &&
          (mover.has Engine.mfTeleport ||
            tm.ceilingz.toInt - mover.z.toInt ≥ mover.height.toInt) &&
          (mover.has Engine.mfTeleport || tm.floorz.toInt - mover.z.toInt ≤ 1572864) &&
          (mover.has (Engine.mfDropoff ||| Engine.mfFloat) ||
            tm.floorz.toInt - tm.dropoffz.toInt ≤ 1572864))) := by
    have flag : ∀ bit : Int32, mover.has bit = decide (mover.flags &&& bit ≠ 0) := fun bit => by
      rw [Bool.eq_iff_iff]
      simp [Mobj.has]
    rw [floorz, ceilingz, dropoffz, flag, flag, flag]
    rfl
  rw [unfolded, Engine.fitsThere]
  by_cases gap : tm.ceilingz.toInt - tm.floorz.toInt ≥ mover.height.toInt
  case neg => simp [gap, sub_lt_iff heights.gap]
  have tall := (sub_lt_iff (c := mover.height) heights.gap).not.2 (not_not.2 gap)
  have last : (mover.has Engine.mfTeleport = false →
      tm.ceilingz.toInt - mover.z.toInt ≥ mover.height.toInt ∧
        tm.floorz.toInt - mover.z.toInt ≤ 1572864) →
      (mover.has (Engine.mfDropoff ||| Engine.mfFloat) ||
        decide (tm.floorz.toInt - tm.dropoffz.toInt ≤ 1572864)) =
      !(!mover.has (Engine.mfDropoff ||| Engine.mfFloat) &&
        decide (tm.floorz - tm.dropoffz > 24 * fracUnit)) := by
    intro stays
    cases hangs : mover.has (Engine.mfDropoff ||| Engine.mfFloat) with
    | true => simp
    | false =>
      have drops : decide (tm.floorz - tm.dropoffz > 24 * fracUnit) =
          decide ¬tm.floorz.toInt - tm.dropoffz.toInt ≤ 1572864 :=
        decide_eq_decide.2 (lt_sub_iff (heights.dropoff gap stays hangs))
      rw [drops, decide_not]
      simp
  cases teleports : mover.has Engine.mfTeleport with
  | true =>
    rw [last (by simp [teleports])]
    simp [gap, tall]
  | false =>
    have above := heights.above gap teleports
    by_cases head : tm.ceilingz.toInt - mover.z.toInt ≥ mover.height.toInt
    case neg => simp [head, sub_lt_iff above]
    have step := heights.step gap teleports head
    by_cases low : tm.floorz.toInt - mover.z.toInt ≤ 1572864
    case neg => simp [low, lt_sub_iff step]
    have room := (sub_lt_iff (c := mover.height) above).not.2 (not_not.2 head)
    have climbs := (lt_sub_iff step).not.2 (not_not.2 low)
    rw [last fun _ => ⟨head, low⟩]
    simp [gap, tall, head, room, low, climbs]

/-- The answer is the engine's: the flag, the things picked up, and where the move is made all
that it leaves behind. -/
structure Agrees (answer : Answer) (position : Position) (made : Bool) : Prop where
  ok : answer.ok = made
  picked : answer.picked = position.touched.map (· + 1)
  floorz : made = true → answer.floorz = position.tm.floorz
  ceilingz : made = true → answer.ceilingz = position.tm.ceilingz
  dropoffz : made = true → answer.dropoffz = position.tm.dropoffz
  subsector : made = true → answer.subsector = position.subsector
  ceilingline : made = true → answer.ceilingline = lineNumber position.tm.ceilingline
  spechit : made = true → answer.spechit = position.tm.spechit

/-- What the check computes, as far as it comes, stays in 32 bits, and the special lines it passes
leave it the box and the array. -/
structure InRange (level : MoveLevel) (things : List Mobj) (mover : Mobj) (slot : Nat)
    (magic x y : Int32) (base : Sector) : Prop where
  box : BoxFits mover x y
  near : Measured level.map (widen (Engine.tmBbox mover x y)) 2097152
  distant : ∀ other ∈ reachedSlots level things mover slot x y, other ≠ slot →
    (Engine.mobjAt things other).flags &&& 7 ≠ 0 →
    Distant mover x y (Engine.mobjAt things other)
  lines : (touchedSlots level things mover slot x y).any (solid things) = false →
    Measured level.map (widen (Engine.tmBbox mover x y)) 0
  same : (touchedSlots level things mover slot x y).any (solid things) = false →
    kept level mover magic (Engine.tmBbox mover x y) [] (linesUnder level mover x y) = true
  few : (touchedSlots level things mover slot x y).any (solid things) = false →
    ((openLines level mover x y).filter (isSpecial level)).length ≤ 20
  heights : (touchedSlots level things mover slot x y).any (solid things) = false →
    ((crossedLines level mover x y).any fun number =>
      Engine.lineBlocks mover (level.line number)) = false →
    HeightsFit mover (lowestCeiling base (sectorsBeside level mover x y))
      (highestFloor base (sectorsBeside level mover x y))
      (lowestFloor base (sectorsBeside level mover x y))

section
variable {things : List Mobj} {self depth : Nat} {list : List Nat}
  (touch : tmThingTouch level things (askOf mover self x y) = list.map (· + 1))
  (front : Halting.reached (solid things) list =
    Halting.reached (solid things) (touchedSlots level things mover self x y))
  (answer : list.any (solid things) =
    (touchedSlots level things mover self x y).any (solid things))
include touch front answer

/-- A mover that is stopped by a thing. -/
theorem agrees_stopped
    (stopped : (touchedSlots level things mover self x y).any (solid things) = true)
    {position : Position} (touched : position.touched = specials things mover
      (Halting.reached (solid things) (touchedSlots level things mover self x y))) :
    Agrees (tryMove level things depth (askOf mover self x y)) position false where
  ok := by
    have stop : tmThingStop level things (askOf mover self x y) ≠ 0 := by
      rw [tmThingStop_eq touch, Ne, indexOf_eq_zero, answer, stopped]
      simp
    simp [tryMove, stop]
  picked := by
    rw [touched, ← front]
    exact tmPicked_eq touch
  floorz := by simp
  ceilingz := by simp
  dropoffz := by simp
  subsector := by simp
  ceilingline := by simp
  spechit := by simp

/-- A mover that no thing stops. -/
theorem agrees_passed {magic : Int32}
    (range : InRange level things mover self magic x y
      (level.sectorOf (tmSubsector level depth (askOf mover self x y))))
    (passed : (touchedSlots level things mover self x y).any (solid things) = false)
    {position : Position} (touched : position.touched = specials things mover
      (Halting.reached (solid things) (touchedSlots level things mover self x y)))
    (subsector : position.subsector = tmSubsector level depth (askOf mover self x y))
    (tm : position.tm = (openLines level mover x y).foldl (pass level magic)
      (Engine.startTm level mover x y (tmSubsector level depth (askOf mover self x y))))
    (clear : position.clear = !(crossedLines level mover x y).any fun number =>
      Engine.lineBlocks mover (level.line number)) :
    Agrees (tryMove level things depth (askOf mover self x y)) position
      (position.clear && Engine.fitsThere mover position.tm) := by
  have measured := range.lines passed
  have lines := tmLineOpen_eq self range.box measured
  obtain ⟨floorz, ceilingz, dropoffz, ceilingline, spechit⟩ :=
    openLines_pass magic depth lines rfl
  rw [← tm] at floorz ceilingz dropoffz ceilingline spechit
  have thingStop : tmThingStop level things (askOf mover self x y) = 0 := by
    rw [tmThingStop_eq touch, indexOf_eq_zero, answer, passed]
  have lineStop : tmLineStop level (askOf mover self x y) = 0 ↔ position.clear = true := by
    rw [tmLineStop_eq self range.box measured, indexOf_eq_zero, clear, Bool.not_eq_true']
  rw [tryMove]
  refine ⟨?_, ?_, fun _ => ?_, fun _ => ?_, fun _ => ?_, fun _ => ?_, fun _ => ?_, fun _ => ?_⟩
  · cases blocked : position.clear with
    | false =>
      have stop : tmLineStop level (askOf mover self x y) ≠ 0 := by
        rw [Ne, lineStop, blocked]
        simp
      simp [stop]
    | true =>
      rw [blocked, eq_comm, Bool.not_eq_true'] at clear
      obtain ⟨floor, ceiling, drop⟩ := heights_read depth lines
      have heights := range.heights passed clear
      rw [← floor, ← ceiling, ← drop, ← floorz, ← ceilingz, ← dropoffz] at heights
      have fitted := fits_eq floorz ceilingz dropoffz heights
      simp [thingStop, lineStop.2 blocked, fitted]
  · rw [touched, ← front]
    exact tmPicked_eq touch
  · rw [floorz]
  · rw [ceilingz]
  · rw [dropoffz]
  · rw [subsector]
  · rw [ceilingline]
  · rw [spechit]

end

/-- Once the things are passed, the check is the loop over the lines. -/
theorem checkPositionAt_clear {things : List Mobj} {self : Nat} {magic : Int32}
    {subsector : UInt32} (noclip : mover.has Engine.mfNoclip = false)
    (passed : (Engine.checkThings level things mover self x y).2 = true)
    (same : kept level mover magic (Engine.tmBbox mover x y) [] (linesUnder level mover x y) =
      true)
    (few : ((openLines level mover x y).filter (isSpecial level)).length ≤ 20) :
    Engine.checkPositionAt level things mover self magic x y subsector =
      some ⟨subsector,
        (openLines level mover x y).foldl (pass level magic)
          (Engine.startTm level mover x y subsector),
        (Engine.checkThings level things mover self x y).1,
        !(crossedLines level mover x y).any fun number =>
          Engine.lineBlocks mover (level.line number)⟩ := by
  have start : (Engine.startTm level mover x y subsector).spechit = [] := rfl
  have box : (Engine.startTm level mover x y subsector).bbox = Engine.tmBbox mover x y := rfl
  have shown : (Engine.startTm level mover x y subsector).bbox =
      overrun magic (Engine.tmBbox mover x y)
        (Engine.startTm level mover x y subsector).spechit := rfl
  obtain ⟨last, clear⟩ := checkLines_eq box start same
  have hits : (Engine.checkLines level mover magic x y
      (Engine.startTm level mover x y subsector)).1.2.spechit.length ≤ 20 := by
    rw [last, (foldl_pass (fun number member => backed_openLines member) shown).2.2.2, start,
      List.nil_append]
    exact few
  rw [Engine.checkPositionAt, noclip, if_neg Bool.false_ne_true]
  dsimp only
  rw [passed, Bool.not_true, if_neg Bool.false_ne_true, if_neg (by omega), last, clear]

/-- The check of the things and of the lines, in the engine's order. -/
theorem checkPositionAt_eq {things : List Mobj} {self : Nat} {magic : Int32}
    {subsector : UInt32} (noclip : mover.has Engine.mfNoclip = false)
    (flies : mover.has Engine.mfSkullfly = false) (missile : mover.has Engine.mfMissile = false)
    (same : (touchedSlots level things mover self x y).any (solid things) = false →
      kept level mover magic (Engine.tmBbox mover x y) [] (linesUnder level mover x y) = true)
    (few : (touchedSlots level things mover self x y).any (solid things) = false →
      ((openLines level mover x y).filter (isSpecial level)).length ≤ 20) :
    Engine.checkPositionAt level things mover self magic x y subsector =
      some ⟨subsector,
        if (touchedSlots level things mover self x y).any (solid things) then
          Engine.startTm level mover x y subsector
        else (openLines level mover x y).foldl (pass level magic)
          (Engine.startTm level mover x y subsector),
        specials things mover
          (Halting.reached (solid things) (touchedSlots level things mover self x y)),
        !(touchedSlots level things mover self x y).any (solid things) &&
          !(crossedLines level mover x y).any fun number =>
            Engine.lineBlocks mover (level.line number)⟩ := by
  have checked : Engine.checkThings level things mover self x y = _ :=
    checkThings_eq flies missile
  cases stopped : (touchedSlots level things mover self x y).any (solid things) with
  | true =>
    rw [Engine.checkPositionAt, noclip, if_neg Bool.false_ne_true, checked, stopped]
    rfl
  | false =>
    have passed : (Engine.checkThings level things mover self x y).2 = true := by
      rw [checked, stopped]
      rfl
    rw [checkPositionAt_clear noclip passed (same stopped) (few stopped), checked,
      if_neg Bool.false_ne_true, Bool.not_false, Bool.true_and]

end

/-- For every level with a node tree no deeper than the query descends, every world of things
linked where they stand and every ordinary mover whose check stays in range, the answer is
`P_TryMove`'s, and the side of a line a box lies on is `P_BoxOnLineSide`'s. -/
theorem tryMove_eq_engine (level : MoveLevel) (things : List Mobj) (mover : Mobj) (self : Nat)
    (magic x y : Int32) {deep depth : Nat} (tree : level.nodes.Tree deep) (le : deep ≤ depth)
    (standing : Standing level.map things) (noclip : mover.has Engine.mfNoclip = false)
    (flies : mover.has Engine.mfSkullfly = false) (missile : mover.has Engine.mfMissile = false)
    (range : InRange level things mover self magic x y
      (level.sectorOf (Bsp.pointInSubsector level.nodes x y depth))) :
    (∀ fuel, deep ≤ fuel → ∃ position made,
      Engine.tryMove level things mover self magic x y fuel = some (position, made) ∧
        Agrees (tryMove level things depth (askOf mover self x y)) position made) ∧
    ∀ box ld, boxOnLineSide (widen box) ld = Engine.boxOnLineSide box ld := by
  refine ⟨fun fuel enough => ?_, boxOnLineSide_eq⟩
  have descent : Engine.pointInSubsector level.nodes x y fuel =
      some (tmSubsector level depth (askOf mover self x y)) :=
    (Bsp.pointInSubsector_eq_engine tree x y le).1 fuel enough
  obtain ⟨list, touch, front, answer⟩ :=
    tmThingTouch_eq standing range.box range.near range.distant
  rw [Engine.tryMove, Engine.checkPosition, descent, Option.bind_some,
    checkPositionAt_eq noclip flies missile range.same range.few]
  refine ⟨_, _, rfl, ?_⟩
  cases stopped : (touchedSlots level things mover self x y).any (solid things) with
  | true => exact agrees_stopped touch front answer stopped rfl
  | false =>
    refine agrees_passed touch front answer range stopped rfl rfl ?_ ?_
    · dsimp only
      rw [if_neg Bool.false_ne_true]
    · dsimp only
      rw [Bool.not_false, Bool.true_and]

/-- One block, one sector, no lines and no nodes. -/
def openLevel (sector : Sector) : MoveLevel :=
  ⟨⟨0, 0, 1, 1⟩, [], [[]], ⟨[], by decide⟩, [0], [sector]⟩

/-- The same block with a step 8 units up at x = 80, under a special line. -/
def stepLevel : MoveLevel :=
  ⟨⟨0, 0, 1, 1⟩,
    [⟨⟨5242880, 0, 0, 8388608⟩, .vertical, ⟨8388608, 0, 5242880, 5242880⟩, 4, 0, some 1, 97⟩],
    [[0]], (openLevel ⟨0, 0⟩).nodes, [0], [⟨0, 8388608⟩, ⟨524288, 7340032⟩]⟩

/-- A player 56 units tall on a floor, with the flags of one. -/
def walker (floor : Int32) : Mobj :=
  ⟨4194304, 4194304, floor, floor, 0, 1048576, 3670016, 0x806, 100, .player, none, true, 0, true⟩

/-- An item a step away. -/
def bonus : Mobj :=
  ⟨5242880, 4194304, 0, 0, 8388608, 1310720, 1048576, 1, 1000, .other 70, none, false, 1, true⟩

theorem walkers_standing : Standing stepLevel.map [walker 0, bonus] where
  linked := by decide
  column := by decide
  row := by decide
  apart := by decide

theorem walker_inRange : InRange stepLevel [walker 0, bonus] (walker 0) 0 0 4456448 4194304
    (stepLevel.sectorOf (Bsp.pointInSubsector stepLevel.nodes 4456448 4194304 0)) where
  box := by constructor <;> decide
  near := by constructor <;> decide
  distant := by decide +kernel
  lines _ := by constructor <;> decide
  same _ := by decide +kernel
  few := by decide +kernel
  heights _ _ := by
    have beside : sectorsBeside stepLevel (walker 0) 4456448 4194304 =
        [⟨0, 8388608⟩, ⟨524288, 7340032⟩] := by decide +kernel
    rw [beside]
    constructor <;> decide +kernel

/-- Over a step the move is made, its line noted and the item picked up. -/
theorem tryMove_bonus :
    ∃ position made,
      Engine.tryMove stepLevel [walker 0, bonus] (walker 0) 0 0 4456448 4194304 0 =
        some (position, made) ∧
      Agrees (tryMove stepLevel [walker 0, bonus] 0 (askOf (walker 0) 0 4456448 4194304)) position
        made :=
  (tryMove_eq_engine stepLevel [walker 0, bonus] (walker 0) 0 0 4456448 4194304 (.inl rfl) le_rfl
    walkers_standing (by decide) (by decide) (by decide) walker_inRange).1 0 le_rfl

/-- Between a floor and a ceiling 65535 units apart the engine's difference wraps and the move
is refused, and the query makes it. -/
theorem tall_room_made :
    ¬∃ position made,
      Engine.tryMove (openLevel ⟨-2147483648, 2147418112⟩) [walker (-2147483648)]
        (walker (-2147483648)) 0 0 4259840 4194304 0 = some (position, made) ∧
      Agrees (tryMove (openLevel ⟨-2147483648, 2147418112⟩) [walker (-2147483648)] 0
        (askOf (walker (-2147483648)) 0 4259840 4194304)) position made := by
  have refused : (Engine.tryMove (openLevel ⟨-2147483648, 2147418112⟩) [walker (-2147483648)]
      (walker (-2147483648)) 0 0 4259840 4194304 0).map Prod.snd = some false := by
    decide +kernel
  have answered : (tryMove (openLevel ⟨-2147483648, 2147418112⟩) [walker (-2147483648)] 0
      (askOf (walker (-2147483648)) 0 4259840 4194304)).ok = true := by
    decide +kernel
  rintro ⟨position, made, moved, agrees⟩
  rw [moved] at refused
  have made : made = false := Option.some.inj refused
  rw [agrees.ok, made] at answered
  exact Bool.false_ne_true answered

end ClickDoom.Native.Moves

import ClickDoom.Engine.Reached
import ClickDoom.Native.Traverse

/-! # The path traversal is the engine's

The fold over 64 steps visits the blocks of the engine's loop, the list of what it reaches
is what the two iterators hand on, and the sort is the engine's selection.  A trace's
values are exact integers on one side and 32-bit words on the other; an intercept of the
walk may leave 32 bits, and from there on no block matches it on either side.
-/
namespace ClickDoom.Native.Traverse
open Engine (Blockmap Thing Entry Line PathLevel Intercept Found Divline truth fracUnit)
open SignedWords

/-! ## The trace's values -/

/-- The start off the block's edge, the differences and the offsets from the blockmap's
origin fit 32 bits. -/
structure Trace.Fits (t : Trace) : Prop where
  x1 : Fits32 t.x1
  y1 : Fits32 t.y1
  dx : Fits32 t.dx
  dy : Fits32 t.dy
  rx1 : Fits32 t.rx1
  ry1 : Fits32 t.ry1
  rx2 : Fits32 t.rx2
  ry2 : Fits32 t.ry2

/-- The trace as the engine's divline. -/
def Trace.divline (t : Trace) : Divline :=
  ⟨Int32.ofInt t.x1, Int32.ofInt t.y1, Int32.ofInt t.dx, Int32.ofInt t.dy⟩

theorem nudged_eq (coord origin : Int32) :
    Engine.nudged coord origin = Int32.ofInt (nudged coord.toInt origin.toInt) := by
  have masked : ((coord - origin) &&& (0x800000 - 1)).toInt =
      (coord.toInt - origin.toInt) % 8388608 := by
    rw [toInt_and_mask (n := 23) (by decide) (by decide), Int32.toInt_sub, Int.bmod_def]
    split <;> omega
  have edge : (coord - origin) &&& (0x800000 - 1) = 0 ↔
      (coord.toInt - origin.toInt) % 8388608 = 0 := by
    rw [← masked]
    exact Int32.toInt_inj.symm
  rw [Engine.nudged, nudged]
  by_cases on : (coord.toInt - origin.toInt) % 8388608 = 0
  · rw [if_pos (edge.2 on), if_pos on, Int32.ofInt_add, Int32.ofInt_toInt]
    rfl
  · rw [if_neg fun h => on (edge.1 h), if_neg on, add_zero, Int32.ofInt_toInt]

theorem ofInt_shiftRight {i : Int} (fits : Fits32 i) {k : Int32} {n : Nat}
    (hk : (k.toBitVec.smod 32).toNat = n) : (Int32.ofInt i >>> k).toInt = i >>> n := by
  rw [toInt_shiftRight hk, toInt_ofInt fits, Int.shiftRight_eq_div_pow]
  norm_cast

theorem partialOf_bounds (mapstep rel : Int) :
    0 ≤ partialOf mapstep rel ∧ partialOf mapstep rel ≤ 65536 := by
  rw [partialOf]
  split
  · omega
  · split <;> omega

/-- One axis: neither side divides by zero, since the two ends are in different blocks. -/
theorem axis_eq {rel1 rel2 : Int} (other1 other2 : Int) (fits1 : Fits32 rel1)
    (fits : Fits32 (rel2 - rel1)) :
    ∃ step : Int32,
      stepOf (mapstep (rel1 >>> (23 : Nat)) (rel2 >>> (23 : Nat))) other1 other2 rel1 rel2 =
        .ok step.toInt ∧
      Engine.axis (rel1 >>> (23 : Nat)) (rel2 >>> (23 : Nat)) (Int32.ofInt rel1)
          (Int32.ofInt rel2) (Int32.ofInt other1) (Int32.ofInt other2) =
        .ok (mapstep (rel1 >>> (23 : Nat)) (rel2 >>> (23 : Nat)),
          Int32.ofInt (partialOf (mapstep (rel1 >>> (23 : Nat)) (rel2 >>> (23 : Nat))) rel1),
          step) := by
  have low : (Int32.ofInt rel1 >>> 7) &&& (fracUnit - 1) =
      Int32.ofInt ((rel1 >>> (7 : Nat)) % 65536) := by
    apply Int32.toInt_inj.1
    rw [toInt_and_mask (n := 16) (by decide) (by decide), ofInt_shiftRight fits1 rfl, toInt_ofInt]
    · rfl
    · constructor <;> omega
  have quotient : rel1 >>> (23 : Nat) ≠ rel2 >>> (23 : Nat) → ∃ step,
      Engine.fixedDiv (Int32.ofInt (other2 - other1)) (Int32.ofInt (rel2 - rel1)).abs =
        .ok step := by
    intro apart
    apply Engine.fixedDiv_ok
    rintro ⟨-, zero⟩
    have difference := toInt_ofInt fits
    rw [eq_zero_of_abs zero] at difference
    have same : rel1 = rel2 := by
      have := difference.symm
      rw [Int32.toInt_zero] at this
      omega
    exact apart (by rw [same])
  rw [stepOf, Engine.axis, Fixed.fixedDiv_eq, ofInt_abs fits, ← Int32.ofInt_sub, ← Int32.ofInt_sub,
    low]
  generalize rel1 >>> (23 : Nat) = t1 at *
  generalize rel2 >>> (23 : Nat) = t2 at *
  rcases lt_trichotomy t1 t2 with up | same | down
  · obtain ⟨step, eq⟩ := quotient up.ne
    have forward : mapstep t1 t2 = 1 := if_pos up
    refine ⟨step, ?_, ?_⟩
    · rw [forward, if_neg (by decide), eq]
      rfl
    · rw [forward, if_pos up, eq, partialOf, if_pos (by decide), Int32.ofInt_sub]
      rfl
  · have still : mapstep t1 t2 = 0 := by simp [mapstep, same]
    refine ⟨256 * fracUnit, ?_, ?_⟩
    · rw [still, if_pos rfl]
      rfl
    · rw [still, if_neg same.not_gt, if_neg same.not_lt]
      rfl
  · obtain ⟨step, eq⟩ := quotient down.ne'
    have back : mapstep t1 t2 = -1 := by rw [mapstep, if_neg down.not_gt, if_pos down]
    refine ⟨step, ?_, ?_⟩
    · rw [back, if_neg (by decide), eq]
      rfl
    · rw [back, if_neg down.not_gt, if_pos down, eq, partialOf, if_neg (by decide),
        if_pos (by decide)]
      rfl

/-- An intercept of the walk before its first step. -/
theorem interceptOf_eq {rel other mapstep : Int} (fits : Fits32 rel) (step : Int32) :
    (Int32.ofInt rel >>> 7) + Engine.fixedMul (Int32.ofInt (partialOf mapstep other)) step =
      Int32.ofInt (interceptOf rel mapstep other step.toInt) := by
  have shifted : Int32.ofInt rel >>> 7 = Int32.ofInt (rel >>> (7 : Nat)) := by
    rw [← ofInt_shiftRight fits (k := 7) (n := 7) rfl, Int32.ofInt_toInt]
  have part := partialOf_bounds mapstep other
  rw [interceptOf, Int32.ofInt_add, shifted, Engine.fixedMul_eq_ofInt,
    toInt_ofInt ⟨by omega, by omega⟩]

/-- The engine's path along a trace, given the two steps. -/
def Trace.path (t : Trace) (xstep ystep : Int32) : Engine.Path where
  trace := t.divline
  xt2 := t.xt2
  yt2 := t.yt2
  mapxstep := mapstep t.xt1 t.xt2
  mapystep := mapstep t.yt1 t.yt2
  xstep := xstep
  ystep := ystep
  start :=
    ⟨t.xt1, t.yt1,
      Int32.ofInt (interceptOf t.rx1 (mapstep t.yt1 t.yt2) t.ry1 xstep.toInt),
      Int32.ofInt (interceptOf t.ry1 (mapstep t.xt1 t.xt2) t.rx1 ystep.toInt)⟩

theorem path_eq {map : Blockmap} {x1 y1 x2 y2 : Int32} {t : Trace}
    (eq : trace map x1 y1 x2 y2 = t) (fits : t.Fits) :
    ∃ xstep ystep : Int32,
      stepOf (mapstep t.xt1 t.xt2) t.ry1 t.ry2 t.rx1 t.rx2 = .ok ystep.toInt ∧
      stepOf (mapstep t.yt1 t.yt2) t.rx1 t.rx2 t.ry1 t.ry2 = .ok xstep.toInt ∧
      Engine.path map x1 y1 x2 y2 = .ok (t.path xstep ystep) := by
  have across : t.rx2 - t.rx1 = t.dx := by
    subst eq
    simp only [trace]
    ring
  have along : t.ry2 - t.ry1 = t.dy := by
    subst eq
    simp only [trace]
    ring
  obtain ⟨ystep, eqY, axisX⟩ :=
    axis_eq (t.ry1) (t.ry2) fits.rx1 (across ▸ fits.dx : Fits32 (t.rx2 - t.rx1))
  obtain ⟨xstep, eqX, axisY⟩ :=
    axis_eq (t.rx1) (t.rx2) fits.ry1 (along ▸ fits.dy : Fits32 (t.ry2 - t.ry1))
  refine ⟨xstep, ystep, eqY, eqX, ?_⟩
  have startX : Engine.nudged x1 map.orgx = Int32.ofInt t.x1 := by rw [nudged_eq, ← eq]; rfl
  have startY : Engine.nudged y1 map.orgy = Int32.ofInt t.y1 := by rw [nudged_eq, ← eq]; rfl
  have dx : x2 - Int32.ofInt t.x1 = Int32.ofInt t.dx := by simp [← eq, trace]
  have dy : y2 - Int32.ofInt t.y1 = Int32.ofInt t.dy := by simp [← eq, trace]
  have rx1 : Int32.ofInt t.x1 - map.orgx = Int32.ofInt t.rx1 := by simp [← eq, trace]
  have ry1 : Int32.ofInt t.y1 - map.orgy = Int32.ofInt t.ry1 := by simp [← eq, trace]
  have rx2 : x2 - map.orgx = Int32.ofInt t.rx2 := by simp [← eq, trace]
  have ry2 : y2 - map.orgy = Int32.ofInt t.ry2 := by simp [← eq, trace]
  simp only [Engine.path, startX, startY, dx, dy, rx1, ry1, rx2, ry2,
    ofInt_shiftRight fits.rx1 (k := 23) (n := 23) rfl,
    ofInt_shiftRight fits.ry1 (k := 23) (n := 23) rfl,
    ofInt_shiftRight fits.rx2 (k := 23) (n := 23) rfl,
    ofInt_shiftRight fits.ry2 (k := 23) (n := 23) rfl, axisX, axisY, Engine.ok_bind,
    interceptOf_eq fits.rx1, interceptOf_eq fits.ry1]
  rfl

/-! ## The walk -/

/-- The two walks after the same steps.  A match at block `y` needs an intercept near `y`,
and one step from there ends less than a wrap away. -/
structure Follows (steps : Nat) (w : Engine.Walk) (n : Walk) : Prop where
  mapx : w.mapx = n.x
  mapy : w.mapy = n.y
  xintercept : w.xintercept = Int32.ofInt n.xintercept
  yintercept : w.yintercept = Int32.ofInt n.yintercept
  near_x : |n.x| ≤ 256 + steps
  near_y : |n.y| ≤ 256 + steps
  reach_x : |n.xintercept| ≤ 2181038080
  reach_y : |n.yintercept| ≤ 2181038080

/-- An intercept past 32 bits wraps to blocks far off every walk, so the engine's test of
the wrapped word is the test of the exact one. -/
theorem match_iff {intercept block : Int} (reach : |intercept| ≤ 2181038080)
    (near : |block| ≤ 320) :
    (Int32.ofInt intercept >>> 16).toInt = block ↔ intercept >>> (16 : Nat) = block := by
  rw [toInt_shiftRight (n := 16) rfl, Int32.toInt_ofInt, Int.shiftRight_eq_div_pow, Int.bmod_def]
  rw [abs_le] at reach near
  norm_num [Int32.size]
  split <;> omega

/-- One match moves an intercept by a step. -/
theorem reach_step {intercept block : Int} (here : intercept >>> (16 : Nat) = block)
    (near : |block| ≤ 320) (step : Int32) : |intercept + step.toInt| ≤ 2181038080 := by
  have low := step.le_toInt
  have high := step.toInt_lt
  rw [Int.shiftRight_eq_div_pow] at here
  rw [abs_le] at near ⊢
  norm_num at here
  omega

theorem mapstep_le (t1 t2 : Int) : |mapstep t1 t2| ≤ 1 := by
  rw [mapstep]
  split
  · decide
  · split <;> decide

theorem near_step {steps : Nat} {block : Int} (near : |block| ≤ 256 + steps) (t1 t2 : Int) :
    |block + mapstep t1 t2| ≤ 256 + (steps + 1 : Nat) := by
  have := mapstep_le t1 t2
  have := abs_add_le block (mapstep t1 t2)
  push_cast
  omega

variable (map : Blockmap) (t : Trace) (xstep ystep : Int32)

/-- One step: the loop leaves where the fold sets its flag, or both go on. -/
theorem walkStep_follows {steps : Nat} {w : Engine.Walk} {n : Walk}
    (follows : Follows steps w n) (running : n.done = false) (fewer : steps < 64) :
    (walkStep map t xstep.toInt ystep.toInt n).seen = n.seen ++ [cell map w.mapx w.mapy] ∧
    ((Engine.walkStep (t.path xstep ystep) w = none ∧
        (walkStep map t xstep.toInt ystep.toInt n).done = true) ∨
      ∃ next, Engine.walkStep (t.path xstep ystep) w = some next ∧
        (walkStep map t xstep.toInt ystep.toInt n).done = false ∧
        Follows (steps + 1) next (walkStep map t xstep.toInt ystep.toInt n)) := by
  obtain ⟨mapx, mapy, xintercept, yintercept, near_x, near_y, reach_x, reach_y⟩ := follows
  have near_x' : |n.x| ≤ 320 := near_x.trans (by omega)
  have near_y' : |n.y| ≤ 320 := near_y.trans (by omega)
  rw [Engine.walkStep, walkStep, mapx, mapy, xintercept, yintercept, if_neg (by simp [running])]
  simp only [Trace.path, match_iff reach_x near_x', match_iff reach_y near_y']
  by_cases arrived : n.x = t.xt2 ∧ n.y = t.yt2
  · simp only [if_pos arrived]
    exact ⟨trivial, .inl ⟨trivial, trivial⟩⟩
  simp only [if_neg arrived]
  by_cases row : n.yintercept >>> (16 : Nat) = n.y
  · simp only [if_pos row]
    refine ⟨trivial, .inr ⟨_, rfl, running, ?_⟩⟩
    exact
      { mapx := rfl
        mapy := rfl
        xintercept := rfl
        yintercept := by simp
        near_x := near_step near_x _ _
        near_y := near_y.trans (by omega)
        reach_x := reach_x
        reach_y := reach_step row near_y' ystep }
  simp only [if_neg row]
  by_cases column : n.xintercept >>> (16 : Nat) = n.x
  · simp only [if_pos column]
    refine ⟨trivial, .inr ⟨_, rfl, running, ?_⟩⟩
    exact
      { mapx := rfl
        mapy := rfl
        xintercept := by simp
        yintercept := rfl
        near_x := near_x.trans (by omega)
        near_y := near_step near_y _ _
        reach_x := reach_step column near_x' xstep
        reach_y := reach_y }
  · simp only [if_neg column]
    exact ⟨trivial, .inr ⟨w, by cases w; simp_all, running,
      ⟨mapx, mapy, xintercept, yintercept, near_x.trans (by omega), near_y.trans (by omega),
        reach_x, reach_y⟩⟩⟩

theorem iterate_done {n : Walk} (done : n.done = true) (count : Nat) :
    (walkStep map t xstep.toInt ystep.toInt)^[count] n = n := by
  induction count with
  | zero => rfl
  | succ count ih => rw [Function.iterate_succ_apply, walkStep, if_pos done, ih]

/-- The whole walk sees the blocks the loop stands in. -/
theorem iterate_seen (count : Nat) {steps : Nat} {w : Engine.Walk} {n : Walk}
    (follows : Follows steps w n) (running : n.done = false) (enough : steps + count ≤ 64) :
    ((walkStep map t xstep.toInt ystep.toInt)^[count] n).seen =
      n.seen ++ (Engine.visited (t.path xstep ystep) count w).map
        fun block => cell map block.1 block.2 := by
  induction count generalizing steps w n with
  | zero => simp [Engine.visited]
  | succ count ih =>
    obtain ⟨seen, ⟨left, done⟩ | ⟨next, stepped, running', follows'⟩⟩ :=
      walkStep_follows map t xstep ystep follows running (by omega)
    · rw [Function.iterate_succ_apply, iterate_done map t xstep ystep done, Engine.visited, left, seen]
      rfl
    · rw [Function.iterate_succ_apply, ih follows' running' (by omega), Engine.visited, stepped,
        seen, List.append_assoc]
      rfl

theorem block_bounds {rel : Int} (fits : Fits32 rel) : |rel >>> (23 : Nat)| ≤ 256 := by
  obtain ⟨low, high⟩ := fits
  rw [Int.shiftRight_eq_div_pow, abs_le]
  norm_num
  omega

theorem interceptOf_reach {rel mapstep other : Int} (fits : Fits32 rel) (step : Int32) :
    |interceptOf rel mapstep other step.toInt| ≤ 2181038080 := by
  obtain ⟨low, high⟩ := fits
  have part := partialOf_bounds mapstep other
  have stepLow := step.le_toInt
  have stepHigh := step.toInt_lt
  have productLow : -140737488355328 ≤ partialOf mapstep other * step.toInt := by nlinarith
  have productHigh : partialOf mapstep other * step.toInt ≤ 140737488355328 := by nlinarith
  rw [interceptOf, Int.shiftRight_eq_div_pow, Int.shiftRight_eq_div_pow, abs_le]
  norm_num
  omega

variable {t}

theorem follows_start (fits : t.Fits) :
    Follows 0 (t.path xstep ystep).start
      ⟨t.xt1, t.yt1, interceptOf t.rx1 (mapstep t.yt1 t.yt2) t.ry1 xstep.toInt,
        interceptOf t.ry1 (mapstep t.xt1 t.xt2) t.rx1 ystep.toInt, false, []⟩ :=
  ⟨rfl, rfl, rfl, rfl, block_bounds fits.rx1, block_bounds fits.ry1,
    interceptOf_reach fits.rx1 xstep, interceptOf_reach fits.ry1 ystep⟩

/-- `pt_cells`: the numbers of the blocks the loop stands in, those on the map. -/
theorem cells_eq (fits : t.Fits) :
    cells map t xstep.toInt ystep.toInt =
      ((Engine.visited (t.path xstep ystep) 64 (t.path xstep ystep).start).map
        fun block => cell map block.1 block.2).filter (· ≥ 0) := by
  have seen := iterate_seen map t xstep ystep 64 (follows_start xstep ystep fits) rfl (by decide)
  rw [cells, List.foldl_const, List.length_range, seen]
  rfl

/-! ## What is reached -/

theorem cell_eq (map : Blockmap) (mapx mapy : Int) :
    cell map mapx mapy =
      match Engine.numberAt map mapx mapy with
      | none => -1
      | some number => (number : Int) := by
  rw [cell, Engine.numberAt]
  by_cases inside : mapx ≥ 0 ∧ mapx < map.width ∧ mapy ≥ 0 ∧ mapy < map.height
  · rw [if_pos inside, if_neg (by omega)]
    obtain ⟨mapx, rfl⟩ := Int.eq_ofNat_of_zero_le inside.1
    obtain ⟨mapy, rfl⟩ := Int.eq_ofNat_of_zero_le inside.2.2.1
    simp [Blockmap.number]
  · rw [if_neg inside, if_pos (by omega)]

theorem filter_cells (map : Blockmap) (blocks : List (Int × Int)) :
    (blocks.map fun block => cell map block.1 block.2).filter (· ≥ 0) =
      (Engine.onMap map blocks).map Nat.cast := by
  induction blocks with
  | nil => rfl
  | cons block rest ih =>
    rw [List.map_cons, List.filter_cons, cell_eq, Engine.onMap, List.filterMap_cons]
    cases Engine.numberAt map block.1 block.2 with
    | none => exact ih
    | some number =>
      rw [if_pos (by simp), List.map_cons]
      exact congrArg _ ih

/-- The things stand on the map, are linked in it, and no two were linked at once. -/
structure Linked (map : Blockmap) (things : List Thing) : Prop where
  linked : ∀ thing ∈ things, thing.alive = true → thing.noblockmap = false
  column : ∀ thing ∈ things, thing.alive = true →
    0 ≤ thing.x.toInt - map.orgx.toInt ∧
      thing.x.toInt - map.orgx.toInt < map.width * 8388608
  row : ∀ thing ∈ things, thing.alive = true →
    0 ≤ thing.y.toInt - map.orgy.toInt ∧
      thing.y.toInt - map.orgy.toInt < map.height * 8388608
  ordered : (things.filter (·.alive)).Pairwise fun a b => a.linkseq ≠ b.linkseq

/-- A coordinate on a map of at most 255 blocks is in the block its offset gives. -/
theorem blockAt_bounds {coordinate origin : Int32} {size : Nat} (small : size ≤ 255)
    (inside : 0 ≤ coordinate.toInt - origin.toInt ∧
      coordinate.toInt - origin.toInt < size * 8388608) :
    (coordinate - origin).toInt = coordinate.toInt - origin.toInt ∧
      0 ≤ Engine.blockAt coordinate origin ∧ Engine.blockAt coordinate origin < size := by
  have fits : (coordinate - origin).toInt = coordinate.toInt - origin.toInt := by
    rw [Int32.toInt_sub]
    apply Int.bmod_eq_of_le <;> norm_num <;> omega
  refine ⟨fits, ?_⟩
  rw [Blocks.blockAt_eq fits, Int.shiftRight_eq_div_pow]
  norm_num
  omega

/-- On a map of at most 255 blocks, each thing is looked for under its block. -/
theorem Linked.toOrdered {map : Blockmap} {things : List Thing} (linked : Linked map things)
    (small : map.width ≤ 255 ∧ map.height ≤ 255) : Blocks.Ordered map things where
  held thing there alive := by
    obtain ⟨fitsX, lowX, highX⟩ := blockAt_bounds small.1 (linked.column _ there alive)
    obtain ⟨fitsY, lowY, highY⟩ := blockAt_bounds small.2 (linked.row _ there alive)
    refine Blocks.cellOf_beq ⟨fitsX, fitsY⟩ (linked.linked _ there alive) ?_
    have found : map.blockOf thing = some ⟨(Engine.blockAt thing.x map.orgx).toNat,
        (Engine.blockAt thing.y map.orgy).toNat⟩ := by
      rw [Engine.blockOf_eq_some]
      dsimp only
      omega
    rw [found]
    rfl
  apart := linked.ordered

theorem foldl_walkBlock {level : PathLevel} {things : List Thing}
    (linked : Linked level.map things)
    (small : level.map.width ≤ 255 ∧ level.map.height ≤ 255) {cells : List Int}
    {numbers : List Nat} (visited : ∀ number ∈ numbers, (number : Int) ∈ cells)
    (walk : List Entry × List Nat) :
    ((numbers.map Nat.cast).foldl (Blocks.walkBlock level.map level.blockLines cells things)
        walk).1 =
      walk.1 ++ Engine.reached level (some things) walk.2 numbers := by
  induction numbers generalizing walk with
  | nil => simp [Engine.reached]
  | cons number rest ih =>
    have here := visited number List.mem_cons_self
    have later := fun number member => visited number (List.mem_cons_of_mem _ member)
    rw [List.map_cons, List.foldl_cons, ih later, Blocks.walkBlock, Engine.reached,
      Marks.fresh_eq, (linked.toOrdered small).inBlock_eq here, Int.toNat_natCast]
    simp only [List.append_assoc, Engine.thingsOf]
    congr 3
    apply Engine.reached_congr
    intro line
    simp [or_comm]

/-- Without things, block by block is the distinct lines of all the blocks. -/
theorem reached_lines (level : PathLevel) (checked numbers : List Nat) :
    Engine.reached level none checked numbers =
      (Marks.fresh checked
        (numbers.map fun number => level.blockLines.getD number []).flatten).map Entry.line := by
  induction numbers generalizing checked with
  | nil => rfl
  | cons number rest ih =>
    rw [Engine.reached, ih, List.map_cons, List.flatten_cons, Marks.fresh_append]
    simp [Engine.thingsOf]

/-- The list the fold builds is what the iterators hand on. -/
theorem walked_eq {level : PathLevel} {things : Option (List Thing)}
    (linked : ∀ list ∈ things, Linked level.map list)
    (small : level.map.width ≤ 255 ∧ level.map.height ≤ 255) (numbers : List Nat) :
    walked level things (numbers.map Nat.cast) = Engine.reached level things [] numbers := by
  cases things with
  | none =>
    rw [walked, reached_lines, Marks.fresh_eq, List.map_map]
    congr 1
    simp [Function.comp_def]
  | some list =>
    refine (foldl_walkBlock (linked list rfl) small ?_ ([], [])).trans rfl
    intro number member
    exact List.mem_map_of_mem member

/-! ## The fractions -/

theorem ofInt64_eq {i : Int} (fits : Fits32 i) : Int64.ofInt i = (Int32.ofInt i).toInt64 := by
  have greatest : Int32.maxValue.toInt = 2147483647 := by decide
  have high := fits.2
  exact (Int32.toInt64_ofInt fits.1 (by omega)).symm

theorem widen_eq_zero {x : Int32} : x.toInt64 = 0 ↔ x = 0 := by
  rw [← widen_zero, widen_inj]

theorem widen_pos {x : Int32} : x.toInt64 > 0 ↔ x > 0 := by
  rw [← widen_zero, gt_iff_lt, widen_lt]

theorem widen_neg {x : Int32} : x.toInt64 < 0 ↔ x < 0 := by
  rw [← widen_zero, widen_lt]

theorem widen_mask {x : Int32} : x.toInt64 &&& -2147483648 ≠ 0 ↔ x &&& -2147483648 ≠ 0 := by
  rw [show (-2147483648 : Int64) = (-2147483648 : Int32).toInt64 from by decide,
    ← Int32.toInt64_and, ne_eq, ne_eq, widen_eq_zero]

/-- The side of a trace that 32 bits hold. -/
theorem sideOfTrace_eq {t : Trace} (fits : t.Fits) (x y : Int32) :
    sideOfTrace x y t = Engine.pointOnDivlineSide x y t.divline := by
  rw [← Fixed.pointOnSide_divline, Trace.divline, sideOfTrace, ofInt64_eq fits.x1,
    ofInt64_eq fits.y1, ofInt64_eq fits.dx, ofInt64_eq fits.dy]
  generalize Int32.ofInt t.x1 = lx
  generalize Int32.ofInt t.y1 = ly
  generalize Int32.ofInt t.dx = ldx
  generalize Int32.ofInt t.dy = ldy
  have shift : ∀ x : Int32, x.toInt64 >>> 8 = (x >>> 8).toInt64 := fun x =>
    widen_shiftRight x (n := 8) rfl rfl
  simp only [Fixed.pointOnSide, Fixed.sideProducts, Fixed.fixedMul, Fixed.sub32_eq,
    Int64.toInt32_sub, Int32.toInt32_toInt64, shift, ← Int32.toInt64_xor, widen_eq_zero, widen_le,
    widen_pos, widen_neg, widen_mask, show (8 : Int32) ≠ 16 from by decide, if_false]

/-- The engine adds what does not lie behind the start. -/
def added (frac : Int32) : Option Int32 := if frac < 0 then none else some frac

theorem far_iff {t : Trace} (fits : t.Fits) :
    (t.dx > 16 * 65536 ∨ t.dy > 16 * 65536 ∨ t.dx < -(16 * 65536) ∨ t.dy < -(16 * 65536)) ↔
      (t.divline.dx > fracUnit * 16 ∨ t.divline.dy > fracUnit * 16 ∨
        t.divline.dx < -fracUnit * 16 ∨ t.divline.dy < -fracUnit * 16) := by
  have far : (fracUnit * 16).toInt = 1048576 := by decide
  have back : (-fracUnit * 16).toInt = -1048576 := by decide
  simp only [Trace.divline, gt_iff_lt, Int32.lt_iff_toInt_lt, toInt_ofInt fits.dx,
    toInt_ofInt fits.dy, far, back]
  norm_num

/-- `PIT_AddLineIntercepts`. -/
theorem lineFrac_eq {t : Trace} (fits : t.Fits) (line : Line) :
    ∃ frac, lineFrac t line = .ok frac ∧
      Engine.addLineIntercepts t.divline line = .ok (added frac) := by
  obtain ⟨frac, eq⟩ := Engine.interceptVector_ok t.divline line.divline
  have vector : Fixed.interceptVector (Int32.ofInt t.x1) (Int32.ofInt t.y1) (Int32.ofInt t.dx)
      (Int32.ofInt t.dy) line.v1x line.v1y line.divline.dx line.divline.dy = .ok frac :=
    (Fixed.interceptVector_eq t.divline line.divline).trans eq
  have sides : ∀ x y : Int32, Fixed.pointOnLineSide x y line.v1x line.v1y line.divline.dx
      line.divline.dy = Engine.pointOnLineSide x y line.divline := fun x y =>
    Fixed.pointOnLineSide_eq x y line.divline
  simp only [lineFrac, Engine.addLineIntercepts, ← far_iff fits, sideOfTrace_eq fits, sides,
    vector, eq, Engine.ok_bind, Int32.ofInt_add]
  by_cases far : t.dx > 16 * 65536 ∨ t.dy > 16 * 65536 ∨ t.dx < -(16 * 65536) ∨
      t.dy < -(16 * 65536)
  · simp only [if_pos far]
    by_cases same : Engine.pointOnDivlineSide line.v1x line.v1y t.divline =
        Engine.pointOnDivlineSide line.v2x line.v2y t.divline
    · exact ⟨-1, if_neg (not_not.2 same), if_pos same⟩
    · exact ⟨frac, if_pos same, if_neg same⟩
  · simp only [if_neg far]
    by_cases same : Engine.pointOnLineSide (Int32.ofInt t.x1) (Int32.ofInt t.y1) line.divline =
        Engine.pointOnLineSide (Int32.ofInt t.x1 + Int32.ofInt t.dx)
          (Int32.ofInt t.y1 + Int32.ofInt t.dy) line.divline
    · exact ⟨-1, if_neg (not_not.2 same), if_pos same⟩
    · exact ⟨frac, if_pos same, if_neg same⟩

/-- `PIT_AddThingIntercepts`. -/
theorem thingFrac_eq {t : Trace} (fits : t.Fits) (thing : Thing) :
    ∃ frac, thingFrac t thing = .ok frac ∧
      Engine.addThingIntercepts t.divline thing = .ok (added frac) := by
  have corner : ∀ up : Prop, [Decidable up] → ∀ a b : Int,
      Int32.ofInt (if up then a else b) = if up then Int32.ofInt a else Int32.ofInt b :=
    fun up _ a b => apply_ite Int32.ofInt up a b
  simp only [thingFrac, Engine.addThingIntercepts, sideOfTrace_eq fits, corner, Int32.ofInt_add,
    Int32.ofInt_sub, Int32.ofInt_toInt, Fixed.sub32_eq]
  show ∃ frac,
    (let x1 := thing.x - thing.radius
     let y1 := if t.divline.dx ^^^ t.divline.dy > 0 then thing.y + thing.radius
       else thing.y - thing.radius
     let x2 := thing.x + thing.radius
     let y2 := if t.divline.dx ^^^ t.divline.dy > 0 then thing.y - thing.radius
       else thing.y + thing.radius
     if Engine.pointOnDivlineSide x1 y1 t.divline = Engine.pointOnDivlineSide x2 y2 t.divline then
       Except.ok (-1)
     else Fixed.interceptVector t.divline.x t.divline.y t.divline.dx t.divline.dy x1 y1
       (x2 - x1) (y2 - y1)) = .ok frac ∧ _
  generalize thing.x - thing.radius = x1
  generalize thing.x + thing.radius = x2
  generalize (if t.divline.dx ^^^ t.divline.dy > 0 then thing.y + thing.radius
    else thing.y - thing.radius) = y1
  generalize (if t.divline.dx ^^^ t.divline.dy > 0 then thing.y - thing.radius
    else thing.y + thing.radius) = y2
  obtain ⟨frac, eq⟩ := Engine.interceptVector_ok t.divline ⟨x1, y1, x2 - x1, y2 - y1⟩
  by_cases same : Engine.pointOnDivlineSide x1 y1 t.divline =
      Engine.pointOnDivlineSide x2 y2 t.divline
  · exact ⟨-1, if_pos same, if_pos same⟩
  · refine ⟨frac, ?_, ?_⟩
    · simp only [if_neg same]
      exact (Fixed.interceptVector_eq t.divline ⟨x1, y1, x2 - x1, y2 - y1⟩).trans eq
    · simp only [if_neg same, eq, Engine.ok_bind]
      rfl

/-! ## The whole traversal -/

/-- One fraction for each entry, as both sides compute it. -/
theorem fracs_exist (level : PathLevel) (things : Option (List Thing)) {t : Trace}
    (fits : t.Fits) :
    ∃ frac : Entry → Int32, Engine.Adds level things t.divline (added ∘ frac) ∧
      (∀ number, hit level things t (.line number) = .ok ⟨frac (.line number), .line number⟩) ∧
      ∀ slot thing, (things.getD [])[slot]? = some thing →
        hit level things t (.thing slot) = .ok ⟨frac (.thing slot), .thing slot⟩ := by
  have lines : ∀ number, ∃ frac, lineFrac t (level.lines.getD number default) = .ok frac ∧
      Engine.addLineIntercepts t.divline (level.lines.getD number default) = .ok (added frac) :=
    fun number => lineFrac_eq fits _
  have slots : ∀ slot : Nat, ∃ frac, ∀ thing, (things.getD [])[slot]? = some thing →
      thingFrac t thing = .ok frac ∧
        Engine.addThingIntercepts t.divline thing = .ok (added frac) := by
    intro slot
    cases there : (things.getD [])[slot]? with
    | none => exact ⟨0, fun thing eq => by cases eq⟩
    | some thing =>
      obtain ⟨frac, eq⟩ := thingFrac_eq fits thing
      exact ⟨frac, fun thing eq' => by cases eq'; exact eq⟩
  choose lineAt lineEq using lines
  choose thingAt thingEq using slots
  refine ⟨fun entry => entry.casesOn lineAt thingAt, ⟨?_, ?_⟩, ?_, ?_⟩
  · exact fun number => (lineEq number).2
  · exact fun slot thing eq => (thingEq slot thing eq).2
  · intro number
    rw [hit, (lineEq number).1]
    rfl
  · intro slot thing eq
    have read : readTable (things.getD []) slot = .ok thing := by
      rw [readTable, if_neg (by omega), Int.toNat_natCast, eq]
    rw [hit, read]
    show (thingFrac t thing >>= _) = _
    rw [(thingEq slot thing eq).1]
    rfl

/-- Dropping what lies behind and then what lies past the end is one filter. -/
theorem filter_hits (frac : Entry → Int32) (entries : List Entry) :
    (entries.map fun entry => (⟨frac entry, entry⟩ : Intercept)).filter
        (fun intercept => intercept.frac ≥ 0 && intercept.frac ≤ 65536) =
      Engine.inReach (entries.filterMap (Engine.atFrac (added ∘ frac))) := by
  induction entries with
  | nil => rfl
  | cons entry rest ih =>
    rw [List.map_cons, List.filter_cons, ih, List.filterMap_cons, Engine.atFrac,
      Function.comp_apply, added]
    by_cases behind : frac entry < 0
    · have : ¬frac entry ≥ 0 := Int32.not_le.2 behind
      simp [behind, this]
    · have ahead : frac entry ≥ 0 := Int32.not_lt.1 behind
      rw [if_neg behind]
      by_cases within : frac entry ≤ 65536
      · have : frac entry ≤ fracUnit := within
        simp [ahead, within, Engine.inReach, this]
      · have : ¬frac entry ≤ fracUnit := within
        simp [within, Engine.inReach, this]

/-- On a map of at most 255 by 255 blocks whose things stand on it and are linked in it,
for a trace that 32 bits hold and that meets fewer than 129 intercepts, the answer is the
list `P_TraverseIntercepts` hands on. -/
theorem pathTraverse_eq_engine (level : PathLevel)
    (small : level.map.width ≤ 255 ∧ level.map.height ≤ 255) (things : Option (List Thing))
    (linked : ∀ list ∈ things, Linked level.map list) (x1 y1 x2 y2 : Int32)
    (fits : (trace level.map x1 y1 x2 y2).Fits)
    (few : ∀ intercepts, Engine.collected level things x1 y1 x2 y2 = .ok intercepts →
      intercepts.length < 129) :
    ∃ intercepts, pathTraverse level things x1 y1 x2 y2 = .ok intercepts ∧
      Engine.pathTraverse level things x1 y1 x2 y2 = .ok (some intercepts) := by
  generalize eq : trace level.map x1 y1 x2 y2 = t at fits
  obtain ⟨xstep, ystep, eqY, eqX, path⟩ := path_eq eq fits
  obtain ⟨frac, adds, lineHit, thingHit⟩ := fracs_exist level things fits
  have collected := Engine.collected_eq path adds
  have few := few _ collected
  have reached : walked level things (cells level.map t xstep.toInt ystep.toInt) =
      Engine.reached level things [] (Engine.onMap level.map
        (Engine.visited (t.path xstep ystep) 64 (t.path xstep ystep).start)) := by
    rw [cells_eq _ _ _ fits, filter_cells, walked_eq linked small]
  have things_there : ∀ slot, Entry.thing slot ∈ Engine.reached level things []
      (Engine.onMap level.map
        (Engine.visited (t.path xstep ystep) 64 (t.path xstep ystep).start)) →
      ∃ thing, (things.getD [])[slot]? = some thing := fun slot => Engine.mem_reached_thing
  generalize Engine.reached level things [] (Engine.onMap level.map
    (Engine.visited (t.path xstep ystep) 64 (t.path xstep ystep).start)) = entries at *
  have hits : entries.mapM (hit level things t) =
      .ok (entries.map fun entry => ⟨frac entry, entry⟩) := by
    apply Engine.mapM_ok
    intro entry member
    cases entry with
    | line number => exact lineHit number
    | thing slot =>
      obtain ⟨thing, there⟩ := things_there slot member
      exact thingHit slot thing there
  refine ⟨Engine.traverseIntercepts (entries.filterMap (Engine.atFrac (added ∘ frac))), ?_, ?_⟩
  · rw [pathTraverse, eq, eqY, Engine.ok_bind, eqX, Engine.ok_bind, reached]
    show (entries.mapM (hit level things t) >>= _) = _
    rw [hits, Engine.ok_bind, filter_hits, StableSort.byKeyAndPlace_eq,
      Engine.traverseIntercepts_eq]
    rfl
  · rw [Engine.pathTraverse, collected, Engine.ok_bind, if_pos (by omega)]
    rfl

/-- Two blocks by two; the trace of the witness crosses a line and a thing at the same
fraction, in different blocks. -/
def smallLevel : PathLevel where
  map := ⟨0, 0, 2, 2⟩
  lines := [⟨8388608, 0, 8388608, 16777216, true, true⟩]
  blockLines := [[0], [0], [], []]

def smallThings : List Thing :=
  [⟨8388608, 4194304, 1048576, 1, true, false⟩, ⟨12582912, 4194304, 1048576, 2, true, false⟩]

theorem smallThings_linked : Linked smallLevel.map smallThings where
  linked := by decide
  column := by decide
  row := by decide
  ordered := by decide

/-- The traversal meets the line and both things in one order on both sides. -/
theorem pathTraverse_small :
    (smallLevel.map.width ≤ 255 ∧ smallLevel.map.height ≤ 255) ∧
    Linked smallLevel.map smallThings ∧
    (trace smallLevel.map 4194304 4194304 14680064 4194304).Fits ∧
    ∃ intercepts,
      pathTraverse smallLevel (some smallThings) 4194304 4194304 14680064 4194304 =
        .ok intercepts ∧
      Engine.pathTraverse smallLevel (some smallThings) 4194304 4194304 14680064 4194304 =
        .ok (some intercepts) := by
  have fits : (trace smallLevel.map 4194304 4194304 14680064 4194304).Fits :=
    ⟨by decide, by decide, by decide, by decide, by decide, by decide, by decide, by decide⟩
  refine ⟨by decide, smallThings_linked, fits, ?_⟩
  apply pathTraverse_eq_engine smallLevel (by decide) (some smallThings) ?_ _ _ _ _ fits ?_
  · rintro list ⟨⟩
    exact smallThings_linked
  · intro intercepts eq
    have three : (Engine.collected smallLevel (some smallThings) 4194304 4194304 14680064
        4194304).map List.length = .ok 3 := by decide +kernel
    rw [eq] at three
    have three : intercepts.length = 3 := Except.ok.inj three
    omega

end ClickDoom.Native.Traverse

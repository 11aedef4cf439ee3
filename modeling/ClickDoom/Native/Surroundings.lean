import ClickDoom.Base.SignedWords
import ClickDoom.Engine.Surroundings
import ClickDoom.Native.Press

/-! # The heights around a sector, in the query

`next_highest_floor` of `native/src/sql/sim/plats.rs` and `highest_floor_surrounding` of
`floor.rs`, beside the two searches of `plane.rs`, against the searches of `p_spec.c`.
-/
namespace ClickDoom.Native.Surroundings
open Engine (Border Climb getNextSector heightAt)
open Press (Level otherSector neighbours lowestCeilingSurrounding lowestFloorSurrounding)

/-- `highest_floor_surrounding`. -/
def highestFloorSurrounding (level : Level) (heights : List Int32) (sector : Int) : Int :=
  (neighbours level heights sector).foldl max (-500 * 65536)

/-- The accumulator of `next_highest_floor`. -/
structure NextHighest where
  height : Int
  count : Nat
  min : Int
  overflow : Bool
  deriving DecidableEq, Repr

def nextStep (level : Level) (heights : List Int32) (sector : Int) (acc : NextHighest)
    (line : Nat) : NextHighest :=
  let of := (heights.getD (otherSector level sector line).toNat 0).toInt
  if level.lineFlags.getD line 0 &&& 4 = 0 ∨ otherSector level sector line < 0 ∨
      of ≤ acc.height then acc
  else
    { height := if acc.count + 1 = 22 then of else acc.height
      count := acc.count + 1
      min := if acc.count + 1 = 23 then acc.min else Min.min acc.min of
      overflow := if acc.count + 1 = 23 then true else acc.overflow }

/-- `next_highest_floor`. -/
def nextHighestFloor (level : Level) (heights : List Int32) (sector : Int) : NextHighest :=
  (level.secLines.getD sector.toNat []).foldl (nextStep level heights sector)
    ⟨(heights.getD sector.toNat 0).toInt, 0, 9223372036854775807, false⟩

/-- `plat_next_high`: the height a plat reads of the answer. -/
def platNextHigh (level : Level) (heights : List Int32) (sector : Int) : Int :=
  let next := nextHighestFloor level heights sector
  if next.count = 0 then (heights.getD sector.toNat 0).toInt else next.min

/-! ## The lines of the level -/

/-- The sector of a side, none for -1. -/
def asSector (number : Int) : Option Nat := if number < 0 then none else some number.toNat

/-- A line as the engine holds it. -/
def border (level : Level) (line : Nat) : Border :=
  ⟨level.lineFlags.getD line 0, asSector (level.lineFront.getD line 0),
    asSector (level.lineBack.getD line 0)⟩

/-- The lines of a sector, in their order. -/
def borders (level : Level) (sec : Nat) : List Border :=
  (level.secLines.getD sec []).map (border level)

variable {level : Level} {heights : List Int32} {sec : Nat}

theorem asSector_eq_some {number : Int} : asSector number = some sec ↔ number = sec := by
  rw [asSector]
  split
  · simp only [reduceCtorEq, false_iff]
    omega
  · rw [Option.some.injEq]
    omega

theorem getNextSector_border (line : Nat) :
    getNextSector (border level line) sec =
      if level.lineFlags.getD line 0 &&& 4 = 0 then none
      else asSector (otherSector level sec line) := by
  rw [getNextSector, border, otherSector, Engine.mlTwosided]
  dsimp only
  congr 1
  by_cases front : level.lineFront.getD line 0 = sec
  · rw [if_pos (asSector_eq_some.2 front), if_pos front]
  · rw [if_neg (fun h => front (asSector_eq_some.1 h)), if_neg front]

/-! ## Running extremes -/

/-- The lines the query keeps are those with a sector across them. -/
theorem filterMap_asSector (passes : Nat → Prop) [DecidablePred passes] (other : Nat → Int)
    (lines : List Nat) :
    (lines.filterMap fun line => if passes line then none else asSector (other line)) =
      (lines.filter fun line => ¬passes line ∧ other line ≥ 0).map fun line =>
        (other line).toNat := by
  induction lines with
  | nil => rfl
  | cons line rest ih =>
    rw [List.filterMap_cons, List.filter_cons, asSector, ih]
    by_cases plain : passes line
    · rw [if_pos plain, if_neg (by simp [plain])]
    · rw [if_neg plain]
      by_cases missing : other line < 0
      · rw [if_pos missing, if_neg (by simp [missing])]
      · rw [if_neg missing, if_pos (by simp [plain, not_lt.1 missing])]
        rfl

/-- The neighbours of the query are the sectors the engine's searches look at. -/
theorem neighbours_eq (level : Level) (heights : List Int32) (sec : Nat) :
    neighbours level heights sec = ((borders level sec).filterMap fun line =>
      getNextSector line sec).map fun other => (heightAt heights other).toInt := by
  rw [neighbours, borders, Int.toNat_natCast, List.filterMap_map]
  have across : (fun line => getNextSector line sec) ∘ border level =
      fun line => if level.lineFlags.getD line 0 &&& 4 = 0 then none
        else asSector (otherSector level sec line) := funext getNextSector_border
  rw [across, filterMap_asSector, List.map_map]
  rfl

/-- A search keeps the extreme of the heights it looks at. -/
theorem findSurrounding_eq {passes : Int32 → Int32 → Bool} {pick : Int → Int → Int}
    (picks : ∀ a b : Int32, pick a.toInt b.toInt = (if passes b a then b else a).toInt)
    (lines : List Border) (start : Int32) :
    (Engine.findSurrounding lines heights sec passes start).toInt =
      ((lines.filterMap fun line => getNextSector line sec).map fun other =>
        (heightAt heights other).toInt).foldl pick start.toInt := by
  rw [Engine.findSurrounding]
  induction lines generalizing start with
  | nil => rfl
  | cons line rest ih =>
    rw [List.foldl_cons, ih, List.filterMap_cons]
    cases getNextSector line sec with
    | none => rfl
    | some other => rw [List.map_cons, List.foldl_cons, picks]

theorem min_picks (a b : Int32) :
    min a.toInt b.toInt = (if decide (b < a) then b else a).toInt := by
  by_cases less : b < a
  · rw [if_pos (by simpa using less)]
    have := Int32.lt_iff_toInt_lt.1 less
    omega
  · rw [if_neg (by simpa using less)]
    have := Int32.le_iff_toInt_le.1 (Int32.not_lt.1 less)
    omega

theorem max_picks (a b : Int32) :
    max a.toInt b.toInt = (if decide (b > a) then b else a).toInt := by
  by_cases more : b > a
  · rw [if_pos (by simpa using more)]
    have := Int32.lt_iff_toInt_lt.1 more
    omega
  · rw [if_neg (by simpa using more)]
    have := Int32.le_iff_toInt_le.1 (Int32.not_lt.1 more)
    omega

/-! ## The buffer -/

/-- The fold follows the engine's loop until the loop stops with an error. -/
structure Follows (acc : NextHighest) (state : Climb) : Prop where
  height : acc.height = state.height.toInt
  count : acc.count = state.heightlist.length
  room : state.heightlist.length ≤ 22
  min : acc.min = (state.heightlist.map Int32.toInt).foldl Min.min 9223372036854775807
  quiet : acc.overflow = false

theorem foldl_min_append (list : List Int32) (height : Int32) (start : Int) :
    ((list ++ [height]).map Int32.toInt).foldl Min.min start =
      Min.min ((list.map Int32.toInt).foldl Min.min start) height.toInt := by
  rw [List.map_append, List.foldl_append]
  rfl

/-- One line: both go on alike, or the engine stops and the flag is raised. -/
theorem nextStep_follows (level : Level) (heights : List Int32) (sec : Nat) {acc : NextHighest}
    {state : Climb} (follows : Follows acc state) (line : Nat) :
    match Engine.climb heights sec state (border level line) with
    | some next => Follows (nextStep level heights sec acc line) next
    | none => (nextStep level heights sec acc line).overflow = true := by
  obtain ⟨height, count, room, least, quiet⟩ := follows
  rw [Engine.climb, getNextSector_border, nextStep, asSector]
  by_cases plain : level.lineFlags.getD line 0 &&& 4 = 0
  · rw [if_pos plain, if_pos (Or.inl plain)]
    exact ⟨height, count, room, least, quiet⟩
  rw [if_neg plain]
  by_cases missing : otherSector level sec line < 0
  · rw [if_pos missing, if_pos (Or.inr (Or.inl missing))]
    exact ⟨height, count, room, least, quiet⟩
  rw [if_neg missing]
  dsimp only
  rw [← heightAt]
  by_cases above : heightAt heights (otherSector level sec line).toNat > state.height
  · have rises := Int32.lt_iff_toInt_lt.1 above
    have taken : ¬(level.lineFlags.getD line 0 &&& 4 = 0 ∨ otherSector level sec line < 0 ∨
        (heightAt heights (otherSector level sec line).toNat).toInt ≤ acc.height) := by
      rintro (flat | none | under)
      · exact plain flat
      · exact missing none
      · omega
    rw [if_pos above, if_neg taken]
    by_cases last : state.heightlist.length = 21
    · rw [if_pos last]
      refine ⟨?_, ?_, ?_, ?_, ?_⟩
      · exact if_pos (by omega)
      · simp [count]
      · simp [last]
      · rw [foldl_min_append, ← least]
        exact if_neg (by omega)
      · exact (if_neg (by omega)).trans quiet
    · rw [if_neg last]
      by_cases full : state.heightlist.length = 22
      · rw [if_pos full]
        exact if_pos (by omega)
      · rw [if_neg full]
        refine ⟨?_, ?_, ?_, ?_, ?_⟩
        · exact (if_neg (by omega)).trans height
        · simp [count]
        · simp only [List.length_append, List.length_singleton]
          omega
        · rw [foldl_min_append, ← least]
          exact if_neg (by omega)
        · exact (if_neg (by omega)).trans quiet
  · have low := Int32.le_iff_toInt_le.1 (Int32.not_lt.1 above)
    rw [if_neg above, if_pos (Or.inr (Or.inr (by omega)))]
    exact ⟨height, count, room, least, quiet⟩

/-- The flag stays. -/
theorem foldl_overflow {acc : NextHighest} (raised : acc.overflow = true) (lines : List Nat) :
    (lines.foldl (nextStep level heights sec) acc).overflow = true := by
  induction lines generalizing acc with
  | nil => exact raised
  | cons line rest ih =>
    rw [List.foldl_cons]
    apply ih
    rw [nextStep]
    split
    · exact raised
    · simp only [raised, ite_self]

theorem foldl_follows (level : Level) (heights : List Int32) (sec : Nat) {acc : NextHighest}
    {state : Climb} (follows : Follows acc state) (lines : List Nat) :
    match (lines.map (border level)).foldlM (Engine.climb heights sec) state with
    | some last => Follows (lines.foldl (nextStep level heights sec) acc) last
    | none => (lines.foldl (nextStep level heights sec) acc).overflow = true := by
  induction lines generalizing acc state with
  | nil => exact follows
  | cons line rest ih =>
    have step := nextStep_follows level heights sec follows line
    rw [List.map_cons, List.foldlM_cons, List.foldl_cons]
    cases stepped : Engine.climb heights sec state (border level line) with
    | none =>
      rw [stepped] at step
      exact foldl_overflow step rest
    | some next =>
      rw [stepped] at step
      exact ih step

/-! ## The answers -/

/-- The least of a list below the start is the engine's. -/
theorem lowestOf_cons (currentheight first : Int32) (rest : List Int32) :
    (Engine.lowestOf currentheight (first :: rest)).toInt =
      ((first :: rest).map Int32.toInt).foldl Min.min 9223372036854775807 := by
  have start : Min.min 9223372036854775807 first.toInt = first.toInt := by
    have := first.toInt_lt
    omega
  rw [Engine.lowestOf, List.map_cons, List.foldl_cons, start]
  clear start
  induction rest generalizing first with
  | nil => rfl
  | cons height rest ih =>
    rw [List.foldl_cons, List.map_cons, List.foldl_cons, min_picks, ← ih]
    simp only [decide_eq_true_eq]

/-- What the fold starts from follows the engine's start. -/
theorem follows_start (height : Int32) :
    Follows ⟨height.toInt, 0, 9223372036854775807, false⟩ ⟨height, []⟩ :=
  ⟨rfl, rfl, Nat.zero_le _, rfl, rfl⟩

theorem nextHighestFloor_follows (level : Level) (heights : List Int32) (sec : Nat) :
    match (borders level sec).foldlM (Engine.climb heights sec) ⟨heightAt heights sec, []⟩ with
    | some last => Follows (nextHighestFloor level heights sec) last
    | none => (nextHighestFloor level heights sec).overflow = true :=
  foldl_follows level heights sec (follows_start (heightAt heights sec)) _

/-- `next_highest_floor` and the plat's reading of it against `P_FindNextHighestFloor`. -/
theorem nextHighestFloor_eq (level : Level) (heights : List Int32) (sec : Nat) :
    (if (nextHighestFloor level heights sec).overflow then none
      else some (platNextHigh level heights sec)) =
      (Engine.findNextHighestFloor (borders level sec) heights sec
        (heightAt heights sec)).map Int32.toInt := by
  have follows := nextHighestFloor_follows level heights sec
  rw [Engine.findNextHighestFloor]
  cases ran : (borders level sec).foldlM (Engine.climb heights sec)
      ⟨heightAt heights sec, []⟩ with
  | none =>
    rw [ran] at follows
    rw [if_pos follows]
    rfl
  | some last =>
    rw [ran] at follows
    obtain ⟨-, count, -, least, quiet⟩ := follows
    rw [quiet, platNextHigh, count, least, Option.map_some, Option.map_some]
    cases last.heightlist with
    | nil => rfl
    | cons first rest => exact congrArg some (lowestOf_cons _ first rest).symm

/-- Every search of the query gives what the engine's gives, in whatever order the lines come and
whichever sectors they face; the flag is raised exactly where the engine stops with an error. -/
theorem surroundings_eq_engine (level : Level) (floors ceilings : List Int32) (sec : Nat) :
    ((nextHighestFloor level floors sec).overflow = true ↔
      Engine.findNextHighestFloor (borders level sec) floors sec (heightAt floors sec) = none) ∧
    (∀ height, Engine.findNextHighestFloor (borders level sec) floors sec
      (heightAt floors sec) = some height → platNextHigh level floors sec = height.toInt) ∧
    lowestCeilingSurrounding level ceilings sec =
      (Engine.findLowestCeilingSurrounding (borders level sec) ceilings sec).toInt ∧
    lowestFloorSurrounding level floors sec =
      (Engine.findLowestFloorSurrounding (borders level sec) floors sec).toInt ∧
    highestFloorSurrounding level floors sec =
      (Engine.findHighestFloorSurrounding (borders level sec) floors sec).toInt := by
  have next := nextHighestFloor_eq level floors sec
  refine ⟨?_, ?_, ?_, ?_, ?_⟩
  · constructor
    · intro raised
      rw [if_pos raised] at next
      exact Option.map_eq_none_iff.1 next.symm
    · intro stops
      rw [stops] at next
      by_contra quiet
      rw [if_neg quiet] at next
      exact Option.some_ne_none _ next
  · intro height found
    rw [found] at next
    split at next
    · cases next
    · exact Option.some.inj next
  · rw [lowestCeilingSurrounding, neighbours_eq, Engine.findLowestCeilingSurrounding,
      findSurrounding_eq min_picks]
    rfl
  · rw [lowestFloorSurrounding, neighbours_eq, Engine.findLowestFloorSurrounding,
      findSurrounding_eq min_picks]
    rfl
  · rw [highestFloorSurrounding, neighbours_eq, Engine.findHighestFloorSurrounding,
      findSurrounding_eq max_picks]
    rfl

end ClickDoom.Native.Surroundings

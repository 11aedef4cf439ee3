import ClickDoom.Base.StableSort
import ClickDoom.Engine.Blockmap
import ClickDoom.Engine.Sight

/-! # The engine's path traversal

`P_PathTraverse` and `P_TraverseIntercepts` of `p_maputl.c` with the iterators and the two
intercept routines they call, for a traverser that never stops and without `PT_EARLYOUT`,
which no caller asks for.
-/
namespace ClickDoom.Engine

/-! ## The walk through the blocks -/

/-- A start exactly on a block's edge is moved one unit off it. -/
def nudged (coordinate origin : Int32) : Int32 :=
  if (coordinate - origin) &&& (0x800000 - 1) = 0 then coordinate + fracUnit else coordinate

/-- The block the walk stands in and where it next meets a column's and a row's edge. -/
structure Walk where
  mapx : Int
  mapy : Int
  xintercept : Int32
  yintercept : Int32
  deriving DecidableEq, Repr

/-- The trace and the walk along it. -/
structure Path where
  trace : Divline
  xt2 : Int
  yt2 : Int
  mapxstep : Int
  mapystep : Int
  xstep : Int32
  ystep : Int32
  start : Walk
  deriving DecidableEq, Repr

/-- Along one axis: which way the blocks run, the part of the first block left, and the
step of the other coordinate from block to block. -/
def axis (t1 t2 : Int) (c1 c2 other1 other2 : Int32) : Except Trap (Int × Int32 × Int32) :=
  if t2 > t1 then do
    return (1, fracUnit - ((c1 >>> 7) &&& (fracUnit - 1)), ← fixedDiv (other2 - other1) (c2 - c1).abs)
  else if t2 < t1 then do
    return (-1, (c1 >>> 7) &&& (fracUnit - 1), ← fixedDiv (other2 - other1) (c2 - c1).abs)
  else .ok (0, fracUnit, 256 * fracUnit)

/-- `P_PathTraverse` before its loop. -/
def path (map : Blockmap) (x1 y1 x2 y2 : Int32) : Except Trap Path := do
  let x1 := nudged x1 map.orgx
  let y1 := nudged y1 map.orgy
  let trace : Divline := ⟨x1, y1, x2 - x1, y2 - y1⟩
  let x1 := x1 - map.orgx
  let y1 := y1 - map.orgy
  let x2 := x2 - map.orgx
  let y2 := y2 - map.orgy
  let xt1 := (x1 >>> 23).toInt
  let yt1 := (y1 >>> 23).toInt
  let xt2 := (x2 >>> 23).toInt
  let yt2 := (y2 >>> 23).toInt
  let (mapxstep, partialX, ystep) ← axis xt1 xt2 x1 x2 y1 y2
  let (mapystep, partialY, xstep) ← axis yt1 yt2 y1 y2 x1 x2
  return ⟨trace, xt2, yt2, mapxstep, mapystep, xstep, ystep,
    ⟨xt1, yt1, (x1 >>> 7) + fixedMul partialY xstep, (y1 >>> 7) + fixedMul partialX ystep⟩⟩

/-- One step of the loop; `none` is its `break`. -/
def walkStep (p : Path) (w : Walk) : Option Walk :=
  if w.mapx = p.xt2 ∧ w.mapy = p.yt2 then none
  else if (w.yintercept >>> 16).toInt = w.mapy then
    some { w with yintercept := w.yintercept + p.ystep, mapx := w.mapx + p.mapxstep }
  else if (w.xintercept >>> 16).toInt = w.mapx then
    some { w with xintercept := w.xintercept + p.xstep, mapy := w.mapy + p.mapystep }
  else some w

/-! ## The intercepts -/

/-- An `intercept_t`. -/
structure Intercept where
  frac : Int32
  entry : Entry
  deriving DecidableEq, Repr

/-- `PIT_AddLineIntercepts`: the fraction it adds. -/
def addLineIntercepts (trace : Divline) (line : Line) : Except Trap (Option Int32) :=
  let far := trace.dx > fracUnit * 16 ∨ trace.dy > fracUnit * 16 ∨
    trace.dx < -fracUnit * 16 ∨ trace.dy < -fracUnit * 16
  let s1 := if far then pointOnDivlineSide line.v1x line.v1y trace
    else pointOnLineSide trace.x trace.y line.divline
  let s2 := if far then pointOnDivlineSide line.v2x line.v2y trace
    else pointOnLineSide (trace.x + trace.dx) (trace.y + trace.dy) line.divline
  if s1 = s2 then .ok none
  else do
    let frac ← interceptVector trace line.divline
    return if frac < 0 then none else some frac

/-- `PIT_AddThingIntercepts`: the fraction it adds. -/
def addThingIntercepts (trace : Divline) (thing : Thing) : Except Trap (Option Int32) :=
  let tracepositive := trace.dx ^^^ trace.dy > 0
  let x1 := thing.x - thing.radius
  let y1 := if tracepositive then thing.y + thing.radius else thing.y - thing.radius
  let x2 := thing.x + thing.radius
  let y2 := if tracepositive then thing.y - thing.radius else thing.y + thing.radius
  if pointOnDivlineSide x1 y1 trace = pointOnDivlineSide x2 y2 trace then .ok none
  else do
    let frac ← interceptVector trace ⟨x1, y1, x2 - x1, y2 - y1⟩
    return if frac < 0 then none else some frac

/-- What a traversal reads of a level: its lines and the line lists of its blocks. -/
structure PathLevel where
  map : Blockmap
  lines : List Line
  blockLines : List (List Nat)

/-- The lines checked under this `validcount` and the intercepts added. -/
structure Found where
  checked : List Nat
  intercepts : List Intercept
  deriving DecidableEq, Repr

/-- Adds an intercept, if there is one. -/
def Found.add (found : Found) (entry : Entry) : Option Int32 → Found
  | none => found
  | some frac => { found with intercepts := found.intercepts ++ [⟨frac, entry⟩] }

/-- One line of `P_BlockLinesIterator`. -/
def iterateLine (level : PathLevel) (trace : Divline) (found : Found) (number : Nat) :
    Except Trap Found :=
  if number ∈ found.checked then .ok found
  else do
    let frac ← addLineIntercepts trace (level.lines.getD number default)
    return Found.add { found with checked := number :: found.checked } (.line number) frac

/-- One thing of `P_BlockThingsIterator`. -/
def iterateThing (things : List Thing) (trace : Divline) (found : Found) (slot : Nat) :
    Except Trap Found := do
  let thing ← readTable things slot
  let frac ← addThingIntercepts trace thing
  return found.add (.thing slot) frac

/-- Both iterators at a block; they return early off the map. -/
def iterateBlock (level : PathLevel) (things : Option (List Thing)) (trace : Divline)
    (found : Found) (mapx mapy : Int) : Except Trap Found :=
  if mapx < 0 ∨ mapy < 0 ∨ mapx ≥ level.map.width ∨ mapy ≥ level.map.height then .ok found
  else do
    let number := level.map.number ⟨mapx.toNat, mapy.toNat⟩
    let found ← (level.blockLines.getD number []).foldlM (iterateLine level trace) found
    match things with
    | none => return found
    | some things =>
      (blocklinks level.map things number).foldlM (iterateThing things trace) found

/-- The loop of `P_PathTraverse`, `count` blocks at most. -/
def walkBlocks (level : PathLevel) (things : Option (List Thing)) (p : Path) :
    Nat → Walk → Found → Except Trap Found
  | 0, _, found => .ok found
  | count + 1, w, found => do
    let found ← iterateBlock level things p.trace found w.mapx w.mapy
    match walkStep p w with
    | none => return found
    | some next => walkBlocks level things p count next found

/-! ## `P_TraverseIntercepts` -/

/-- The scan for the nearest: its place and fraction, the first of equal ones. -/
def nearest (intercepts : List Intercept) : Int32 × Option Nat :=
  intercepts.zipIdx.foldl
    (fun best entry => if entry.1.frac < best.1 then (entry.1.frac, some entry.2) else best)
    (Int32.maxValue, none)

/-- The loop, `count` deliveries at most. -/
def traverseLoop : Nat → List Intercept → List Intercept
  | 0, _ => []
  | count + 1, intercepts =>
    let (dist, place) := nearest intercepts
    if dist > fracUnit then []
    else
      match place with
      | none => []
      | some i =>
        match intercepts[i]? with
        | none => []
        | some intercept => intercept ::
          traverseLoop count (intercepts.set i { intercept with frac := Int32.maxValue })

/-- What a traverser that never stops is handed. -/
def traverseIntercepts (intercepts : List Intercept) : List Intercept :=
  traverseLoop intercepts.length intercepts

/-- The intercepts `P_PathTraverse` adds. -/
def collected (level : PathLevel) (things : Option (List Thing)) (x1 y1 x2 y2 : Int32) :
    Except Trap (List Intercept) := do
  let p ← path level.map x1 y1 x2 y2
  let found ← walkBlocks level things p 64 p.start ⟨[], []⟩
  return found.intercepts

/-- `P_PathTraverse`; from the 130th intercept on the engine writes over other variables,
and there is no answer. -/
def pathTraverse (level : PathLevel) (things : Option (List Thing)) (x1 y1 x2 y2 : Int32) :
    Except Trap (Option (List Intercept)) := do
  let intercepts ← collected level things x1 y1 x2 y2
  return if intercepts.length ≤ 129 then some (traverseIntercepts intercepts) else none

/-! ## The loop as the blocks it stands in -/

/-- The blocks the loop stands in, `count` at most. -/
def visited (p : Path) : Nat → Walk → List (Int × Int)
  | 0, _ => []
  | count + 1, w => (w.mapx, w.mapy) ::
    match walkStep p w with
    | none => []
    | some next => visited p count next

theorem walkBlocks_eq (level : PathLevel) (things : Option (List Thing)) (p : Path)
    (count : Nat) (w : Walk) (found : Found) :
    walkBlocks level things p count w found =
      (visited p count w).foldlM
        (fun found block => iterateBlock level things p.trace found block.1 block.2) found := by
  induction count generalizing w found with
  | zero => rfl
  | succ count ih =>
    rw [walkBlocks, visited, List.foldlM_cons]
    congr 1
    funext found
    cases walkStep p w with
    | none => rfl
    | some next => exact ih next found

/-! ## The selection is a stable sort -/

/-- The nearest of a list: the first of the least fractions, or none below the start. -/
inductive Nearest (intercepts : List Intercept) : Int32 × Option Nat → Prop
  | none : (∀ other ∈ intercepts, Int32.maxValue.toInt ≤ other.frac.toInt) →
      Nearest intercepts (Int32.maxValue, none)
  | some {before after : List Intercept} {intercept : Intercept} :
      intercepts = before ++ intercept :: after →
      (∀ other ∈ before, intercept.frac.toInt < other.frac.toInt) →
      (∀ other ∈ after, intercept.frac.toInt ≤ other.frac.toInt) →
      Nearest intercepts (intercept.frac, some before.length)

theorem nearest_append (intercepts : List Intercept) (last : Intercept) :
    nearest (intercepts ++ [last]) =
      if last.frac < (nearest intercepts).1 then (last.frac, some intercepts.length)
      else nearest intercepts := by
  rw [nearest, List.zipIdx_append, List.foldl_append, List.zipIdx_singleton, List.foldl_cons,
    List.foldl_nil, Nat.zero_add]
  rfl

theorem nearest_spec (intercepts : List Intercept) : Nearest intercepts (nearest intercepts) := by
  induction intercepts using List.reverseRecOn with
  | nil => exact .none (by simp)
  | append_singleton intercepts last ih =>
    rw [nearest_append]
    generalize nearest intercepts = best at ih
    split
    · rename_i less
      have less := Int32.lt_iff_toInt_lt.1 less
      refine .some (rfl : intercepts ++ [last] = intercepts ++ last :: []) ?_ (by simp)
      intro other member
      cases ih with
      | none all => exact less.trans_le (all other member)
      | some eq before after =>
        subst eq
        rcases List.mem_append.1 member with member | member
        · exact less.trans (before other member)
        · rcases List.mem_cons.1 member with rfl | member
          · exact less
          · exact less.trans_le (after other member)
    · rename_i least
      have le := not_lt.1 fun h => least (Int32.lt_iff_toInt_lt.2 h)
      cases ih with
      | none all =>
        refine .none fun other member => ?_
        rcases List.mem_append.1 member with member | member
        · exact all other member
        · rw [List.mem_singleton.1 member]
          exact le
      | @some before after intercept eq first rest =>
        have eq' : intercepts ++ [last] = before ++ intercept :: (after ++ [last]) := by simp [eq]
        refine .some eq' first ?_
        intro other member
        rcases List.mem_append.1 member with member | member
        · exact rest other member
        · rw [List.mem_singleton.1 member]
          exact le

/-- The intercepts in reach of the trace. -/
def inReach (intercepts : List Intercept) : List Intercept :=
  intercepts.filter fun intercept => intercept.frac ≤ fracUnit

theorem inReach_eq_nil {intercepts : List Intercept}
    (far : ∀ intercept ∈ intercepts, fracUnit < intercept.frac) : inReach intercepts = [] := by
  rw [inReach, List.filter_eq_nil_iff]
  intro intercept member le
  have le := Int32.le_iff_toInt_le.1 (of_decide_eq_true le)
  have lt := Int32.lt_iff_toInt_lt.1 (far intercept member)
  omega

theorem traverseLoop_eq {count : Nat} {intercepts : List Intercept}
    (enough : (inReach intercepts).length ≤ count) :
    traverseLoop count intercepts =
      StableSort.byKey (fun intercept => intercept.frac.toInt) (inReach intercepts) := by
  induction count generalizing intercepts with
  | zero =>
    rw [List.eq_nil_of_length_eq_zero (Nat.le_zero.1 enough)]
    rfl
  | succ count ih =>
    have spec := nearest_spec intercepts
    rw [traverseLoop]
    generalize nearest intercepts = best at spec
    cases spec with
    | none all =>
      have far : ∀ intercept ∈ intercepts, fracUnit < intercept.frac := by
        intro intercept member
        have unit : fracUnit.toInt < Int32.maxValue.toInt := by decide
        exact Int32.lt_iff_toInt_lt.2 (unit.trans_le (all intercept member))
      rw [inReach_eq_nil far]
      rfl
    | @some before after intercept eq first rest =>
      subst eq
      show (if intercept.frac > fracUnit then [] else _) = _
      by_cases past : intercept.frac > fracUnit
      · have far : ∀ other ∈ before ++ intercept :: after, fracUnit < other.frac := by
          intro other member
          have past := Int32.lt_iff_toInt_lt.1 past
          apply Int32.lt_iff_toInt_lt.2
          rcases List.mem_append.1 member with member | member
          · exact past.trans (first other member)
          · rcases List.mem_cons.1 member with rfl | member
            · exact past
            · exact past.trans_le (rest other member)
        rw [if_pos past, inReach_eq_nil far]
        rfl
      · have here : (before ++ intercept :: after)[before.length]? = some intercept := by simp
        have reach : intercept.frac ≤ fracUnit := Int32.not_lt.1 past
        have cut : inReach (before ++ intercept :: after) =
            inReach before ++ intercept :: inReach after := by
          simp [inReach, reach]
        have marked : inReach ((before ++ intercept :: after).set before.length
            { intercept with frac := Int32.maxValue }) = inReach before ++ inReach after := by
          have far : ¬Int32.maxValue ≤ fracUnit := by decide
          simp [inReach, List.set_append_right, far]
        rw [if_neg past]
        simp only [here]
        rw [ih (by rw [marked]; rw [cut] at enough; simp at enough ⊢; omega), marked, cut,
          StableSort.byKey_first_least]
        · intro other member
          exact first other (List.mem_filter.1 member).1
        · intro other member
          exact rest other (List.mem_filter.1 member).1

theorem traverseIntercepts_eq (intercepts : List Intercept) :
    traverseIntercepts intercepts =
      StableSort.byKey (fun intercept => intercept.frac.toInt) (inReach intercepts) :=
  traverseLoop_eq (List.length_filter_le ..)

end ClickDoom.Engine

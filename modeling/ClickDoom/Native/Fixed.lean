import ClickDoom.Engine.Fixed

/-! # Fixed-point builders

`native/src/sql/fixed.rs`: what the expression each builder writes computes.  The
server widens the arithmetic of `Int32` to `Int64`, so a builder narrows wherever
the C wraps; `abs` of an `Int64` is a `UInt64`; `if` evaluates the branch it takes.
A table is indexed from one.
-/
namespace ClickDoom.Native

/-- An element of a constant array, by its index from one. -/
def arrayAt {α : Type} (table : List α) (index : Int) : Except Trap α := readTable table (index - 1)

namespace Fixed
open Engine (Divline truth)

def fixedMul (a b : Int32) : Int32 := ((a.toInt64 * b.toInt64) >>> 16).toInt32

/-- `toInt32(abs(toInt64(x)))`. -/
def abs32 (x : Int32) : Int32 := x.toInt64.abs.toUInt64.toUInt32.toInt32

def fixedDiv (a b : Int32) : Except Trap Int32 :=
  if abs32 a >>> 14 ≥ abs32 b then
    .ok (if a ^^^ b < 0 then -2147483648 else 2147483647)
  else do
    let quotient ← divInt64 (a.toInt64 <<< 16) b.toInt64
    return quotient.toInt32

def slopeDiv (num den : UInt32) : Except Trap UInt32 :=
  if den < 512 then .ok 2048
  else do
    let quotient ← divUInt32 (num.toUInt64 * 8).toUInt32 (den >>> 8)
    return min quotient 2048

/-- `toUInt32(k - toInt64(angle))` and `toUInt32(k + toInt64(angle))`. -/
def angleSub (k : Int64) (angle : UInt32) : UInt32 :=
  (k - angle.toUInt64.toInt64).toUInt64.toUInt32

def angleAdd (k : Int64) (angle : UInt32) : UInt32 :=
  (k + angle.toUInt64.toInt64).toUInt64.toUInt32

/-- The two table entries are bound before the octant is chosen. -/
def pointToAngle (trig : Trig) (dx dy : Int32) : Except Trap UInt32 := do
  let ax := abs32 dx
  let ay := abs32 dy
  let yx ← arrayAt trig.tantoangle ((1 : Int) + (← slopeDiv ay.toUInt32 ax.toUInt32).toNat)
  let xy ← arrayAt trig.tantoangle ((1 : Int) + (← slopeDiv ax.toUInt32 ay.toUInt32).toNat)
  return if dx = 0 ∧ dy = 0 then 0
    else if dx ≥ 0 ∧ dy ≥ 0 ∧ dx > dy then yx
    else if dx ≥ 0 ∧ dy ≥ 0 then angleSub 1073741823 xy
    else if dx ≥ 0 ∧ ax > ay then angleSub 4294967296 yx
    else if dx ≥ 0 then angleAdd 3221225472 xy
    else if dy ≥ 0 ∧ ax > ay then angleSub 2147483647 yx
    else if dy ≥ 0 then angleAdd 1073741824 xy
    else if ax > ay then angleAdd 2147483648 yx
    else angleSub 3221225471 xy

def aproxDistance (dx dy : Int32) : Int32 :=
  ((abs32 dx).toInt64 + (abs32 dy).toInt64 - (min (abs32 dx) (abs32 dy) >>> 1).toInt64).toInt32

/-- `toInt32(toInt64(a) - toInt64(b))`. -/
def sub32 (a b : Int32) : Int32 := (a.toInt64 - b.toInt64).toInt32

/-- `toInt32(toInt64(a) + toInt64(b))`. -/
def add32 (a b : Int32) : Int32 := (a.toInt64 + b.toInt64).toInt32

/-- The two products the last test compares: both operands are shifted by `shift`
unless it is 16, where only the line's direction is. -/
def sideProducts (dx dy ldx ldy shift : Int32) : Int32 × Int32 :=
  if shift = 16 then (fixedMul (ldy >>> 16) dx, fixedMul dy (ldx >>> 16))
  else (fixedMul (ldy >>> shift) (dx >>> shift), fixedMul (dy >>> shift) (ldx >>> shift))

def pointOnSide (x y lx ly ldx ldy shift : Int32) : Nat :=
  let dx := sub32 x lx
  let dy := sub32 y ly
  let products := sideProducts dx dy ldx ldy shift
  if ldx = 0 then if x ≤ lx then truth (ldy > 0) else truth (ldy < 0)
  else if ldy = 0 then if y ≤ ly then truth (ldx < 0) else truth (ldx > 0)
  else if (((ldy ^^^ ldx) ^^^ dx) ^^^ dy) &&& -2147483648 ≠ 0 then
    truth ((ldy ^^^ dx) &&& -2147483648 ≠ 0)
  else truth (products.2 ≥ products.1)

def pointOnLineSide (x y lx ly ldx ldy : Int32) : Nat :=
  let dx := sub32 x lx
  let dy := sub32 y ly
  let left := fixedMul (ldy >>> 16) dx
  let right := fixedMul dy (ldx >>> 16)
  if ldx = 0 then if x ≤ lx then truth (ldy > 0) else truth (ldy < 0)
  else if ldy = 0 then if y ≤ ly then truth (ldx < 0) else truth (ldx > 0)
  else truth (right ≥ left)

def divlineSide (x y lx ly ldx ldy : Int32) : Nat :=
  let left := ((ldy >>> 16).toInt64 * (sub32 x lx >>> 16).toInt64).toInt32
  let right := ((sub32 y ly >>> 16).toInt64 * (ldx >>> 16).toInt64).toInt32
  if ldx = 0 then
    if x = lx then 2 else if x ≤ lx then truth (ldy > 0) else truth (ldy < 0)
  else if ldy = 0 then
    if x = ly then 2 else if y ≤ ly then truth (ldx < 0) else truth (ldx > 0)
  else if right < left then 0
  else if left = right then 2
  else 1

def interceptVector (v2x v2y v2dx v2dy v1x v1y v1dx v1dy : Int32) : Except Trap Int32 :=
  let den := sub32 (fixedMul (v1dy >>> 8) v2dx) (fixedMul (v1dx >>> 8) v2dy)
  let num := add32 (fixedMul (sub32 v1x v2x >>> 8) v1dy) (fixedMul (sub32 v2y v1y >>> 8) v1dx)
  if den = 0 then .ok 0 else fixedDiv num den

def pointToDist (trig : Trig) (dx dy : Int32) : Except Trap Int32 := do
  let big := max (abs32 dx) (abs32 dy)
  let small := min (abs32 dx) (abs32 dy)
  let frac ← (if big ≠ 0 then fixedDiv small big else .ok 0)
  let entry ← arrayAt trig.tantoangle ((1 : Int) + (frac >>> 5).toInt)
  let angle := (entry.toUInt64 + 1073741824).toUInt32 >>> 19
  fixedDiv big (← arrayAt trig.finesine ((1 : Int) + angle.toNat))

/-- The sine of a quarter turn past `visangle - other`. -/
def sine (trig : Trig) (visangle other : UInt32) : Except Trap Int32 :=
  let difference :=
    ((4294967296 + visangle.toUInt64).toInt64 - other.toUInt64.toInt64).toUInt64.toUInt32
  arrayAt trig.finesine ((1 : Int) + ((1073741824 + difference.toUInt64).toUInt32 >>> 19).toNat)

def scaleFromGlobalAngle (trig : Trig) (visangle viewangle normalangle : UInt32)
    (rwDistance projection : Int32) : Except Trap Int32 := do
  let sinea ← sine trig visangle viewangle
  let sineb ← sine trig visangle normalangle
  let num := fixedMul projection sineb
  let den := fixedMul rwDistance sinea
  if den > num >>> 16 then
    let scale ← fixedDiv num den
    return min (max scale 256) 4194304
  else return 4194304

/-! ## The narrowings -/
open SignedWords
open Engine (ok_bind slopeAngle_ok)

theorem abs32_eq (x : Int32) : abs32 x = x.abs := toInt64_abs x

theorem sub32_eq (a b : Int32) : sub32 a b = a - b := by
  simp [sub32]

theorem add32_eq (a b : Int32) : add32 a b = a + b := by
  simp [add32]

theorem angleSub_eq (k : Int64) (angle : UInt32) :
    angleSub k angle = k.toUInt64.toUInt32 - angle := by
  simp [angleSub]

theorem angleAdd_eq (k : Int64) (angle : UInt32) :
    angleAdd k angle = k.toUInt64.toUInt32 + angle := by
  simp [angleAdd]

theorem mul8_eq (num : UInt32) : (num.toUInt64 * 8).toUInt32 = num <<< 3 := by
  apply UInt32.toNat_inj.1
  simp [Nat.shiftLeft_eq]

theorem arrayAt_succ {α : Type} (table : List α) (index : Int) :
    arrayAt table (1 + index) = readTable table index := by
  rw [arrayAt, add_sub_cancel_left]

/-- The sign test by a mask of the type's own sign. -/
theorem signSet_iff (x : Int32) : Engine.signSet x ↔ x &&& -2147483648 ≠ 0 := by
  rw [Engine.signSet, ne_eq, ne_eq, not_iff_not]
  constructor
  · intro clear
    exact Int32.toBitVec_inj.1 (congrArg UInt32.toBitVec clear)
  · intro clear
    exact UInt32.toBitVec_inj.1 (congrArg Int32.toBitVec clear)

theorem truth_ge (a b : Int32) : truth (a ≥ b) = if a < b then 0 else 1 := by
  rw [truth]
  by_cases less : a < b
  · rw [if_pos less, if_neg (Int32.not_le.2 less)]
  · rw [if_neg less, if_pos (Int32.not_lt.1 less)]

/-! ## Each builder computes its function -/

theorem fixedMul_eq (a b : Int32) : fixedMul a b = Engine.fixedMul a b := rfl

theorem fixedDiv_eq (a b : Int32) : fixedDiv a b = Engine.fixedDiv a b := by
  rw [fixedDiv, Engine.fixedDiv, abs32_eq, abs32_eq]

theorem slopeDiv_eq (num den : UInt32) : slopeDiv num den = Engine.slopeDiv num den := by
  rw [slopeDiv, Engine.slopeDiv, mul8_eq]
  rfl

/-- A slope and its table entry, before the rest of a chain. -/
theorem slopeAngle_eq {β : Type} (trig : Trig) (num den : Int32)
    (rest : UInt32 → Except Trap β) :
    (do
      let slope ← slopeDiv num.toUInt32 den.toUInt32
      let entry ← arrayAt trig.tantoangle ((1 : Int) + slope.toNat)
      rest entry) = Engine.slopeAngle trig num den >>= rest := by
  simp only [slopeDiv_eq, arrayAt_succ, Engine.slopeAngle, bind_assoc]

/-- Both entries always exist, so binding the one the octant does not use changes
nothing. -/
theorem pointToAngle_eq (trig : Trig) (x y : Int32) :
    pointToAngle trig x y = Engine.pointToAngle trig x y := by
  obtain ⟨yx, eqYX⟩ := slopeAngle_ok trig y.abs x.abs
  obtain ⟨xy, eqXY⟩ := slopeAngle_ok trig x.abs y.abs
  simp only [pointToAngle, slopeAngle_eq, abs32_eq]
  rw [eqYX, eqXY, Engine.pointToAngle]
  simp only [angleSub_eq, angleAdd_eq, ok_bind]
  by_cases zero : x = 0 ∧ y = 0
  · rw [if_pos zero, if_pos zero]
    rfl
  rw [if_neg zero, if_neg zero]
  by_cases hx : x ≥ 0 <;> by_cases hy : y ≥ 0
  · rw [abs_of_nonneg hx, abs_of_nonneg hy] at eqYX eqXY
    by_cases order : x > y <;> simp [hx, hy, order, eqYX, eqXY] <;> rfl
  · rw [abs_of_nonneg hx, abs_of_neg hy] at eqYX eqXY ⊢
    by_cases order : x > -y <;> simp [hx, hy, order, eqYX, eqXY] <;> rfl
  · rw [abs_of_neg hx, abs_of_nonneg hy] at eqYX eqXY ⊢
    by_cases order : -x > y <;> simp [hx, hy, order, eqYX, eqXY] <;> rfl
  · rw [abs_of_neg hx, abs_of_neg hy] at eqYX eqXY ⊢
    by_cases order : -x > -y <;> simp [hx, hy, order, eqYX, eqXY] <;> rfl

theorem pointToAngle_ok (trig : Trig) (x y : Int32) :
    ∃ angle, pointToAngle trig x y = .ok angle := by
  obtain ⟨yx, eqYX⟩ := slopeAngle_ok trig y.abs x.abs
  obtain ⟨xy, eqXY⟩ := slopeAngle_ok trig x.abs y.abs
  simp only [pointToAngle, slopeAngle_eq, abs32_eq]
  rw [eqYX, eqXY]
  exact ⟨_, rfl⟩

theorem aproxDistance_eq (dx dy : Int32) :
    aproxDistance dx dy = Engine.aproxDistance dx dy := by
  simp only [aproxDistance, Engine.aproxDistance, abs32_eq, Int64.toInt32_sub, Int64.toInt32_add,
    Int32.toInt32_toInt64]
  by_cases order : dx.abs < dy.abs
  · rw [if_pos order, min_of_le (Int32.le_of_lt order)]
  · rw [if_neg order, min_of_ge (Int32.not_lt.1 order)]

theorem pointOnSide_node (x y : Int32) (node : Divline) :
    pointOnSide x y node.x node.y node.dx node.dy 16 = Engine.pointOnSide x y node := by
  simp only [pointOnSide, sub32_eq, sideProducts, Engine.pointOnSide, if_true, signSet_iff,
    truth_ge, fixedMul_eq]
  rfl

theorem pointOnSide_divline (x y : Int32) (line : Divline) :
    pointOnSide x y line.x line.y line.dx line.dy 8 = Engine.pointOnDivlineSide x y line := by
  simp only [pointOnSide, sub32_eq, sideProducts, Engine.pointOnDivlineSide, signSet_iff,
    truth_ge, fixedMul_eq, show (8 : Int32) ≠ 16 from by decide, if_false]
  rfl

theorem pointOnLineSide_eq (x y : Int32) (line : Divline) :
    pointOnLineSide x y line.x line.y line.dx line.dy = Engine.pointOnLineSide x y line := by
  simp only [pointOnLineSide, sub32_eq, Engine.pointOnLineSide, truth_ge, fixedMul_eq]

theorem divlineSide_eq (x y : Int32) (node : Divline) :
    divlineSide x y node.x node.y node.dx node.dy = Engine.divlineSide x y node := by
  simp only [divlineSide, sub32_eq, Int64.toInt32_mul, Int32.toInt32_toInt64, Engine.divlineSide]

theorem interceptVector_eq (v2 v1 : Divline) :
    interceptVector v2.x v2.y v2.dx v2.dy v1.x v1.y v1.dx v1.dy =
      Engine.interceptVector v2 v1 := by
  simp only [interceptVector, sub32_eq, add32_eq, fixedDiv_eq, Engine.interceptVector, fixedMul_eq]

theorem quarterTurn_eq (entry : UInt32) :
    (entry.toUInt64 + 1073741824).toUInt32 = entry + Engine.ang90 := by
  simp [Engine.ang90]

theorem pointToDist_eq (trig : Trig) (x y : Int32) :
    pointToDist trig x y = Engine.pointToDist trig x y := by
  simp only [pointToDist, Engine.pointToDist, abs32_eq, fixedDiv_eq, arrayAt_succ, quarterTurn_eq]
  by_cases order : y.abs > x.abs
  · rw [if_pos order, min_of_le (Int32.le_of_lt order), max_of_le (Int32.le_of_lt order)]
  · have le := Int32.not_lt.1 order
    rw [if_neg order, min_of_ge le, max_of_ge le]

theorem sine_eq (trig : Trig) (visangle other : UInt32) :
    sine trig visangle other =
      readTable trig.finesine ((Engine.ang90 + (visangle - other)) >>> 19).toNat := by
  have turn : UInt64.toUInt32 4294967296 = 0 := by decide
  have difference : ((4294967296 + visangle.toUInt64).toInt64 -
      other.toUInt64.toInt64).toUInt64.toUInt32 = visangle - other := by
    simp only [Int64.toUInt64_sub, UInt64.toUInt64_toInt64, UInt64.toUInt32_sub,
      UInt64.toUInt32_add, UInt32.toUInt32_toUInt64, turn, UInt32.zero_add]
  simp only [sine, arrayAt_succ, difference, UInt64.toUInt32_add, UInt32.toUInt32_toUInt64]
  rfl

theorem clamp_eq (scale : Int32) :
    min (max scale 256) 4194304 =
      if scale > 64 * Engine.fracUnit then 64 * Engine.fracUnit
      else if scale < 256 then 256 else scale := by
  rw [show 64 * Engine.fracUnit = 4194304 from by decide]
  by_cases high : scale > 4194304
  · rw [if_pos high, max_of_ge (Int32.le_trans (by decide) (Int32.le_of_lt high)),
      min_of_ge (Int32.le_of_lt high)]
  · rw [if_neg high]
    by_cases low : scale < 256
    · rw [if_pos low, max_of_le (Int32.le_of_lt low), min_of_le (by decide)]
    · rw [if_neg low, max_of_ge (Int32.not_lt.1 low), min_of_le (Int32.not_lt.1 high)]

/-- The builder is the function at high detail. -/
theorem scaleFromGlobalAngle_eq (trig : Trig) (visangle viewangle normalangle : UInt32)
    (rwDistance projection : Int32) :
    scaleFromGlobalAngle trig visangle viewangle normalangle rwDistance projection =
      Engine.scaleFromGlobalAngle trig 0 visangle viewangle normalangle rwDistance projection := by
  simp only [scaleFromGlobalAngle, Engine.scaleFromGlobalAngle, sine_eq, fixedMul_eq, fixedDiv_eq,
    clamp_eq, Int32.shiftLeft_zero]
  rfl

/-! ## All of them -/

/-- Every builder gives the value of its C function, or traps where the C does, and
reads no table outside its bounds unless `point_to_dist` is given the least word. -/
theorem builders_eq_engine (trig : Trig) :
    (∀ a b, fixedMul a b = Engine.fixedMul a b) ∧
    (∀ a b, fixedDiv a b = Engine.fixedDiv a b) ∧
    (∀ num den, slopeDiv num den = Engine.slopeDiv num den) ∧
    (∀ dx dy, pointToAngle trig dx dy = Engine.pointToAngle trig dx dy) ∧
    (∀ dx dy, aproxDistance dx dy = Engine.aproxDistance dx dy) ∧
    (∀ (x y : Int32) (line : Divline),
      pointOnSide x y line.x line.y line.dx line.dy 16 = Engine.pointOnSide x y line ∧
      pointOnSide x y line.x line.y line.dx line.dy 8 = Engine.pointOnDivlineSide x y line ∧
      pointOnLineSide x y line.x line.y line.dx line.dy = Engine.pointOnLineSide x y line ∧
      divlineSide x y line.x line.y line.dx line.dy = Engine.divlineSide x y line) ∧
    (∀ v2 v1 : Divline, interceptVector v2.x v2.y v2.dx v2.dy v1.x v1.y v1.dx v1.dy =
      Engine.interceptVector v2 v1) ∧
    (∀ dx dy, pointToDist trig dx dy = Engine.pointToDist trig dx dy) ∧
    (∀ visangle viewangle normalangle rwDistance projection,
      scaleFromGlobalAngle trig visangle viewangle normalangle rwDistance projection =
        Engine.scaleFromGlobalAngle trig 0 visangle viewangle normalangle rwDistance
          projection) ∧
    (∀ dx dy, ∃ angle, pointToAngle trig dx dy = .ok angle) ∧
    (∀ dx dy, dx ≠ Int32.minValue → dy ≠ Int32.minValue →
      ∃ dist, pointToDist trig dx dy = .ok dist) ∧
    (∀ visangle viewangle normalangle rwDistance projection,
      scaleFromGlobalAngle trig visangle viewangle normalangle rwDistance projection ≠
        .error .outOfTable) := by
  refine ⟨fixedMul_eq, fixedDiv_eq, slopeDiv_eq, pointToAngle_eq trig, aproxDistance_eq, ?_,
    interceptVector_eq, pointToDist_eq trig, scaleFromGlobalAngle_eq trig,
    pointToAngle_ok trig, ?_, ?_⟩
  · intro x y line
    exact ⟨pointOnSide_node x y line, pointOnSide_divline x y line, pointOnLineSide_eq x y line,
      divlineSide_eq x y line⟩
  · intro dx dy hx hy
    rw [pointToDist_eq]
    exact Engine.pointToDist_ok trig hx hy
  · intro visangle viewangle normalangle rwDistance projection
    rw [scaleFromGlobalAngle_eq]
    apply Engine.scaleFromGlobalAngle_ne_outOfTable

theorem length_flat_tantoangle : (List.replicate 2049 (0 : UInt32)).length = 2049 :=
  List.length_replicate

/-- Tables of the right sizes, with the engine's sine of a right angle throughout. -/
def flatTrig : Trig where
  tantoangle := List.replicate 2049 0
  finesine := List.replicate 10240 65535
  length_tantoangle := length_flat_tantoangle
  length_finesine := List.length_replicate

/-- A point three units up and four across is at some distance. -/
theorem builders_eq_engine_near :
    (4 : Int32) ≠ Int32.minValue ∧ (3 : Int32) ≠ Int32.minValue ∧
      ∃ dist, pointToDist flatTrig 4 3 = .ok dist :=
  ⟨by decide, by decide,
    (builders_eq_engine flatTrig).2.2.2.2.2.2.2.2.2.2.1 4 3 (by decide) (by decide)⟩

/-- A distance from the least word reads `tantoangle` at 44739242, and at low detail
the C's scale is twice the builder's. -/
theorem leastWord_and_detail_differ :
    pointToDist flatTrig Int32.minValue 3 = .error .outOfTable ∧
    scaleFromGlobalAngle flatTrig 0 0 0 10485760 10485760 = .ok 65536 ∧
    Engine.scaleFromGlobalAngle flatTrig 1 0 0 0 10485760 10485760 = .ok 131072 := by
  decide +kernel

end Fixed
end ClickDoom.Native

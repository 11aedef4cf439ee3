import ClickDoom.Base.SignedWords

/-! # The engine's fixed-point and angle arithmetic

The C functions of the vendored engine that the native port rebuilds as SQL:
`m_fixed.c`, `tables.c`, `r_main.c`, `p_maputl.c` and `p_sight.c` under
`rom/vendor/doomgeneric/doomgeneric`.  A `fixed_t` is an `Int32`, an `angle_t` a
`UInt32`; addition, subtraction, negation and `abs` wrap at 32 bits and a shift of
a negative number keeps its sign.  A division by zero and a read outside a table
have no value: they are traps.
-/
namespace ClickDoom

/-- Why an expression has no value. -/
inductive Trap
  | divideByZero
  | divideOverflow
  | outOfTable
  deriving DecidableEq, Repr

/-- A quotient of 64-bit integers truncated toward zero. -/
def divInt64 (a b : Int64) : Except Trap Int64 :=
  if b = 0 then .error .divideByZero
  else if a = Int64.minValue ∧ b = -1 then .error .divideOverflow
  else .ok (a / b)

def divUInt32 (a b : UInt32) : Except Trap UInt32 :=
  if b = 0 then .error .divideByZero else .ok (a / b)

/-- An element of a table, by an index from zero.  The server gives a value for an
index outside a table and C reads what lies there; both are the trap here. -/
def readTable {α : Type} (table : List α) (index : Int) : Except Trap α :=
  if index < 0 then .error .outOfTable
  else
    match table[index.toNat]? with
    | some value => .ok value
    | none => .error .outOfTable

/-- The trigonometry tables, of the sizes the engine gives them. -/
structure Trig where
  tantoangle : List UInt32
  finesine : List Int32
  length_tantoangle : tantoangle.length = 2049
  length_finesine : finesine.length = 10240

namespace Engine

def ang90 : UInt32 := 0x40000000
def ang180 : UInt32 := 0x80000000
def ang270 : UInt32 := 0xC0000000
def slopeRange : UInt32 := 2048
def fracUnit : Int32 := 65536

/-- `FixedMul`. -/
def fixedMul (a b : Int32) : Int32 := ((a.toInt64 * b.toInt64) >>> 16).toInt32

/-- `FixedDiv`. -/
def fixedDiv (a b : Int32) : Except Trap Int32 :=
  if a.abs >>> 14 ≥ b.abs then
    .ok (if a ^^^ b < 0 then Int32.minValue else Int32.maxValue)
  else do
    let result ← divInt64 (a.toInt64 <<< 16) b.toInt64
    return result.toInt32

/-- `SlopeDiv`. -/
def slopeDiv (num den : UInt32) : Except Trap UInt32 :=
  if den < 512 then .ok slopeRange
  else do
    let ans ← divUInt32 (num <<< 3) (den >>> 8)
    return if ans ≤ slopeRange then ans else slopeRange

/-- An entry of `tantoangle` by its slope. -/
def slopeAngle (trig : Trig) (num den : Int32) : Except Trap UInt32 := do
  let slope ← slopeDiv num.toUInt32 den.toUInt32
  readTable trig.tantoangle slope.toNat

/-- `R_PointToAngle` with the view point already subtracted. -/
def pointToAngle (trig : Trig) (x y : Int32) : Except Trap UInt32 :=
  if x = 0 ∧ y = 0 then .ok 0
  else if x ≥ 0 then
    if y ≥ 0 then
      if x > y then slopeAngle trig y x
      else do return ang90 - 1 - (← slopeAngle trig x y)
    else
      let y := -y
      if x > y then do return -(← slopeAngle trig y x)
      else do return ang270 + (← slopeAngle trig x y)
  else
    let x := -x
    if y ≥ 0 then
      if x > y then do return ang180 - 1 - (← slopeAngle trig y x)
      else do return ang90 + (← slopeAngle trig x y)
    else
      let y := -y
      if x > y then do return ang180 + (← slopeAngle trig y x)
      else do return ang270 - 1 - (← slopeAngle trig x y)

/-- `P_AproxDistance`. -/
def aproxDistance (dx dy : Int32) : Int32 :=
  let dx := dx.abs
  let dy := dy.abs
  if dx < dy then dx + dy - (dx >>> 1) else dx + dy - (dy >>> 1)

/-- The fields of a node and of a divline the side tests read. -/
structure Divline where
  x : Int32
  y : Int32
  dx : Int32
  dy : Int32
  deriving DecidableEq, Repr

/-- C's value of a comparison. -/
def truth (p : Prop) [Decidable p] : Nat := if p then 1 else 0

/-- Whether the sign bit of a word is set. -/
def signSet (x : Int32) : Prop := x.toUInt32 &&& 0x80000000 ≠ 0

instance (x : Int32) : Decidable (signSet x) := inferInstanceAs (Decidable (_ ≠ _))

/-- `R_PointOnSide`. -/
def pointOnSide (x y : Int32) (node : Divline) : Nat :=
  if node.dx = 0 then
    if x ≤ node.x then truth (node.dy > 0) else truth (node.dy < 0)
  else if node.dy = 0 then
    if y ≤ node.y then truth (node.dx < 0) else truth (node.dx > 0)
  else
    let dx := x - node.x
    let dy := y - node.y
    if signSet (node.dy ^^^ node.dx ^^^ dx ^^^ dy) then
      if signSet (node.dy ^^^ dx) then 1 else 0
    else
      let left := fixedMul (node.dy >>> 16) dx
      let right := fixedMul dy (node.dx >>> 16)
      if right < left then 0 else 1

/-- `P_PointOnDivlineSide`. -/
def pointOnDivlineSide (x y : Int32) (line : Divline) : Nat :=
  if line.dx = 0 then
    if x ≤ line.x then truth (line.dy > 0) else truth (line.dy < 0)
  else if line.dy = 0 then
    if y ≤ line.y then truth (line.dx < 0) else truth (line.dx > 0)
  else
    let dx := x - line.x
    let dy := y - line.y
    if signSet (line.dy ^^^ line.dx ^^^ dx ^^^ dy) then
      if signSet (line.dy ^^^ dx) then 1 else 0
    else
      let left := fixedMul (line.dy >>> 8) (dx >>> 8)
      let right := fixedMul (dy >>> 8) (line.dx >>> 8)
      if right < left then 0 else 1

/-- `P_PointOnLineSide`: the line's first vertex and its direction. -/
def pointOnLineSide (x y : Int32) (line : Divline) : Nat :=
  if line.dx = 0 then
    if x ≤ line.x then truth (line.dy > 0) else truth (line.dy < 0)
  else if line.dy = 0 then
    if y ≤ line.y then truth (line.dx < 0) else truth (line.dx > 0)
  else
    let dx := x - line.x
    let dy := y - line.y
    let left := fixedMul (line.dy >>> 16) dx
    let right := fixedMul dy (line.dx >>> 16)
    if right < left then 0 else 1

/-- `P_DivlineSide`: 2 is on the line.  The horizontal case compares the point's
`x` with the line's `y`. -/
def divlineSide (x y : Int32) (node : Divline) : Nat :=
  if node.dx = 0 then
    if x = node.x then 2
    else if x ≤ node.x then truth (node.dy > 0) else truth (node.dy < 0)
  else if node.dy = 0 then
    if x = node.y then 2
    else if y ≤ node.y then truth (node.dx < 0) else truth (node.dx > 0)
  else
    let dx := x - node.x
    let dy := y - node.y
    let left := (node.dy >>> 16) * (dx >>> 16)
    let right := (dy >>> 16) * (node.dx >>> 16)
    if right < left then 0 else if left = right then 2 else 1

/-- `P_InterceptVector`, and `P_InterceptVector2` of the sight code. -/
def interceptVector (v2 v1 : Divline) : Except Trap Int32 :=
  let den := fixedMul (v1.dy >>> 8) v2.dx - fixedMul (v1.dx >>> 8) v2.dy
  if den = 0 then .ok 0
  else
    let num := fixedMul ((v1.x - v2.x) >>> 8) v1.dy + fixedMul ((v2.y - v1.y) >>> 8) v1.dx
    fixedDiv num den

/-- `R_PointToDist` with the view point already subtracted. -/
def pointToDist (trig : Trig) (x y : Int32) : Except Trap Int32 := do
  let (dx, dy) := if y.abs > x.abs then (y.abs, x.abs) else (x.abs, y.abs)
  let frac ← (if dx ≠ 0 then fixedDiv dy dx else .ok 0)
  let angle := ((← readTable trig.tantoangle (frac >>> 5).toInt) + ang90) >>> 19
  fixedDiv dx (← readTable trig.finesine angle.toNat)

/-- `R_ScaleFromGlobalAngle`; `detailshift` is 1 while the view is drawn at low
detail. -/
def scaleFromGlobalAngle (trig : Trig) (detailshift : Int32)
    (visangle viewangle normalangle : UInt32) (rwDistance projection : Int32) :
    Except Trap Int32 := do
  let anglea := ang90 + (visangle - viewangle)
  let angleb := ang90 + (visangle - normalangle)
  let sinea ← readTable trig.finesine (anglea >>> 19).toNat
  let sineb ← readTable trig.finesine (angleb >>> 19).toNat
  let num := fixedMul projection sineb <<< detailshift
  let den := fixedMul rwDistance sinea
  if den > num >>> 16 then
    let scale ← fixedDiv num den
    return if scale > 64 * fracUnit then 64 * fracUnit else if scale < 256 then 256 else scale
  else return 64 * fracUnit

/-! ## Quotients and table reads that have a value -/
open SignedWords

theorem ok_bind {α β : Type} (a : α) (f : α → Except Trap β) : (Except.ok a >>= f) = f a := rfl

theorem mapM_ok {α β : Type} {f : α → Except Trap β} {g : α → β} {list : List α}
    (h : ∀ a ∈ list, f a = .ok (g a)) : list.mapM f = .ok (list.map g) := by
  induction list with
  | nil => rfl
  | cons a list ih =>
    rw [List.mapM_cons, h a List.mem_cons_self, ok_bind,
      ih fun b member => h b (List.mem_cons_of_mem _ member), ok_bind]
    rfl

theorem divInt64_ok {a b : Int64} (ha : a ≠ Int64.minValue) (hb : b ≠ 0) :
    divInt64 a b = .ok (a / b) := by
  rw [divInt64, if_neg hb, if_neg fun least => ha least.1]

theorem divUInt32_ok {a b : UInt32} (h : b ≠ 0) : divUInt32 a b = .ok (a / b) := by
  rw [divUInt32, if_neg h]

theorem readTable_ok {α : Type} {table : List α} {index : Nat} (inside : index < table.length) :
    readTable table index = .ok table[index] := by
  rw [readTable, if_neg (by omega)]
  simp [inside]

theorem widened_ne_minValue (a : Int32) : a.toInt64 <<< 16 ≠ Int64.minValue := by
  intro least
  have eq := congrArg Int64.toInt least
  rw [toInt_widen_shiftLeft, show Int64.minValue.toInt = -9223372036854775808 from by decide] at eq
  have := a.le_toInt
  omega

theorem toInt64_ne_zero {b : Int32} (h : b ≠ 0) : b.toInt64 ≠ 0 := by
  intro zero
  apply h
  apply Int32.toInt_inj.1
  have eq := congrArg Int64.toInt zero
  rwa [Int32.toInt_toInt64] at eq

theorem toInt_shiftRight14 (x : Int32) : (x >>> 14).toInt = x.toInt / 2 ^ 14 :=
  toInt_shiftRight rfl

/-- The product of two words fits in 64 bits. -/
theorem fixedMul_eq_ofInt (a b : Int32) :
    fixedMul a b = Int32.ofInt ((a.toInt * b.toInt) >>> (16 : Nat)) := by
  rw [fixedMul, ← Int32.ofInt_int64ToInt, toInt_shiftRight64 (n := 16) rfl, Int64.toInt_mul,
    Int32.toInt_toInt64, Int32.toInt_toInt64, Int.shiftRight_eq_div_pow]
  have ha := a.le_toInt
  have ha' := a.toInt_lt
  have hb := b.le_toInt
  have hb' := b.toInt_lt
  have wide : (a.toInt * b.toInt).bmod (2 ^ 64) = a.toInt * b.toInt := by
    apply Int.bmod_eq_of_le <;> norm_num <;> nlinarith
  rw [wide]
  norm_cast

/-- The saturation test leaves one division by zero. -/
theorem fixedDiv_ok {a b : Int32} (h : ¬(a = Int32.minValue ∧ b = 0)) :
    ∃ quotient, fixedDiv a b = .ok quotient := by
  rw [fixedDiv]
  split
  · exact ⟨_, rfl⟩
  · rename_i small
    have divisor : b ≠ 0 := by
      rintro rfl
      have ne : a ≠ Int32.minValue := fun least => h ⟨least, rfl⟩
      apply small
      apply Int32.le_iff_toInt_le.2
      rw [toInt_shiftRight14, toInt_abs ne]
      exact Int.ediv_nonneg (Int.natCast_nonneg _) (by decide)
    rw [divInt64_ok (widened_ne_minValue a) (toInt64_ne_zero divisor)]
    exact ⟨_, rfl⟩

theorem interceptVector_ok (v2 v1 : Divline) : ∃ frac, interceptVector v2 v1 = .ok frac := by
  simp only [interceptVector]
  split
  · exact ⟨0, rfl⟩
  · exact fixedDiv_ok fun trap => absurd trap.2 ‹_›

example : fixedDiv Int32.minValue 0 = .error .divideByZero := by decide

theorem fixedDiv_ne_outOfTable (a b : Int32) : fixedDiv a b ≠ .error .outOfTable := by
  by_cases trap : a = Int32.minValue ∧ b = 0
  · rw [trap.1, trap.2]
    decide
  · obtain ⟨quotient, eq⟩ := fixedDiv_ok trap
    rw [eq]
    exact fun h => nomatch h

/-- The quotient of a smaller by a greater one is a fraction. -/
theorem fixedDiv_fraction {small big : Int32} (nonneg : 0 ≤ small.toInt)
    (le : small.toInt ≤ big.toInt) (pos : 0 < big.toInt) :
    ∃ frac, fixedDiv small big = .ok frac ∧ 0 ≤ frac.toInt ∧ frac.toInt ≤ 65536 := by
  have absSmall : small.abs = small := abs_of_nonneg (Int32.le_iff_toInt_le.2 nonneg)
  have absBig : big.abs = big := abs_of_nonneg (Int32.le_iff_toInt_le.2 pos.le)
  have under : ¬small.abs >>> 14 ≥ big.abs := by
    intro ge
    have := Int32.le_iff_toInt_le.1 ge
    rw [absSmall, absBig, toInt_shiftRight14] at this
    omega
  have divisor : big ≠ 0 := by
    rintro rfl
    exact absurd pos (by decide)
  rw [fixedDiv, if_neg under,
    divInt64_ok (widened_ne_minValue small) (toInt64_ne_zero divisor)]
  refine ⟨_, rfl, ?_⟩
  have low : 0 ≤ small.toInt * 65536 / big.toInt := Int.ediv_nonneg (by omega) pos.le
  have high : small.toInt * 65536 / big.toInt ≤ 65536 := by
    apply Int.ediv_le_of_le_mul pos
    nlinarith
  have eq : (small.toInt64 <<< 16 / big.toInt64).toInt32.toInt =
      small.toInt * 65536 / big.toInt := by
    rw [Int64.toInt_toInt32, Int64.toInt_div_of_ne_left _ _ (widened_ne_minValue small),
      toInt_widen_shiftLeft, Int32.toInt_toInt64, Int.tdiv_eq_ediv_of_nonneg (by omega)]
    apply Int.bmod_eq_of_le <;> norm_num <;> omega
  rw [eq]
  exact ⟨low, high⟩

theorem slopeDiv_ok (num den : UInt32) :
    ∃ slope, slopeDiv num den = .ok slope ∧ slope.toNat ≤ 2048 := by
  rw [slopeDiv]
  split
  · exact ⟨_, rfl, by decide⟩
  · rename_i small
    have divisor : den >>> 8 ≠ 0 := by
      intro zero
      have quotient := congrArg UInt32.toNat zero
      simp [Nat.shiftRight_eq_div_pow] at quotient
      have : 512 ≤ den.toNat := by simpa [UInt32.lt_iff_toNat_lt] using small
      omega
    rw [divUInt32_ok divisor]
    refine ⟨_, rfl, ?_⟩
    split
    · assumption
    · decide

theorem slopeAngle_ok (trig : Trig) (num den : Int32) :
    ∃ angle, slopeAngle trig num den = .ok angle := by
  obtain ⟨slope, eq, le⟩ := slopeDiv_ok num.toUInt32 den.toUInt32
  have inside : slope.toNat < trig.tantoangle.length := by
    rw [trig.length_tantoangle]
    omega
  refine ⟨trig.tantoangle[slope.toNat], ?_⟩
  rw [slopeAngle, eq]
  exact readTable_ok inside

theorem finesine_ok (trig : Trig) (angle : UInt32) :
    ∃ sine, readTable trig.finesine (angle >>> 19).toNat = .ok sine := by
  have inside : (angle >>> 19).toNat < trig.finesine.length := by
    have := angle.toNat_lt
    rw [trig.length_finesine]
    simp [Nat.shiftRight_eq_div_pow]
    omega
  exact ⟨_, readTable_ok inside⟩

/-- The entry of `tantoangle` for a fraction. -/
theorem tantoangle_ok (trig : Trig) {frac : Int32} (low : 0 ≤ frac.toInt)
    (high : frac.toInt ≤ 65536) :
    ∃ angle, readTable trig.tantoangle (frac >>> 5).toInt = .ok angle := by
  have shifted : (frac >>> 5).toInt = frac.toInt / 2 ^ 5 := toInt_shiftRight rfl
  obtain ⟨slope, eq⟩ : ∃ slope : Nat, (frac >>> 5).toInt = slope :=
    ⟨_, (Int.toNat_of_nonneg (by omega)).symm⟩
  have inside : slope < trig.tantoangle.length := by
    rw [trig.length_tantoangle]
    omega
  rw [eq]
  exact ⟨_, readTable_ok inside⟩

/-- The two distances in the order `R_PointToDist` puts them. -/
theorem distances_ordered {x y : Int32} (hx : x ≠ Int32.minValue) (hy : y ≠ Int32.minValue) :
    ∃ big small : Int32,
      (if y.abs > x.abs then (y.abs, x.abs) else (x.abs, y.abs)) = (big, small) ∧
      0 ≤ small.toInt ∧ small.toInt ≤ big.toInt := by
  have absX := Int32.le_iff_toInt_le.1 (abs_nonneg hx)
  have absY := Int32.le_iff_toInt_le.1 (abs_nonneg hy)
  by_cases order : y.abs > x.abs
  · exact ⟨_, _, if_pos order, absX, Int32.le_iff_toInt_le.1 (Int32.le_of_lt order)⟩
  · exact ⟨_, _, if_neg order, absY, Int32.le_iff_toInt_le.1 (Int32.not_lt.1 order)⟩

/-- No trap where neither coordinate is the least word. -/
theorem pointToDist_ok (trig : Trig) {x y : Int32} (hx : x ≠ Int32.minValue)
    (hy : y ≠ Int32.minValue) : ∃ dist, pointToDist trig x y = .ok dist := by
  obtain ⟨big, small, ordered, nonneg, le⟩ := distances_ordered hx hy
  obtain ⟨frac, eqFrac, low, high⟩ : ∃ frac, (if big ≠ 0 then fixedDiv small big else .ok 0) =
      .ok frac ∧ 0 ≤ frac.toInt ∧ frac.toInt ≤ 65536 := by
    by_cases zero : big = 0
    · exact ⟨0, by rw [if_neg (not_not.2 zero)], by decide, by decide⟩
    · rw [if_pos zero]
      apply fixedDiv_fraction nonneg le
      have : big.toInt ≠ 0 := fun h => zero (Int32.toInt_inj.1 h)
      omega
  obtain ⟨angle, eqAngle⟩ := tantoangle_ok trig low high
  obtain ⟨sine, eqSine⟩ := finesine_ok trig (angle + ang90)
  have ne : big ≠ Int32.minValue :=
    ne_minValue_of_nonneg (Int32.le_iff_toInt_le.2 (nonneg.trans le))
  obtain ⟨dist, eqDist⟩ := fixedDiv_ok (b := sine) fun trap => ne trap.1
  refine ⟨dist, ?_⟩
  rw [pointToDist, ordered]
  show ((if big ≠ 0 then fixedDiv small big else .ok 0) >>= fun frac => _) = _
  rw [eqFrac, ok_bind, eqAngle, ok_bind]
  show (readTable trig.finesine ((angle + ang90) >>> 19).toNat >>= fun sine => fixedDiv big sine) = _
  rw [eqSine, ok_bind, eqDist]

theorem scaleFromGlobalAngle_ne_outOfTable (trig : Trig) (detailshift : Int32)
    (visangle viewangle normalangle : UInt32) (rwDistance projection : Int32) :
    scaleFromGlobalAngle trig detailshift visangle viewangle normalangle rwDistance projection ≠
      .error .outOfTable := by
  obtain ⟨sinea, eqA⟩ := finesine_ok trig (ang90 + (visangle - viewangle))
  obtain ⟨sineb, eqB⟩ := finesine_ok trig (ang90 + (visangle - normalangle))
  rw [scaleFromGlobalAngle]
  simp only [eqA, eqB, ok_bind]
  split
  · intro trap
    cases quotient : fixedDiv (fixedMul projection sineb <<< detailshift)
        (fixedMul rwDistance sinea) with
    | ok scale =>
      rw [quotient] at trap
      exact nomatch trap
    | error why =>
      rw [quotient] at trap
      cases trap
      exact fixedDiv_ne_outOfTable _ _ quotient
  · exact fun h => nomatch h

end Engine
end ClickDoom

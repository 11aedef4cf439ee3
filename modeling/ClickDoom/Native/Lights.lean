import ClickDoom.Base.SignedWords
import ClickDoom.Engine.Lights
import ClickDoom.Native.Thinkers

/-! # The light thinkers as a fold

`native/src/sql/sim/lights.rs`: one fold over the sector thinkers that carries the light
levels, the thinkers' own counts and directions, and how many numbers it has drawn.  The
levels are compared in 64 bits and stored in 16, so the one place where the fold and the
engine part is a glow whose step leaves 16 bits.
-/
namespace ClickDoom.Native.Lights
open Engine (LightThinker)

/-- `drew`: a flash or a flicker draws when its count runs out. -/
def drew (kind : Kind) (count : Int32) : Nat :=
  if (kind = .lightFlash ∨ kind = .fireFlicker) ∧ count.toInt64 - 1 = 0 then 1 else 0

/-- `lt_draws`. -/
def draws (thinkers : List SectorThinker) : Nat :=
  (thinkers.map fun thinker => drew thinker.kind thinker.count).sum

/-- The fold's accumulator; the counts and directions are the thinkers' own. -/
structure Held where
  levels : List Int16
  thinkers : List SectorThinker
  draws : Nat
  deriving DecidableEq, Repr

/-- `light_runs`. -/
def runs (kind : Kind) : Bool :=
  kind = .lightFlash || kind = .strobe || kind = .glow || kind = .fireFlicker

/-- The number a thinker would draw. -/
def draw (rnd : List UInt8) (index draws : Nat) : Int64 :=
  Int64.ofNat (rnd.getD ((index + draws + 1) &&& 255) 0).toNat

section
variable (kind : Kind) (direction : Int) (level : Int16) (count minlight maxlight : Int32)
  (mintime maxtime : Int32) (draw : Int64)

/-- `light_level`. -/
def lightLevel : Int16 :=
  let wide := level.toInt64
  let flicker := (draw &&& 3) * 16
  (if kind = .glow ∧ direction = -1 ∧ wide - 8 ≤ minlight.toInt64 then wide
    else if kind = .glow ∧ direction = -1 then wide - 8
    else if kind = .glow ∧ direction ≠ 1 then wide
    else if kind = .glow ∧ wide + 8 ≥ maxlight.toInt64 then wide
    else if kind = .glow then wide + 8
    else if count.toInt64 - 1 ≠ 0 then wide
    else if kind = .lightFlash then
      if wide = maxlight.toInt64 then minlight.toInt64 else maxlight.toInt64
    else if kind = .strobe then
      if wide = minlight.toInt64 then maxlight.toInt64 else minlight.toInt64
    else if kind = .fireFlicker ∧ wide - flicker < minlight.toInt64 then minlight.toInt64
    else if kind = .fireFlicker then maxlight.toInt64 - flicker
    else wide).toInt16

/-- `light_count`. -/
def lightCount : Int32 :=
  let wide := level.toInt64
  (if kind = .glow then count.toInt64
    else if count.toInt64 - 1 ≠ 0 then count.toInt64 - 1
    else if kind = .lightFlash ∧ wide = maxlight.toInt64 then (draw &&& mintime.toInt64) + 1
    else if kind = .lightFlash then (draw &&& maxtime.toInt64) + 1
    else if kind = .strobe ∧ wide = minlight.toInt64 then maxtime.toInt64
    else if kind = .strobe then mintime.toInt64
    else if kind = .fireFlicker then 4
    else count.toInt64).toInt32

/-- `light_direction`. -/
def lightDirection : Int :=
  let wide := level.toInt64
  if kind ≠ .glow then direction
  else if direction = -1 ∧ wide - 8 ≤ minlight.toInt64 then 1
  else if direction = 1 ∧ wide + 8 ≥ maxlight.toInt64 then -1
  else direction

end

/-- One step of the fold, at the slot `j` counted from zero. -/
def step (rnd : List UInt8) (index : Nat) (held : Held) (j : Nat) : Held :=
  match held.thinkers[j]? with
  | none => held
  | some t =>
    if runs t.kind then
      let level := held.levels.getD t.sector 0
      let number := draw rnd index held.draws
      { levels := held.levels.set t.sector
          (lightLevel t.kind t.direction level t.count t.minlight t.maxlight number)
        thinkers := held.thinkers.set j
          { t with
            count := lightCount t.kind level t.count t.minlight t.maxlight t.mintime t.maxtime
              number
            direction := lightDirection t.kind t.direction level t.minlight t.maxlight }
        draws := held.draws + drew t.kind t.count }
    else held

/-- `lights`. -/
def lights (rnd : List UInt8) (index : Nat) (levels : List Int16)
    (thinkers : List SectorThinker) : Held :=
  (List.range thinkers.length).foldl (step rnd index) ⟨levels, thinkers, 0⟩

/-- The engine's thinker behind a row. -/
def thinkerOf (t : SectorThinker) : LightThinker :=
  match t.kind with
  | .lightFlash => .flash t.sector t.count t.maxlight t.minlight t.maxtime t.mintime
  | .strobe => .strobe t.sector t.count t.minlight t.maxlight t.mintime t.maxtime
  | .glow => .glow t.sector t.minlight t.maxlight t.direction
  | .fireFlicker => .flicker t.sector t.count t.maxlight t.minlight
  | _ => .other

/-! ## One thinker -/
open SignedWords

/-- A glow's step does not leave 16 bits across its bound: going down from a level `l` the
engine compares `l - 8 + 65536` with the least light where `l - 8` is below a `short`. -/
def GlowFits (t : SectorThinker) (level : Int16) : Prop :=
  t.kind = .glow →
    (t.direction = -1 → ¬(level.toInt < -32760 ∧
      level.toInt - 8 ≤ t.minlight.toInt ∧ t.minlight.toInt < level.toInt + 65528)) ∧
    (t.direction = 1 → ¬(32759 < level.toInt ∧
      level.toInt - 65528 < t.maxlight.toInt ∧ t.maxlight.toInt ≤ level.toInt + 8))

section
variable (rnd : List UInt8) (index : Nat) (levels : List Int16) (draws : Nat) (t : SectorThinker)

/-- The row a step leaves. -/
def ran : SectorThinker :=
  if runs t.kind then
    { t with
      count := lightCount t.kind (levels.getD t.sector 0) t.count t.minlight t.maxlight t.mintime
        t.maxtime (draw rnd index draws)
      direction := lightDirection t.kind t.direction (levels.getD t.sector 0) t.minlight
        t.maxlight }
  else t

/-- The levels a step leaves. -/
def ranLevels : List Int16 :=
  if runs t.kind then
    levels.set t.sector (lightLevel t.kind t.direction (levels.getD t.sector 0) t.count t.minlight
      t.maxlight (draw rnd index draws))
  else levels

end

theorem fires_iff (count : Int32) : count.toInt64 - 1 ≠ 0 ↔ count - 1 ≠ 0 := by
  have one : (1 : Int64) = (1 : Int32).toInt64 := rfl
  rw [not_iff_not, one]
  constructor
  · intro zero
    have eq : count.toInt64 = (1 : Int32).toInt64 := by grind
    rw [widen_inj] at eq
    rw [eq]
    rfl
  · intro zero
    have eq : count = 1 := by grind
    rw [eq]
    rfl

theorem random_eq (rnd : List UInt8) (index draws : Nat) :
    ∃ number : Int32, Engine.random rnd ((index + draws) % 256) =
        (number, (index + draws + 1) % 256) ∧
      draw rnd index draws = number.toInt64 ∧
      (draw rnd index draws &&& 3) * 16 = ((number &&& 3) * 16).toInt64 ∧
      0 ≤ ((number &&& 3) * 16).toInt ∧ ((number &&& 3) * 16).toInt ≤ 48 := by
  have next : ((index + draws) % 256 + 1) &&& 0xff = (index + draws + 1) % 256 := by
    rw [show 0xff = 2 ^ 8 - 1 from rfl, Nat.and_two_pow_sub_one_eq_mod]
    omega
  have place : (index + draws + 1) &&& 255 = (index + draws + 1) % 256 := by
    rw [show 255 = 2 ^ 8 - 1 from rfl, Nat.and_two_pow_sub_one_eq_mod]
  have bytes : ∀ n : Fin 256, Int64.ofNat n.val = (Int32.ofNat n.val).toInt64 ∧
      (Int64.ofNat n.val &&& 3) * 16 = ((Int32.ofNat n.val &&& 3) * 16).toInt64 ∧
      0 ≤ ((Int32.ofNat n.val &&& 3) * 16).toInt ∧
      ((Int32.ofNat n.val &&& 3) * 16).toInt ≤ 48 := by decide +kernel
  refine ⟨Int32.ofNat (rnd.getD ((index + draws + 1) % 256) 0).toNat, ?_, ?_⟩
  · rw [Engine.random, next]
  · rw [draw, place]
    exact bytes ⟨_, (rnd.getD ((index + draws + 1) % 256) 0).toNat_lt⟩

theorem level_eq_iff (level : Int16) (light : Int32) :
    level.toInt64 = light.toInt64 ↔ level.toInt32 = light := by
  rw [← Int16.toInt64_toInt32, widen_inj]

/-- A flash or a strobe stores what it compares with. -/
theorem toInt16_ite (p : Prop) [Decidable p] (a b : Int32) :
    (if p then a.toInt64 else b.toInt64).toInt16 = if p then a.toInt16 else b.toInt16 := by
  split <;> exact Int32.toInt16_toInt64 _

theorem dims_iff (level : Int16) (amount light : Int32) (low : 0 ≤ amount.toInt)
    (high : amount.toInt ≤ 48) :
    level.toInt64 - amount.toInt64 < light.toInt64 ↔ level.toInt32 - amount < light := by
  have least := level.le_toInt
  have most := level.toInt_lt
  have exact_ : NoWrap level.toInt32 amount := by
    rw [NoWrap, Int32.toInt_sub, Int16.toInt_toInt32]
    apply Int.bmod_eq_of_le <;> norm_num <;> omega
  rw [← Int16.toInt64_toInt32, widen_sub exact_, widen_lt]

/-- The step is the engine's, the row and the index included. -/
def Agrees (rnd : List UInt8) (index : Nat) (levels : List Int16) (draws : Nat)
    (t : SectorThinker) : Prop :=
  Engine.runLight rnd ⟨levels, (index + draws) % 256⟩ (thinkerOf t) =
    (thinkerOf (ran rnd index levels draws t),
      ⟨ranLevels rnd index levels draws t, (index + draws + drew t.kind t.count) % 256⟩)

section
variable {rnd : List UInt8} {index : Nat} {levels : List Int16} {draws : Nat} {t : SectorThinker}

theorem set_getD_self (levels : List Int16) (sector : Nat) :
    levels.set sector (levels.getD sector 0) = levels := by
  apply List.ext_getElem?
  intro j
  rw [List.getElem?_set]
  by_cases here : sector = j
  · subst here
    by_cases inside : sector < levels.length
    · simp [inside]
    · simp [inside]
  · simp [here]

theorem ran_of_runs (h : runs t.kind = true) :
    ran rnd index levels draws t =
      { t with
        count := lightCount t.kind (levels.getD t.sector 0) t.count t.minlight t.maxlight t.mintime
          t.maxtime (draw rnd index draws)
        direction := lightDirection t.kind t.direction (levels.getD t.sector 0) t.minlight
          t.maxlight } := if_pos h

theorem ranLevels_of_runs (h : runs t.kind = true) :
    ranLevels rnd index levels draws t = levels.set t.sector (lightLevel t.kind t.direction
      (levels.getD t.sector 0) t.count t.minlight t.maxlight (draw rnd index draws)) := if_pos h

theorem flash_agrees (kind : t.kind = .lightFlash) : Agrees rnd index levels draws t := by
  obtain ⟨number, random, wide, -, -, -⟩ := random_eq rnd index draws
  have running : runs t.kind = true := by rw [kind]; rfl
  have levelNow : lightLevel t.kind t.direction (levels.getD t.sector 0) t.count t.minlight
      t.maxlight (draw rnd index draws) =
      if t.count - 1 ≠ 0 then levels.getD t.sector 0
      else if (levels.getD t.sector 0).toInt32 = t.maxlight then Engine.short t.minlight
      else Engine.short t.maxlight := by
    simp only [lightLevel, kind, reduceCtorEq, false_and, if_false, if_true, fires_iff,
      level_eq_iff]
    split
    · exact Int16.toInt16_toInt64 _
    · exact toInt16_ite ..
  have countNow : lightCount t.kind (levels.getD t.sector 0) t.count t.minlight t.maxlight
      t.mintime t.maxtime (draw rnd index draws) =
      if t.count - 1 ≠ 0 then t.count - 1
      else if (levels.getD t.sector 0).toInt32 = t.maxlight then (number &&& t.mintime) + 1
      else (number &&& t.maxtime) + 1 := by
    simp only [lightCount, kind, reduceCtorEq, if_false, true_and, if_true, fires_iff,
      level_eq_iff, wide]
    split
    · simp
    · split <;> simp
  have drawn : drew t.kind t.count = if t.count - 1 ≠ 0 then 0 else 1 := by
    simp only [drew, kind, true_or, true_and, ← fires_iff]
    split <;> simp_all
  rw [Agrees, thinkerOf, ran_of_runs running, ranLevels_of_runs running, thinkerOf, levelNow,
    countNow, drawn]
  simp only [kind, Engine.runLight, random]
  by_cases waits : t.count - 1 ≠ 0
  · simp only [if_pos waits, set_getD_self, add_zero]
  · simp only [if_neg waits]
    split <;> rfl

theorem strobe_agrees (kind : t.kind = .strobe) : Agrees rnd index levels draws t := by
  have running : runs t.kind = true := by rw [kind]; rfl
  have levelNow : lightLevel t.kind t.direction (levels.getD t.sector 0) t.count t.minlight
      t.maxlight (draw rnd index draws) =
      if t.count - 1 ≠ 0 then levels.getD t.sector 0
      else if (levels.getD t.sector 0).toInt32 = t.minlight then Engine.short t.maxlight
      else Engine.short t.minlight := by
    simp only [lightLevel, kind, reduceCtorEq, false_and, if_false, if_true, fires_iff,
      level_eq_iff]
    split
    · exact Int16.toInt16_toInt64 _
    · exact toInt16_ite ..
  have countNow : lightCount t.kind (levels.getD t.sector 0) t.count t.minlight t.maxlight
      t.mintime t.maxtime (draw rnd index draws) =
      if t.count - 1 ≠ 0 then t.count - 1
      else if (levels.getD t.sector 0).toInt32 = t.minlight then t.maxtime
      else t.mintime := by
    simp only [lightCount, kind, reduceCtorEq, false_and, if_false, true_and, if_true, fires_iff,
      level_eq_iff]
    split
    · simp
    · split <;> simp
  have drawn : drew t.kind t.count = 0 := by simp [drew, kind]
  rw [Agrees, thinkerOf, ran_of_runs running, ranLevels_of_runs running, thinkerOf, levelNow,
    countNow, drawn]
  simp only [kind, Engine.runLight]
  by_cases waits : t.count - 1 ≠ 0
  · simp only [if_pos waits, set_getD_self, add_zero]
  · simp only [if_neg waits]
    split <;> rfl

theorem flicker_agrees (kind : t.kind = .fireFlicker) : Agrees rnd index levels draws t := by
  obtain ⟨number, random, wide, amount, low, high⟩ := random_eq rnd index draws
  have running : runs t.kind = true := by rw [kind]; rfl
  have levelNow : lightLevel t.kind t.direction (levels.getD t.sector 0) t.count t.minlight
      t.maxlight (draw rnd index draws) =
      if t.count - 1 ≠ 0 then levels.getD t.sector 0
      else if (levels.getD t.sector 0).toInt32 - (number &&& 3) * 16 < t.minlight then
        Engine.short t.minlight
      else Engine.short (t.maxlight - (number &&& 3) * 16) := by
    simp only [lightLevel, kind, reduceCtorEq, false_and, if_false, true_and, if_true, fires_iff,
      amount, dims_iff _ _ _ low high]
    split
    · exact Int16.toInt16_toInt64 _
    · split
      · exact Int32.toInt16_toInt64 _
      · rw [Int64.toInt16_sub, Int32.toInt16_toInt64, Int32.toInt16_toInt64, Engine.short,
          Int32.toInt16_sub]
  have countNow : lightCount t.kind (levels.getD t.sector 0) t.count t.minlight t.maxlight
      t.mintime t.maxtime (draw rnd index draws) =
      if t.count - 1 ≠ 0 then t.count - 1 else 4 := by
    simp only [lightCount, kind, reduceCtorEq, false_and, if_false, if_true, fires_iff]
    split <;> simp
  have drawn : drew t.kind t.count = if t.count - 1 ≠ 0 then 0 else 1 := by
    simp only [drew, kind, or_true, true_and, ← fires_iff]
    split <;> simp_all
  rw [Agrees, thinkerOf, ran_of_runs running, ranLevels_of_runs running, thinkerOf, levelNow,
    countNow, drawn]
  simp only [kind, Engine.runLight, random]
  by_cases waits : t.count - 1 ≠ 0
  · simp only [if_pos waits, set_getD_self, add_zero]
  · simp only [if_neg waits]
    rfl

theorem lowers_iff (level : Int16) (light : Int32) :
    (level.toInt64 - 8 ≤ light.toInt64 ↔ level.toInt - 8 ≤ light.toInt) ∧
    ((level - 8).toInt32 ≤ light ↔
      (if level.toInt < -32760 then level.toInt + 65528 else level.toInt - 8) ≤ light.toInt) := by
  have least := level.le_toInt
  have most := level.toInt_lt
  have wide : (level.toInt64 - 8).toInt = level.toInt - 8 := by
    rw [Int64.toInt_sub, Int16.toInt_toInt64, show Int64.toInt 8 = 8 from by decide]
    apply Int.bmod_eq_of_le <;> norm_num <;> omega
  have narrow : (level - 8).toInt =
      if level.toInt < -32760 then level.toInt + 65528 else level.toInt - 8 := by
    rw [Int16.toInt_sub, show Int16.toInt 8 = 8 from by decide, Int.bmod_def]
    norm_num
    split <;> split <;> omega
  rw [Int64.le_iff_toInt_le, Int32.le_iff_toInt_le, wide, Int16.toInt_toInt32, narrow,
    Int32.toInt_toInt64]
  exact ⟨Iff.rfl, Iff.rfl⟩

theorem raises_iff (level : Int16) (light : Int32) :
    (level.toInt64 + 8 ≥ light.toInt64 ↔ light.toInt ≤ level.toInt + 8) ∧
    ((level + 8).toInt32 ≥ light ↔
      light.toInt ≤ if 32759 < level.toInt then level.toInt - 65528 else level.toInt + 8) := by
  have least := level.le_toInt
  have most := level.toInt_lt
  have wide : (level.toInt64 + 8).toInt = level.toInt + 8 := by
    rw [Int64.toInt_add, Int16.toInt_toInt64, show Int64.toInt 8 = 8 from by decide]
    apply Int.bmod_eq_of_le <;> norm_num <;> omega
  have narrow : (level + 8).toInt =
      if 32759 < level.toInt then level.toInt - 65528 else level.toInt + 8 := by
    rw [Int16.toInt_add, show Int16.toInt 8 = 8 from by decide, Int.bmod_def]
    norm_num
    split <;> split <;> omega
  rw [ge_iff_le, ge_iff_le, Int64.le_iff_toInt_le, Int32.le_iff_toInt_le, wide,
    Int16.toInt_toInt32, narrow, Int32.toInt_toInt64]
  exact ⟨Iff.rfl, Iff.rfl⟩

/-- A glow runs as the engine's exactly where its step does not wrap across its bound. -/
theorem glow_agrees_iff (kind : t.kind = .glow) :
    Agrees rnd index levels draws t ↔ GlowFits t (levels.getD t.sector 0) := by
  have running : runs t.kind = true := by rw [kind]; rfl
  have drawn : drew t.kind t.count = 0 := by simp [drew, kind]
  rw [Agrees, thinkerOf, ran_of_runs running, ranLevels_of_runs running, thinkerOf, drawn, GlowFits]
  simp only [kind, Engine.runLight, lightDirection, lightLevel, Engine.glowspeed, Engine.Lights.put,
    reduceCtorEq, true_and, ne_eq, not_true_eq_false, if_false, if_true, forall_const, add_zero,
    (lowers_iff _ _).1, (lowers_iff _ _).2, (raises_iff _ _).1, (raises_iff _ _).2]
  have same : levels.set t.sector (levels.getD t.sector 0).toInt64.toInt16 = levels := by
    rw [Int16.toInt16_toInt64, set_getD_self]
  have back : ∀ level : Int16, level - 8 + 8 = level ∧ level + 8 - 8 = level := by grind
  by_cases down : t.direction = -1
  · simp only [down, if_true, true_and, true_implies, show ¬((-1 : Int) = 1) from by decide,
      false_implies, and_true, false_and, if_false]
    generalize levels.getD t.sector 0 = level
    -- the 64-bit test against the engine's 16-bit one
    by_cases wide : level.toInt - 8 ≤ t.minlight.toInt <;>
      by_cases narrow : (if level.toInt < -32760 then level.toInt + 65528 else level.toInt - 8) ≤
        t.minlight.toInt
    · rw [if_pos narrow, if_pos wide, if_pos wide, (back level).1, Int16.toInt16_toInt64]
      refine iff_of_true rfl ?_
      split at narrow <;> omega
    · rw [if_neg narrow, if_pos wide]
      refine iff_of_false (by simp) (not_not.2 ?_)
      split at narrow <;> omega
    · exact absurd narrow (by split <;> omega)
    · rw [if_neg narrow, if_neg wide, if_neg wide, Int64.toInt16_sub, Int16.toInt16_toInt64]
      exact iff_of_true rfl (by omega)
  by_cases up : t.direction = 1
  · simp only [up, show ¬((1 : Int) = -1) from by decide, if_false, if_true, true_and,
      true_implies, false_implies, false_and, not_true_eq_false]
    generalize levels.getD t.sector 0 = level
    by_cases wide : t.maxlight.toInt ≤ level.toInt + 8 <;>
      by_cases narrow : t.maxlight.toInt ≤
        if 32759 < level.toInt then level.toInt - 65528 else level.toInt + 8
    · rw [if_pos narrow, if_pos wide, if_pos wide, (back level).2, Int16.toInt16_toInt64]
      refine iff_of_true rfl ?_
      split at narrow <;> omega
    · rw [if_neg narrow, if_pos wide]
      refine iff_of_false (by simp) (not_not.2 ?_)
      split at narrow <;> omega
    · exact absurd narrow (by split <;> omega)
    · rw [if_neg narrow, if_neg wide, if_neg wide, Int64.toInt16_add, Int16.toInt16_toInt64]
      exact iff_of_true rfl (by omega)
  · simp only [down, up, if_false, false_and, not_false_eq_true, if_true, same, false_implies,
      and_true]

/-- Where the step leaves 16 bits across its bound, the two turn the glow different ways. -/
theorem fits_of_row (row : (Engine.runLight rnd ⟨levels, (index + draws) % 256⟩ (thinkerOf t)).1 =
    thinkerOf (ran rnd index levels draws t)) : GlowFits t (levels.getD t.sector 0) := by
  intro kind
  have running : runs t.kind = true := by rw [kind]; rfl
  rw [thinkerOf, ran_of_runs running, thinkerOf] at row
  simp only [kind, Engine.runLight, lightDirection, Engine.glowspeed, ne_eq, not_true_eq_false,
    if_false, (lowers_iff _ _).1, (lowers_iff _ _).2, (raises_iff _ _).1,
    (raises_iff _ _).2] at row
  generalize levels.getD t.sector 0 = level at row ⊢
  refine ⟨fun down => ?_, fun up => ?_⟩
  · -- the fold turns it, and the engine's level wraps past the bound and goes on down
    rintro ⟨low, wide, narrow⟩
    simp only [down, if_true, if_pos low, if_neg (not_le.mpr narrow), wide, and_self] at row
    cases row
  · rintro ⟨high, narrow, wide⟩
    simp only [up, show ¬((1 : Int) = -1) from by decide, if_false, if_true, if_pos high,
      if_neg (not_le.mpr narrow), wide, false_and, and_self] at row
    cases row

theorem drew_of_not_runs {kind : Kind} (rest : runs kind = false) (count : Int32) :
    drew kind count = 0 := by
  rw [drew, if_neg]
  rintro ⟨flash | flicker, -⟩
  · simp [flash, runs] at rest
  · simp [flicker, runs] at rest

theorem other_agrees (rest : runs t.kind = false) : Agrees rnd index levels draws t := by
  have row : thinkerOf t = .other := by
    rw [thinkerOf]
    revert rest
    cases t.kind <;> simp [runs]
  have drawn : drew t.kind t.count = 0 := drew_of_not_runs rest t.count
  have still : ran rnd index levels draws t = t := if_neg (by simp [rest])
  have levelsStill : ranLevels rnd index levels draws t = levels := if_neg (by simp [rest])
  rw [Agrees, still, levelsStill, row, drawn]
  rfl

theorem agrees_of_fits (fits : GlowFits t (levels.getD t.sector 0)) :
    Agrees rnd index levels draws t := by
  cases kind : t.kind with
  | lightFlash => exact flash_agrees kind
  | strobe => exact strobe_agrees kind
  | glow => exact (glow_agrees_iff kind).2 fits
  | fireFlicker => exact flicker_agrees kind
  | door | plat | floor | ceiling => exact other_agrees (by rw [kind]; rfl)

end

/-! ## The whole list -/

section
variable (rnd : List UInt8) (index : Nat)

/-- The list run from its head: the rows, the levels and the draws it leaves. -/
def runRest : List SectorThinker → List Int16 → Nat → Held
  | [], levels, draws => ⟨levels, [], draws⟩
  | t :: rest, levels, draws =>
    let left := runRest rest (ranLevels rnd index levels draws t) (draws + drew t.kind t.count)
    { left with thinkers := ran rnd index levels draws t :: left.thinkers }

/-- Every glow of the list fits at the level it finds. -/
def Fits : List SectorThinker → List Int16 → Nat → Prop
  | [], _, _ => True
  | t :: rest, levels, draws => GlowFits t (levels.getD t.sector 0) ∧
    Fits rest (ranLevels rnd index levels draws t) (draws + drew t.kind t.count)

variable {rnd index}

theorem step_eq (levels : List Int16) (pre rest : List SectorThinker) (t : SectorThinker)
    (draws : Nat) :
    step rnd index ⟨levels, pre ++ t :: rest, draws⟩ pre.length =
      ⟨ranLevels rnd index levels draws t, pre ++ ran rnd index levels draws t :: rest,
        draws + drew t.kind t.count⟩ := by
  have here : (pre ++ t :: rest)[pre.length]? = some t := by simp
  simp only [step, here, ran, ranLevels]
  cases running : runs t.kind with
  | false =>
    simp only [Bool.false_eq_true, if_false, drew_of_not_runs running, add_zero]
  | true => simp

theorem foldl_step (rest pre : List SectorThinker) (levels : List Int16) (draws : Nat) :
    (List.range' pre.length rest.length).foldl (step rnd index) ⟨levels, pre ++ rest, draws⟩ =
      { runRest rnd index rest levels draws with
        thinkers := pre ++ (runRest rnd index rest levels draws).thinkers } := by
  induction rest generalizing pre levels draws with
  | nil => rfl
  | cons t rest ih =>
    have next := ih (pre ++ [ran rnd index levels draws t])
      (ranLevels rnd index levels draws t) (draws + drew t.kind t.count)
    simp only [List.length_append, List.length_singleton, List.append_assoc,
      List.singleton_append] at next
    rw [List.length_cons, List.range'_succ, List.foldl_cons, step_eq, next]
    rfl

theorem lights_eq_runRest (levels : List Int16) (thinkers : List SectorThinker) :
    lights rnd index levels thinkers = runRest rnd index thinkers levels 0 := by
  rw [lights, List.range_eq_range']
  exact foldl_step thinkers [] levels 0

/-- The draws of the fold are those its rows began with. -/
theorem runRest_draws (rest : List SectorThinker) (levels : List Int16) (drawn : Nat) :
    (runRest rnd index rest levels drawn).draws = drawn + draws rest := by
  induction rest generalizing levels drawn with
  | nil => rfl
  | cons t rest ih =>
    simp only [runRest, ih, draws, List.map_cons, List.sum_cons]
    omega

theorem runLights_eq {rest : List SectorThinker} {levels : List Int16} {draws : Nat}
    (fits : Fits rnd index rest levels draws) :
    Engine.runLights rnd (rest.map thinkerOf) ⟨levels, (index + draws) % 256⟩ =
      ((runRest rnd index rest levels draws).thinkers.map thinkerOf,
        ⟨(runRest rnd index rest levels draws).levels,
          (index + (runRest rnd index rest levels draws).draws) % 256⟩) := by
  induction rest generalizing levels draws with
  | nil => rfl
  | cons t rest ih =>
    have first : Agrees rnd index levels draws t := agrees_of_fits fits.1
    have others := ih fits.2
    rw [Agrees] at first
    rw [add_assoc] at first
    simp only [List.map_cons, Engine.runLights, first, others, runRest]

/-- The rows of a whole run tell that every glow fitted. -/
theorem fits_of_rows {rest : List SectorThinker} {levels : List Int16} {draws : Nat}
    (rows : (Engine.runLights rnd (rest.map thinkerOf) ⟨levels, (index + draws) % 256⟩).1 =
      (runRest rnd index rest levels draws).thinkers.map thinkerOf) :
    Fits rnd index rest levels draws := by
  induction rest generalizing levels draws with
  | nil => trivial
  | cons t rest ih =>
    simp only [List.map_cons, Engine.runLights, runRest, List.cons.injEq] at rows
    obtain ⟨row, others⟩ := rows
    -- the first row tells of the first step, which then agrees and hands on the same levels
    have fits := fits_of_row row
    have first : Agrees rnd index levels draws t := agrees_of_fits fits
    rw [Agrees] at first
    rw [first, add_assoc] at others
    exact ⟨fits, ih others⟩

theorem runRest_other {rest : List SectorThinker} {levels : List Int16} {draws j : Nat}
    {t : SectorThinker} (held : rest[j]? = some t) (other : runs t.kind = false) :
    (runRest rnd index rest levels draws).thinkers[j]? = some t := by
  induction rest generalizing levels draws j with
  | nil => cases held
  | cons head rest ih =>
    cases j with
    | zero =>
      cases held
      simp [runRest, ran, other]
    | succ j => exact ih held

theorem draws_append_other {thinkers appended : List SectorThinker}
    (none : ∀ t ∈ appended, runs t.kind = false) :
    draws (thinkers ++ appended) = draws thinkers := by
  have zero : draws appended = 0 := by
    rw [draws, List.sum_eq_zero_iff]
    intro count member
    obtain ⟨t, there, rfl⟩ := List.mem_map.1 member
    exact drew_of_not_runs (none t there) _
  simp only [draws] at zero ⊢
  rw [List.map_append, List.sum_append, zero, add_zero]

/-- The fold over the list, with the plane thinkers a crossing appended to it, leaves the rows, the
levels and the index the engine's run leaves exactly where no glow wraps across its bound; rows of
other kinds stay, and it draws as many numbers as were counted before. -/
theorem lights_eq_engine (rnd : List UInt8) {index : Nat} (byte : index < 256)
    (levels : List Int16) (thinkers : List SectorThinker) {appended : List SectorThinker}
    (planes : ∀ t ∈ appended, runs t.kind = false) :
    (Engine.runLights rnd ((thinkers ++ appended).map thinkerOf) ⟨levels, index⟩ =
        ((lights rnd index levels (thinkers ++ appended)).thinkers.map thinkerOf,
          ⟨(lights rnd index levels (thinkers ++ appended)).levels,
            (index + (lights rnd index levels (thinkers ++ appended)).draws) % 256⟩) ↔
      Fits rnd index (thinkers ++ appended) levels 0) ∧
    (∀ (j : Nat) (t : SectorThinker), (thinkers ++ appended)[j]? = some t → runs t.kind = false →
      (lights rnd index levels (thinkers ++ appended)).thinkers[j]? = some t) ∧
    (lights rnd index levels (thinkers ++ appended)).draws = draws thinkers := by
  have start : (index + 0) % 256 = index := by rw [add_zero, Nat.mod_eq_of_lt byte]
  rw [lights_eq_runRest]
  refine ⟨⟨fun same => ?_, fun fits => ?_⟩, fun j t held other => runRest_other held other, ?_⟩
  · refine fits_of_rows ?_
    rw [start, same]
  · have run := runLights_eq fits
    rwa [start] at run
  · rw [runRest_draws, zero_add, draws_append_other planes]

end

/-- A glow going down in the darkest sector there is. -/
def darkGlow : SectorThinker :=
  { SectorThinker.blank with
    kind := .glow, direction := -1, minlight := -32768, maxlight := -32768 }

/-- The fold turns the glow around; the engine's level wraps to 32760 and stays there. -/
theorem dark_glow_wraps :
    lights [] 0 [-32768] [darkGlow] = ⟨[-32768], [{ darkGlow with direction := 1 }], 0⟩ ∧
    Engine.runLights [] [thinkerOf darkGlow] ⟨[-32768], 0⟩ =
      ([.glow 0 (-32768) (-32768) (-1)], ⟨[32760], 0⟩) := by
  decide

/-- A glow and a flash on one sector: the flash finds the level the glow left, and draws. -/
theorem lights_eq_engine_shared :
    let thinkers : List SectorThinker :=
      [{ SectorThinker.blank with kind := .glow, direction := -1, minlight := 96, maxlight := 160 },
        { SectorThinker.blank with
          kind := .lightFlash, count := 1, minlight := 96, maxlight := 152, mintime := 7
          maxtime := 64 }]
    0 < 256 ∧ Fits [0, 8] 0 (thinkers ++ []) [160] 0 ∧
    Engine.runLights [0, 8] ((thinkers ++ []).map thinkerOf) ⟨[160], 0⟩ =
      ((lights [0, 8] 0 [160] (thinkers ++ [])).thinkers.map thinkerOf,
        ⟨(lights [0, 8] 0 [160] (thinkers ++ [])).levels,
          (0 + (lights [0, 8] 0 [160] (thinkers ++ [])).draws) % 256⟩) := by
  intro thinkers
  have fits : Fits [0, 8] 0 (thinkers ++ []) [160] 0 := by
    refine ⟨?_, ?_, trivial⟩
    · exact fun _ => ⟨fun _ => by decide, fun up => by cases up⟩
    · intro glow
      cases glow
  exact ⟨by decide, fits,
    (lights_eq_engine [0, 8] (by decide) [160] thinkers (by simp)).1.mpr fits⟩

end ClickDoom.Native.Lights

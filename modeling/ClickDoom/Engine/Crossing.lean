import ClickDoom.Engine.Descent

/-! # Crossing segs narrows a window

What a seg does to the view depends on its line alone, and the slopes only ever draw
together: `P_CrossSubsector` over a list of segs is a walk that narrows a window.
-/
namespace ClickDoom.Engine
open Narrowing (Effect Window)

/-- A quotient's value, where it has one. -/
def valueOf (quotient : Except Trap Int32) : Int32 :=
  match quotient with
  | .ok value => value
  | .error _ => 0

/-- A line the trace crosses between sectors whose planes part. -/
def isWall (line : Line) (opening : Opening) (sight : Sighting) : Bool :=
  line.crossed sight && line.twosided && (opening.stepped || opening.ducked)

/-- What a line does to the view; where it does nothing to a slope it leaves the first
one. -/
def segEffect (line : Line) (opening : Opening) (sight : Sighting) (first : Slopes) :
    Effect Int :=
  let wall := isWall line opening sight
  let closed := decide (opening.openbottom ≥ opening.opentop)
  let frac := valueOf (interceptVector sight.strace line.divline)
  let slope (height : Int32) := (valueOf (fixedDiv (height - sight.sightzstart) frac)).toInt
  { shut := (line.crossed sight && !line.twosided) || (wall && closed)
    top := if wall && !closed && opening.ducked then slope opening.opentop
      else first.topslope.toInt
    bottom := if wall && !closed && opening.stepped then slope opening.openbottom
      else first.bottomslope.toInt }

/-- No slope past the opening divides the one number a quotient by zero has no value
for. -/
def Clear (sight : Sighting) (line : Line) (opening : Opening) : Prop :=
  isWall line opening sight = true → opening.openbottom < opening.opentop →
    interceptVector sight.strace line.divline = .ok 0 →
      (opening.ducked = true → opening.opentop - sight.sightzstart ≠ Int32.minValue) ∧
      (opening.stepped = true → opening.openbottom - sight.sightzstart ≠ Int32.minValue)

/-- A line crossed with the two-sided flag and not shut by its heights has a back sector. -/
def Backed (sight : Sighting) (line : Line) (opening : Opening) : Prop :=
  line.crossed sight = true → line.twosided = true →
    (isWall line opening sight = true → opening.openbottom < opening.opentop) →
    line.backed = true

/-- The slopes are apart, between the first ones. -/
structure Between (first slopes : Slopes) : Prop where
  apart : slopes.bottomslope.toInt < slopes.topslope.toInt
  top_le : slopes.topslope.toInt ≤ first.topslope.toInt
  le_bottom : first.bottomslope.toInt ≤ slopes.bottomslope.toInt

def Slopes.window (slopes : Slopes) : Window Nat Int :=
  ⟨slopes.checked, slopes.topslope.toInt, slopes.bottomslope.toInt⟩

theorem toInt_ite_lt (a b : Int32) : (if a < b then a else b).toInt = min b.toInt a.toInt := by
  split
  · rename_i less
    rw [min_eq_right (Int32.lt_iff_toInt_lt.1 less).le]
  · rename_i least
    rw [min_eq_left (not_lt.1 fun h => least (Int32.lt_iff_toInt_lt.2 h))]

theorem toInt_ite_gt (a b : Int32) : (if a > b then a else b).toInt = max b.toInt a.toInt := by
  split
  · rename_i greater
    rw [max_eq_right (Int32.lt_iff_toInt_lt.1 greater).le]
  · rename_i most
    rw [max_eq_left (not_lt.1 fun h => most (Int32.lt_iff_toInt_lt.2 h))]

variable {line : Line} {opening : Opening} {sight : Sighting} {first slopes : Slopes}

theorem raisedBottom_eq (clear : Clear sight line opening) (between : Between first slopes)
    (wall : isWall line opening sight = true) (opened : ¬opening.openbottom ≥ opening.opentop)
    {frac : Int32} (eqFrac : interceptVector sight.strace line.divline = .ok frac) :
    ∃ bottom, raisedBottom opening sight frac slopes.bottomslope = .ok bottom ∧
      bottom.toInt =
        max slopes.bottomslope.toInt (segEffect line opening sight first).bottom := by
  cases stepped : opening.stepped with
  | true =>
    obtain ⟨slope, eqSlope⟩ :=
      fixedDiv_ok (a := opening.openbottom - sight.sightzstart) (b := frac) fun trap =>
        (clear wall (Int32.not_le.1 opened) (trap.2 ▸ eqFrac)).2 stepped trap.1
    rw [raisedBottom, eqSlope, ok_bind, stepped]
    refine ⟨_, rfl, ?_⟩
    simp [segEffect, wall, opened, eqFrac, valueOf, eqSlope, stepped, toInt_ite_gt]
  | false =>
    rw [raisedBottom, stepped]
    exact ⟨_, rfl, by simp [segEffect, stepped, between.le_bottom]⟩

theorem loweredTop_eq (clear : Clear sight line opening) (between : Between first slopes)
    (wall : isWall line opening sight = true) (opened : ¬opening.openbottom ≥ opening.opentop)
    {frac : Int32} (eqFrac : interceptVector sight.strace line.divline = .ok frac) :
    ∃ top, loweredTop opening sight frac slopes.topslope = .ok top ∧
      top.toInt = min slopes.topslope.toInt (segEffect line opening sight first).top := by
  cases ducked : opening.ducked with
  | true =>
    obtain ⟨slope, eqSlope⟩ :=
      fixedDiv_ok (a := opening.opentop - sight.sightzstart) (b := frac) fun trap =>
        (clear wall (Int32.not_le.1 opened) (trap.2 ▸ eqFrac)).1 ducked trap.1
    rw [loweredTop, eqSlope, ok_bind, ducked]
    refine ⟨_, rfl, ?_⟩
    simp [segEffect, wall, opened, eqFrac, valueOf, eqSlope, ducked, toInt_ite_lt]
  | false =>
    rw [loweredTop, ducked]
    exact ⟨_, rfl, by simp [segEffect, ducked, between.top_le]⟩

/-- The end of `P_CrossSubsector`'s body as a narrowing. -/
theorem narrow_eq (clear : Clear sight line opening) (between : Between first slopes)
    (wall : isWall line opening sight = true) (opened : ¬opening.openbottom ≥ opening.opentop) :
    (∃ next, narrow line opening sight slopes = .ok next ∧ next.checked = slopes.checked ∧
      next.topslope.toInt = min slopes.topslope.toInt (segEffect line opening sight first).top ∧
      next.bottomslope.toInt =
        max slopes.bottomslope.toInt (segEffect line opening sight first).bottom ∧
      next.bottomslope.toInt < next.topslope.toInt) ∨
    (narrow line opening sight slopes = .error .blocked ∧
      min slopes.topslope.toInt (segEffect line opening sight first).top ≤
        max slopes.bottomslope.toInt (segEffect line opening sight first).bottom) := by
  obtain ⟨frac, eqFrac⟩ := interceptVector_ok sight.strace line.divline
  obtain ⟨bottom, raised, bottomEq⟩ := raisedBottom_eq clear between wall opened eqFrac
  obtain ⟨top, lowered, topEq⟩ := loweredTop_eq clear between wall opened eqFrac
  have narrowed : narrow line opening sight slopes =
      if top ≤ bottom then .error .blocked else .ok ⟨slopes.checked, top, bottom⟩ := by
    rw [narrow, eqFrac]
    show (orTrap (raisedBottom opening sight frac slopes.bottomslope) >>= _) = _
    rw [raised]
    show (orTrap (loweredTop opening sight frac slopes.topslope) >>= _) = _
    rw [lowered]
    rfl
  rw [← topEq, ← bottomEq, narrowed]
  by_cases shut : top ≤ bottom
  · rw [if_pos shut]
    exact .inr ⟨rfl, Int32.le_iff_toInt_le.1 shut⟩
  · rw [if_neg shut]
    exact .inl ⟨_, rfl, rfl, rfl, rfl, not_le.1 fun h => shut (Int32.le_iff_toInt_le.2 h)⟩

/-- A line that does nothing to the view. -/
theorem segEffect_neutral (none : isWall line opening sight = false)
    (passes : (line.crossed sight && !line.twosided) = false) :
    segEffect line opening sight first =
      ⟨false, first.topslope.toInt, first.bottomslope.toInt⟩ := by
  simp [segEffect, none, passes]

/-- What crossing a line does, in terms of its effect. -/
inductive Crossed (first slopes : Slopes) (effect : Effect Int) : Except Stop Slopes → Prop
  | on {next : Slopes} : effect.shut = false → next.checked = slopes.checked →
      next.topslope.toInt = min slopes.topslope.toInt effect.top →
      next.bottomslope.toInt = max slopes.bottomslope.toInt effect.bottom →
      next.bottomslope.toInt < next.topslope.toInt → Crossed first slopes effect (.ok next)
  | blocked : effect.shut = true ∨ min slopes.topslope.toInt effect.top ≤
      max slopes.bottomslope.toInt effect.bottom → Crossed first slopes effect (.error .blocked)

theorem Crossed.of_neutral (between : Between first slopes) {effect : Effect Int}
    (neutral : effect = ⟨false, first.topslope.toInt, first.bottomslope.toInt⟩) :
    Crossed first slopes effect (.ok slopes) := by
  subst neutral
  exact .on rfl rfl (min_eq_left between.top_le).symm (max_eq_left between.le_bottom).symm
    between.apart

theorem crossLine_crossed (clear : Clear sight line opening) (between : Between first slopes)
    (backed : Backed sight line opening) :
    Crossed first slopes (segEffect line opening sight first)
      (crossLine line opening sight slopes) := by
  rw [crossLine]
  cases crossed : line.crossed sight with
  | false =>
    exact .of_neutral between (segEffect_neutral (by simp [isWall, crossed]) (by simp [crossed]))
  | true =>
    cases twosided : line.twosided with
    | false =>
      have shut : (segEffect line opening sight first).shut = true := by
        simp [segEffect, crossed, twosided]
      simpa using Crossed.blocked (.inl shut)
    | true =>
      cases wall : isWall line opening sight with
      | false =>
        have level : (!opening.stepped && !opening.ducked) = true := by
          simpa [isWall, crossed, twosided] using wall
        simp only [backed crossed twosided (by simp [wall]), Bool.not_true,
          if_neg Bool.false_ne_true]
        rw [if_pos level]
        exact .of_neutral between (segEffect_neutral wall (by simp [twosided]))
      | true =>
        have parts : ¬(!opening.stepped && !opening.ducked) = true := by
          have : (opening.stepped || opening.ducked) = true := by
            simpa [isWall, crossed, twosided] using wall
          simpa [or_iff_not_imp_left] using this
        by_cases closed : opening.openbottom ≥ opening.opentop
        -- shut with a back sector or without
        · have shut : (segEffect line opening sight first).shut = true := by
            simp [segEffect, wall, closed]
          simp only [Bool.not_true, if_neg Bool.false_ne_true, if_neg parts, if_pos closed,
            ite_self]
          exact .blocked (.inl shut)
        · simp only [backed crossed twosided fun _ => Int32.not_le.1 closed, Bool.not_true,
            if_neg Bool.false_ne_true]
          rw [if_neg parts, if_neg closed]
          have opens : (segEffect line opening sight first).shut = false := by
            simp [segEffect, twosided, closed]
          rcases narrow_eq clear between wall closed with
            ⟨next, eq, checked, top, bottom, apart⟩ | ⟨eq, meets⟩
          · rw [eq]
            exact .on opens checked top bottom apart
          · rw [eq]
            exact .blocked (.inr meets)

/-- One seg: the engine goes on or is blocked as the window is. -/
theorem crossSeg_step {lines : List Line} {seg : Seg} {effect : Nat → Effect Int}
    (backed : Backed sight (lines.getD seg.line default) seg.opening)
    (clear : Clear sight (lines.getD seg.line default) seg.opening) (between : Between first slopes)
    (own : effect seg.line = segEffect (lines.getD seg.line default) seg.opening sight first) :
    (∃ next, crossSeg lines sight slopes seg = .ok next ∧
      Narrowing.step Seg.line effect slopes.window seg = some next.window ∧ Between first next) ∨
    (crossSeg lines sight slopes seg = .error .blocked ∧
      Narrowing.step Seg.line effect slopes.window seg = none) := by
  rw [crossSeg, Narrowing.step]
  by_cases met : seg.line ∈ slopes.checked
  · have met' : seg.line ∈ slopes.window.met := met
    rw [if_pos met, if_pos met']
    exact .inl ⟨slopes, rfl, rfl, between⟩
  · have new : seg.line ∉ slopes.window.met := met
    rw [if_neg met, if_neg new, own]
    have marked : Between first (slopes.check seg.line) :=
      ⟨between.apart, between.top_le, between.le_bottom⟩
    have outcome := crossLine_crossed clear marked backed
    generalize crossLine (lines.getD seg.line default) seg.opening sight
      (slopes.check seg.line) = result at outcome
    generalize segEffect (lines.getD seg.line default) seg.opening sight first = e at outcome
    cases outcome with
    | @on next opens checked top bottom apart =>
      change next.topslope.toInt = min slopes.topslope.toInt e.top at top
      change next.bottomslope.toInt = max slopes.bottomslope.toInt e.bottom at bottom
      have window : next.window = ⟨seg.line :: slopes.checked, min slopes.topslope.toInt e.top,
          max slopes.bottomslope.toInt e.bottom⟩ := by
        rw [Slopes.window, checked, top, bottom]
        rfl
      have goes : (e.shut || decide (min slopes.topslope.toInt e.top ≤
          max slopes.bottomslope.toInt e.bottom)) = false := by
        rw [opens, Bool.false_or]
        exact decide_eq_false (not_le.2 (by rw [← top, ← bottom]; exact apart))
      refine .inl ⟨next, rfl, ?_, apart, ?_, ?_⟩
      · show (if (e.shut || decide (min slopes.topslope.toInt e.top ≤
          max slopes.bottomslope.toInt e.bottom)) = true then none else some _) = _
        rw [goes, if_neg Bool.false_ne_true, window]
        rfl
      · rw [top]
        exact (min_le_left ..).trans between.top_le
      · rw [bottom]
        exact between.le_bottom.trans (le_max_left ..)
    | blocked why =>
      refine .inr ⟨rfl, ?_⟩
      show (if (e.shut || decide (min slopes.topslope.toInt e.top ≤
        max slopes.bottomslope.toInt e.bottom)) = true then none else some _) = none
      rw [if_pos]
      rcases why with shut | meets
      · rw [shut, Bool.true_or]
      · change min slopes.topslope.toInt e.top ≤ max slopes.bottomslope.toInt e.bottom at meets
        rw [decide_eq_true meets, Bool.or_true]

/-- Every seg of a list at once: the walk gets through exactly when the window stays open
under the effects of all of them. -/
theorem foldlM_crossSeg {lines : List Line} {effect : Nat → Effect Int} {segs : List Seg}
    (backed : ∀ seg ∈ segs, Backed sight (lines.getD seg.line default) seg.opening)
    (clear : ∀ seg ∈ segs, Clear sight (lines.getD seg.line default) seg.opening) (between : Between first slopes)
    (own : ∀ seg ∈ segs,
      effect seg.line = segEffect (lines.getD seg.line default) seg.opening sight first) :
    (∃ next, segs.foldlM (crossSeg lines sight) slopes = .ok next ∧
      Narrowing.Through Seg.line effect segs slopes.window) ∨
    (segs.foldlM (crossSeg lines sight) slopes = .error .blocked ∧
      ¬Narrowing.Through Seg.line effect segs slopes.window) := by
  induction segs generalizing slopes with
  | nil => exact .inl ⟨slopes, rfl, rfl⟩
  | cons seg segs ih =>
    have later : ∀ other ∈ segs, other ∈ seg :: segs := fun _ => List.mem_cons_of_mem _
    rw [Narrowing.Through, List.foldlM_cons, List.foldlM_cons]
    rcases crossSeg_step (backed seg List.mem_cons_self) (clear seg List.mem_cons_self) between
      (own seg List.mem_cons_self) with ⟨next, eq, stepped, between⟩ | ⟨eq, stepped⟩
    · rw [eq, stepped]
      exact ih (fun other h => backed other (later other h))
        (fun other h => clear other (later other h)) between
        (fun other h => own other (later other h))
    · rw [eq, stepped]
      exact .inr ⟨rfl, by simp⟩

end ClickDoom.Engine

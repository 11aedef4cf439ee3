import ClickDoom.Native.Shoot

/-! # The shots of the fold against the engine's traversers

Where the divisions of a step have values the step is one call of the traverser, and the stop
flag its answer.  An aim's window stays inside the one it starts with, which keeps the mean of
two slopes in 32 bits.
-/
namespace ClickDoom.Native.Shoot
open Engine (Wall Room Body Scene Attack Intercept Entry Blockmap Aim Hit Shot Shooter)
open Fixed (fixedMul fixedDiv sub32 add32 sub32_eq add32_eq fixedDiv_eq fixedMul_eq)
open SignedWords (max_held min_held)

/-! ## The divisions -/

section
variable {scene : Scene} {ask : Ask} {shootz : Int32} {at_ : In}

/-- No division of a step is the least number by zero. -/
def Divides (scene : Scene) (ask : Ask) (shootz : Int32) (at_ : In) : Prop :=
  fixedMul ask.range at_.frac = 0 → Int32.minValue ∉ rises scene shootz at_

theorem fixedDiv_least : fixedDiv Int32.minValue 0 = .error .divideByZero := by decide

theorem fixedDiv_ok {a b : Int32} (h : b = 0 → a ≠ Int32.minValue) :
    ∃ quotient, fixedDiv a b = .ok quotient := by
  rw [fixedDiv_eq]
  exact Engine.fixedDiv_ok fun trap => h trap.2 trap.1

theorem bind_ok {α β : Type} {x : Except Trap α} {f : α → Except Trap β} {b : β}
    (h : (x >>= f) = .ok b) : ∃ a, x = .ok a ∧ f a = .ok b := by
  cases x with
  | error => cases h
  | ok a => exact ⟨a, rfl, h⟩

/-- The quotients of a step. -/
theorem slopes_spec {q : Slopes} (h : slopes scene ask shootz at_ = .ok q) :
    fixedDiv (sub32 (opening scene (scene.wall at_.id)).2 shootz) (fixedMul ask.range at_.frac) =
        .ok q.openBottom ∧
      fixedDiv (sub32 (opening scene (scene.wall at_.id)).1 shootz)
        (fixedMul ask.range at_.frac) = .ok q.openTop ∧
      fixedDiv (Int32.ofInt ((bodyAt scene at_.id).z.toInt + (bodyAt scene at_.id).height.toInt -
        shootz.toInt)) (fixedMul ask.range at_.frac) = .ok q.thingTop ∧
      fixedDiv (sub32 (bodyAt scene at_.id).z shootz) (fixedMul ask.range at_.frac) =
        .ok q.thingBottom := by
  obtain ⟨q1, h1, h⟩ := bind_ok h
  obtain ⟨q2, h2, h⟩ := bind_ok h
  obtain ⟨q3, h3, h⟩ := bind_ok h
  obtain ⟨q4, h4, h⟩ := bind_ok h
  cases h
  exact ⟨h1, h2, h3, h4⟩

/-- A step has its four quotients exactly where it divides. -/
theorem slopes_ok_iff : (∃ quotients, slopes scene ask shootz at_ = .ok quotients) ↔
    Divides scene ask shootz at_ := by
  set wall := scene.wall at_.id with hwall
  set body := bodyAt scene at_.id with hbody
  have hrises : rises scene shootz at_ =
      [sub32 (opening scene wall).2 shootz, sub32 (opening scene wall).1 shootz,
        Int32.ofInt (body.z.toInt + body.height.toInt - shootz.toInt), sub32 body.z shootz] := rfl
  constructor
  · rintro ⟨quotients, hq⟩ hzero hmem
    obtain ⟨h1, h2, h3, h4⟩ := slopes_spec hq
    rw [hzero] at h1 h2 h3 h4
    rw [hrises] at hmem
    simp only [List.mem_cons, List.not_mem_nil, or_false] at hmem
    rcases hmem with h | h | h | h
    · rw [← hwall, ← h, fixedDiv_least] at h1
      cases h1
    · rw [← hwall, ← h, fixedDiv_least] at h2
      cases h2
    · rw [← hbody, ← h, fixedDiv_least] at h3
      cases h3
    · rw [← hbody, ← h, fixedDiv_least] at h4
      cases h4
  · intro divides
    have hne : ∀ rise ∈ rises scene shootz at_, fixedMul ask.range at_.frac = 0 →
        rise ≠ Int32.minValue := by
      rintro rise hmem hzero rfl
      exact divides hzero hmem
    rw [hrises] at hne
    simp only [List.forall_mem_cons] at hne
    obtain ⟨q1, h1⟩ := fixedDiv_ok hne.1
    obtain ⟨q2, h2⟩ := fixedDiv_ok hne.2.1
    obtain ⟨q3, h3⟩ := fixedDiv_ok hne.2.2.1
    obtain ⟨q4, h4⟩ := fixedDiv_ok hne.2.2.2.1
    exact ⟨⟨q1, q2, q3, q4⟩, by simp only [slopes, ← hwall, ← hbody, h1, h2, h3, h4]; rfl⟩

theorem shortened_ok (ask : Ask) (at_ : In) : ∃ frac, shortened ask at_ = .ok frac := by
  obtain ⟨q4, h4⟩ := fixedDiv_ok (a := 262144) (b := ask.range) fun _ => by decide
  obtain ⟨q10, h10⟩ := fixedDiv_ok (a := 655360) (b := ask.range) fun _ => by decide
  cases hline : at_.isLine
  · exact ⟨sub32 at_.frac q10, by simp [shortened, hline, h10]⟩
  · exact ⟨sub32 at_.frac q4, by simp [shortened, hline, h4]⟩

end

/-! ## What a step reads -/

theorem ofInt_rise (a b c : Int32) :
    Int32.ofInt (a.toInt + b.toInt - c.toInt) = a + b - c := by
  rw [Int32.ofInt_sub, Int32.ofInt_add, Int32.ofInt_toInt, Int32.ofInt_toInt, Int32.ofInt_toInt]

section
variable {scene : Scene} {wall : Wall}

/-- A line flagged two-sided is read alike. -/
theorem opening_eq (h : wall.twoSided = true) :
    opening scene wall = (Engine.opentop (scene.front wall) (scene.back wall),
      Engine.openbottom (scene.front wall) (scene.back wall)) := by
  obtain ⟨back, hback⟩ := Option.isSome_iff_exists.mp (wall.sided h)
  simp only [opening, hback, Engine.opentop, Engine.openbottom, Scene.front, Scene.back,
    Option.getD_some, SignedWords.min_eq_ite, SignedWords.max_eq_ite]

theorem steps_eq (h : wall.twoSided = true) :
    floorSteps scene wall = decide ((scene.front wall).floorheight ≠ (scene.back wall).floorheight) ∧
      ceilingSteps scene wall =
        decide ((scene.front wall).ceilingheight ≠ (scene.back wall).ceilingheight) := by
  obtain ⟨back, hback⟩ := Option.isSome_iff_exists.mp (wall.sided h)
  simp [floorSteps, ceilingSteps, backless, backRoom, hback, Scene.front, Scene.back]

end

/-- The attack of an ask. -/
structure Asks (ask : Ask) (attack : Attack) (shootz : Int32) : Prop where
  shooter : ask.shooter = attack.shootthing + 1
  range : ask.range = attack.attackrange
  shootz : shootz = attack.shootz

/-! ## Aiming -/

/-- An aim that has not stopped: nothing is found and the window is inside the first one. -/
structure Aims (held : Reached) (aim : Aim) : Prop where
  going : held.stopped = false
  top : held.topslope = aim.topslope
  bottom : held.bottomslope = aim.bottomslope
  low : -40960 ≤ aim.bottomslope.toInt
  window : aim.bottomslope.toInt < aim.topslope.toInt
  high : aim.topslope.toInt ≤ 40960
  slope : held.slope = 0
  target : held.target = 0
  none : aim.linetarget = none

/-- The answer of an aim. -/
def Aimed (held : Reached) (aim : Aim) : Prop :=
  held.slope = (if aim.linetarget.isSome then aim.aimslope else 0) ∧
    held.target = (aim.linetarget.map (· + 1)).getD 0

theorem Aims.aimed {held : Reached} {aim : Aim} (aims : Aims held aim) : Aimed held aim := by
  simp [Aimed, aims.none, aims.slope, aims.target]

section
variable {scene : Scene} {specials : List Int} {ask : Ask} {attack : Attack} {shootz : Int32}
  {start ends_ : Int × Int} {held : Reached} {aim : Aim} {q : Slopes} {frac frac' : Int32}
  {number slot : Nat}

/-- What a step of the fold and a call of the traverser have in common. -/
def AimStep (scene : Scene) (attack : Attack) (aim : Aim) (intercept : Intercept)
    (held' : Reached) : Prop :=
  ∃ aim' go, Engine.aimTraverse scene attack aim intercept = .ok (aim', go) ∧
    held'.stopped = !go ∧ (go = true → Aims held' aim') ∧ (go = false → Aimed held' aim')

theorem stepWith_aim_line (hask : ask.aims = true) (going : held.stopped = false) :
    stepWith scene specials ask shootz start ends_ held ⟨number, frac, true⟩ q frac' =
      { held with
        spechit := spechit specials held ⟨number, frac, true⟩
        stopped := lineStops scene held ⟨number, frac, true⟩ q
        topslope := if lineStops scene held ⟨number, frac, true⟩ q then held.topslope
          else top scene held ⟨number, frac, true⟩ q
        bottomslope := if lineStops scene held ⟨number, frac, true⟩ q then held.bottomslope
          else bottom scene held ⟨number, frac, true⟩ q } := by
  cases hstops : lineStops scene held ⟨number, frac, true⟩ q <;>
    simp [stepWith, takes, endsOn, narrows, stops, hask, going, hstops]

/-- A line that stops an aim ends it with nothing found. -/
theorem aim_line_stopped (hask : ask.aims = true) (aims : Aims held aim)
    (hstops : lineStops scene held ⟨number, frac, true⟩ q = true) {aim' : Aim}
    (hengine : Engine.aimTraverse scene attack aim ⟨frac, .line number⟩ = .ok (aim', false))
    (hnone : aim'.linetarget = none) :
    AimStep scene attack aim ⟨frac, .line number⟩
      (stepWith scene specials ask shootz start ends_ held ⟨number, frac, true⟩ q frac') := by
  rw [stepWith_aim_line hask aims.going]
  refine ⟨aim', false, hengine, by simp [hstops], by simp, fun _ => ?_⟩
  simp [Aimed, hnone, aims.slope, aims.target]

/-- A window only narrows. -/
theorem le_bottom (scene : Scene) (held : Reached) (at_ : In) (q : Slopes) :
    held.bottomslope.toInt ≤ (bottom scene held at_ q).toInt := by
  rw [bottom, max_held]
  split
  · split
    · exact Int.le_of_lt (Int32.lt_iff_toInt_lt.mp ‹_›)
    · exact le_rfl
  · exact le_rfl

theorem top_le (scene : Scene) (held : Reached) (at_ : In) (q : Slopes) :
    (top scene held at_ q).toInt ≤ held.topslope.toInt := by
  rw [top, min_held]
  split
  · split
    · exact Int.le_of_lt (Int32.lt_iff_toInt_lt.mp ‹_›)
    · exact le_rfl
  · exact le_rfl

theorem aim_line (asks : Asks ask attack shootz) (hask : ask.aims = true) (aims : Aims held aim)
    (hq : slopes scene ask shootz ⟨number, frac, true⟩ = .ok q) :
    AimStep scene attack aim ⟨frac, .line number⟩
      (stepWith scene specials ask shootz start ends_ held ⟨number, frac, true⟩ q frac') := by
  obtain ⟨hbottom, htop, -, -⟩ := slopes_spec hq
  simp only at hbottom htop
  set wall := scene.wall number with hwall
  by_cases h2 : wall.twoSided = true
  · rw [opening_eq h2, sub32_eq, fixedDiv_eq, fixedMul_eq, asks.range, asks.shootz] at hbottom htop
    simp only at hbottom htop
    by_cases hshut : Engine.openbottom (scene.front wall) (scene.back wall) ≥
        Engine.opentop (scene.front wall) (scene.back wall)
    · refine aim_line_stopped hask aims (by simp [lineStops, ← hwall, opening_eq h2, hshut]) ?_
        aims.none
      simp [Engine.aimTraverse, ← hwall, h2, hshut]
      rfl
    · set low := bottom scene held ⟨number, frac, true⟩ q with hlow
      set high := top scene held ⟨number, frac, true⟩ q with hhigh
      -- the window narrowed by the sides that step
      have helow : Engine.onStep ((scene.front wall).floorheight ≠ (scene.back wall).floorheight)
          (Engine.fixedDiv (Engine.openbottom (scene.front wall) (scene.back wall) -
            attack.shootz) (Engine.fixedMul attack.attackrange frac))
          (fun slope => if slope > aim.bottomslope then slope else aim.bottomslope)
          aim.bottomslope = .ok low := by
        rw [hbottom, hlow, bottom, ← hwall, (steps_eq h2).1, aims.bottom, max_held]
        by_cases hf : (scene.front wall).floorheight = (scene.back wall).floorheight <;>
          simp [hf, Engine.onStep, Except.map]
      have hehigh : Engine.onStep
          ((scene.front wall).ceilingheight ≠ (scene.back wall).ceilingheight)
          (Engine.fixedDiv (Engine.opentop (scene.front wall) (scene.back wall) -
            attack.shootz) (Engine.fixedMul attack.attackrange frac))
          (fun slope => if slope < aim.topslope then slope else aim.topslope)
          aim.topslope = .ok high := by
        rw [htop, hhigh, top, ← hwall, (steps_eq h2).2, aims.top, min_held]
        by_cases hf : (scene.front wall).ceilingheight = (scene.back wall).ceilingheight <;>
          simp [hf, Engine.onStep, Except.map]
      have hengine : Engine.aimTraverse scene attack aim ⟨frac, .line number⟩ =
          .ok ({ aim with topslope := high, bottomslope := low }, decide (high > low)) := by
        simp only [Engine.aimTraverse, ← hwall, h2, Bool.not_true, Bool.false_eq_true, ↓reduceIte,
          hshut, helow, hehigh]
        rfl
      by_cases hopen : high > low
      · have hstops : lineStops scene held ⟨number, frac, true⟩ q = false := by
          have hgap : ¬high ≤ low := Int32.not_le.mpr hopen
          simp [lineStops, ← hwall, h2, opening_eq h2, hshut, ← hlow, ← hhigh, hgap]
        rw [stepWith_aim_line hask aims.going]
        refine ⟨_, true, by rw [hengine, decide_eq_true hopen], by simp [hstops], fun _ => ?_,
          by simp⟩
        exact
          { going := by simp [hstops]
            top := by simp [hstops, hhigh]
            bottom := by simp [hstops, hlow]
            low := aims.low.trans (aims.bottom ▸ le_bottom ..)
            window := Int32.lt_iff_toInt_lt.mp hopen
            high := (top_le ..).trans (aims.top ▸ aims.high)
            slope := aims.slope
            target := aims.target
            none := aims.none }
      · have hend : Engine.aimTraverse scene attack aim ⟨frac, .line number⟩ =
            .ok ({ aim with topslope := high, bottomslope := low }, false) := by
          rw [hengine, decide_eq_false hopen]
        refine aim_line_stopped hask aims ?_ hend aims.none
        have hgap : high ≤ low := Int32.not_lt.mp hopen
        simp [lineStops, ← hlow, ← hhigh, hgap]
  · refine aim_line_stopped hask aims (by simp [lineStops, ← hwall, h2]) ?_ aims.none
    simp [Engine.aimTraverse, ← hwall, h2]
    rfl

theorem stepWith_aim_thing (hask : ask.aims = true) (going : held.stopped = false) :
    stepWith scene specials ask shootz start ends_ held ⟨slot + 1, frac, false⟩ q frac' =
      { held with
        slope := if aimed scene ask held ⟨slot + 1, frac, false⟩ q then slope held q
          else held.slope
        target := if aimed scene ask held ⟨slot + 1, frac, false⟩ q then slot + 1
          else held.target
        stopped := aimed scene ask held ⟨slot + 1, frac, false⟩ q } := by
  cases haimed : aimed scene ask held ⟨slot + 1, frac, false⟩ q <;>
    simp [stepWith, takes, endsOn, narrows, stops, spechit, hask, going, haimed]

/-- A thing that is not aimed at leaves the aim as it was. -/
theorem aim_thing_passed (hask : ask.aims = true) (aims : Aims held aim)
    (haimed : aimed scene ask held ⟨slot + 1, frac, false⟩ q = false)
    (hengine : Engine.aimTraverse scene attack aim ⟨frac, .thing slot⟩ = .ok (aim, true)) :
    AimStep scene attack aim ⟨frac, .thing slot⟩
      (stepWith scene specials ask shootz start ends_ held ⟨slot + 1, frac, false⟩ q frac') := by
  rw [stepWith_aim_thing hask aims.going]
  refine ⟨aim, true, hengine, by simp [haimed], fun _ => ?_, by simp⟩
  simp only [haimed, Bool.false_eq_true, ↓reduceIte]
  exact { aims with going := rfl }

theorem bodyAt_succ (scene : Scene) (slot : Nat) : bodyAt scene (slot + 1) = scene.body slot := rfl

/-- The mean of two slopes inside the first window. -/
theorem mean_eq {a b : Int32} (ha : -40960 ≤ a.toInt ∧ a.toInt ≤ 40960)
    (hb : -40960 ≤ b.toInt ∧ b.toInt ≤ 40960) :
    Int32.ofInt ((a.toInt + b.toInt).tdiv 2) = (a + b) / 2 := by
  have hsum : (a + b).toInt = a.toInt + b.toInt := by
    rw [Int32.toInt_add]
    exact Int.bmod_eq_of_le (by omega) (by omega)
  apply Int32.toInt_inj.mp
  rw [Int32.toInt_ofInt, Int32.toInt_div, hsum]
  rfl

theorem aim_thing (asks : Asks ask attack shootz) (hask : ask.aims = true) (aims : Aims held aim)
    (hq : slopes scene ask shootz ⟨slot + 1, frac, false⟩ = .ok q) :
    AimStep scene attack aim ⟨frac, .thing slot⟩
      (stepWith scene specials ask shootz start ends_ held ⟨slot + 1, frac, false⟩ q frac') := by
  obtain ⟨-, -, htop, hbottom⟩ := slopes_spec hq
  simp only [bodyAt_succ] at htop hbottom
  rw [ofInt_rise, fixedDiv_eq, fixedMul_eq, asks.range, asks.shootz] at htop
  rw [sub32_eq, fixedDiv_eq, fixedMul_eq, asks.range, asks.shootz] at hbottom
  by_cases hself : slot = attack.shootthing
  · refine aim_thing_passed hask aims ?_ ?_
    · simp [aimed, shootable, asks.shooter, hself]
    · simp [Engine.aimTraverse, hself]
      rfl
  by_cases hshoot : (scene.body slot).shootable = true
  · by_cases hover : q.thingTop < aim.bottomslope
    · refine aim_thing_passed hask aims ?_ ?_
      · have := Int32.not_le.mpr hover
        simp [aimed, aims.bottom, this]
      · simp [Engine.aimTraverse, hself, hshoot, htop, Engine.ok_bind, hover]
        rfl
    by_cases hunder : q.thingBottom > aim.topslope
    · refine aim_thing_passed hask aims ?_ ?_
      · have := Int32.not_le.mpr hunder
        simp [aimed, aims.top, this]
      · simp [Engine.aimTraverse, hself, hshoot, htop, hbottom, Engine.ok_bind, hunder]
    · have hreach : aimed scene ask held ⟨slot + 1, frac, false⟩ q = true := by
        have h1 := Int32.not_lt.mp hover
        have h2 := Int32.not_lt.mp hunder
        simp [aimed, shootable, asks.shooter, hself, bodyAt_succ, hshoot, aims.bottom, aims.top,
          h1, h2]
      have hover' := Int32.le_iff_toInt_le.mp (Int32.not_lt.mp hover)
      have hunder' := Int32.le_iff_toInt_le.mp (Int32.not_lt.mp hunder)
      have hwindow := aims.window
      have hlow := aims.low
      have hhigh := aims.high
      have hmean : slope held q =
          ((if q.thingTop > aim.topslope then aim.topslope else q.thingTop) +
            (if q.thingBottom < aim.bottomslope then aim.bottomslope else q.thingBottom)) / 2 := by
        rw [slope, min_held, max_held, aims.top, aims.bottom]
        refine mean_eq ?_ ?_
        · split
          · omega
          · have := Int32.le_iff_toInt_le.mp (Int32.not_lt.mp ‹_›)
            omega
        · split
          · omega
          · have := Int32.le_iff_toInt_le.mp (Int32.not_lt.mp ‹_›)
            omega
      rw [stepWith_aim_thing hask aims.going]
      refine ⟨{ aim with aimslope := slope held q, linetarget := some slot }, false, ?_,
        by simp [hreach], by simp, fun _ => by simp [Aimed, hreach]⟩
      simp only [Engine.aimTraverse, hself, hshoot, htop, hbottom, Engine.ok_bind, hover, hunder,
        Bool.not_true, Bool.false_eq_true, ↓reduceIte, ← hmean]
      rfl
  · refine aim_thing_passed hask aims ?_ ?_
    · simp [aimed, shootable, bodyAt_succ, hshoot]
    · simp [Engine.aimTraverse, hself, hshoot]
      rfl

end

/-! ## The fold -/

section
variable {scene : Scene} {specials : List Int} {ask : Ask} {shootz : Int32}
  {start ends_ : Int × Int} {held : Reached} {at_ : In}

theorem quotients_ok (divides : Divides scene ask shootz at_) :
    ∃ q frac, slopes scene ask shootz at_ = .ok q ∧ shortened ask at_ = .ok frac := by
  obtain ⟨q, hq⟩ := slopes_ok_iff.mpr divides
  obtain ⟨frac, hfrac⟩ := shortened_ok ask at_
  exact ⟨q, frac, hq, hfrac⟩

theorem step_eq {q : Slopes} {frac : Int32} (hq : slopes scene ask shootz at_ = .ok q)
    (hfrac : shortened ask at_ = .ok frac) :
    step scene specials ask shootz start ends_ held at_ =
      .ok (stepWith scene specials ask shootz start ends_ held at_ q frac) := by
  rw [step, hq, Engine.ok_bind, hfrac, Engine.ok_bind]
  rfl

theorem step_stopped (divides : Divides scene ask shootz at_) (stopped : held.stopped = true) :
    step scene specials ask shootz start ends_ held at_ = .ok held := by
  obtain ⟨q, frac, hq, hfrac⟩ := quotients_ok divides
  rw [step_eq hq hfrac, stepWith, if_pos stopped]

theorem fold_stopped {hits : List In} (divides : ∀ at_ ∈ hits, Divides scene ask shootz at_)
    (stopped : held.stopped = true) :
    hits.foldlM (step scene specials ask shootz start ends_) held = .ok held := by
  induction hits with
  | nil => rfl
  | cons at_ rest ih =>
    rw [List.forall_mem_cons] at divides
    rw [List.foldlM_cons, step_stopped divides.1 stopped, Engine.ok_bind]
    exact ih divides.2

/-- A fold that has an answer has made every division. -/
theorem divides_of_fold {hits : List In} {last : Reached}
    (h : hits.foldlM (step scene specials ask shootz start ends_) held = .ok last) :
    ∀ at_ ∈ hits, Divides scene ask shootz at_ := by
  induction hits generalizing held with
  | nil => simp
  | cons at_ rest ih =>
    rw [List.foldlM_cons] at h
    obtain ⟨mid, hmid, hrest⟩ := bind_ok h
    obtain ⟨q, hq, -⟩ := bind_ok hmid
    exact List.forall_mem_cons.mpr ⟨slopes_ok_iff.mp ⟨q, hq⟩, ih hrest⟩

/-- A traverser followed step by step by the fold, its answer false where the flag is up. -/
theorem fold_handOn {σ : Type} {trav : σ → Intercept → Except Trap (σ × Bool)}
    (Follows : List Intercept → Reached → σ → Prop) (Answers : Reached → σ → Prop)
    (answers : ∀ held state, Follows [] held state → Answers held state)
    (hstep : ∀ i rest held state q frac, Follows (i :: rest) held state →
      slopes scene ask shootz (inOf i) = .ok q → shortened ask (inOf i) = .ok frac →
      ∃ state' go, trav state i = .ok (state', go) ∧
        (stepWith scene specials ask shootz start ends_ held (inOf i) q frac).stopped = !go ∧
        (go = true → Follows rest
          (stepWith scene specials ask shootz start ends_ held (inOf i) q frac) state') ∧
        (go = false → Answers
          (stepWith scene specials ask shootz start ends_ held (inOf i) q frac) state'))
    (hits : List Intercept) (divides : ∀ i ∈ hits, Divides scene ask shootz (inOf i))
    {state : σ} (follows : Follows hits held state) :
    ∃ last state', (hits.map inOf).foldlM (step scene specials ask shootz start ends_) held =
        .ok last ∧
      Engine.handOn trav state hits = .ok state' ∧ Answers last state' := by
  induction hits generalizing held state with
  | nil => exact ⟨held, state, rfl, rfl, answers held state follows⟩
  | cons i rest ih =>
    rw [List.forall_mem_cons] at divides
    obtain ⟨q, frac, hq, hfrac⟩ := quotients_ok divides.1
    obtain ⟨state', go, htrav, hstopped, hgo, hend⟩ := hstep i rest held state q frac follows hq hfrac
    rw [List.map_cons, List.foldlM_cons, step_eq hq hfrac, Engine.ok_bind, Engine.handOn,
      htrav, Engine.ok_bind]
    cases go with
    | true => exact ih divides.2 (hgo rfl)
    | false =>
      have hrest : ∀ at_ ∈ rest.map inOf, Divides scene ask shootz at_ := by
        rw [List.forall_mem_map]
        exact divides.2
      exact ⟨_, state', fold_stopped hrest hstopped, rfl, hend rfl⟩

end

/-! ## Aims -/

/-- The ask of a thing for one trace. -/
def askOf (shooter : Shooter) (angle : UInt32) (range slope : Int32) (aims : Bool) : Ask :=
  ⟨shooter.slot + 1, shooter.x, shooter.y, shooter.z, shooter.height, angle, range, slope, aims⟩

/-- A slot from one, with zero for none. -/
def slotOf (target : Nat) : Option Nat := if target = 0 then none else some (target - 1)

section
variable {trig : Trig} {map : Blockmap} {scene : Scene} {specials : List Int} {shooter : Shooter}
  {angle : UInt32} {range slope : Int32}

theorem asks_attackOf {aims : Bool} :
    Asks (askOf shooter angle range slope aims) (Engine.attackOf trig map shooter angle range)
      (shootZ (askOf shooter angle range slope aims)) where
  shooter := rfl
  range := rfl
  shootz := by
    have hhalf : (shooter.height >>> 1).toInt = shooter.height.toInt / (2 : Int) :=
      SignedWords.toInt_shiftRight (k := 1) (n := 1) (by decide)
    simp only [shootZ, askOf, Engine.attackOf, ← hhalf]
    rw [Int32.ofInt_add, Int32.ofInt_add, Int32.ofInt_toInt, Int32.ofInt_toInt]
    rfl

/-- No division of a trace is the least number by zero. -/
def TraceDivides (scene : Scene) (ask : Ask) (hits : List Intercept) : Prop :=
  ∀ hit ∈ hits, Divides scene ask (shootZ ask) (inOf hit)

theorem traceDivides_of_ok {ask : Ask} {hits : List Intercept} {last : Reached}
    (h : traverser trig map scene specials ask (hits.map inOf) = .ok last) :
    TraceDivides scene ask hits :=
  List.forall_mem_map.mp (divides_of_fold h)

/-- An aim of the fold is `P_AimLineAttack`, where it divides. -/
theorem aim_eq (held : Int32) {hits : List Intercept}
    (divides : TraceDivides scene (askOf shooter angle range slope true) hits) :
    ∃ last, traverser trig map scene specials (askOf shooter angle range slope true)
        (hits.map inOf) = .ok last ∧
      Engine.aimLineAttack scene (Engine.attackOf trig map shooter angle range) held hits =
        .ok (last.slope, slotOf last.target) := by
  have aims : Aims Reached.start ⟨100 * Engine.fracUnit / 160, -100 * Engine.fracUnit / 160, held,
      none⟩ := by
    refine ⟨rfl, rfl, rfl, ?_, ?_, ?_, rfl, rfl, rfl⟩
    all_goals
      dsimp only
      decide
  obtain ⟨last, aim, hlast, haim, haimed⟩ :
      ∃ last aim, traverser trig map scene specials (askOf shooter angle range slope true)
          (hits.map inOf) = .ok last ∧
        Engine.handOn (Engine.aimTraverse scene (Engine.attackOf trig map shooter angle range)) _
          hits = .ok aim ∧ Aimed last aim := by
    refine fold_handOn (fun _ held aim => Aims held aim) Aimed (fun _ _ aims => aims.aimed) ?_ hits
      divides aims
    intro i _ held aim q frac aims hq _
    obtain ⟨frac, number | slot⟩ := i
    · exact aim_line asks_attackOf rfl aims hq
    · exact aim_thing asks_attackOf rfl aims hq
  refine ⟨last, hlast, ?_⟩
  rw [Engine.aimLineAttack, haim, Engine.ok_bind, haimed.1, haimed.2]
  cases aim.linetarget <;> rfl

end

/-! ## Shooting -/

/-- The line of an intercept. -/
def lineOf (intercept : Intercept) : Option Nat :=
  match intercept.entry with
  | .line number => some number
  | .thing _ => none

/-- A shot that has not stopped: it has shot what the engine has, and the lines ahead, which
are not met twice, carry the specials they had. -/
structure Shoots (specials : List Int) (rest : List Intercept) (held : Reached) (state : Shot) :
    Prop where
  going : held.stopped = false
  kind : held.kind = 0
  hit : state.hit = none
  shot : held.spechit = state.shot
  ahead : ∀ number ∈ rest.filterMap lineOf,
    state.specials.getD number 0 = specials.getD number 0
  nodup : (rest.filterMap lineOf).Nodup

/-- The hit of an answer. -/
def hitOf (held : Reached) : Option Hit :=
  if held.kind = 0 then none
  else some ⟨if held.kind = 1 then .line held.id else .thing (held.id - 1), held.x, held.y, held.z⟩

/-- The answer of a shot. -/
def Shoted (held : Reached) (state : Shot) : Prop :=
  held.spechit = state.shot ∧ hitOf held = state.hit

/-- The trace of an attack, read from its two ends. -/
structure Traced (start ends_ : Int × Int) (attack : Attack) : Prop where
  x : ∀ frac, along frac start.1 ends_.1 =
    attack.trace.x + Engine.fixedMul attack.trace.dx frac
  y : ∀ frac, along frac start.2 ends_.2 =
    attack.trace.y + Engine.fixedMul attack.trace.dy frac

section
variable {scene : Scene} {specials : List Int} {ask : Ask} {attack : Attack} {shootz : Int32}
  {start ends_ : Int × Int} {held : Reached} {state : Shot} {q : Slopes} {frac frac' : Int32}
  {number slot : Nat} {rest : List Intercept} {after : Int → Int}

/-- What a step of the fold and a call of the traverser have in common. -/
def ShootStep (scene : Scene) (specials : List Int) (attack : Attack) (after : Int → Int)
    (slope : Int32) (state : Shot) (intercept : Intercept) (rest : List Intercept)
    (held' : Reached) : Prop :=
  ∃ state' go, Engine.shootTraverse scene attack after slope state intercept =
      .ok (state', go) ∧
    held'.stopped = !go ∧ (go = true → Shoots specials rest held' state') ∧
      (go = false → Shoted held' state')

theorem stepWith_shoot_line (hask : ask.aims = false) (going : held.stopped = false) :
    stepWith scene specials ask shootz start ends_ held ⟨number, frac, true⟩ q frac' =
      (let ends := lineBlocks scene ask ⟨number, frac, true⟩ q &&
        !sky scene ask shootz ⟨number, frac, true⟩ frac'
      { held with
        kind := if ends then 1 else held.kind
        id := if ends then number else held.id
        x := if ends then along frac' start.1 ends_.1 else held.x
        y := if ends then along frac' start.2 ends_.2 else held.y
        z := if ends then z ask shootz frac' else held.z
        spechit := spechit specials held ⟨number, frac, true⟩
        stopped := lineBlocks scene ask ⟨number, frac, true⟩ q }) := by
  cases hblocks : lineBlocks scene ask ⟨number, frac, true⟩ q <;>
    simp [stepWith, takes, endsOn, narrows, stops, hask, going, hblocks]

theorem stepWith_shoot_thing (hask : ask.aims = false) (going : held.stopped = false) :
    stepWith scene specials ask shootz start ends_ held ⟨slot + 1, frac, false⟩ q frac' =
      (let ends := thingBlocks scene ask ⟨slot + 1, frac, false⟩ q
      { held with
        kind := if ends then 2 else held.kind
        id := if ends then slot + 1 else held.id
        x := if ends then along frac' start.1 ends_.1 else held.x
        y := if ends then along frac' start.2 ends_.2 else held.y
        z := if ends then z ask shootz frac' else held.z
        stopped := ends }) := by
  cases hblocks : thingBlocks scene ask ⟨slot + 1, frac, false⟩ q <;>
    simp [stepWith, takes, endsOn, narrows, stops, spechit, hask, going, hblocks]

/-- The height of a puff. -/
theorem z_eq (asks : Asks ask attack shootz) (frac : Int32) :
    z ask shootz frac = attack.shootz + Engine.fixedMul ask.slope
      (Engine.fixedMul frac attack.attackrange) := by
  rw [z, add32_eq, fixedMul_eq, fixedMul_eq, asks.range, asks.shootz]

theorem shortened_line (asks : Asks ask attack shootz) {id : Nat}
    (h : shortened ask ⟨id, frac, true⟩ = .ok frac') :
    ∃ less, Engine.fixedDiv (4 * Engine.fracUnit) attack.attackrange = .ok less ∧
      frac' = frac - less := by
  obtain ⟨less, hless, h⟩ := bind_ok h
  rw [fixedDiv_eq, asks.range] at hless
  exact ⟨less, hless, by rw [← Except.ok.inj h, sub32_eq]⟩

theorem shortened_thing (asks : Asks ask attack shootz) {id : Nat}
    (h : shortened ask ⟨id, frac, false⟩ = .ok frac') :
    ∃ less, Engine.fixedDiv (10 * Engine.fracUnit) attack.attackrange = .ok less ∧
      frac' = frac - less := by
  obtain ⟨less, hless, h⟩ := bind_ok h
  rw [fixedDiv_eq, asks.range] at hless
  exact ⟨less, hless, by rw [← Except.ok.inj h, sub32_eq]⟩

/-- A thing the shot passes leaves the shot as it was. -/
theorem shoot_thing_passed (hask : ask.aims = false)
    (shoots : Shoots specials (⟨frac, .thing slot⟩ :: rest) held state)
    (hblocks : thingBlocks scene ask ⟨slot + 1, frac, false⟩ q = false)
    (hengine : Engine.shootTraverse scene attack after ask.slope state ⟨frac, .thing slot⟩ =
      .ok (state, true)) :
    ShootStep scene specials attack after ask.slope state ⟨frac, .thing slot⟩ rest
      (stepWith scene specials ask shootz start ends_ held ⟨slot + 1, frac, false⟩ q frac') := by
  rw [stepWith_shoot_thing hask shoots.going]
  refine ⟨state, true, hengine, by simp [hblocks], fun _ => ?_, by simp⟩
  simp only [hblocks, Bool.false_eq_true, ↓reduceIte]
  exact ⟨rfl, shoots.kind, shoots.hit, shoots.shot, shoots.ahead, shoots.nodup⟩

theorem shoot_thing (asks : Asks ask attack shootz) (traced : Traced start ends_ attack)
    (hask : ask.aims = false) (shoots : Shoots specials (⟨frac, .thing slot⟩ :: rest) held state)
    (hq : slopes scene ask shootz ⟨slot + 1, frac, false⟩ = .ok q)
    (hfrac : shortened ask ⟨slot + 1, frac, false⟩ = .ok frac') :
    ShootStep scene specials attack after ask.slope state ⟨frac, .thing slot⟩ rest
      (stepWith scene specials ask shootz start ends_ held ⟨slot + 1, frac, false⟩ q frac') := by
  obtain ⟨-, -, htop, hbottom⟩ := slopes_spec hq
  simp only [bodyAt_succ] at htop hbottom
  rw [ofInt_rise, fixedDiv_eq, fixedMul_eq, asks.range, asks.shootz] at htop
  rw [sub32_eq, fixedDiv_eq, fixedMul_eq, asks.range, asks.shootz] at hbottom
  by_cases hself : slot = attack.shootthing
  · refine shoot_thing_passed hask shoots ?_ ?_
    · simp [thingBlocks, shootable, asks.shooter, hself]
    · simp [Engine.shootTraverse, hself]
      rfl
  by_cases hshoot : (scene.body slot).shootable = true
  · by_cases hover : q.thingTop < ask.slope
    · refine shoot_thing_passed hask shoots ?_ ?_
      · have := Int32.not_le.mpr hover
        simp [thingBlocks, this]
      · simp [Engine.shootTraverse, hself, hshoot, htop, Engine.ok_bind, hover]
        rfl
    by_cases hunder : q.thingBottom > ask.slope
    · refine shoot_thing_passed hask shoots ?_ ?_
      · have := Int32.not_le.mpr hunder
        simp [thingBlocks, this]
      · simp [Engine.shootTraverse, hself, hshoot, htop, hbottom, Engine.ok_bind, hunder]
    · have hblocks : thingBlocks scene ask ⟨slot + 1, frac, false⟩ q = true := by
        have h1 := Int32.not_lt.mp hover
        have h2 := Int32.not_lt.mp hunder
        simp [thingBlocks, shootable, asks.shooter, hself, bodyAt_succ, hshoot, h1, h2]
      obtain ⟨less, hless, rfl⟩ := shortened_thing asks hfrac
      rw [stepWith_shoot_thing hask shoots.going]
      refine ⟨{ state with
        hit := some (Engine.puffAt attack ask.slope (frac - less) (.thing slot)) }, false, ?_,
        by simp [hblocks], by simp, fun _ => ⟨shoots.shot, ?_⟩⟩
      · simp only [Engine.shootTraverse, hself, hshoot, htop, hbottom, Engine.ok_bind, hover,
          hunder, hless, Bool.not_true, Bool.false_eq_true, ↓reduceIte]
        rfl
      · simp [hitOf, hblocks, Engine.puffAt, traced.x, traced.y, z_eq asks]
  · refine shoot_thing_passed hask shoots ?_ ?_
    · simp [thingBlocks, shootable, bodyAt_succ, hshoot]
    · simp [Engine.shootTraverse, hself, hshoot]
      rfl

/-- The sky as `hitline` tests it. -/
theorem sky_eq (asks : Asks ask attack shootz) :
    sky scene ask shootz ⟨number, frac, true⟩ frac' =
      decide ((scene.front (scene.wall number)).ceilingpic = scene.skyflatnum ∧
        ((Engine.puffAt attack ask.slope frac' (.line number)).z >
            (scene.front (scene.wall number)).ceilingheight ∨
          ((scene.wall number).back.isSome = true ∧
            (scene.back (scene.wall number)).ceilingpic = scene.skyflatnum))) := by
  have hback : (!backless (scene.wall number) &&
      decide ((backRoom scene (scene.wall number)).ceilingpic = scene.skyflatnum)) =
      decide ((scene.wall number).back.isSome = true ∧
        (scene.back (scene.wall number)).ceilingpic = scene.skyflatnum) := by
    cases h : (scene.wall number).back <;> simp [backless, backRoom, Scene.back, h]
  simp only [sky, z_eq asks, hback, Engine.puffAt, Scene.front]
  simp [Bool.decide_and, Bool.decide_or]

/-- The jump to `hitline`: the shot ends there, and leaves nothing on the sky. -/
theorem hitline_eq (asks : Asks ask attack shootz)
    (hfrac : shortened ask ⟨number, frac, true⟩ = .ok frac') (state : Shot) :
    Engine.hitline scene attack ask.slope state frac number =
      .ok (if sky scene ask shootz ⟨number, frac, true⟩ frac' then state
        else { state with hit := some (Engine.puffAt attack ask.slope frac' (.line number)) },
        false) := by
  obtain ⟨less, hless, rfl⟩ := shortened_line asks hfrac
  rw [sky_eq asks, Engine.hitline, hless, Engine.ok_bind]
  by_cases hsky : (scene.front (scene.wall number)).ceilingpic = scene.skyflatnum
  · by_cases hz : (Engine.puffAt attack ask.slope (frac - less) (.line number)).z >
        (scene.front (scene.wall number)).ceilingheight
    · simp only [hsky, hz, ↓reduceIte, true_and, true_or, decide_true]
      rfl
    · simp only [hsky, hz, ↓reduceIte, true_and, false_or, decide_eq_true_eq]
      split <;> rfl
  · simp only [hsky, ↓reduceIte, false_and, decide_false, Bool.false_eq_true]
    rfl

/-- The call of the traverser on a line. -/
theorem shootTraverse_line (asks : Asks ask attack shootz)
    (hq : slopes scene ask shootz ⟨number, frac, true⟩ = .ok q) :
    Engine.shootTraverse scene attack after ask.slope state ⟨frac, .line number⟩ =
      if lineBlocks scene ask ⟨number, frac, true⟩ q then
        Engine.hitline scene attack ask.slope (Engine.shootSpecialLine after state number) frac
          number
      else .ok (Engine.shootSpecialLine after state number, true) := by
  obtain ⟨hbottom, htop, -, -⟩ := slopes_spec hq
  simp only at hbottom htop
  set wall := scene.wall number with hwall
  by_cases h2 : wall.twoSided = true
  · rw [opening_eq h2, sub32_eq, fixedDiv_eq, fixedMul_eq, asks.range, asks.shootz] at hbottom htop
    simp only at hbottom htop
    simp only [Engine.shootTraverse, ← hwall, h2, Bool.not_true, Bool.false_eq_true, ↓reduceIte,
      hbottom, htop, lineBlocks, steps_eq h2, Engine.onStep]
    by_cases hf : (scene.front wall).floorheight = (scene.back wall).floorheight <;>
    by_cases hc : (scene.front wall).ceilingheight = (scene.back wall).ceilingheight <;>
    by_cases hb : q.openBottom > ask.slope <;>
    by_cases ht : q.openTop < ask.slope <;>
    simp [hf, hc, hb, ht, Except.map, Engine.ok_bind] <;> rfl
  · simp [Engine.shootTraverse, lineBlocks, ← hwall, h2]

theorem spechit_eq (shoots : Shoots specials (⟨frac, .line number⟩ :: rest) held state) :
    spechit specials held ⟨number, frac, true⟩ =
      (Engine.shootSpecialLine after state number).shot := by
  have hspecial := shoots.ahead number (by simp [lineOf])
  simp only [spechit, Engine.shootSpecialLine, hspecial, true_and]
  split
  · simp [shoots.shot]
  · exact shoots.shot

/-- Only the line that is shot changes its special. -/
theorem ahead_shootSpecialLine (shoots : Shoots specials (⟨frac, .line number⟩ :: rest) held state) :
    ∀ ahead ∈ rest.filterMap lineOf,
      (Engine.shootSpecialLine after state number).specials.getD ahead 0 =
        specials.getD ahead 0 := by
  intro ahead hahead
  have hne : number ≠ ahead := by
    rintro rfl
    exact (List.nodup_cons.mp shoots.nodup).1 hahead
  rw [← shoots.ahead ahead (List.mem_cons_of_mem _ hahead), Engine.shootSpecialLine]
  split
  · simp [hne]
  · rfl

theorem shoot_line (asks : Asks ask attack shootz) (traced : Traced start ends_ attack)
    (hask : ask.aims = false) (shoots : Shoots specials (⟨frac, .line number⟩ :: rest) held state)
    (hq : slopes scene ask shootz ⟨number, frac, true⟩ = .ok q)
    (hfrac : shortened ask ⟨number, frac, true⟩ = .ok frac') :
    ShootStep scene specials attack after ask.slope state ⟨frac, .line number⟩ rest
      (stepWith scene specials ask shootz start ends_ held ⟨number, frac, true⟩ q frac') := by
  have hspechit : spechit specials held ⟨number, frac, true⟩ =
      (Engine.shootSpecialLine after state number).shot := spechit_eq shoots
  have hhit : (Engine.shootSpecialLine after state number).hit = none := by
    rw [Engine.shootSpecialLine]
    split <;> exact shoots.hit
  rw [stepWith_shoot_line hask shoots.going]
  cases hblocks : lineBlocks scene ask ⟨number, frac, true⟩ q with
  | true =>
    refine ⟨_, false, by rw [shootTraverse_line asks hq, if_pos hblocks, hitline_eq asks hfrac],
      rfl, by simp, fun _ => ?_⟩
    cases hsky : sky scene ask shootz ⟨number, frac, true⟩ frac' with
    | true => exact ⟨hspechit, by simp [hitOf, shoots.kind, hhit]⟩
    | false => exact ⟨hspechit, by simp [hitOf, Engine.puffAt, traced.x, traced.y, z_eq asks]⟩
  | false =>
    refine ⟨_, true, by rw [shootTraverse_line asks hq, hblocks]; rfl, rfl, fun _ => ?_, by simp⟩
    exact ⟨rfl, shoots.kind, hhit, hspechit, ahead_shootSpecialLine shoots,
      (List.nodup_cons.mp shoots.nodup).2⟩

end

/-! ## The three questions -/

section
variable {trig : Trig} {map : Blockmap} {scene : Scene} {specials : List Int} {shooter : Shooter}
  {angle : UInt32} {range slope : Int32}

/-- The cosine read within a whole turn leads as far as the one a quarter turn on. -/
def CosineAlike (trig : Trig) (angle : UInt32) (range : Int32) : Prop :=
  (range >>> 16) * trig.finesine.getD (((angle >>> 19).toNat + 2048) % 8192) 0 =
    (range >>> 16) * trig.finesine.getD ((angle >>> 19).toNat + 2048) 0

theorem reach_eq (x range wave : Int32) :
    Int32.ofInt (x.toInt + (Int32.ofInt (range.toInt / 65536 * wave.toInt)).toInt) =
      x + (range >>> 16) * wave := by
  have hreach : (range >>> 16).toInt = range.toInt / (65536 : Int) :=
    SignedWords.toInt_shiftRight (k := 16) (n := 16) (by decide)
  rw [Int32.ofInt_add, Int32.ofInt_toInt, Int32.ofInt_toInt, ← hreach, Int32.ofInt_mul,
    Int32.ofInt_toInt, Int32.ofInt_toInt]

theorem ends_eq {aims : Bool} :
    ends trig (askOf shooter angle range slope aims) =
      (shooter.x + (range >>> 16) *
          trig.finesine.getD (((angle >>> 19).toNat + 2048) % 8192) 0,
        shooter.y + (range >>> 16) * trig.finesine.getD (angle >>> 19).toNat 0) := by
  have hfine : (angle >>> 19).toNat % 8192 = (angle >>> 19).toNat := by
    apply Nat.mod_eq_of_lt
    have := angle.toNat_lt
    simp only [UInt32.toNat_shiftRight, UInt32.reduceToNat, Nat.reduceMod]
    rw [Nat.shiftRight_eq_div_pow]
    omega
  simp only [ends, askOf, reach_eq, hfine]

theorem along_eq (frac last coord origin : Int32) :
    along frac (Traverse.nudged coord.toInt origin.toInt) last.toInt =
      Engine.nudged coord origin +
        Engine.fixedMul (last - Engine.nudged coord origin) frac := by
  rw [along, Int32.ofInt_add, Int32.ofInt_toInt, Int32.ofInt_sub, Int32.ofInt_toInt,
    Traverse.nudged_eq, fixedMul_eq]

theorem traced_attackOf {aims : Bool} (alike : CosineAlike trig angle range) :
    Traced (Traverse.nudged shooter.x.toInt map.orgx.toInt,
        Traverse.nudged shooter.y.toInt map.orgy.toInt)
      ((ends trig (askOf shooter angle range slope aims)).1.toInt,
        (ends trig (askOf shooter angle range slope aims)).2.toInt)
      (Engine.attackOf trig map shooter angle range) := by
  rw [ends_eq, alike]
  exact ⟨fun frac => along_eq .., fun frac => along_eq ..⟩

/-- A shot of the fold is `P_LineAttack`, where it divides and its trace ends alike. -/
theorem shot_eq (after : Int → Int) {hits : List Intercept} (alike : CosineAlike trig angle range)
    (distinct : (hits.filterMap lineOf).Nodup)
    (divides : TraceDivides scene (askOf shooter angle range slope false) hits) :
    ∃ last, traverser trig map scene specials (askOf shooter angle range slope false)
        (hits.map inOf) = .ok last ∧
      Engine.lineAttack scene (Engine.attackOf trig map shooter angle range) after specials slope
        hits = .ok (last.spechit, hitOf last) := by
  have shoots : Shoots specials hits Reached.start ⟨specials, [], none⟩ :=
    ⟨rfl, rfl, rfl, rfl, fun _ _ => rfl, distinct⟩
  set ask := askOf shooter angle range slope false with hask
  have asks : Asks ask (Engine.attackOf trig map shooter angle range) (shootZ ask) := asks_attackOf
  have traced : Traced (Traverse.nudged shooter.x.toInt map.orgx.toInt,
      Traverse.nudged shooter.y.toInt map.orgy.toInt)
      ((ends trig ask).1.toInt, (ends trig ask).2.toInt)
      (Engine.attackOf trig map shooter angle range) := traced_attackOf alike
  obtain ⟨last, state, hlast, hstate, hshot⟩ :
      ∃ last state, traverser trig map scene specials (askOf shooter angle range slope false)
          (hits.map inOf) = .ok last ∧
        Engine.handOn (Engine.shootTraverse scene
          (Engine.attackOf trig map shooter angle range) after slope) _ hits = .ok state ∧
        Shoted last state := by
    refine fold_handOn (Shoots specials) Shoted
      (fun held state shoots => ⟨shoots.shot, by simp [hitOf, shoots.kind, shoots.hit]⟩) ?_ hits
      divides shoots
    intro i rest held state q frac shoots hq hfrac
    obtain ⟨frac, number | slot⟩ := i
    · have hline : ShootStep scene specials (Engine.attackOf trig map shooter angle range) after
          ask.slope state ⟨frac, .line number⟩ rest _ :=
        shoot_line asks traced rfl shoots hq hfrac
      exact hline
    · have hthing : ShootStep scene specials (Engine.attackOf trig map shooter angle range) after
          ask.slope state ⟨frac, .thing slot⟩ rest _ :=
        shoot_thing asks traced rfl shoots hq hfrac
      exact hthing
  refine ⟨last, hlast, ?_⟩
  rw [Engine.lineAttack, hstate, Engine.ok_bind, hshot.1, hshot.2]
  rfl

/-- The angle of a try. -/
theorem turned_eq (angle : UInt32) (by_ : Nat) :
    UInt32.ofNat ((angle.toNat + by_) % 4294967296) = angle + UInt32.ofNat by_ := by
  apply UInt32.toNat_inj.mp
  simp

/-- The tries of `P_BulletSlope`. -/
def tries (angle : UInt32) : List UInt32 := [angle, angle + 67108864, angle + 4227858432]

theorem bulletSlope_eq (hits : UInt32 → List In) :
    bulletSlope trig map scene specials (askOf shooter angle range slope true) hits = (do
      let ask (angle : UInt32) := askOf shooter angle 67108864 0 true
      let ahead ← traverser trig map scene specials (ask angle) (hits angle)
      let left ← traverser trig map scene specials (ask (angle + 67108864))
        (hits (angle + 67108864))
      let right ← traverser trig map scene specials (ask (angle + 4227858432))
        (hits (angle + 4227858432))
      return if ahead.target ≠ 0 then (ahead.slope, ahead.target)
        else if left.target ≠ 0 then (left.slope, left.target)
        else (right.slope, right.target)) := by
  simp only [bulletSlope, turned_eq]
  rfl

theorem slotOf_isSome (target : Nat) : (slotOf target).isSome = decide (target ≠ 0) := by
  by_cases h : target = 0 <;> simp [slotOf, h]

/-- The three tries asked together keep the first that finds a target, as `P_BulletSlope`
does, where they divide. -/
theorem bullet_eq (trig : Trig) (map : Blockmap) (specials : List Int) (range slope held : Int32)
    {intercepts : UInt32 → List Intercept}
    (divides : ∀ angle ∈ tries shooter.angle,
      TraceDivides scene (askOf shooter angle 67108864 0 true) (intercepts angle)) :
    ∃ answer, bulletSlope trig map scene specials (askOf shooter shooter.angle range slope true)
        (fun angle => (intercepts angle).map inOf) = .ok answer ∧
      Engine.bulletSlope trig map scene shooter held intercepts =
        .ok (answer.1, slotOf answer.2) := by
  have aim : ∀ angle ∈ tries shooter.angle,
      ∃ last, traverser trig map scene specials (askOf shooter angle 67108864 0 true)
          ((intercepts angle).map inOf) = .ok last ∧
        Engine.aimLineAttack scene (Engine.attackOf trig map shooter angle 67108864) held
          (intercepts angle) = .ok (last.slope, slotOf last.target) :=
    fun angle hangle => aim_eq held (divides angle hangle)
  simp only [tries, List.forall_mem_cons] at aim
  obtain ⟨⟨ahead, hahead, heahead⟩, ⟨left, hleft, heleft⟩, ⟨right, hright, heright⟩, -⟩ := aim
  have hturn : shooter.angle + 0x4000000 - 0x8000000 = shooter.angle + 4227858432 := by
    rw [UInt32.sub_eq_add_neg, UInt32.add_assoc]
    rfl
  have hrange : 16 * 64 * Engine.fracUnit = 67108864 := rfl
  rw [bulletSlope_eq]
  simp only [hahead, hleft, hright, Engine.ok_bind]
  refine ⟨_, rfl, ?_⟩
  simp only [Engine.bulletSlope, hrange, hturn, heahead, heleft, heright, Engine.ok_bind,
    slotOf_isSome, decide_eq_true_eq]
  by_cases h1 : ahead.target = 0
  · by_cases h2 : left.target = 0
    · simp [h1, h2]
    · simp [h1, h2]
      rfl
  · simp [h1]
    rfl

/-- The tries of a `bullet_slope` with an answer all divide. -/
theorem divides_of_bullet {intercepts : UInt32 → List Intercept} {answer : Int32 × Nat}
    (h : bulletSlope trig map scene specials (askOf shooter angle range slope true)
      (fun angle => (intercepts angle).map inOf) = .ok answer) :
    ∀ turned ∈ tries angle,
      TraceDivides scene (askOf shooter turned 67108864 0 true) (intercepts turned) := by
  rw [bulletSlope_eq] at h
  obtain ⟨ahead, hahead, h⟩ := bind_ok h
  obtain ⟨left, hleft, h⟩ := bind_ok h
  obtain ⟨right, hright, -⟩ := bind_ok h
  simp only [tries, List.forall_mem_cons]
  exact ⟨traceDivides_of_ok hahead, traceDivides_of_ok hleft, traceDivides_of_ok hright,
    by simp⟩

end

/-- The fold's aims, shots and bullet slopes are the engine's exactly where no division of the
trace is the least number by zero; a shot, where its trace also ends where the engine's does. -/
theorem shoot_eq_engine (trig : Trig) (map : Blockmap) (scene : Scene) (specials : List Int)
    (after : Int → Int) (shooter : Shooter) (angle : UInt32) (range slope held : Int32)
    (hits : List Intercept) (distinct : (hits.filterMap lineOf).Nodup)
    (intercepts : UInt32 → List Intercept) :
    ((∃ last, traverser trig map scene specials (askOf shooter angle range slope true)
          (hits.map inOf) = .ok last ∧
        Engine.aimLineAttack scene (Engine.attackOf trig map shooter angle range) held hits =
          .ok (last.slope, slotOf last.target)) ↔
      TraceDivides scene (askOf shooter angle range slope true) hits) ∧
    (CosineAlike trig angle range →
      ((∃ last, traverser trig map scene specials (askOf shooter angle range slope false)
          (hits.map inOf) = .ok last ∧
        Engine.lineAttack scene (Engine.attackOf trig map shooter angle range) after specials slope
          hits = .ok (last.spechit, hitOf last)) ↔
      TraceDivides scene (askOf shooter angle range slope false) hits)) ∧
    ((∃ answer, bulletSlope trig map scene specials
          (askOf shooter shooter.angle range slope true)
          (fun angle => (intercepts angle).map inOf) = .ok answer ∧
        Engine.bulletSlope trig map scene shooter held intercepts =
          .ok (answer.1, slotOf answer.2)) ↔
      ∀ angle ∈ tries shooter.angle,
        TraceDivides scene (askOf shooter angle 67108864 0 true) (intercepts angle)) := by
  refine ⟨⟨?_, aim_eq held⟩, fun alike => ⟨?_, shot_eq after alike distinct⟩,
    ⟨?_, fun divides => bullet_eq _ _ _ _ _ _ divides⟩⟩
  · rintro ⟨last, hlast, -⟩
    exact traceDivides_of_ok hlast
  · rintro ⟨last, hlast, -⟩
    exact traceDivides_of_ok hlast
  · rintro ⟨answer, hanswer, -⟩
    exact divides_of_bullet hanswer

/-- A room with one wall, and a shooter in it who looks along the 6214th fine angle. -/
def gallery : Scene :=
  ⟨[⟨0, none, false, by simp⟩], [⟨0, 128 * 65536, 1⟩], [⟨0, 56 * 65536, true⟩], 2⟩

def marksman : Shooter := ⟨0, 0, 0, 0, 56 * 65536, 3257925632⟩

/-- A map whose blocks are not cut where the shooter stands. -/
def grounds : Blockmap := ⟨-65536, -65536, 32, 32⟩

/-- A table that holds 3541 at 70 and 3542 a whole turn on, as `finesine` does. -/
def turnedTable : Trig where
  tantoangle := List.replicate 2049 0
  finesine := List.replicate 70 0 ++ 3541 ::
    (List.replicate 8191 0 ++ 3542 :: List.replicate 1977 0)
  length_tantoangle := Fixed.length_flat_tantoangle
  length_finesine := by
    simp only [List.length_append, List.length_cons, List.length_replicate]

/-- The two entries again with nothing between a turn and the next, and the sine at 6214. -/
def evenTable : Trig where
  tantoangle := List.replicate 2049 0
  finesine := List.replicate 70 0 ++ 3541 :: (List.replicate 6143 0 ++ -65440 ::
    (List.replicate 2047 0 ++ 3541 :: List.replicate 1977 0))
  length_tantoangle := Fixed.length_flat_tantoangle
  length_finesine := by
    simp only [List.length_append, List.length_cons, List.length_replicate]

/-- Two rooms with a window between them, the second with someone in it. -/
def windowed : Scene :=
  ⟨[⟨0, some 1, true, fun _ => rfl⟩],
    [⟨0, 128 * 65536, 1⟩, ⟨16 * 65536, 96 * 65536, 1⟩],
    [⟨0, 56 * 65536, true⟩, ⟨16 * 65536, 56 * 65536, true⟩], 2⟩

/-- The window a quarter of the way, the one behind it half of the way. -/
def through : List Intercept := [⟨16384, .line 0⟩, ⟨32768, .thing 1⟩]

/-- Over an even table the aim and the shot through the window and the bullet's three tries are
the engine's. -/
theorem evenTable_agrees :
    (∃ last, traverser evenTable grounds windowed [0]
        (askOf marksman marksman.angle 134217728 0 true) (through.map inOf) = .ok last ∧
      Engine.aimLineAttack windowed
        (Engine.attackOf evenTable grounds marksman marksman.angle 134217728) 0 through =
          .ok (last.slope, slotOf last.target)) ∧
    (∃ last, traverser evenTable grounds windowed [0]
        (askOf marksman marksman.angle 134217728 0 false) (through.map inOf) = .ok last ∧
      Engine.lineAttack windowed
        (Engine.attackOf evenTable grounds marksman marksman.angle 134217728) id [0] 0 through =
          .ok (last.spechit, hitOf last)) ∧
    ∃ answer, bulletSlope evenTable grounds windowed [0]
        (askOf marksman marksman.angle 134217728 0 true) (fun _ => through.map inOf) =
          .ok answer ∧
      Engine.bulletSlope evenTable grounds windowed marksman 0 (fun _ => through) =
        .ok (answer.1, slotOf answer.2) := by
  have agrees := shoot_eq_engine evenTable grounds windowed [0] id marksman marksman.angle
    134217728 0 0 through (by decide) fun _ => through
  refine ⟨agrees.1.mpr ?_, (agrees.2.1 ?_).mpr ?_, agrees.2.2.mpr ?_⟩
  · unfold TraceDivides Divides
    decide +kernel
  · unfold CosineAlike
    decide +kernel
  · unfold TraceDivides Divides
    decide +kernel
  · simp only [tries, List.forall_mem_cons, List.not_mem_nil, false_implies, implies_true,
      and_true, TraceDivides, Divides]
    decide +kernel

/-- Over a table that differs a whole turn on, the same shot lands elsewhere. -/
theorem turnedTable_lands :
    ¬ ∃ last, traverser turnedTable grounds gallery [0]
        (askOf marksman marksman.angle 134217728 0 false) ([⟨65536, .line 0⟩].map inOf) =
          .ok last ∧
      Engine.lineAttack gallery
        (Engine.attackOf turnedTable grounds marksman marksman.angle 134217728) id [0] 0
        [⟨65536, .line 0⟩] = .ok (last.spechit, hitOf last) := by
  have native : (traverser turnedTable grounds gallery [0]
      (askOf marksman marksman.angle 134217728 0 false)
      ([⟨65536, .line 0⟩].map inOf)).map hitOf = .ok (some ⟨.line 0, 7237804, 0, 2359296⟩) := by
    decide +kernel
  have engine : Engine.lineAttack gallery
      (Engine.attackOf turnedTable grounds marksman marksman.angle 134217728) id [0] 0
      [⟨65536, .line 0⟩] = .ok ([], some ⟨.line 0, 7239848, 0, 2359296⟩) := by
    decide +kernel
  rintro ⟨last, hlast, hattack⟩
  rw [hlast] at native
  rw [engine] at hattack
  have lands : hitOf last = some ⟨.line 0, 7237804, 0, 2359296⟩ := Except.ok.inj native
  have elsewhere : some ⟨.line 0, 7239848, 0, 2359296⟩ = hitOf last :=
    congrArg Prod.snd (Except.ok.inj hattack)
  rw [lands] at elsewhere
  exact absurd elsewhere (by decide)

end ClickDoom.Native.Shoot

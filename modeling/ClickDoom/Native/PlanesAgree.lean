import ClickDoom.Native.Planes

/-! # The planes pass against the engine's movers

The pass looked at one sector at a time: the rows that drive it are the engine's movers of that
sector, and as at most one of them moves a plane in a tic that is resolved, the map over the
rows and the engine's walk down the list leave the same sector.
-/
namespace ClickDoom.Native.Planes
open Engine (Result Which Heights VlDoor DoorType Plat PlatStatus PlatType FloorMove Mover
  PlaneThinker)

/-! ## The rows as movers -/

/-- `vldoor_e`. -/
def doorType (code : Int) : Option DoorType :=
  if code = 0 then some .normal
  else if code = 1 then some .close30ThenOpen
  else if code = 2 then some .close
  else if code = 3 then some .open
  else if code = 4 then some .raiseIn5Mins
  else if code = 5 then some .blazeRaise
  else if code = 6 then some .blazeOpen
  else if code = 7 then some .blazeClose
  else none

/-- `plattype_e`. -/
def platType (code : Int) : Option PlatType :=
  if code = 0 then some .perpetualRaise
  else if code = 1 then some .downWaitUpStay
  else if code = 2 then some .raiseAndChange
  else if code = 3 then some .raiseToNearestAndChange
  else if code = 4 then some .blazeDWUS
  else none

/-- `plat_e`. -/
def platStatus (code : Int) : Option PlatStatus :=
  if code = 0 then some .up
  else if code = 1 then some .down
  else if code = 2 then some .waiting
  else if code = 3 then some .inStasis
  else none

/-- The engine's mover behind a row; a ceiling is one the pass never meets. -/
def moverOf (t : SectorThinker) : Option PlaneThinker :=
  match t.kind with
  | .door => (doorType t.type).map fun type =>
      ⟨t.active, .door ⟨type, t.dest, t.speed, t.direction, t.wait, t.count⟩⟩
  | .plat => (platType t.type).bind fun type => (platStatus t.status).map fun status =>
      ⟨t.active, .plat ⟨type, t.speed, t.dest, t.dest2, t.wait, t.count, status, t.crush⟩⟩
  | .floor => some ⟨t.active, .floor ⟨t.speed, t.direction, t.dest, t.crush⟩⟩
  | _ => none

/-- The rows that drive a sector. -/
def World.driving (w : World) (sector : Nat) : List SectorThinker :=
  w.thinkers.filter fun t => drivesPlane t.kind && t.sector = sector

/-! ## When a row does what its mover does -/

/-- One more step compares with the destination in 64 bits as it does in 32. -/
def StepAlike (direction : Int) (height speed dest : Int32) : Prop :=
  (direction = -1 → (height.toInt - speed.toInt < dest.toInt ↔ height - speed < dest)) ∧
  (direction = 1 → (height.toInt + speed.toInt > dest.toInt ↔ height + speed > dest))

/-- The wait of a plat runs out in this tic. -/
def waitsOut (t : SectorThinker) : Bool :=
  t.active && t.kind = .plat && t.status = 2 && t.count = 1

/-- A thinker with any direction but up, down and standing still moves nothing, and is taken
to move down by the pass; a plat whose wait runs out is taken to stand at its low wherever one
step down would bring it there. -/
def RowFits (h : Heights) (t : SectorThinker) : Prop :=
  match t.kind with
  | .door => (t.direction = -1 ∨ t.direction = 0 ∨ t.direction = 1 ∨ t.speed = 0) ∧
      StepAlike t.direction h.ceiling t.speed (if t.direction = -1 then h.floor else t.dest)
  | .floor => (t.direction = -1 ∨ t.direction = 0 ∨ t.direction = 1 ∨ t.speed = 0) ∧
      StepAlike t.direction h.floor t.speed t.dest
  | .plat => (t.status = 0 → StepAlike 1 h.floor t.speed t.dest2) ∧
      (t.status = 1 → StepAlike (-1) h.floor t.speed t.dest) ∧
      (t.status = 2 → t.count = 1 →
        (h.floor.toInt - t.speed.toInt ≤ t.dest.toInt ↔ h.floor = t.dest))
  | _ => True

/-! ## The move -/

section
variable {direction : Int} {last speed dest : Int32} {stuck : Bool}

/-- The pass's move is the engine's, for a plane that does not crush. -/
theorem movePlane_agrees (plane : Which) (alike : StepAlike direction last speed dest)
    (known : direction = -1 ∨ direction = 1) :
    Engine.movePlane stuck plane direction speed dest false last =
      ((movePlane plane direction last.toInt speed.toInt dest.toInt false stuck).result,
        Int32.ofInt (movePlane plane direction last.toInt speed.toInt dest.toInt false
          stuck).height) := by
  obtain ⟨down, up⟩ := alike
  rcases known with rfl | rfl
  · have passes := down rfl
    by_cases hp : last - speed < dest
    · have hq := passes.mpr hp
      cases plane <;> cases stuck <;>
        simp [Engine.movePlane, movePlane, past, target, hp, hq]
    · have hq := mt passes.mp hp
      cases plane <;> cases stuck <;>
        simp [Engine.movePlane, movePlane, past, target, hp, hq]
  · have passes := up rfl
    by_cases hp : last + speed > dest
    · have hq := passes.mpr hp
      cases plane <;> cases stuck <;>
        simp [Engine.movePlane, movePlane, past, target, hp, hq]
    · have hq := mt passes.mp hp
      cases plane <;> cases stuck <;>
        simp [Engine.movePlane, movePlane, past, target, hp, hq]

/-- A direction the engine knows nothing of moves nothing, and neither does the pass where the
speed is zero. -/
theorem movePlane_still (plane : Which) {direction : Int} (last dest : Int) (stuck : Bool)
    (unknown : direction ≠ -1 ∧ direction ≠ 1) :
    (movePlane plane direction last 0 dest false stuck).height = last ∧
      (movePlane plane direction last 0 dest false stuck).result ≠ .pastdest := by
  cases stuck <;> simp [movePlane, past, target, unknown.1, unknown.2]

end

/-! ## One row -/

/-- The sector with the plane a row drives at a height. -/
def put (h : Heights) (t : SectorThinker) (value : Int32) : Heights :=
  if which t = .ceiling then { h with ceiling := value } else { h with floor := value }

/-- The sector a row leaves. -/
def leaves (h : Heights) (t : SectorThinker) (stuck : Bool) : Heights :=
  if runs t then put h t (Int32.ofInt (moved t h stuck).height) else h

section
variable {t : SectorThinker} {m : PlaneThinker} {h : Heights} {nofit : Bool}

theorem count_out (c : Int32) : c.toInt - 1 = 0 ↔ c - 1 = 0 := by
  constructor
  · intro hc
    have : c = 1 := Int32.toInt_inj.mp (by simpa using (by omega : c.toInt = 1))
    rw [this]
    rfl
  · intro hc
    have : c = 1 := by
      have := congrArg (· + 1) hc
      simpa using this
    rw [this]
    rfl

theorem ofInt_pred (c : Int32) : Int32.ofInt (c.toInt - 1) = c - 1 := by
  rw [Int32.ofInt_sub, Int32.ofInt_toInt]
  rfl

theorem ran_of_not_ticks (ht : ticks t = false) (stuck : Bool) : ran t h stuck = t := by
  simp [ran, ht]

theorem run_inactive (hm : moverOf t = some m) (inactive : t.active = false) (stuck : Bool) :
    m.run nofit h =
      (if done t h stuck then none else moverOf (ran t h stuck), leaves h t stuck) := by
  have hr : runs t = false := by simp [runs, inactive]
  have ht : ticks t = false := by simp [ticks, inactive]
  have hd : done t h stuck = false := by simp [done, hr, ht]
  have hran := ran_of_not_ticks (h := h) ht stuck
  have hma : m.active = false := by
    unfold moverOf at hm
    cases hk : t.kind <;> simp [hk, Option.bind_eq_some_iff] at hm
    · obtain ⟨_, _, rfl⟩ := hm
      exact inactive
    · obtain ⟨_, _, _, _, rfl⟩ := hm
      exact inactive
    · rw [← hm]
      exact inactive
  simp [PlaneThinker.run, hma, hd, hran, hm, leaves, hr]

theorem doorType_cases {code : Int} {type : DoorType} (h : doorType code = some type) :
    (code = 0 ∧ type = .normal) ∨ (code = 1 ∧ type = .close30ThenOpen) ∨
    (code = 2 ∧ type = .close) ∨ (code = 3 ∧ type = .open) ∨
    (code = 4 ∧ type = .raiseIn5Mins) ∨ (code = 5 ∧ type = .blazeRaise) ∨
    (code = 6 ∧ type = .blazeOpen) ∨ (code = 7 ∧ type = .blazeClose) := by
  unfold doorType at h
  split_ifs at h <;> simp_all

/-- `vertical_door` is `T_VerticalDoor`, given that the moves are the same. -/
theorem verticalDoor_agrees {code dir : Int} {type : DoorType} {top speed wait count : Int32}
    {M : Moved} (htype : doorType code = some type)
    (hdown : dir = -1 → Engine.movePlane nofit .ceiling dir speed h.floor false h.ceiling =
      (M.result, Int32.ofInt M.height))
    (hup : dir = 1 → Engine.movePlane nofit .ceiling dir speed top false h.ceiling =
      (M.result, Int32.ofInt M.height)) :
    Engine.verticalDoor nofit h ⟨type, top, speed, dir, wait, count⟩ =
      (if (verticalDoor code dir count.toInt wait.toInt M).done then none
        else (doorType (verticalDoor code dir count.toInt wait.toInt M).type).map fun type =>
          ⟨type, top, speed, (verticalDoor code dir count.toInt wait.toInt M).direction, wait,
            Int32.ofInt (verticalDoor code dir count.toInt wait.toInt M).count⟩,
        if dir = -1 ∨ dir = 1 then { h with ceiling := Int32.ofInt M.height } else h) := by
  have hout := count_out count
  have hpred := ofInt_pred count
  by_cases h0 : dir = 0
  · subst h0
    rcases doorType_cases htype with ⟨rfl, rfl⟩ | ⟨rfl, rfl⟩ | ⟨rfl, rfl⟩ | ⟨rfl, rfl⟩ |
      ⟨rfl, rfl⟩ | ⟨rfl, rfl⟩ | ⟨rfl, rfl⟩ | ⟨rfl, rfl⟩ <;>
    by_cases hc : count - 1 = 0 <;>
    simp [Engine.verticalDoor, verticalDoor, hout, hc, hpred, doorType]
  by_cases h2 : dir = 2
  · subst h2
    rcases doorType_cases htype with ⟨rfl, rfl⟩ | ⟨rfl, rfl⟩ | ⟨rfl, rfl⟩ | ⟨rfl, rfl⟩ |
      ⟨rfl, rfl⟩ | ⟨rfl, rfl⟩ | ⟨rfl, rfl⟩ | ⟨rfl, rfl⟩ <;>
    by_cases hc : count - 1 = 0 <;>
    simp [Engine.verticalDoor, verticalDoor, hout, hc, hpred, doorType]
  by_cases hd : dir = -1
  · subst hd
    have hmove := hdown rfl
    cases hres : M.result <;>
    rcases doorType_cases htype with ⟨rfl, rfl⟩ | ⟨rfl, rfl⟩ | ⟨rfl, rfl⟩ | ⟨rfl, rfl⟩ |
      ⟨rfl, rfl⟩ | ⟨rfl, rfl⟩ | ⟨rfl, rfl⟩ | ⟨rfl, rfl⟩ <;>
    simp [Engine.verticalDoor, verticalDoor, hmove, hres, doorType]
  by_cases hu : dir = 1
  · subst hu
    have hmove := hup rfl
    cases hres : M.result <;>
    rcases doorType_cases htype with ⟨rfl, rfl⟩ | ⟨rfl, rfl⟩ | ⟨rfl, rfl⟩ | ⟨rfl, rfl⟩ |
      ⟨rfl, rfl⟩ | ⟨rfl, rfl⟩ | ⟨rfl, rfl⟩ | ⟨rfl, rfl⟩ <;>
    simp [Engine.verticalDoor, verticalDoor, hmove, hres, doorType]
  simp [Engine.verticalDoor, verticalDoor, h0, h2, hd, hu, htype]

theorem run_door (hm : moverOf t = some m) (hk : t.kind = .door) (active : t.active)
    (fits : RowFits h t) :
    m.run nofit h =
      (if done t h (runs t && nofit) then none else moverOf (ran t h (runs t && nofit)),
        leaves h t (runs t && nofit)) := by
  simp only [moverOf, hk, Option.map_eq_some_iff] at hm
  obtain ⟨type, htype, rfl⟩ := hm
  simp only [RowFits, hk] at fits
  obtain ⟨known, alike⟩ := fits
  have ht : ticks t = true := by simp [ticks, active, hk]
  have hw : which t = .ceiling := by simp [which, hk]
  have hd : direction t = t.direction := by simp [direction, hk]
  have hr : runs t = decide (t.direction ≠ 0) := by simp [runs, active, hk]
  have hheight : height t h = h.ceiling.toInt := by simp [height, hw]
  have hdest : dest t h = (if t.direction = -1 then h.floor else t.dest).toInt := by
    by_cases hdir : t.direction = -1 <;> simp [dest, hk, hd, hdir]
  have hmoved : moved t h (runs t && nofit) = movePlane .ceiling t.direction h.ceiling.toInt
      t.speed.toInt (if t.direction = -1 then h.floor else t.dest).toInt false
      (runs t && nofit) := by
    rw [moved, hw, hd, hheight, hdest]
  have hagrees : t.direction = -1 ∨ t.direction = 1 →
      Engine.movePlane nofit .ceiling t.direction t.speed
        (if t.direction = -1 then h.floor else t.dest) false h.ceiling =
      ((moved t h (runs t && nofit)).result,
        Int32.ofInt (moved t h (runs t && nofit)).height) := by
    intro hdir
    have hrun : runs t = true := by rw [hr]; rcases hdir with hd | hd <;> simp [hd]
    rw [hmoved, hrun, Bool.true_and]
    exact movePlane_agrees .ceiling alike hdir
  have hdoor : Engine.verticalDoor nofit h
      ⟨type, t.dest, t.speed, t.direction, t.wait, t.count⟩ = _ :=
    verticalDoor_agrees htype
      (fun hdir => by simpa [hdir] using hagrees (.inl hdir))
      (fun hdir => by simpa [hdir] using hagrees (.inr hdir))
  have hdone : done t h (runs t && nofit) = (doorRan t h (runs t && nofit)).done := by
    by_cases h0 : t.direction = 0
    · simp [done, hk, hr, h0, doorRan, verticalDoor]
    · simp [done, hk, hr, h0]
  have hleaves : leaves h t (runs t && nofit) =
      if t.direction = -1 ∨ t.direction = 1 then
        { h with ceiling := Int32.ofInt (moved t h (runs t && nofit)).height } else h := by
    by_cases hdir : t.direction = -1 ∨ t.direction = 1
    · have hrun : runs t = true := by rw [hr]; rcases hdir with hd | hd <;> simp [hd]
      rw [leaves, if_pos hrun, put, if_pos hw, if_pos hdir]
    · rw [if_neg hdir, leaves]
      rw [not_or] at hdir
      split
      · next hrun =>
        have hspeed : t.speed = 0 := by simp_all
        have hstill := (movePlane_still .ceiling h.ceiling.toInt
          (if t.direction = -1 then h.floor else t.dest).toInt (runs t && nofit) hdir).1
        rw [put, if_pos hw, hmoved, hspeed]
        simp only [Int32.toInt_zero, hstill, Int32.ofInt_toInt]
      · rfl
  rw [hdone, hleaves]
  simp only [PlaneThinker.run, active, Bool.not_true, Bool.false_eq_true, ↓reduceIte, hdoor]
  simp only [doorRan, moverOf, ran, hk, ht, and_self, ↓reduceIte, reduceCtorEq, false_and]
  split
  · rfl
  · simp [Option.map_map, Function.comp_def, active]

theorem platType_cases {code : Int} {type : PlatType} (h : platType code = some type) :
    (code = 0 ∧ type = .perpetualRaise) ∨ (code = 1 ∧ type = .downWaitUpStay) ∨
    (code = 2 ∧ type = .raiseAndChange) ∨ (code = 3 ∧ type = .raiseToNearestAndChange) ∨
    (code = 4 ∧ type = .blazeDWUS) := by
  unfold platType at h
  split_ifs at h <;> simp_all

theorem platStatus_cases {code : Int} {status : PlatStatus} (h : platStatus code = some status) :
    (code = 0 ∧ status = .up) ∨ (code = 1 ∧ status = .down) ∨ (code = 2 ∧ status = .waiting) ∨
    (code = 3 ∧ status = .inStasis) := by
  unfold platStatus at h
  split_ifs at h <;> simp_all

/-- `plat_raise` is `T_PlatRaise`, given that the moves are the same and that the height read
out of the move tells whether the floor stands at its low. -/
theorem platRaise_agrees {code scode : Int} {type : PlatType} {status : PlatStatus}
    {speed low high wait count : Int32} {crush : Bool} {M : Moved}
    (htype : platType code = some type) (hstatus : platStatus scode = some status)
    (hup : scode = 0 → crush = false ∧
      Engine.movePlane nofit .floor 1 speed high false h.floor = (M.result, Int32.ofInt M.height))
    (hdown : scode = 1 →
      Engine.movePlane nofit .floor (-1) speed low false h.floor =
        (M.result, Int32.ofInt M.height))
    (hwait : scode = 2 → count = 1 → (M.height = low.toInt ↔ h.floor = low)) :
    Engine.platRaise nofit h ⟨type, speed, low, high, wait, count, status, crush⟩ =
      (if (platRaise code scode count.toInt wait.toInt crush low.toInt M.height M).done then none
        else (platStatus
            (platRaise code scode count.toInt wait.toInt crush low.toInt M.height M).status).map
          fun status => ⟨type, speed, low, high, wait,
            Int32.ofInt
              (platRaise code scode count.toInt wait.toInt crush low.toInt M.height M).count,
            status, crush⟩,
        if scode = 0 ∨ scode = 1 then { h with floor := Int32.ofInt M.height } else h) := by
  have hout := count_out count
  have hpred := ofInt_pred count
  rcases platStatus_cases hstatus with ⟨rfl, rfl⟩ | ⟨rfl, rfl⟩ | ⟨rfl, rfl⟩ | ⟨rfl, rfl⟩
  · obtain ⟨rfl, hmove⟩ := hup rfl
    cases hres : M.result <;>
    rcases platType_cases htype with ⟨rfl, rfl⟩ | ⟨rfl, rfl⟩ | ⟨rfl, rfl⟩ | ⟨rfl, rfl⟩ |
      ⟨rfl, rfl⟩ <;>
    simp [Engine.platRaise, platRaise, hmove, hres, platStatus]
  · have hmove := hdown rfl
    cases hres : M.result <;>
    simp [Engine.platRaise, platRaise, hmove, hres, platStatus]
  · by_cases hc : count - 1 = 0
    · have hlow := hwait rfl (Int32.toInt_inj.mp (by have := hout.mpr hc; simp; omega))
      by_cases hf : h.floor = low
      · simp [Engine.platRaise, platRaise, hout, hc, hlow.mpr hf, hf, hpred, platStatus]
      · have hf' := mt hlow.mp hf
        simp [Engine.platRaise, platRaise, hout, hc, hf, hf', hpred, platStatus]
    · simp [Engine.platRaise, platRaise, hout, hc, hpred, platStatus]
  · simp [Engine.platRaise, platRaise, platStatus]

/-- The height a waiting plat reads out of the move it does not make. -/
theorem moved_waiting {last speed low : Int} :
    (movePlane .floor (-1) last speed low false false).height = low ↔ last - speed ≤ low := by
  by_cases hp : last - speed < low
  · simp [movePlane, past, target, hp]
    omega
  · simp [movePlane, past, target, hp]
    omega

theorem run_plat (hm : moverOf t = some m) (hk : t.kind = .plat) (active : t.active)
    (fits : RowFits h t) (soft : runs t → t.crush = false) :
    m.run nofit h =
      (if done t h (runs t && nofit) then none else moverOf (ran t h (runs t && nofit)),
        leaves h t (runs t && nofit)) := by
  simp only [moverOf, hk, Option.bind_eq_some_iff, Option.map_eq_some_iff] at hm
  obtain ⟨type, htype, status, hstatus, rfl⟩ := hm
  simp only [RowFits, hk] at fits
  obtain ⟨fitsUp, fitsDown, fitsWait⟩ := fits
  have ht : ticks t = true := by simp [ticks, active, hk]
  have hw : which t = .floor := by simp [which, hk]
  have hr : runs t = decide (t.status = 0 ∨ t.status = 1) := by simp [runs, active, hk]
  have hheight : height t h = h.floor.toInt := by simp [height, hw]
  have hup : t.status = 0 → t.crush = false ∧
      Engine.movePlane nofit .floor 1 t.speed t.dest2 false h.floor =
      ((moved t h (runs t && nofit)).result,
        Int32.ofInt (moved t h (runs t && nofit)).height) := by
    intro h0
    have hrun : runs t = true := by simp [hr, h0]
    refine ⟨soft hrun, ?_⟩
    rw [moved, hw, hheight, hrun, Bool.true_and]
    simp only [direction, dest, hk, h0, ↓reduceIte]
    exact movePlane_agrees .floor (fitsUp h0) (.inr rfl)
  have hdown : t.status = 1 →
      Engine.movePlane nofit .floor (-1) t.speed t.dest false h.floor =
      ((moved t h (runs t && nofit)).result,
        Int32.ofInt (moved t h (runs t && nofit)).height) := by
    intro h1
    have hrun : runs t = true := by simp [hr, h1]
    rw [moved, hw, hheight, hrun, Bool.true_and]
    simp only [direction, dest, hk, h1, one_ne_zero, ↓reduceIte]
    exact movePlane_agrees .floor (fitsDown h1) (.inl rfl)
  have hwait : t.status = 2 → t.count = 1 →
      ((moved t h (runs t && nofit)).height = t.dest.toInt ↔ h.floor = t.dest) := by
    intro h2 hc
    have hrun : runs t = false := by simp [hr, h2]
    rw [moved, hw, hheight, hrun, Bool.false_and]
    simp only [direction, dest, hk, h2, OfNat.ofNat_ne_zero, ↓reduceIte]
    exact moved_waiting.trans (fitsWait h2 hc)
  have hplat : Engine.platRaise nofit h
      ⟨type, t.speed, t.dest, t.dest2, t.wait, t.count, status, t.crush⟩ = _ :=
    platRaise_agrees htype hstatus hup hdown hwait
  have hdone : done t h (runs t && nofit) = (platRan t h (runs t && nofit)).done := by
    simp [done, hk, ht]
  have hleaves : leaves h t (runs t && nofit) =
      if t.status = 0 ∨ t.status = 1 then
        { h with floor := Int32.ofInt (moved t h (runs t && nofit)).height } else h := by
    by_cases hs : t.status = 0 ∨ t.status = 1
    · have hrun : runs t = true := by simp [hr, hs]
      rw [leaves, if_pos hrun, put, if_neg (by simp [hw]), if_pos hs]
    · have hrun : runs t = false := by simp only [hr, hs, decide_false]
      simp [leaves, hrun, hs]
  rw [hdone, hleaves]
  simp only [PlaneThinker.run, active, Bool.not_true, Bool.false_eq_true, ↓reduceIte, hplat]
  simp only [platRan, moverOf, ran, hk, ht, and_self, ↓reduceIte, htype, Option.bind_some,
    reduceCtorEq, false_and]
  split
  · rfl
  · simp [Option.map_map, Function.comp_def, active]

theorem ran_floor (hk : t.kind = .floor) (stuck : Bool) : ran t h stuck = t := by
  cases t
  simp only at hk
  subst hk
  simp [ran]

theorem run_floor (hm : moverOf t = some m) (hk : t.kind = .floor) (active : t.active)
    (fits : RowFits h t) (soft : runs t → t.crush = false) :
    m.run nofit h =
      (if done t h (runs t && nofit) then none else moverOf (ran t h (runs t && nofit)),
        leaves h t (runs t && nofit)) := by
  simp only [moverOf, hk, Option.some.injEq] at hm
  subst hm
  simp only [RowFits, hk] at fits
  obtain ⟨known, alike⟩ := fits
  have hw : which t = .floor := by simp [which, hk]
  have hd : direction t = t.direction := by simp [direction, hk]
  have hr : runs t = decide (t.direction ≠ 0) := by simp [runs, active, hk]
  have hmoved : moved t h (runs t && nofit) = movePlane .floor t.direction h.floor.toInt
      t.speed.toInt t.dest.toInt false (runs t && nofit) := by
    simp [moved, hw, hd, height, dest, hk]
  have hran := ran_floor (h := h) hk (runs t && nofit)
  by_cases hdir : t.direction = -1 ∨ t.direction = 1
  · have hrun : runs t = true := by rw [hr]; rcases hdir with hd | hd <;> simp [hd]
    have hagrees : Engine.movePlane nofit .floor t.direction t.speed t.dest false h.floor = _ :=
      movePlane_agrees .floor alike hdir
    simp only [PlaneThinker.run, active, Bool.not_true, Bool.false_eq_true, ↓reduceIte,
      Engine.moveFloor, soft hrun, hagrees, done, hk, reduceCtorEq, leaves, hrun, put, hw,
      Bool.true_and, decide_eq_true_eq]
    rw [hrun, Bool.true_and] at hmoved hran
    rw [hmoved, hran]
    split <;> simp [moverOf, hk, active, soft hrun]
  · rw [not_or] at hdir
    have hstay : Engine.moveFloor nofit h ⟨t.speed, t.direction, t.dest, t.crush⟩ =
        (some ⟨t.speed, t.direction, t.dest, t.crush⟩, h) := by
      simp [Engine.moveFloor, Engine.movePlane, hdir.1, hdir.2]
    have hstill : runs t = true → (moved t h (runs t && nofit)).height = h.floor.toInt ∧
        (moved t h (runs t && nofit)).result ≠ .pastdest := by
      intro hrun
      have hspeed : t.speed = 0 := by simp_all
      rw [hmoved, hspeed]
      exact movePlane_still .floor h.floor.toInt t.dest.toInt (runs t && nofit) hdir
    have hdone : done t h (runs t && nofit) = false := by
      by_cases hrun : runs t = true
      · simp [done, hk, (hstill hrun).2]
      · simp [done, hk, hrun]
    have hleaves : leaves h t (runs t && nofit) = h := by
      by_cases hrun : runs t = true
      · rw [leaves, if_pos hrun, (hstill hrun).1, put, if_neg (by simp [hw]), Int32.ofInt_toInt]
      · simp [leaves, hrun]
    rw [hran, hdone, hleaves]
    simp [PlaneThinker.run, active, hstay, moverOf, hk]

/-- A row leaves the mover the engine leaves, and the sector the engine leaves. -/
theorem run_row (hm : moverOf t = some m) (fits : t.active → RowFits h t)
    (soft : runs t → t.crush = false) :
    m.run nofit h =
      (if done t h (runs t && nofit) then none else moverOf (ran t h (runs t && nofit)),
        leaves h t (runs t && nofit)) := by
  by_cases active : t.active = true
  · cases hk : t.kind
    · exact run_door hm hk active (fits active)
    · exact run_plat hm hk active (fits active) soft
    · exact run_floor hm hk active (fits active) soft
    all_goals simp [moverOf, hk] at hm
  · exact run_inactive hm (by simpa using active) _

theorem moverOf_ran (known : (moverOf t).isSome) (stuck : Bool) :
    (moverOf (ran t h stuck)).isSome := by
  cases hk : t.kind
  · simp only [moverOf, hk, Option.isSome_map] at known
    simp only [moverOf, ran, hk, Option.isSome_map, true_and]
    split
    · simp only [doorRan, verticalDoor]
      split
      · rfl
      · exact known
    · exact known
  · obtain ⟨m, hm⟩ := Option.isSome_iff_exists.mp known
    simp only [moverOf, hk, Option.bind_eq_some_iff, Option.map_eq_some_iff] at hm
    obtain ⟨type, htype, status, hstatus, -⟩ := hm
    have hleft : (platStatus (ran t h stuck).status).isSome := by
      simp only [ran, platRan, platRaise]
      split_ifs <;> first | rfl | simp [hstatus]
    have htype' : platType (ran t h stuck).type = some type := by
      simpa [ran, hk] using htype
    have hk' : (ran t h stuck).kind = .plat := hk
    simp [moverOf, hk', htype', hleft]
  · rw [ran_floor hk]
    exact known
  all_goals simp [moverOf, hk] at known

/-! ## The rows of a sector -/

/-- Only a row that moves its plane comes off the list. -/
theorem done_idle (idle : runs t = false) (stuck : Bool) : done t h stuck = false := by
  by_cases hk : t.kind = .plat
  · have hs : t.active = true → t.status ≠ 0 := by
      intro active
      simp [runs, active, hk] at idle
      exact idle.1
    by_cases active : t.active = true
    · simp [done, hk, platRan, platRaise, hs active]
    · simp [done, hk, ticks, active]
  · simp [done, hk, idle]

/-- A row that moves nothing and does not come to the end of its wait reads no height. -/
theorem ran_idle (idle : runs t = false) (quiet : waitsOut t = false) (h' : Heights)
    (stuck : Bool) : ran t h' stuck = ran t h stuck := by
  by_cases active : t.active = true
  · cases hk : t.kind
    · have h0 : t.direction = 0 := by simpa [runs, active, hk] using idle
      simp [ran, hk, doorRan, verticalDoor, h0]
    · have hs : t.status ≠ 0 ∧ t.status ≠ 1 := by simpa [runs, active, hk] using idle
      have hc : t.status = 2 → t.count.toInt - 1 ≠ 0 := by
        intro h2 hc
        have : t.count = 1 := Int32.toInt_inj.mp (by simpa using (by omega : t.count.toInt = 1))
        simp [waitsOut, active, hk, h2, this] at quiet
      by_cases h2 : t.status = 2
      · simp [ran, hk, platRan, platRaise, h2, hc h2]
      · simp [ran, hk, platRan, platRaise, h2, hs.1, hs.2]
    all_goals simp [ran, hk]
  · simp [ran, ticks, active]

theorem fits_idle (active : t.active = true) (idle : runs t = false)
    (quiet : waitsOut t = false) : RowFits h t := by
  unfold RowFits
  cases hk : t.kind
  · have h0 : t.direction = 0 := by simpa [runs, active, hk] using idle
    simp [h0, StepAlike]
  · have hs : t.status ≠ 0 ∧ t.status ≠ 1 := by simpa [runs, active, hk] using idle
    have hc : t.status = 2 → t.count ≠ 1 := by simpa [waitsOut, active, hk] using quiet
    exact ⟨fun h0 => absurd h0 hs.1, fun h1 => absurd h1 hs.2,
      fun h2 hout => absurd hout (hc h2)⟩
  · have h0 : t.direction = 0 := by simpa [runs, active, hk] using idle
    simp [h0, StepAlike]
  all_goals trivial

theorem run_idle (hm : moverOf t = some m) (idle : runs t = false) (quiet : waitsOut t = false)
    (h' : Heights) : m.run nofit h' = (moverOf (ran t h false), h') := by
  rw [run_row hm (fun active => fits_idle active idle quiet) (by simp [idle])]
  simp only [idle, Bool.false_and]
  rw [done_idle idle, ran_idle idle quiet h', leaves, idle]
  rfl

end

section
variable {h : Heights} {nofit : Bool} {rows : List SectorThinker}

/-- The row a slot of the sector leaves, and whether it comes off. -/
def left (h : Heights) (nofit : Bool) (rows : List SectorThinker) : List SectorThinker :=
  (rows.filter fun t => !done t h (runs t && nofit)).map fun t => ran t h (runs t && nofit)

/-- The sector the rows leave: the first that runs is the one that moves it. -/
def sectorAfter (h : Heights) (nofit : Bool) (rows : List SectorThinker) : Heights :=
  match rows.find? runs with
  | none => h
  | some t => leaves h t nofit

theorem left_cons (t : SectorThinker) (rest : List SectorThinker) :
    (left h nofit (t :: rest)).filterMap moverOf =
      (if done t h (runs t && nofit) then none else moverOf (ran t h (runs t && nofit))).toList ++
        (left h nofit rest).filterMap moverOf := by
  by_cases hd : done t h (runs t && nofit) = true
  · simp [left, hd]
  · simp only [Bool.not_eq_true] at hd
    cases hm : moverOf (ran t h (runs t && nofit)) <;> simp [left, hd, hm]

theorem runMovers_idle (known : ∀ t ∈ rows, (moverOf t).isSome)
    (idle : ∀ t ∈ rows, runs t = false) (quiet : ∀ t ∈ rows, waitsOut t = false)
    (h' : Heights) :
    Engine.runMovers nofit h' (rows.filterMap moverOf) =
      (h', (left h nofit rows).filterMap moverOf) := by
  induction rows with
  | nil => rfl
  | cons t rest ih =>
    rw [List.forall_mem_cons] at known idle quiet
    obtain ⟨m, hm⟩ := Option.isSome_iff_exists.mp known.1
    have hd := done_idle (h := h) idle.1 false
    rw [List.filterMap_cons_some hm, Engine.runMovers_cons, run_idle (h := h) hm idle.1 quiet.1,
      ih known.2 idle.2 quiet.2, left_cons, idle.1, Bool.false_and, hd]
    rfl

/-- The map over the rows of a sector is the engine's walk, where at most one of them runs. -/
theorem runMovers_rows (nofit : Bool) (known : ∀ t ∈ rows, (moverOf t).isSome)
    (one : (rows.filter runs).length ≤ 1)
    (fits : ∀ t ∈ rows, t.active → RowFits h t)
    (quiet : rows.Pairwise fun t' t => waitsOut t → runs t' = false)
    (soft : ∀ t ∈ rows, runs t → t.crush = false) :
    Engine.runMovers nofit h (rows.filterMap moverOf) =
      (sectorAfter h nofit rows, (left h nofit rows).filterMap moverOf) := by
  induction rows with
  | nil => rfl
  | cons t rest ih =>
    rw [List.forall_mem_cons] at known fits soft
    rw [List.pairwise_cons] at quiet
    obtain ⟨m, hm⟩ := Option.isSome_iff_exists.mp known.1
    rw [List.filterMap_cons_some hm, Engine.runMovers_cons, run_row hm fits.1 soft.1, left_cons]
    by_cases hr : runs t = true
    · -- the rest stands still, and sees the heights this row leaves
      have idle : ∀ t' ∈ rest, runs t' = false := by
        rw [List.filter_cons_of_pos hr, List.length_cons] at one
        have hnone : rest.filter runs = [] := List.eq_nil_of_length_eq_zero (by omega)
        intro t' ht'
        exact Bool.eq_false_iff.mpr (List.filter_eq_nil_iff.mp hnone t' ht')
      have hquiet : ∀ t' ∈ rest, waitsOut t' = false := by
        intro t' ht'
        refine Bool.eq_false_iff.mpr fun hw => ?_
        have := quiet.1 t' ht' hw
        rw [hr] at this
        cases this
      rw [runMovers_idle (h := h) known.2 idle hquiet]
      simp [sectorAfter, List.find?_cons_of_pos, hr]
    · have hidle : runs t = false := Bool.eq_false_iff.mpr hr
      rw [List.filter_cons_of_neg hr] at one
      have hrest := ih known.2 one fits.2 quiet.2 soft.2
      simp only [hidle, leaves, Bool.false_and, Bool.false_eq_true, ↓reduceIte, hrest]
      simp [sectorAfter, hidle]

end

/-! ## The pass, seen from one sector -/

section
variable {clip : Clip} {w : World} {t : SectorThinker} {sec : Nat}

theorem drivesPlane_of_runs (hr : runs t = true) : t.active = true ∧ drivesPlane t.kind = true := by
  simp only [runs, Bool.and_eq_true, Bool.or_eq_true, decide_eq_true_eq] at hr
  obtain ⟨active, (⟨hk, -⟩ | ⟨hk, -⟩) | ⟨hk, -⟩⟩ := hr <;> simp [active, drivesPlane, hk]

theorem running_eq (w : World) : running w = w.thinkers.filter runs := by
  rw [running, act, List.filter_filter]
  refine List.filter_congr fun t _ => ?_
  by_cases hr : runs t = true
  · simp [hr, drivesPlane_of_runs hr]
  · simp [hr]

/-- A slot reads the clip's answer for its own sector. -/
theorem stuck_eq (ht : t ∈ w.thinkers) : stuck clip w t = (runs t && clip.nofit t.sector) := by
  by_cases hr : runs t = true
  · have hmem : t.sector ∈ moving w := by
      rw [moving, running_eq]
      exact List.mem_map_of_mem (List.mem_filter.mpr ⟨ht, hr⟩)
    have hlt := List.idxOf_lt_length_of_mem hmem
    simp [stuck, hr, hlt]
  · simp [stuck, hr]

theorem drives_of_driving (ht : t ∈ w.driving sec) : t ∈ w.thinkers ∧ t.sector = sec := by
  simp only [World.driving, List.mem_filter, Bool.and_eq_true, decide_eq_true_eq] at ht
  exact ⟨ht.1, ht.2.2⟩

/-- No slot is active where the pass is not entered. -/
theorem thinkers_planes (clip : Clip) (w : World) :
    (planes clip w).1.thinkers = (w.thinkers.filter fun t => !doneOf clip w t).map
      (ranOf clip w) := by
  unfold planes
  split
  · next hact =>
    have hidle : ∀ t ∈ w.thinkers, doneOf clip w t = false ∧ ranOf clip w t = t := by
      intro t ht
      have hno := List.filter_eq_nil_iff.mp hact t ht
      have hr : runs t = false := Bool.eq_false_iff.mpr fun hr => hno (by
        simpa using drivesPlane_of_runs hr)
      refine ⟨done_idle hr _, ?_⟩
      by_cases active : t.active = true
      · have hk : drivesPlane t.kind = false := by simpa [active] using hno
        simp only [drivesPlane, Bool.or_eq_false_iff, decide_eq_false_iff_not] at hk
        simp [ranOf, ran, hk]
      · exact ran_of_not_ticks (by simp [ticks, runs, active]) _
    rw [List.filter_eq_self.mpr (by simpa using fun t ht => (hidle t ht).1)]
    exact ((List.map_congr_left fun t ht => (hidle t ht).2).trans (List.map_id' _)).symm
  · rfl

theorem driving_planes (clip : Clip) (w : World) (sec : Nat) :
    (planes clip w).1.driving sec = left (w.heights sec) (clip.nofit sec) (w.driving sec) := by
  have hof : ∀ t ∈ w.driving sec,
      doneOf clip w t = done t (w.heights sec) (runs t && clip.nofit sec) ∧
      ranOf clip w t = ran t (w.heights sec) (runs t && clip.nofit sec) := by
    intro t ht
    obtain ⟨hmem, hsec⟩ := drives_of_driving ht
    constructor <;> simp [doneOf, ranOf, stuck_eq hmem, hsec]
  calc (planes clip w).1.driving sec
      = ((w.thinkers.filter fun t => !doneOf clip w t).map (ranOf clip w)).filter
          fun t => drivesPlane t.kind && t.sector = sec := by rw [World.driving, thinkers_planes]
    _ = ((w.thinkers.filter fun t => !doneOf clip w t).filter
          fun t => drivesPlane t.kind && t.sector = sec).map (ranOf clip w) := by
        rw [List.filter_map]
        rfl
    _ = ((w.driving sec).filter fun t => !doneOf clip w t).map (ranOf clip w) := by
        rw [World.driving, List.filter_comm]
    _ = ((w.driving sec).filter fun t =>
          !done t (w.heights sec) (runs t && clip.nofit sec)).map (ranOf clip w) := by
        rw [List.filter_congr fun t ht => by rw [(hof t ht).1]]
    _ = left (w.heights sec) (clip.nofit sec) (w.driving sec) :=
        List.map_congr_left fun t ht => (hof t (List.mem_filter.mp ht).1).2

theorem driving_runs (w : World) (sec : Nat) :
    (w.driving sec).filter runs = (running w).filter fun t => t.sector = sec := by
  rw [running_eq, World.driving, List.filter_filter, List.filter_filter]
  refine List.filter_congr fun t _ => ?_
  by_cases hr : runs t = true
  · simp [hr, drivesPlane_of_runs hr]
  · simp [hr]

/-- At most one row of a sector runs where no two running rows share one. -/
theorem one_runs (nodup : (moving w).Nodup) (sec : Nat) :
    ((w.driving sec).filter runs).length ≤ 1 := by
  rw [driving_runs]
  have hsub : (((running w).filter fun t => t.sector = sec).map (·.sector)).Nodup :=
    nodup.sublist (List.Sublist.map _ List.filter_sublist)
  have hsame : ∀ s ∈ ((running w).filter fun t => t.sector = sec).map (·.sector), s = sec := by
    intro s hs
    obtain ⟨t, ht, rfl⟩ := List.mem_map.mp hs
    simpa using (List.mem_filter.mp ht).2
  rw [← List.length_map (f := (·.sector)), List.eq_replicate_of_mem hsame,
    List.length_replicate]
  rw [List.eq_replicate_of_mem hsame] at hsub
  exact List.nodup_replicate.mp hsub

/-- The height a sector is left at by the slots that run. -/
theorem foldl_set (rows : List SectorThinker) (plane : Which) (value : SectorThinker → Int32)
    (nodup : (rows.map (·.sector)).Nodup) (heights : List Int32) (hsec : sec < heights.length) :
    (rows.foldl (fun acc t => if which t = plane then acc.set t.sector (value t) else acc)
      heights).getD sec 0 =
      match rows.find? fun t => t.sector = sec with
      | none => heights.getD sec 0
      | some t => if which t = plane then value t else heights.getD sec 0 := by
  induction rows generalizing heights with
  | nil => rfl
  | cons t rest ih =>
    rw [List.map_cons, List.nodup_cons] at nodup
    have hlen : sec < (if which t = plane then heights.set t.sector (value t)
        else heights).length := by split <;> simpa using hsec
    rw [List.foldl_cons, ih nodup.2 _ hlen]
    by_cases hs : t.sector = sec
    · have hnone : rest.find? (fun t => t.sector = sec) = none := by
        rw [List.find?_eq_none]
        intro t' ht' heq
        exact nodup.1 (List.mem_map.mpr ⟨t', ht', by simp_all⟩)
      rw [hnone, List.find?_cons_of_pos (by simpa using hs)]
      by_cases hp : which t = plane <;> simp [hp, hs, hsec]
    · rw [List.find?_cons_of_neg (by simpa using hs)]
      have hget : (if which t = plane then heights.set t.sector (value t) else heights).getD sec 0 =
          heights.getD sec 0 := by
        split <;> simp [hs]
      rw [hget]

theorem find_running (w : World) (sec : Nat) :
    ((running w).find? fun t => t.sector = sec) = (w.driving sec).find? runs := by
  rw [running_eq, World.driving, List.find?_filter, List.find?_filter]
  congr 1
  funext t
  by_cases hr : runs t = true
  · simp [hr, drivesPlane_of_runs hr]
  · simp [hr]

theorem lists_planes (clip : Clip) (w : World) :
    (planes clip w).1.floors = scatter clip w .floor w.floors ∧
      (planes clip w).1.ceilings = scatter clip w .ceiling w.ceilings := by
  unfold planes
  split
  · next hact => simp [scatter, running, hact]
  · exact ⟨rfl, rfl⟩

/-- The planes of a sector after the pass. -/
theorem heights_planes (nodup : (moving w).Nodup) (hf : sec < w.floors.length)
    (hc : sec < w.ceilings.length) :
    (planes clip w).1.heights sec =
      sectorAfter (w.heights sec) (clip.nofit sec) (w.driving sec) := by
  rw [World.heights, (lists_planes clip w).1, (lists_planes clip w).2, scatter, scatter,
    foldl_set _ _ _ nodup _ hf, foldl_set _ _ _ nodup _ hc, find_running, sectorAfter]
  cases hfind : (w.driving sec).find? runs with
  | none => rfl
  | some t =>
    have hr : runs t = true := by simpa using List.find?_some hfind
    obtain ⟨hmem, hsec⟩ := drives_of_driving (List.mem_of_find?_eq_some hfind)
    have hmoved : movedOf clip w t = moved t (w.heights sec) (clip.nofit sec) := by
      simp [movedOf, stuck_eq hmem, hr, hsec]
    simp only [leaves, hr, ↓reduceIte, put, hmoved]
    cases which t <;> rfl

theorem length_scatter (clip : Clip) (w : World) (plane : Which) (heights : List Int32) :
    (scatter clip w plane heights).length = heights.length := by
  unfold scatter
  induction running w generalizing heights with
  | nil => rfl
  | cons t rest ih =>
    rw [List.foldl_cons, ih]
    split <;> simp

/-- A tic that is resolved has one running row a sector, and none of them crushes. -/
theorem resolved_planes (resolved : (planes clip w).2 = []) :
    (moving w).Nodup ∧ ∀ t ∈ w.thinkers, runs t → t.crush = false := by
  unfold planes at resolved
  split at resolved
  · next hact =>
    have hnone : running w = [] := by rw [running, hact]; rfl
    refine ⟨by simp [moving, hnone], fun t ht hr => ?_⟩
    rw [running_eq, List.filter_eq_nil_iff] at hnone
    exact absurd hr (hnone t ht)
  · simp only [unresolved, List.append_eq_nil_iff, ite_eq_right_iff, List.cons_ne_nil,
      imp_false, not_not, List.any_eq_true, Bool.and_eq_true, not_exists, not_and] at resolved
    exact ⟨resolved.1.1.1.1.1, fun t ht hr => by simpa using resolved.2 t ht hr⟩

end

/-! ## Whole runs -/

/-- The rows that drive one plane of a sector. -/
def World.drivingOf (w : World) (plane : Which) (sector : Nat) : List SectorThinker :=
  (w.driving sector).filter fun t => which t = plane

/-- The rows of a plane do in this tic what their movers do; a plat at the end of its wait looks
at the floor after the rows above it. -/
def TicFits (plane : Which) (w : World) (sec : Nat) : Prop :=
  (∀ t ∈ w.drivingOf plane sec, t.active → RowFits (w.heights sec) t) ∧
    (w.drivingOf plane sec).Pairwise fun t' t => waitsOut t → runs t' = false

/-- Every tic of the run is one that fits the plane's rows. -/
def Fits (plane : Which) (sec : Nat) : List Clip → World → Prop
  | [], _ => True
  | clip :: rest, w => TicFits plane w sec ∧ Fits plane sec rest (planes clip w).1

/-- A door of the sector comes down in this tic. -/
def closes (w : World) (sec : Nat) : Bool :=
  (w.driving sec).any fun t => t.active && t.kind = .door && t.direction = -1

/-- A door of the sector comes down in some tic of the run. -/
def closing (sec : Nat) : List Clip → World → Bool
  | [], _ => false
  | clip :: rest, w => closes w sec || closing sec rest (planes clip w).1

/-- Every tic of the run fits the doors.  A door that comes down reads the floor, so the tics
before it fit the floor's rows too. -/
def DoorsFit (sec : Nat) : List Clip → World → Prop
  | [], _ => True
  | clip :: rest, w => TicFits .ceiling w sec ∧
      (closing sec rest (planes clip w).1 → TicFits .floor w sec) ∧
      DoorsFit sec rest (planes clip w).1

/-- The rows that drive a sector are movers of the engine. -/
def Known (w : World) (sec : Nat) : Prop := ∀ t ∈ w.driving sec, (moverOf t).isSome

theorem known_planes {clip : Clip} {w : World} {sec : Nat} (known : Known w sec) :
    Known (planes clip w).1 sec := by
  intro t ht
  rw [driving_planes, left] at ht
  obtain ⟨t', ht', rfl⟩ := List.mem_map.mp ht
  exact moverOf_ran (known t' (List.mem_filter.mp ht').1) _

section
variable {w : World} {sec : Nat} {clip : Clip} {plane : Which} {t : SectorThinker}
  {m : PlaneThinker} {state : Heights × List PlaneThinker}

theorem drives_moverOf (hm : moverOf t = some m) : m.drives plane = decide (which t = plane) := by
  unfold moverOf at hm
  cases hk : t.kind <;> simp only [hk, reduceCtorEq] at hm
  · obtain ⟨_, -, rfl⟩ := Option.map_eq_some_iff.mp hm
    cases plane <;> simp [PlaneThinker.drives, which, hk]
  · obtain ⟨_, -, hm⟩ := Option.bind_eq_some_iff.mp hm
    obtain ⟨_, -, rfl⟩ := Option.map_eq_some_iff.mp hm
    cases plane <;> simp [PlaneThinker.drives, which, hk]
  · cases hm
    cases plane <;> simp [PlaneThinker.drives, which, hk]

theorem movers_of_plane (rows : List SectorThinker) (plane : Which) :
    (rows.filterMap moverOf).filter (·.drives plane) =
      (rows.filter fun t => which t = plane).filterMap moverOf := by
  induction rows with
  | nil => rfl
  | cons t rest ih =>
    cases hm : moverOf t with
    | none =>
      rw [List.filterMap_cons_none hm, ih, List.filter_cons]
      split
      · rw [List.filterMap_cons_none hm]
      · rfl
    | some m =>
      rw [List.filterMap_cons_some hm, List.filter_cons, List.filter_cons,
        drives_moverOf hm, ih]
      split
      · rw [List.filterMap_cons_some hm]
      · rfl

/-- A row that stands still leaves the sector alone. -/
theorem heights_of_idle (hm : moverOf t = some m) (idle : runs t = false) (nofit : Bool)
    (h : Heights) : (m.run nofit h).2 = h := by
  unfold moverOf at hm
  cases hk : t.kind <;> simp only [hk, reduceCtorEq] at hm
  · obtain ⟨_, -, rfl⟩ := Option.map_eq_some_iff.mp hm
    by_cases active : t.active = true
    · have h0 : t.direction = 0 := by simpa [runs, active, hk] using idle
      simp only [PlaneThinker.run, active, Engine.verticalDoor, h0, ↓reduceIte]
      repeat' split
      all_goals rfl
    · simp [PlaneThinker.run, active]
  · obtain ⟨_, -, hm⟩ := Option.bind_eq_some_iff.mp hm
    obtain ⟨_, hstatus, rfl⟩ := Option.map_eq_some_iff.mp hm
    by_cases active : t.active = true
    · have hs : t.status ≠ 0 ∧ t.status ≠ 1 := by simpa [runs, active, hk] using idle
      -- waiting, it changes its status and never the floor
      rcases platStatus_cases hstatus with ⟨h0, -⟩ | ⟨h1, -⟩ | ⟨-, rfl⟩ | ⟨-, rfl⟩
      · exact absurd h0 hs.1
      · exact absurd h1 hs.2
      · simp only [PlaneThinker.run, active, Engine.platRaise]
        repeat' split
        all_goals rfl
      · simp [PlaneThinker.run, active, Engine.platRaise]
    · simp [PlaneThinker.run, active]
  · cases hm
    by_cases active : t.active = true
    · have h0 : t.direction = 0 := by simpa [runs, active, hk] using idle
      simp [PlaneThinker.run, Engine.moveFloor, Engine.movePlane, h0]
    · simp [PlaneThinker.run, active]

/-- The pass leaves the rows of a plane as it would leave them alone. -/
theorem drivingOf_planes (clip : Clip) (w : World) (plane : Which) (sec : Nat) :
    (planes clip w).1.drivingOf plane sec =
      left (w.heights sec) (clip.nofit sec) (w.drivingOf plane sec) := by
  rw [World.drivingOf, driving_planes, left, left, World.drivingOf, List.filter_map,
    List.filter_comm]
  rfl

theorem height_put (h : Heights) (t : SectorThinker) (value : Int32) :
    (put h t value).height plane = if which t = plane then value else h.height plane := by
  unfold put
  cases hw : which t <;> cases plane <;> simp [Heights.height]

/-- The height of a plane is the one its own rows leave. -/
theorem height_sectorAfter {h : Heights} {nofit : Bool} {rows : List SectorThinker}
    (one : (rows.filter runs).length ≤ 1) :
    (sectorAfter h nofit rows).height plane =
      (sectorAfter h nofit (rows.filter fun t => which t = plane)).height plane := by
  -- at most one row runs, so the plane's rows have that one or none that runs
  have hfind : (rows.filter fun t => which t = plane).find? runs =
      (rows.find? runs).filter fun t => which t = plane := by
    rw [← List.head?_filter, ← List.head?_filter, List.filter_comm]
    cases hrun : rows.filter runs with
    | nil => rfl
    | cons t rest =>
      have hrest : rest = [] := by
        rw [hrun, List.length_cons] at one
        exact List.eq_nil_of_length_eq_zero (by omega)
      subst hrest
      by_cases hw : which t = plane <;> simp [Option.filter, hw]
  rw [sectorAfter, sectorAfter, hfind]
  cases hrow : rows.find? runs with
  | none => rfl
  | some t =>
    by_cases hw : which t = plane
    · simp [Option.filter, hw]
    · simp only [Option.filter, hw, decide_false, Bool.false_eq_true, ↓reduceIte, leaves]
      split
      · rw [height_put, if_neg hw]
      · rfl

/-- A plane of the sector stands where the engine has it, and its rows are the engine's. -/
def Agree (plane : Which) (w : World) (sec : Nat) (state : Heights × List PlaneThinker) : Prop :=
  (w.heights sec).height plane = state.1.height plane ∧
    (w.drivingOf plane sec).filterMap moverOf = state.2.filter (·.drives plane)

theorem Agree.of_filter {whole : Heights × List PlaneThinker} (agree : Agree plane w sec state)
    (height : whole.1.height plane = state.1.height plane)
    (movers : whole.2.filter (·.drives plane) = state.2) : Agree plane w sec whole := by
  refine ⟨agree.1.trans height.symm, agree.2.trans ?_⟩
  rw [← movers, List.filter_filter]
  simp

/-- One tic of the rows of a plane, run for themselves. -/
theorem planes_plane (known : Known w sec) (hf : sec < w.floors.length)
    (hc : sec < w.ceilings.length) (resolved : (planes clip w).2 = [])
    (fits : TicFits plane w sec) :
    Agree plane (planes clip w).1 sec (Engine.runMovers (clip.nofit sec) (w.heights sec)
      ((w.drivingOf plane sec).filterMap moverOf)) := by
  obtain ⟨nodup, soft⟩ := resolved_planes resolved
  have one := one_runs nodup sec
  have hsub : ∀ t ∈ w.drivingOf plane sec, t ∈ w.driving sec := fun t ht =>
    (List.mem_filter.mp ht).1
  have hone : ((w.drivingOf plane sec).filter runs).length ≤ 1 :=
    (List.Sublist.length_le (List.filter_sublist.filter runs)).trans one
  have hrows := runMovers_rows (clip.nofit sec) (fun t ht => known t (hsub t ht)) hone
    fits.1 fits.2 fun t ht => soft t (drives_of_driving (hsub t ht)).1
  rw [hrows]
  refine ⟨?_, ?_⟩
  · rw [heights_planes nodup hf hc, height_sectorAfter one]
    rfl
  · rw [drivingOf_planes]
    refine (List.filter_eq_self.mpr fun m hm => ?_).symm
    obtain ⟨t, ht, hm⟩ := List.mem_filterMap.mp hm
    obtain ⟨t', ht', rfl⟩ := List.mem_map.mp ht
    rw [drives_moverOf hm]
    exact (List.mem_filter.mp (List.mem_filter.mp ht').1).2

/-- The floor's rows need nothing of the doors. -/
theorem agree_floor (known : Known w sec) (hf : sec < w.floors.length)
    (hc : sec < w.ceilings.length) (resolved : (planes clip w).2 = [])
    (fits : TicFits .floor w sec) (agree : Agree .floor w sec state) :
    Agree .floor (planes clip w).1 sec
      (Engine.runMovers (clip.nofit sec) state.1 state.2) := by
  have halone := planes_plane known hf hc resolved fits
  obtain ⟨hheight, hlist⟩ := Engine.runMovers_filter (clip.nofit sec) .floor state.2
    (fun h h' => h.floor = h'.floor)
    (fun m _ drives h h' same => PlaneThinker.run_floor drives same)
    (fun m _ other h h' same => (PlaneThinker.height_run other).trans same) agree.1.symm
  rw [agree.2] at halone
  exact halone.of_filter hheight hlist

theorem mem_of_agree (agree : Agree plane w sec state) {m : PlaneThinker} (hm : m ∈ state.2)
    (drives : m.drives plane) : ∃ t ∈ w.drivingOf plane sec, moverOf t = some m :=
  List.mem_filterMap.mp (agree.2 ▸ List.mem_filter.mpr ⟨hm, drives⟩)

theorem drives_floor_of_not_ceiling (m : PlaneThinker) :
    m.drives .ceiling = false ↔ m.drives .floor := by
  obtain ⟨active, mover⟩ := m
  cases mover <;> simp [PlaneThinker.drives]

theorem closes_of_row (ht : t ∈ w.driving sec) (hm : moverOf t = some m) (closing : m.closes) :
    closes w sec := by
  refine List.any_eq_true.mpr ⟨t, ht, ?_⟩
  unfold moverOf at hm
  cases hk : t.kind <;> simp only [hk, reduceCtorEq] at hm
  · obtain ⟨_, -, rfl⟩ := Option.map_eq_some_iff.mp hm
    simpa [PlaneThinker.closes, hk] using closing
  · obtain ⟨_, -, hm⟩ := Option.bind_eq_some_iff.mp hm
    obtain ⟨_, -, rfl⟩ := Option.map_eq_some_iff.mp hm
    simp [PlaneThinker.closes] at closing
  · cases hm
    simp [PlaneThinker.closes] at closing

/-- Where a door comes down, no other row of a resolved tic moves its plane. -/
theorem idle_of_closes (one : ((w.driving sec).filter runs).length ≤ 1) (down : closes w sec)
    (ht : t ∈ w.drivingOf .floor sec) : runs t = false := by
  obtain ⟨d, hd, hdown⟩ := List.any_eq_true.mp down
  simp only [Bool.and_eq_true, decide_eq_true_eq] at hdown
  obtain ⟨⟨active, hk⟩, hdir⟩ := hdown
  have hrun : runs d = true := by simp [runs, active, hk, hdir]
  refine Bool.eq_false_iff.mpr fun hr => ?_
  obtain ⟨hmem, hw⟩ := List.mem_filter.mp ht
  obtain ⟨a, ha⟩ : ∃ a, (w.driving sec).filter runs = [a] := by
    refine List.length_eq_one_iff.mp (le_antisymm one ?_)
    exact List.length_pos_of_mem (List.mem_filter.mpr ⟨hd, hrun⟩)
  have hta : t = a := by simpa [ha] using List.mem_filter.mpr ⟨hmem, hr⟩
  have hda : d = a := by simpa [ha] using List.mem_filter.mpr ⟨hd, hrun⟩
  have hfloor : which d = .floor := by simpa [hda, hta] using hw
  simp [which, hk] at hfloor

/-- The doors need the floor only where one of them comes down. -/
theorem agree_ceiling (known : Known w sec) (hf : sec < w.floors.length)
    (hc : sec < w.ceilings.length) (resolved : (planes clip w).2 = [])
    (fits : TicFits .ceiling w sec) (agree : Agree .ceiling w sec state)
    (below : closes w sec → Agree .floor w sec state) :
    Agree .ceiling (planes clip w).1 sec
      (Engine.runMovers (clip.nofit sec) state.1 state.2) := by
  have halone := planes_plane known hf hc resolved fits
  have one := one_runs (resolved_planes resolved).1 sec
  have hwalk : (Engine.runMovers (clip.nofit sec) state.1 state.2).1.ceiling =
        (Engine.runMovers (clip.nofit sec) (w.heights sec)
          (state.2.filter (·.drives .ceiling))).1.ceiling ∧
      (Engine.runMovers (clip.nofit sec) state.1 state.2).2.filter (·.drives .ceiling) =
        (Engine.runMovers (clip.nofit sec) (w.heights sec)
          (state.2.filter (·.drives .ceiling))).2 := by
    by_cases down : closes w sec = true
    · -- both heights are read, and the floor's movers stand still
      have hsame : state.1 = w.heights sec := by
        have hfloor := (below down).1
        have hceiling := agree.1
        simp only [Heights.height] at hfloor hceiling
        cases hs : state.1
        cases hw : w.heights sec
        simp_all
      obtain ⟨hheights, hlist⟩ := Engine.runMovers_filter (clip.nofit sec) .ceiling state.2
        (· = ·)
        (fun m _ _ h h' same => by rw [same]; exact ⟨rfl, rfl⟩)
        (fun m hm other h h' same => by
          obtain ⟨t, ht, hmover⟩ := mem_of_agree (below down) hm
            ((drives_floor_of_not_ceiling m).mp other)
          rw [heights_of_idle hmover (idle_of_closes one down ht), same])
        hsame
      exact ⟨by rw [hheights], hlist⟩
    · -- no door reads the floor
      exact Engine.runMovers_filter (clip.nofit sec) .ceiling state.2
        (fun h h' => h.ceiling = h'.ceiling)
        (fun m hm drives h h' same => by
          obtain ⟨t, ht, hmover⟩ := mem_of_agree agree hm drives
          refine PlaneThinker.run_ceiling drives (Bool.eq_false_iff.mpr fun hclose => ?_) same
          exact down (closes_of_row (List.mem_filter.mp ht).1 hmover hclose))
        (fun m _ other h h' same => (PlaneThinker.height_run other).trans same) agree.1.symm
  rw [agree.2] at halone
  exact halone.of_filter hwalk.1 hwalk.2

theorem sectors_planes (clip : Clip) (hf : sec < w.floors.length) (hc : sec < w.ceilings.length) :
    sec < (planes clip w).1.floors.length ∧ sec < (planes clip w).1.ceilings.length := by
  rw [(lists_planes clip w).1, (lists_planes clip w).2, length_scatter, length_scatter]
  exact ⟨hf, hc⟩

/-- A run keeps the floor and its rows the engine's. -/
theorem floor_of_run (clips : List Clip) (known : Known w sec) (hf : sec < w.floors.length)
    (hc : sec < w.ceilings.length) (resolved : Resolved clips w) (fits : Fits .floor sec clips w)
    (agree : Agree .floor w sec state) :
    Agree .floor (run clips w) sec
      (Engine.runSector (clips.map fun clip => clip.nofit sec) state) := by
  induction clips generalizing w state with
  | nil => exact agree
  | cons clip rest ih =>
    obtain ⟨hf', hc'⟩ := sectors_planes clip hf hc
    exact ih (known_planes known) hf' hc' resolved.2 fits.2
      (agree_floor known hf hc resolved.1 fits.1 agree)

/-- A run keeps the ceiling and the doors the engine's, given a floor that is the engine's as
long as a door is still to come down. -/
theorem ceiling_of_run (clips : List Clip) (known : Known w sec) (hf : sec < w.floors.length)
    (hc : sec < w.ceilings.length) (resolved : Resolved clips w) (fits : DoorsFit sec clips w)
    (agree : Agree .ceiling w sec state) (below : closing sec clips w → Agree .floor w sec state) :
    Agree .ceiling (run clips w) sec
      (Engine.runSector (clips.map fun clip => clip.nofit sec) state) := by
  induction clips generalizing w state with
  | nil => exact agree
  | cons clip rest ih =>
    obtain ⟨hf', hc'⟩ := sectors_planes clip hf hc
    obtain ⟨hdoors, hfloor, hrest⟩ := fits
    refine ih (known_planes known) hf' hc' resolved.2 hrest ?_ ?_
    · refine agree_ceiling known hf hc resolved.1 hdoors agree fun down => below ?_
      simp [closing, down]
    · -- a door is still to come down, so the floor's rows fit this tic too
      intro later
      refine agree_floor known hf hc resolved.1 (hfloor later) (below ?_)
      simp [closing, later]

theorem agree_start (w : World) (sec : Nat) (plane : Which) :
    Agree plane w sec (w.heights sec, (w.driving sec).filterMap moverOf) :=
  ⟨rfl, (movers_of_plane _ _).symm⟩

end

instance (direction : Int) (height speed dest : Int32) :
    Decidable (StepAlike direction height speed dest) :=
  inferInstanceAs (Decidable (_ ∧ _))

instance (h : Heights) (t : SectorThinker) : Decidable (RowFits h t) := by
  unfold RowFits
  cases t.kind <;> infer_instance

instance (plane : Which) (w : World) (sec : Nat) : Decidable (TicFits plane w sec) :=
  inferInstanceAs (Decidable (_ ∧ _))

instance (w : World) (sec : Nat) : Decidable (Known w sec) :=
  inferInstanceAs (Decidable (∀ t ∈ w.driving sec, _))

instance Fits.decide (plane : Which) (sec : Nat) : (clips : List Clip) → (w : World) →
    Decidable (Fits plane sec clips w)
  | [], _ => .isTrue trivial
  | clip :: rest, w =>
    have := Fits.decide plane sec rest (planes clip w).1
    inferInstanceAs (Decidable (TicFits plane w sec ∧ Fits plane sec rest (planes clip w).1))

instance DoorsFit.decide (sec : Nat) : (clips : List Clip) → (w : World) →
    Decidable (DoorsFit sec clips w)
  | [], _ => .isTrue trivial
  | clip :: rest, w =>
    have := DoorsFit.decide sec rest (planes clip w).1
    inferInstanceAs (Decidable (TicFits .ceiling w sec ∧
      (closing sec rest (planes clip w).1 → TicFits .floor w sec) ∧
      DoorsFit sec rest (planes clip w).1))

instance Resolved.decide : (clips : List Clip) → (w : World) → Decidable (Resolved clips w)
  | [], _ => .isTrue trivial
  | clip :: rest, w =>
    have := Resolved.decide rest (planes clip w).1
    inferInstanceAs (Decidable ((planes clip w).2 = [] ∧ Resolved rest (planes clip w).1))

/-! ## Doors -/

/-- The doors on a list of movers. -/
def doors (movers : List PlaneThinker) : List VlDoor :=
  movers.filterMap fun thinker =>
    match thinker.mover with
    | .door door => some door
    | _ => none

theorem doors_of_ceiling (movers : List PlaneThinker) :
    doors (movers.filter (·.drives .ceiling)) = doors movers := by
  rw [doors, doors, List.filterMap_filter]
  refine List.filterMap_congr fun m _ => ?_
  obtain ⟨active, mover⟩ := m
  cases mover <;> simp [PlaneThinker.drives]

/-- After a run of the pass whose tics fit the doors, the doors of a sector and its ceiling are
the ones `T_VerticalDoor` and `T_MovePlane` leave. -/
theorem doors_eq_engine (clips : List Clip) (w : World) (sec : Nat) (known : Known w sec)
    (hf : sec < w.floors.length) (hc : sec < w.ceilings.length) (resolved : Resolved clips w)
    (fits : DoorsFit sec clips w) :
    let left := Engine.runSector (clips.map fun clip => clip.nofit sec)
      (w.heights sec, (w.driving sec).filterMap moverOf)
    ((run clips w).heights sec).ceiling = left.1.ceiling ∧
      doors (((run clips w).driving sec).filterMap moverOf) = doors left.2 := by
  intro left
  have hrun : Agree .ceiling (run clips w) sec left := ceiling_of_run clips known hf hc resolved fits
    (agree_start w sec .ceiling) fun _ => agree_start w sec .floor
  refine ⟨hrun.1, ?_⟩
  rw [← doors_of_ceiling left.2, ← hrun.2, World.drivingOf, ← movers_of_plane, doors_of_ceiling]

/-- A clip that finds room everywhere. -/
def roomy : Clip := ⟨fun _ => false, false⟩

/-- A sector of 128 units with one thinker. -/
def single (t : SectorThinker) : World := ⟨[t], [0], [128 * 65536], [1]⟩

/-- A blazing door two steps below its top: it comes to the top and waits there. -/
def opensWide : World :=
  single { SectorThinker.blank with
    type := 5, direction := 1, speed := 8 * 65536, dest := 140 * 65536, wait := 150 }

theorem doors_opensWide :
    Known opensWide 0 ∧ Resolved [roomy, roomy, roomy] opensWide ∧
      DoorsFit 0 [roomy, roomy, roomy] opensWide ∧
      ((run [roomy, roomy, roomy] opensWide).heights 0).ceiling = 140 * 65536 := by
  have known : Known opensWide 0 := by decide
  have resolved : Resolved [roomy, roomy, roomy] opensWide := by decide
  have fits : DoorsFit 0 [roomy, roomy, roomy] opensWide := by decide +kernel
  refine ⟨known, resolved, fits, ?_⟩
  rw [(doors_eq_engine [roomy, roomy, roomy] opensWide 0 known (by decide) (by decide) resolved
    fits).1]
  decide

/-- The door `P_SpawnDoorRaiseIn5Mins` makes. -/
def fiveMinutes : World :=
  single { SectorThinker.blank with
    type := 4, direction := 2, speed := 2 * 65536, dest := 124 * 65536, count := 5 * 60 * 35,
    wait := 150 }

/-- A door that waits for its five minutes comes down by its speed in the first of them. -/
theorem fiveMinutes_moves :
    Known fiveMinutes 0 ∧ Resolved [roomy] fiveMinutes ∧
      ((run [roomy] fiveMinutes).heights 0).ceiling = 126 * 65536 ∧
      (Engine.runSector [false] (fiveMinutes.heights 0,
        (fiveMinutes.driving 0).filterMap moverOf)).1.ceiling = 128 * 65536 := by
  decide

/-! ## Plats -/

/-- The plats on a list of movers. -/
def plats (movers : List PlaneThinker) : List Plat :=
  movers.filterMap fun thinker =>
    match thinker.mover with
    | .plat plat => some plat
    | _ => none

theorem plats_of_floor (movers : List PlaneThinker) :
    plats (movers.filter (·.drives .floor)) = plats movers := by
  rw [plats, plats, List.filterMap_filter]
  refine List.filterMap_congr fun m _ => ?_
  obtain ⟨active, mover⟩ := m
  cases mover <;> simp [PlaneThinker.drives]

/-- After a run of the pass whose tics fit the floor's rows, the plats of a sector and its floor
are the ones `T_PlatRaise` and `T_MovePlane` leave. -/
theorem plats_eq_engine (clips : List Clip) (w : World) (sec : Nat) (known : Known w sec)
    (hf : sec < w.floors.length) (hc : sec < w.ceilings.length) (resolved : Resolved clips w)
    (fits : Fits .floor sec clips w) :
    let left := Engine.runSector (clips.map fun clip => clip.nofit sec)
      (w.heights sec, (w.driving sec).filterMap moverOf)
    ((run clips w).heights sec).floor = left.1.floor ∧
      plats (((run clips w).driving sec).filterMap moverOf) = plats left.2 := by
  intro left
  have hrun : Agree .floor (run clips w) sec left := floor_of_run clips known hf hc resolved fits
    (agree_start w sec .floor)
  refine ⟨hrun.1, ?_⟩
  rw [← plats_of_floor left.2, ← hrun.2, World.drivingOf, ← movers_of_plane, plats_of_floor]

/-- A lift at its low whose wait runs out: it goes up and comes off the list at its high. -/
def liftReturns : World :=
  single { SectorThinker.blank with
    kind := .plat, type := 1, status := 2, speed := 4 * 65536, dest := 0, dest2 := 6 * 65536,
    wait := 105, count := 1 }

theorem plats_liftReturns :
    Known liftReturns 0 ∧ Resolved [roomy, roomy, roomy] liftReturns ∧
      Fits .floor 0 [roomy, roomy, roomy] liftReturns ∧
      ((run [roomy, roomy, roomy] liftReturns).heights 0).floor = 6 * 65536 ∧
      plats (((run [roomy, roomy, roomy] liftReturns).driving 0).filterMap moverOf) = [] := by
  have known : Known liftReturns 0 := by decide
  have resolved : Resolved [roomy, roomy, roomy] liftReturns := by decide
  have fits : Fits .floor 0 [roomy, roomy, roomy] liftReturns := by decide
  have hlife := plats_eq_engine [roomy, roomy, roomy] liftReturns 0 known (by decide) (by decide)
    resolved fits
  refine ⟨known, resolved, fits, ?_, ?_⟩
  · rw [hlife.1]
    decide
  · rw [hlife.2]
    decide

/-- A perpetual plat that travels one unit, at its high when its wait runs out. -/
def shortTravel : World :=
  ⟨[{ SectorThinker.blank with
      kind := .plat, type := 0, status := 2, speed := 65536, dest := 0, dest2 := 65536,
      wait := 105, count := 1 }], [65536], [128 * 65536], [1]⟩

/-- The pass sends it up, where the engine sends it down. -/
theorem shortTravel_turns :
    Known shortTravel 0 ∧ Resolved [roomy] shortTravel ∧
      (plats (((run [roomy] shortTravel).driving 0).filterMap moverOf)).map (·.status) = [.up] ∧
      (plats (Engine.runSector [false] (shortTravel.heights 0,
        (shortTravel.driving 0).filterMap moverOf)).2).map (·.status) = [.down] := by
  decide

end ClickDoom.Native.Planes

import ClickDoom.Native.ThinkerList

/-! # One plane thinker a sector

A sector's `specialdata` names its thinker, and here every thinker that drives a plane is the one its
sector names: the two name each other one to one.  Only a press that makes a door where a thinker is
at work gives a sector two.  Without such a press no two thinkers move planes of one sector, and
`PLANE_SHARED` stays clear.
-/
namespace ClickDoom.Native.ThinkerList
open ClickHouse
open Planes (drivesPlane)

/-- Every thinker that drives a plane stands at the slot its sector names. -/
def Owned (thinkers : List SectorThinker) (specialdata : List Nat) : Prop :=
  ∀ (i : Nat) (t : SectorThinker), thinkers[i]? = some t → drivesPlane t.kind = true →
    specialdata[t.sector]? = some (i + 1)

section
variable {thinkers thinkers' rows : List SectorThinker} {specialdata : List Nat}

theorem Owned.congr (owned : Owned thinkers specialdata) (same : thinkers'.map key = thinkers.map key) :
    Owned thinkers' specialdata := by
  intro i t there drives
  obtain ⟨u, there', -, kind, sector⟩ := exists_of_keys same.symm there
  rw [← sector]
  exact owned i u there' (by rw [kind, drives])

/-- Thinkers appended for sectors that held none. -/
theorem Owned.append (owned : Owned thinkers specialdata) {after : List Nat}
    (busy : ∀ sector slot : Nat, specialdata[sector]? = some (slot + 1) →
      after[sector]? = some (slot + 1))
    (new : ∀ i t, rows[i]? = some t → after[t.sector]? = some (thinkers.length + i + 1)) :
    Owned (thinkers ++ rows) after := by
  intro i t there drives
  by_cases old : i < thinkers.length
  · rw [List.getElem?_append_left old] at there
    exact busy _ _ (owned i t there drives)
  · obtain ⟨k, rfl⟩ := Nat.exists_eq_add_of_le (Nat.not_lt.1 old)
    rw [List.getElem?_append_right (Nat.le_add_right _ _), Nat.add_sub_cancel_left] at there
    exact new k t there

/-- A kept thinker's place, and where it stood before. -/
theorem exists_thinkerSlot (keep : SectorThinker → Bool) {i : Nat} {t : SectorThinker}
    (there : (thinkers.filter keep)[i]? = some t) : ∃ k, thinkers[k]? = some t ∧ keep t = true ∧
      Planes.thinkerSlot (thinkers.map keep) (k + 1) = i + 1 := by
  induction thinkers generalizing i with
  | nil => simp at there
  | cons u thinkers ih =>
    have slot : ∀ k, keep t = true → thinkers[k]? = some t →
        Planes.thinkerSlot ((u :: thinkers).map keep) (k + 1 + 1) =
          Planes.thinkerSlot (thinkers.map keep) (k + 1) + if keep u then 1 else 0 := by
      intro k kept found
      have here : (thinkers.map keep).getD k false = true := by
        rw [List.getD_eq_getElem?_getD, List.getElem?_map, found]
        exact kept
      rw [Planes.thinkerSlot, Planes.thinkerSlot, List.map_cons, Nat.add_sub_cancel,
        Nat.add_sub_cancel, List.getD_cons_succ, if_pos ⟨Nat.succ_ne_zero _, here⟩,
        if_pos ⟨Nat.succ_ne_zero _, here⟩, List.take_succ_cons, List.count_cons]
      simp
    by_cases keepu : keep u = true
    · rw [List.filter_cons_of_pos keepu] at there
      cases i with
      | zero =>
        obtain rfl := Option.some.inj there
        exact ⟨0, rfl, keepu, by simp [Planes.thinkerSlot, keepu]⟩
      | succ i =>
        obtain ⟨k, found, kept, place⟩ := ih there
        exact ⟨k + 1, found, kept, by rw [slot k kept found, place, if_pos keepu]⟩
    · rw [List.filter_cons_of_neg keepu] at there
      obtain ⟨k, found, kept, place⟩ := ih there
      exact ⟨k + 1, found, kept, by rw [slot k kept found, place, if_neg keepu]⟩

/-- A sector none of whose thinkers came off the list keeps its slot. -/
theorem getElem?_spared {gone : List SectorThinker} {sector slot : Nat}
    (held : specialdata[sector]? = some slot) (others : ∀ t ∈ gone, t.sector ≠ sector) :
    (gone.foldl (fun acc t => acc.set t.sector 0) specialdata)[sector]? = some slot := by
  induction gone generalizing specialdata with
  | nil => exact held
  | cons t gone ih =>
    obtain ⟨apart, others⟩ := List.forall_mem_cons.1 others
    exact ih (by rwa [List.getElem?_set_ne apart]) others

/-- Thinkers of one sector are one thinker. -/
theorem Owned.unique (owned : Owned thinkers specialdata) {i j : Nat} {t u : SectorThinker}
    (there : thinkers[i]? = some t) (there' : thinkers[j]? = some u)
    (drives : drivesPlane t.kind = true) (drives' : drivesPlane u.kind = true)
    (same : t.sector = u.sector) : i = j := by
  have slot := owned i t there drives
  rw [same, owned j u there' drives'] at slot
  exact (Nat.succ.inj (Option.some.inj slot)).symm

theorem Owned.remove (owned : Owned thinkers specialdata) (keep : SectorThinker → Bool)
    (planes : ∀ t ∈ thinkers, keep t = false → drivesPlane t.kind = true) :
    Owned (thinkers.filter keep)
      (((thinkers.filter fun t => !keep t).foldl (fun acc t => acc.set t.sector 0) specialdata).map
        (Planes.thinkerSlot (thinkers.map keep))) := by
  intro i t there drives
  obtain ⟨k, found, kept, place⟩ := exists_thinkerSlot keep there
  rw [List.getElem?_map, getElem?_spared (owned k t found drives), Option.map_some, place]
  intro u gone same
  obtain ⟨inside, out⟩ := List.mem_filter.1 gone
  obtain ⟨j, found'⟩ := List.mem_iff_getElem?.1 inside
  have out : keep u = false := by simpa using out
  have place' := owned.unique found' found (planes u inside out) drives same
  rw [place', found] at found'
  cases found'
  exact absurd kept (by simp [out])

end

/-! ## A press -/

section
variable {level : Press.Level} {s : Press.State} {line : Nat}

/-- A press makes a door or plats. -/
theorem doors_or_plats : Press.doorRows s (Press.useOpened level s line) = [] ∨
    Press.platSectors level s line = [] := by
  by_cases plat : s.lineSpecial.getD line 0 = 62
  · refine .inl ?_
    rw [Press.useOpened, plat, if_neg (by decide)]
    rfl
  · exact .inr (if_neg plat)

theorem Owned.useSpecialLine (owned : Owned s.thinkers s.secSpecialdata)
    (sectors : s.secSpecialdata.length = level.secTag.length)
    (free : ∀ t ∈ Press.doorRows s (Press.useOpened level s line),
      s.secSpecialdata[t.sector]? = some 0) :
    Owned (Press.useSpecialLine level s line).thinkers
      (Press.useSpecialLine level s line).secSpecialdata := by
  have vacant : ∀ sector ∈ Press.platSectors level s line, s.secSpecialdata[sector]? = some 0 := by
    intro sector claimed
    rw [Press.platSectors] at claimed
    split_ifs at claimed
    · obtain ⟨inside, -, none⟩ := by simpa using claimed
      rw [← sectors] at inside
      rw [List.getElem?_eq_getElem inside, ← List.getD_eq_getElem _ 0 inside,
        List.getD_eq_getElem?_getD]
      exact congrArg Option.some none
    · cases claimed
  rw [thinkers_useSpecialLine]
  refine (owned.congr keys_heldDirection).append (fun sector slot held => ?_) fun i t there => ?_
  · rw [Press.useSpecialLine, List.getElem?_mapIdx, held, Option.map_some, if_neg, if_neg]
    · intro plat
      cases held.symm.trans (vacant sector plat)
    · intro door
      obtain ⟨t, made, home⟩ := List.any_eq_true.1 door
      have none := free t made
      rw [beq_iff_eq.1 home, held] at none
      cases none
  · rw [List.length_map, Press.useSpecialLine, List.getElem?_mapIdx]
    rcases doors_or_plats with none | none
    · -- plats, each at its place among the sectors
      rw [pressRows, none, List.nil_append, Press.platRows, List.getElem?_map,
        List.getElem?_zipIdx] at there
      cases claimed : (Press.platSectors level s line)[i]? with
      | none => simp [claimed] at there
      | some sector =>
        rw [claimed] at there
        obtain rfl := Option.some.inj there
        have inside := List.mem_of_getElem? claimed
        have place : (Press.platSectors level s line).idxOf sector = i := by
          obtain ⟨low, rfl⟩ := List.getElem?_eq_some_iff.1 claimed
          refine List.Nodup.idxOf_getElem ?_ _ _
          rw [Press.platSectors]
          split_ifs
          · exact List.nodup_range.filter _
          · exact List.nodup_nil
        dsimp only
        rw [vacant sector inside, none, Option.map_some, if_neg (by simp), if_pos inside, place]
        rfl
    · -- the one door
      have plats : Press.platRows level s (s.nextSeq.toNat + (Press.doorRows s
          (Press.useOpened level s line)).length) [] = [] := rfl
      rw [pressRows, none, plats, List.append_nil] at there
      have made := List.mem_of_getElem? there
      rcases doorRows_cases s (Press.useOpened level s line) with none' | ⟨door, one, -⟩
      · rw [none'] at made
        cases made
      · have first : i = 0 := by
          have low := (List.getElem?_eq_some_iff.1 there).1
          rw [one, List.length_singleton] at low
          omega
        rw [free t made, Option.map_some, if_pos, first]
        exact List.any_eq_true.2 ⟨t, made, beq_self_eq_true _⟩

end

/-! ## Crossed lines -/

section
open Crossings
variable {level : Press.Level} {s : Press.State} {lines : List Nat}

/-- A sector that is claimed stands on the list once and holds no thinker. -/
theorem sectorsFor_vacant (sectors : s.secSpecialdata.length = level.secTag.length) {some : List Nat}
    {sec : Nat} (claimed : sec ∈ sectorsFor level s some) :
    1 ≤ sec ∧ s.secSpecialdata[sec - 1]? = Option.some 0 := by
  obtain ⟨tagged, none⟩ := List.mem_filter.1 claimed
  rw [mem_arrayDistinct, List.mem_flatMap] at tagged
  obtain ⟨tag, -, inside⟩ := tagged
  have range := List.mem_range'_1.1 (List.mem_filter.1 inside).1
  have low : sec - 1 < s.secSpecialdata.length := by omega
  refine ⟨range.1, ?_⟩
  rw [List.getElem?_eq_getElem low, ← List.getD_eq_getElem _ 0 low]
  exact congrArg Option.some (of_decide_eq_true none)

theorem nodup_sectorsFor (some : List Nat) : (sectorsFor level s some).Nodup :=
  (nodup_arrayDistinct _).filter _

/-- The sector a row stands at. -/
theorem sector_of_row {row : Nat × Nat → SectorThinker} {sectors : List Nat} {i : Nat}
    {t : SectorThinker} (home : ∀ e, (row e).sector = e.1 - 1)
    (there : (sectors.zipIdx.map row)[i]? = some t) :
    ∃ sec, sectors[i]? = some sec ∧ t.sector = sec - 1 := by
  rw [List.getElem?_map, List.getElem?_zipIdx] at there
  cases found : sectors[i]? with
  | none => simp [found] at there
  | some sec =>
    rw [found] at there
    obtain rfl := Option.some.inj there
    exact ⟨sec, rfl, home _⟩

theorem indexOf_eq_zero {a : List Nat} {x : Nat} : indexOf a x = 0 ↔ x ∉ a := by
  rw [indexOf]
  split_ifs with there <;> simp [there]

theorem Owned.crossDispatch (owned : Owned s.thinkers s.secSpecialdata)
    (sectors : s.secSpecialdata.length = level.secTag.length) :
    Owned (s.thinkers ++ rows level s lines) (specialdata level s lines) := by
  have plats : ∀ sec ∈ platSectors level s lines, 1 ≤ sec ∧
      s.secSpecialdata[sec - 1]? = some 0 := fun sec claimed => sectorsFor_vacant sectors claimed
  have doors : ∀ sec ∈ doorSectors level s lines, (1 ≤ sec ∧ s.secSpecialdata[sec - 1]? = some 0) ∧
      indexOf (platSectors level s lines) sec = 0 := by
    intro sec claimed
    obtain ⟨claimed, apart⟩ := List.mem_filter.1 claimed
    exact ⟨sectorsFor_vacant sectors claimed, of_decide_eq_true apart⟩
  have floors : ∀ sec ∈ floorSectors level s lines, (1 ≤ sec ∧ s.secSpecialdata[sec - 1]? = some 0) ∧
      indexOf (platSectors level s lines) sec = 0 ∧ indexOf (doorSectors level s lines) sec = 0 := by
    intro sec claimed
    obtain ⟨claimed, apart⟩ := List.mem_filter.1 claimed
    exact ⟨sectorsFor_vacant sectors claimed, of_decide_eq_true apart⟩
  refine owned.append (fun sector slot held => ?_) fun i t there => ?_
  · -- a sector that holds a thinker is not claimed
    have taken : ∀ {claimed : List Nat}, (∀ sec ∈ claimed, s.secSpecialdata[sec - 1]? = some 0) →
        indexOf claimed (sector + 1) = 0 := by
      intro claimed vacant
      refine indexOf_eq_zero.2 fun inside => ?_
      cases held.symm.trans (vacant _ inside)
    rw [specialdata, List.getElem?_mapIdx, held, Option.map_some]
    simp [taken fun sec inside => (plats sec inside).2, taken fun sec inside => (doors sec inside).1.2,
      taken fun sec inside => (floors sec inside).1.2]
  · rw [specialdata, List.getElem?_mapIdx]
    rw [rows] at there
    by_cases plat : i < (platRows level s lines).length
    · rw [List.append_assoc, List.getElem?_append_left plat, platRows] at there
      obtain ⟨sec, found, home⟩ := sector_of_row (by rintro ⟨sec, i⟩; rfl) there
      obtain ⟨low, vacant⟩ := plats sec (List.mem_of_getElem? found)
      have place := (indexOf_eq_iff (nodup_sectorsFor _)).2 found
      rw [home, vacant, Option.map_some, Nat.sub_add_cancel low]
      rw [show indexOf (platSectors level s lines) sec = i + 1 from place, if_pos (Nat.succ_ne_zero i)]
      rfl
    obtain ⟨k, rfl⟩ := Nat.exists_eq_add_of_le (Nat.not_lt.1 plat)
    rw [List.append_assoc, List.getElem?_append_right (Nat.le_add_right _ _),
      Nat.add_sub_cancel_left] at there
    rw [length_platRows]
    by_cases door : k < (doorRows level s lines).length
    · rw [List.getElem?_append_left door, doorRows] at there
      obtain ⟨sec, found, home⟩ := sector_of_row (by rintro ⟨sec, i⟩; rfl) there
      obtain ⟨⟨low, vacant⟩, noPlat⟩ := doors sec (List.mem_of_getElem? found)
      have place := (indexOf_eq_iff ((nodup_sectorsFor _).filter _)).2 found
      rw [home, vacant, Option.map_some, Nat.sub_add_cancel low]
      rw [noPlat, show indexOf (doorSectors level s lines) sec = k + 1 from place, if_neg (by simp),
        if_pos (Nat.succ_ne_zero k)]
      exact congrArg some (by omega)
    obtain ⟨j, rfl⟩ := Nat.exists_eq_add_of_le (Nat.not_lt.1 door)
    rw [List.getElem?_append_right (Nat.le_add_right _ _), Nat.add_sub_cancel_left, floorRows] at there
    rw [length_doorRows]
    obtain ⟨sec, found, home⟩ := sector_of_row (by rintro ⟨sec, i⟩; rfl) there
    obtain ⟨⟨low, vacant⟩, noPlat, noDoor⟩ := floors sec (List.mem_of_getElem? found)
    have place := (indexOf_eq_iff ((nodup_sectorsFor _).filter _)).2 found
    rw [home, vacant, Option.map_some, Nat.sub_add_cancel low]
    rw [noPlat, noDoor, show indexOf (floorSectors level s lines) sec = j + 1 from place,
      if_neg (by simp), if_neg (by simp), if_pos (Nat.succ_ne_zero j)]
    exact congrArg some (by omega)

end

/-! ## The planes -/

section
variable {clip : Planes.Clip} {w : Planes.World}

/-- Only a thinker that drives a plane is finished. -/
theorem drives_of_done {t : SectorThinker} (gone : keeps clip w t = false) :
    drivesPlane t.kind = true := by
  cases kind : t.kind with
  | door => rfl
  | plat => rfl
  | floor => rfl
  | ceiling => rfl
  | lightFlash => simp [keeps, Planes.doneOf, Planes.done, Planes.runs, kind] at gone
  | strobe => simp [keeps, Planes.doneOf, Planes.done, Planes.runs, kind] at gone
  | glow => simp [keeps, Planes.doneOf, Planes.done, Planes.runs, kind] at gone
  | fireFlicker => simp [keeps, Planes.doneOf, Planes.done, Planes.runs, kind] at gone

theorem Owned.planes (owned : Owned w.thinkers w.specialdata) :
    Owned (Planes.planes clip w).1.thinkers (Planes.planes clip w).1.specialdata := by
  rw [Planes.planes]
  split_ifs with idle
  · have kept := owned.remove (fun _ => true) (by simp)
    simpa using kept
  · refine Owned.congr ?_ (keys_ran clip _)
    have gone : (fun t => !keeps clip w t) = Planes.doneOf clip w := funext fun _ => Bool.not_not _
    have kept := owned.remove (keeps clip w) fun t _ => drives_of_done
    rwa [gone] at kept

/-- No two thinkers that run are of one sector. -/
theorem Owned.nodup_moving (owned : Owned w.thinkers w.specialdata) : (Planes.moving w).Nodup := by
  have drives : ∀ t : SectorThinker, Planes.runs t = true → drivesPlane t.kind = true := by
    intro t runs
    cases kind : t.kind <;> first | rfl | simp [Planes.runs, kind] at runs
  have apart : w.thinkers.Pairwise fun t u =>
      drivesPlane t.kind = true → drivesPlane u.kind = true → t.sector ≠ u.sector := by
    rw [List.pairwise_iff_getElem]
    intro i j low high less planes planes' same
    have := owned.unique (List.getElem?_eq_getElem low) (List.getElem?_eq_getElem high) planes planes' same
    omega
  rw [Planes.moving, List.Nodup, List.pairwise_map, Planes.running, Planes.act]
  refine ((apart.filter _).filter _).imp_of_mem ?_
  intro t u there there' other
  exact other (drives t (List.mem_filter.1 there).2) (drives u (List.mem_filter.1 there').2)

end

/-! ## Runs -/

section
variable (level : Press.Level)

/-- A door that a press makes is made in a sector that holds no thinker. -/
def Vacant (w : World) : Stage → Prop
  | .press line => ∀ t ∈ Press.doorRows w.press (Press.useOpened level w.press line),
      w.press.secSpecialdata[t.sector]? = some 0
  | _ => True

/-- No press of a run makes a door where a thinker is at work. -/
def VacantRun : List Stage → World → Prop
  | [], _ => True
  | stage :: stages, w => Vacant level w stage ∧ VacantRun stages (run level w stage)

variable {level} {w : World}

theorem length_cleared (gone : List SectorThinker) (specialdata : List Nat) :
    (gone.foldl (fun acc t => acc.set t.sector 0) specialdata).length = specialdata.length := by
  induction gone generalizing specialdata with
  | nil => rfl
  | cons t gone ih => rw [List.foldl_cons, ih, List.length_set]

theorem length_specialdata (stage : Stage) :
    (run level w stage).press.secSpecialdata.length = w.press.secSpecialdata.length := by
  cases stage with
  | press line => exact List.length_mapIdx
  | spawn count => rfl
  | cross pxCrossedLine txCrossedLine => exact List.length_mapIdx
  | lights rnd index => rfl
  | planes clip =>
    show (Planes.planes clip w.planes).1.specialdata.length = _
    rw [Planes.planes]
    split_ifs
    · exact List.length_map _
    · rw [List.length_map, Planes.cleared, length_cleared]
      rfl

theorem Owned.run (owned : Owned w.press.thinkers w.press.secSpecialdata)
    (sectors : w.press.secSpecialdata.length = level.secTag.length) {stage : Stage}
    (vacant : Vacant level w stage) :
    Owned (run level w stage).press.thinkers (run level w stage).press.secSpecialdata := by
  cases stage with
  | press line => exact owned.useSpecialLine sectors vacant
  | spawn count => exact owned
  | cross pxCrossedLine txCrossedLine => exact owned.crossDispatch sectors
  | lights rnd index => exact owned.congr (keys_lights rnd index _ _)
  | planes clip =>
    have planes : Owned w.planes.thinkers w.planes.specialdata := owned
    exact planes.planes

/-- The first row has no thinker that drives a plane. -/
theorem owned_setup {things : Nat} {lights : List SectorThinker}
    (dark : ∀ t ∈ lights, drivesPlane t.kind = false) :
    Owned (setup level things lights w).press.thinkers
      (setup level things lights w).press.secSpecialdata := by
  intro i t there drives
  change (List.mapIdx _ lights)[i]? = _ at there
  rw [List.getElem?_mapIdx, Option.map_eq_some_iff] at there
  obtain ⟨light, there, rfl⟩ := there
  rw [dark light (List.mem_of_getElem? there)] at drives
  cases drives

/-- Over any order of the stages in which no press makes a door where a thinker is at work, the
sectors' entries and the plane thinkers name each other: every entry names a thinker of its sector and
every plane thinker is the one its sector names.  No two that run are of one sector, and the planes
pass never finds a sector shared. -/
theorem planes_owned (named : Named w.press.thinkers w.press.secSpecialdata)
    (owned : Owned w.press.thinkers w.press.secSpecialdata)
    (sectors : w.press.secSpecialdata.length = level.secTag.length) (stages : List Stage)
    (vacant : VacantRun level stages w) :
    Named (stages.foldl (run level) w).press.thinkers (stages.foldl (run level) w).press.secSpecialdata ∧
    Owned (stages.foldl (run level) w).press.thinkers (stages.foldl (run level) w).press.secSpecialdata ∧
    (Planes.moving (stages.foldl (run level) w).planes).Nodup ∧
    ∀ clip, .planeShared ∉ (Planes.planes clip (stages.foldl (run level) w).planes).2 := by
  have held : Named (stages.foldl (ThinkerList.run level) w).press.thinkers
        (stages.foldl (ThinkerList.run level) w).press.secSpecialdata ∧
      Owned (stages.foldl (ThinkerList.run level) w).planes.thinkers
        (stages.foldl (ThinkerList.run level) w).planes.specialdata := by
    induction stages generalizing w with
    | nil => exact ⟨named, owned⟩
    | cons stage stages ih =>
      exact ih (named.run level stage) (owned.run sectors vacant.1)
        ((length_specialdata stage).trans sectors) vacant.2
  refine ⟨held.1, held.2, held.2.nodup_moving, fun clip => ?_⟩
  rw [Planes.planes]
  split_ifs
  · exact List.not_mem_nil
  · simp [Planes.unresolved, held.2.nodup_moving]

theorem planes_owned_hall :
    (Planes.moving ([.cross 0 [], .press 1].foldl (run hall) hallWorld).planes) = [1, 2] ∧
    (Planes.moving ([.cross 0 [], .press 1].foldl (run hall) hallWorld).planes).Nodup := by
  have vacant : VacantRun hall [.cross 0 [], .press 1] hallWorld := by
    refine ⟨trivial, ?_, trivial⟩
    show ∀ t ∈ Press.doorRows _ _, (_ : Option Nat) = some 0
    decide +kernel
  have owned : Owned hallWorld.press.thinkers hallWorld.press.secSpecialdata :=
    owned_setup (by decide)
  exact ⟨by decide +kernel,
    (planes_owned (named_setup _ _ _ _) owned (by decide) _ vacant).2.2.1⟩

end

end ClickDoom.Native.ThinkerList

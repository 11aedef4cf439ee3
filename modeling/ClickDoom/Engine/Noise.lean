import ClickDoom.Base.Flood

/-! # The engine's noise alert

`P_NoiseAlert` and `P_RecursiveSound` of `p_enemy.c` over the sectors and the lines between
them, with `P_LineOpening` of `p_maputl.c`.  The recursion is given fuel for its depth; twice as
much as there are sectors is always enough.
-/
namespace ClickDoom.Engine

/-- The parts of a line sound crosses it by: its sectors and two of its flags. -/
structure SoundLine where
  front : Nat
  back : Option Nat
  twoSided : Bool
  soundBlock : Bool
  deriving DecidableEq, Repr

/-- A level's lines between its sectors.  A line that carries `ML_TWOSIDED` has two sides. -/
structure Halls where
  sectors : Nat
  lines : List SoundLine
  front_lt : ∀ line ∈ lines, line.front < sectors
  back_lt : ∀ line ∈ lines, ∀ back, line.back = some back → back < sectors
  sided : ∀ line ∈ lines, line.twoSided → line.back.isSome

/-- `sec->lines`. -/
def Halls.linesOf (halls : Halls) (sec : Nat) : List SoundLine :=
  halls.lines.filter fun line => line.front = sec || line.back = some sec

/-- The sector across a line. -/
def SoundLine.other (line : SoundLine) (sec : Nat) : Nat :=
  if line.front = sec then line.back.getD 0 else line.front

/-- `openrange` after `P_LineOpening`. -/
def openrange (floors ceilings : List Int32) (line : SoundLine) : Int32 :=
  match line.back with
  | none => 0
  | some back =>
    let opentop := if ceilings.getD line.front 0 < ceilings.getD back 0
      then ceilings.getD line.front 0 else ceilings.getD back 0
    let openbottom := if floors.getD line.front 0 > floors.getD back 0
      then floors.getD line.front 0 else floors.getD back 0
    opentop - openbottom

/-- What an alert reads and writes of a sector. -/
structure SoundSector where
  validcount : Nat
  soundtraversed : Int
  soundtarget : Nat
  deriving DecidableEq, Repr

section
variable (halls : Halls) (floors ceilings : List Int32) (validcount soundtarget : Nat)

/-- `P_RecursiveSound`. -/
def recursiveSound : Nat → List SoundSector → Nat → Nat → Option (List SoundSector)
  | 0, _, _, _ => none
  | fuel + 1, sectors, sec, soundblocks =>
    let held := sectors.getD sec ⟨0, 0, 0⟩
    if held.validcount = validcount ∧ held.soundtraversed ≤ soundblocks + 1 then some sectors
    else
      (halls.linesOf sec).foldlM (fun sectors line =>
        if !line.twoSided then some sectors
        else if openrange floors ceilings line ≤ 0 then some sectors
        else if line.soundBlock then
          if soundblocks = 0 then recursiveSound fuel sectors (line.other sec) 1
          else some sectors
        else recursiveSound fuel sectors (line.other sec) soundblocks)
        (sectors.set sec ⟨validcount, soundblocks + 1, soundtarget⟩)

end

/-- The sectors before an alert: none holds a later alert's `validcount`. -/
structure Sounds where
  validcount : Nat
  sectors : List SoundSector
  held : ∀ sector ∈ sectors, sector.validcount ≤ validcount

/-- `P_NoiseAlert` from the emitter's sector. -/
def noiseAlert (halls : Halls) (floors ceilings : List Int32) (sounds : Sounds)
    (target sector fuel : Nat) : Option (List SoundSector) :=
  recursiveSound halls floors ceilings (sounds.validcount + 1) target fuel sounds.sectors sector 0

/-! ## The alert as a flood -/

/-- The ways sound goes on from a sector it has reached over a number of blocking lines, given
which lines are open. -/
def Halls.ways (halls : Halls) (opens : SoundLine → Bool) (sec soundblocks : Nat) :
    List (Nat × Nat) :=
  (halls.linesOf sec).filterMap fun line =>
    if !line.twoSided then none
    else if !opens line then none
    else if line.soundBlock then if soundblocks = 0 then some (line.other sec, 1) else none
    else some (line.other sec, soundblocks)

/-- The sectors with the marks of an alert on them. -/
def paint (validcount soundtarget : Nat) (sectors : List SoundSector) (marks : List Nat) :
    List SoundSector :=
  List.zipWith (fun sector (mark : Nat) =>
    if mark = 0 then sector else ⟨validcount, mark, soundtarget⟩) sectors marks

section
variable {halls : Halls} {floors ceilings : List Int32} {validcount soundtarget : Nat}
  {sectors : List SoundSector}

theorem getD_paint (marks : List Nat) (hlen : marks.length = sectors.length) (sec : Nat) :
    (paint validcount soundtarget sectors marks).getD sec ⟨0, 0, 0⟩ =
      if marks.getD sec 0 = 0 then sectors.getD sec ⟨0, 0, 0⟩
      else ⟨validcount, marks.getD sec 0, soundtarget⟩ := by
  by_cases hsec : sec < marks.length
  · simp [paint, List.getD_eq_getElem?_getD, hsec, hlen ▸ hsec]
  · have hsec' : ¬sec < sectors.length := hlen ▸ hsec
    simp [paint, List.getD_eq_getElem?_getD, hsec, hsec']

theorem paint_set (marks : List Nat) (sec mark : Nat) (hmark : mark ≠ 0) :
    paint validcount soundtarget sectors (marks.set sec mark) =
      (paint validcount soundtarget sectors marks).set sec ⟨validcount, mark, soundtarget⟩ := by
  unfold paint
  induction sectors generalizing marks sec with
  | nil => simp
  | cons sector rest ih =>
    cases marks with
    | nil => simp
    | cons m marks =>
      cases sec with
      | zero => simp [hmark]
      | succ sec => simp [ih]

/-- A loop follows another through a map between their states, while an invariant holds. -/
theorem foldlM_map {α β γ : Type} (f : β → γ) (I : β → Prop) {F : γ → α → Option γ}
    {G : β → α → Option β} (keeps : ∀ b a b', I b → G b a = some b' → I b')
    (follows : ∀ b a, I b → F (f b) a = (G b a).map f) (list : List α) (b : β) (hb : I b) :
    list.foldlM F (f b) = (list.foldlM G b).map f := by
  induction list generalizing b with
  | nil => rfl
  | cons a rest ih =>
    rw [List.foldlM_cons, List.foldlM_cons, follows b a hb]
    cases hg : G b a with
    | none => rfl
    | some b' => exact ih b' (keeps b a b' hb hg)

/-- A sector is already flooded where its mark says so. -/
theorem flooded_paint (fresh : ∀ sector ∈ sectors, sector.validcount ≠ validcount)
    (pos : validcount ≠ 0) {marks : List Nat} (hlen : marks.length = sectors.length)
    (sec soundblocks : Nat) :
    (((paint validcount soundtarget sectors marks).getD sec ⟨0, 0, 0⟩).validcount = validcount ∧
      ((paint validcount soundtarget sectors marks).getD sec ⟨0, 0, 0⟩).soundtraversed ≤
        soundblocks + 1) ↔
      (marks.getD sec 0 ≠ 0 ∧ marks.getD sec 0 ≤ soundblocks + 1) := by
  rw [getD_paint _ hlen]
  by_cases hm : marks.getD sec 0 = 0
  · have hne : (sectors.getD sec ⟨0, 0, 0⟩).validcount ≠ validcount := by
      by_cases hsec : sec < sectors.length
      · rw [List.getD_eq_getElem _ _ hsec]
        exact fresh _ (List.getElem_mem hsec)
      · rw [List.getD_eq_default _ _ (Nat.le_of_not_lt hsec)]
        exact pos.symm
    rw [if_pos hm]
    exact ⟨fun h => absurd h.1 hne, fun h => absurd hm h.1⟩
  · rw [if_neg hm]
    simp only [hm, ne_eq, not_false_eq_true, true_and]
    omega

/-- `P_RecursiveSound` is the flood along the open ways. -/
theorem recursiveSound_eq (fresh : ∀ sector ∈ sectors, sector.validcount ≠ validcount)
    (pos : validcount ≠ 0) (fuel : Nat) (marks : List Nat) (hlen : marks.length = sectors.length)
    (sec soundblocks : Nat) :
    recursiveSound halls floors ceilings validcount soundtarget fuel
        (paint validcount soundtarget sectors marks) sec soundblocks =
      (Flood.flood (halls.ways fun line => openrange floors ceilings line > 0) fuel marks sec
        soundblocks).map (paint validcount soundtarget sectors) := by
  induction fuel generalizing marks sec soundblocks with
  | zero => rfl
  | succ fuel ih =>
    rw [recursiveSound, Flood.flood]
    simp only [flooded_paint fresh pos hlen]
    split
    · rfl
    · rw [← Nat.cast_succ, ← paint_set _ _ _ (Nat.succ_ne_zero _)]
      conv_rhs => rw [Halls.ways, List.foldlM_filterMap]
      refine foldlM_map _ (fun marks => marks.length = sectors.length) ?_ ?_ _ _
        (by rw [List.length_set, hlen])
      · intro held line after hlen hafter
        split at hafter
        · exact (Flood.length_flood _ hafter).trans hlen
        · rw [← Option.some.inj hafter]
          exact hlen
      · intro held line hlen
        by_cases h2 : line.twoSided = true
        · by_cases hopen : openrange floors ceilings line ≤ 0
          · have hshut : ¬openrange floors ceilings line > 0 := Int32.not_lt.mpr hopen
            simp [h2, hopen, hshut]
          · have hgap : openrange floors ceilings line > 0 := Int32.not_le.mp hopen
            by_cases hblock : line.soundBlock = true
            · by_cases h0 : soundblocks = 0
              · simpa [h2, hopen, hgap, hblock, h0] using ih held hlen (line.other sec) 1
              · simp [h2, hopen, hgap, hblock, h0]
            · simpa [h2, hopen, hgap, hblock] using ih held hlen (line.other sec) soundblocks
        · simp [h2]

end

/-! ## What an alert reaches -/

/-- Sound crosses from a sector to another over an open line that blocks it, or does not. -/
def Halls.Crosses (halls : Halls) (opens : SoundLine → Bool) (blocks : Bool) (x y : Nat) :
    Prop :=
  ∃ line ∈ halls.lines, line.twoSided = true ∧ opens line = true ∧ line.soundBlock = blocks ∧
    ((line.front = x ∧ line.back = some y) ∨ (line.front = y ∧ line.back = some x))

section
variable {halls : Halls} {opens : SoundLine → Bool}

theorem Halls.Crosses.lt {blocks : Bool} {x y : Nat} (h : halls.Crosses opens blocks x y) :
    y < halls.sectors := by
  obtain ⟨line, hmem, -, -, -, ⟨-, hback⟩ | ⟨hfront, -⟩⟩ := h
  · exact halls.back_lt line hmem y hback
  · exact hfront ▸ halls.front_lt line hmem

/-- The lines of a sector with what is across them. -/
theorem crosses_iff {blocks : Bool} {x y : Nat} :
    halls.Crosses opens blocks x y ↔
      ∃ line ∈ halls.linesOf x, line.twoSided = true ∧ opens line = true ∧
        line.soundBlock = blocks ∧ line.other x = y := by
  constructor
  · rintro ⟨line, hmem, h2, ho, hb, ⟨hfront, hback⟩ | ⟨hfront, hback⟩⟩
    · exact ⟨line, by simp [Halls.linesOf, hmem, hfront], h2, ho, hb,
        by simp [SoundLine.other, hfront, hback]⟩
    · refine ⟨line, by simp [Halls.linesOf, hmem, hback], h2, ho, hb, ?_⟩
      rw [SoundLine.other]
      split
      · next hx => rw [hback, ← hfront, hx, Option.getD_some]
      · exact hfront
  · rintro ⟨line, hline, h2, ho, hb, hother⟩
    simp only [Halls.linesOf, List.mem_filter, Bool.or_eq_true, decide_eq_true_eq] at hline
    refine ⟨line, hline.1, h2, ho, hb, ?_⟩
    obtain ⟨back, hback⟩ := Option.isSome_iff_exists.mp (halls.sided line hline.1 h2)
    by_cases hx : line.front = x
    · left
      rw [SoundLine.other, if_pos hx, hback, Option.getD_some] at hother
      exact ⟨hx, by rw [hback, hother]⟩
    · right
      rw [SoundLine.other, if_neg hx] at hother
      exact ⟨hother, hline.2.resolve_left hx⟩

theorem mem_ways {sec soundblocks : Nat} {q : Nat × Nat} :
    q ∈ halls.ways opens sec soundblocks ↔
      (q.2 = soundblocks ∧ halls.Crosses opens false sec q.1) ∨
        (soundblocks = 0 ∧ q.2 = 1 ∧ halls.Crosses opens true sec q.1) := by
  rw [Halls.ways, List.mem_filterMap, crosses_iff, crosses_iff]
  constructor
  · rintro ⟨line, hline, h⟩
    split_ifs at h with h2 ho hb h0
    · obtain rfl := Option.some.inj h
      exact .inr ⟨h0, rfl, line, hline, by simpa using h2, by simpa using ho, hb, rfl⟩
    · obtain rfl := Option.some.inj h
      exact .inl ⟨rfl, line, hline, by simpa using h2, by simpa using ho, by simpa using hb, rfl⟩
  · rintro (⟨hq, line, hline, h2, ho, hb, hother⟩ | ⟨h0, hq, line, hline, h2, ho, hb, hother⟩)
    · exact ⟨line, hline, by simp [h2, ho, hb, hother, ← hq]⟩
    · exact ⟨line, hline, by simp [h2, ho, hb, hother, h0, ← hq]⟩

/-- The sectors sound reaches over no blocking line. -/
def Halls.Near (halls : Halls) (opens : SoundLine → Bool) (start x : Nat) : Prop :=
  Relation.ReflTransGen (halls.Crosses opens false) start x

/-- The sectors sound reaches over one. -/
def Halls.Far (halls : Halls) (opens : SoundLine → Bool) (start x : Nat) : Prop :=
  ∃ u v, halls.Near opens start u ∧ halls.Crosses opens true u v ∧ halls.Near opens v x

theorem reached_of_near {start x : Nat} (level : Nat) (h : halls.Near opens start x) :
    Relation.ReflTransGen (Flood.Step (halls.ways opens)) (start, level) (x, level) := by
  induction h with
  | refl => exact .refl
  | tail _ step ih => exact ih.tail (mem_ways.mpr (.inl ⟨rfl, step⟩))

theorem reached_iff {start : Nat} {p : Nat × Nat} :
    Relation.ReflTransGen (Flood.Step (halls.ways opens)) (start, 0) p ↔
      (p.2 = 0 ∧ halls.Near opens start p.1) ∨ (p.2 = 1 ∧ halls.Far opens start p.1) := by
  constructor
  · intro h
    induction h with
    | refl => exact .inl ⟨rfl, .refl⟩
    | tail _ step ih =>
      rcases mem_ways.mp step with ⟨hlevel, hcross⟩ | ⟨h0, h1, hcross⟩
      · rcases ih with ⟨h0, hnear⟩ | ⟨h1, u, v, hu, huv, hv⟩
        · exact .inl ⟨hlevel.trans h0, hnear.tail hcross⟩
        · exact .inr ⟨hlevel.trans h1, u, v, hu, huv, hv.tail hcross⟩
      · rcases ih with ⟨-, hnear⟩ | ⟨h, -⟩
        · exact .inr ⟨h1, _, _, hnear, hcross, .refl⟩
        · omega
  · obtain ⟨x, level⟩ := p
    rintro (⟨rfl, hnear⟩ | ⟨rfl, u, v, hu, huv, hv⟩)
    · exact reached_of_near 0 hnear
    · exact ((reached_of_near 0 hu).tail (mem_ways.mpr (.inr ⟨rfl, rfl, huv⟩))).trans
        (reached_of_near 1 hv)

end

open Classical in
/-- The count plus one an alert leaves a sector with, and zero where it does not go. -/
noncomputable def Halls.mark (halls : Halls) (opens : SoundLine → Bool) (start x : Nat) : Nat :=
  if halls.Near opens start x then 1 else if halls.Far opens start x then 2 else 0

theorem Halls.mark_congr {halls : Halls} {opens opens' : SoundLine → Bool}
    (same : ∀ line ∈ halls.lines, line.twoSided = true → opens line = opens' line) :
    halls.mark opens = halls.mark opens' := by
  have hcrosses : halls.Crosses opens = halls.Crosses opens' := by
    funext blocks x y
    refine propext (exists_congr fun line => and_congr_right fun hline =>
      and_congr_right fun h2 => ?_)
    rw [same line hline h2]
  funext start x
  unfold Halls.mark Halls.Far Halls.Near
  rw [hcrosses]

/-- An alert marks every sector with the least count any way in offers. -/
theorem noiseAlert_marks (halls : Halls) (floors ceilings : List Int32) (sounds : Sounds)
    (target : Nat) {sector fuel : Nat} (hlen : sounds.sectors.length = halls.sectors)
    (hsector : sector < halls.sectors) (hfuel : halls.sectors * 2 < fuel) :
    ∃ marks : List Nat,
      noiseAlert halls floors ceilings sounds target sector fuel =
        some (paint (sounds.validcount + 1) target sounds.sectors marks) ∧
      marks.length = halls.sectors ∧
      ∀ x, marks.getD x 0 =
        halls.mark (fun line => openrange floors ceilings line > 0) sector x := by
  set opens : SoundLine → Bool := fun line => openrange floors ceilings line > 0 with hopens
  have inside : ∀ x level, x < halls.sectors → level < 2 → ∀ q ∈ halls.ways opens x level,
      q.1 < halls.sectors ∧ q.2 < 2 := by
    intro x level _ hlevel q hq
    rcases mem_ways.mp hq with ⟨hq, hcross⟩ | ⟨-, hq, hcross⟩
    · exact ⟨hcross.lt, by omega⟩
    · exact ⟨hcross.lt, by omega⟩
  have lower : ∀ x level level', level' ≤ level → ∀ q ∈ halls.ways opens x level,
      ∃ l ≤ q.2, (q.1, l) ∈ halls.ways opens x level' := by
    intro x level level' hle q hq
    rcases mem_ways.mp hq with ⟨hq, hcross⟩ | ⟨h0, hq, hcross⟩
    · exact ⟨level', by omega, mem_ways.mpr (.inl ⟨rfl, hcross⟩)⟩
    · exact ⟨1, by omega, mem_ways.mpr (.inr ⟨by omega, rfl, hcross⟩)⟩
  obtain ⟨marks, hmarks, hlength, hleast⟩ :=
    Flood.flood_least inside hsector (by omega : 0 < 2) hfuel lower
  refine ⟨marks, ?_, hlength, fun x => ?_⟩
  · have hfresh : ∀ s ∈ sounds.sectors, s.validcount ≠ sounds.validcount + 1 := by
      intro s hs
      have := sounds.held s hs
      omega
    have hblank : paint (sounds.validcount + 1) target sounds.sectors
        (List.replicate halls.sectors 0) = sounds.sectors := by
      rw [← hlen, paint]
      induction sounds.sectors with
      | nil => rfl
      | cons s rest ih => simpa [List.replicate_succ] using ih
    have hwalk : recursiveSound halls floors ceilings (sounds.validcount + 1) target fuel
        (paint (sounds.validcount + 1) target sounds.sectors (List.replicate halls.sectors 0))
        sector 0 = _ :=
      recursiveSound_eq hfresh (Nat.succ_ne_zero _) fuel (List.replicate halls.sectors 0)
        (by simp [hlen]) sector 0
    rw [hblank, hmarks] at hwalk
    exact hwalk
  · rw [Halls.mark]
    rcases hleast x with ⟨hzero, hnone⟩ | ⟨l, hl, hreached, hmin⟩
    · have hnear : ¬halls.Near opens sector x := fun h => hnone 0 (reached_iff.mpr (.inl ⟨rfl, h⟩))
      have hfar : ¬halls.Far opens sector x := fun h => hnone 1 (reached_iff.mpr (.inr ⟨rfl, h⟩))
      rw [if_neg hnear, if_neg hfar, hzero]
    · rcases reached_iff.mp hreached with ⟨h0, hnear⟩ | ⟨h1, hfar⟩
      · rw [if_pos hnear, hl]
        omega
      · have hnear : ¬halls.Near opens sector x := by
          intro h
          have := hmin (reached_iff.mpr (.inl ⟨rfl, h⟩))
          simp only at h1
          omega
        rw [if_neg hnear, if_pos hfar, hl]
        simp only at h1
        omega

end ClickDoom.Engine

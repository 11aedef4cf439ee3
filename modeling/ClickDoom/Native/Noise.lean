import ClickDoom.Base.Marks
import ClickDoom.Base.SignedWords
import ClickDoom.Engine.Noise

/-! # The noise alert as two floods

`alert` and `spread` of `native/src/sql/sim/noise.rs` with what `fire_weapon` of `player.rs`
does with the answer.  A line's opening is compared in 64 bits, so the floods part from the
engine's recursion only over a line whose opening does not fit a `fixed_t`.
-/
namespace ClickDoom.Native.Noise
open Engine (SoundLine Halls SoundSector Sounds openrange noiseAlert paint)

/-- `opening`: the top and the bottom. -/
def opening (floors ceilings : List Int32) (line : SoundLine) : Int32 × Int32 :=
  match line.back with
  | none => (0, 0)
  | some back =>
    (min (ceilings.getD line.front 0) (ceilings.getD back 0),
      max (floors.getD line.front 0) (floors.getD back 0))

/-- `nz_half_opens`. -/
def opens (floors ceilings : List Int32) (line : SoundLine) : Bool :=
  (opening floors ceilings line).1.toInt - (opening floors ceilings line).2.toInt > 0

/-- One direction of a line: an entry of `nz_from`, `nz_to`, `nz_blocks` and `nz_opens`. -/
structure Way where
  out : Nat
  into : Nat
  blocks : Bool
  opens : Bool
  deriving DecidableEq, Repr

/-- The ways of the two-sided lines, first to the back and then to the front. -/
def ways (halls : Halls) (floors ceilings : List Int32) : List Way :=
  let lines := halls.lines.filter (·.twoSided)
  (lines.map fun line =>
    ⟨line.front, line.back.getD 0, line.soundBlock, opens floors ceilings line⟩) ++
  (lines.map fun line =>
    ⟨line.back.getD 0, line.front, line.soundBlock, opens floors ceilings line⟩)

/-- `crossings`. -/
def crossings (ways : List Way) (blocks : Bool) (sectors : List Nat) : List Nat :=
  ((ways.filter fun way => way.opens && way.blocks == blocks && way.out ∈ sectors).map
    (·.into)).eraseDups

/-- `spread`. -/
def spread (ways : List Way) (rounds : Nat) (held : List Nat × List Nat) : List Nat × List Nat :=
  (List.range rounds).foldl (fun held _ =>
    let next := (crossings ways false held.2).filter (· ∉ held.1)
    (held.1 ++ next, next)) held

/-- `nz_near`. -/
def near (halls : Halls) (floors ceilings : List Int32) (sector : Nat) : List Nat :=
  (spread (ways halls floors ceilings) floors.length ([sector], [sector])).1

/-- `nz_seeds`. -/
def seeds (halls : Halls) (floors ceilings : List Int32) (sector : Nat) : List Nat :=
  (crossings (ways halls floors ceilings) true (near halls floors ceilings sector)).filter
    (· ∉ near halls floors ceilings sector)

/-- `nz_far`. -/
def far (halls : Halls) (floors ceilings : List Int32) (sector : Nat) : List Nat :=
  (spread (ways halls floors ceilings) floors.length
    (near halls floors ceilings sector ++ seeds halls floors ceilings sector,
      seeds halls floors ceilings sector)).1.drop (near halls floors ceilings sector).length

/-- `alert`. -/
def alert (halls : Halls) (floors ceilings : List Int32) (sector : Nat) : List Nat :=
  (List.range floors.length).map fun s =>
    if s ∈ near halls floors ceilings sector then 1
    else if s ∈ far halls floors ceilings sector then 2
    else 0

/-- `nz_alerted`: the sound targets and the counts a shot leaves. -/
def alerted (halls : Halls) (floors ceilings : List Int32) (slot sector : Nat)
    (held : List Nat × List Int) : List Nat × List Int :=
  let reached := alert halls floors ceilings sector
  (List.zipWith (fun (r t : Nat) => if r ≠ 0 then slot else t) reached held.1,
    List.zipWith (fun (r : Nat) (v : Int) => if r ≠ 0 then (r : Int) else v) reached held.2)

/-! ## Openings -/

section
variable {halls : Halls} {floors ceilings : List Int32}

/-- The opening of a line fits a `fixed_t`. -/
def GapFits (floors ceilings : List Int32) (line : SoundLine) : Prop :=
  -2147483648 ≤ (opening floors ceilings line).1.toInt - (opening floors ceilings line).2.toInt ∧
    (opening floors ceilings line).1.toInt - (opening floors ceilings line).2.toInt < 2147483648

theorem openrange_eq (line : SoundLine) :
    openrange floors ceilings line =
      (opening floors ceilings line).1 - (opening floors ceilings line).2 := by
  cases hback : line.back with
  | none => simp [openrange, opening, hback]
  | some back =>
    simp only [openrange, opening, hback, SignedWords.min_eq_ite, SignedWords.max_eq_ite]

/-- The pass and the engine call the same lines open exactly where the opening fits. -/
theorem opens_iff (line : SoundLine) :
    (opens floors ceilings line = true ↔ openrange floors ceilings line > 0) ↔
      GapFits floors ceilings line := by
  set top := (opening floors ceilings line).1 with htop
  set bottom := (opening floors ceilings line).2 with hbottom
  have hopens : opens floors ceilings line = true ↔ top.toInt - bottom.toInt > 0 := by
    simp [opens, ← htop, ← hbottom]
  have hrange : openrange floors ceilings line > 0 ↔
      (top.toInt - bottom.toInt).bmod 4294967296 > 0 := by
    rw [openrange_eq, gt_iff_lt, Int32.lt_iff_toInt_lt, Int32.toInt_sub]
    rfl
  have hd : -4294967296 < top.toInt - bottom.toInt ∧ top.toInt - bottom.toInt < 4294967296 := by
    have h1 := top.toInt_lt
    have h2 := top.le_toInt
    have h3 := bottom.toInt_lt
    have h4 := bottom.le_toInt
    omega
  rw [hopens, hrange, GapFits, ← htop, ← hbottom]
  generalize top.toInt - bottom.toInt = d at hd
  rw [Int.bmod_def]
  simp only [Nat.cast_ofNat]
  split <;> omega

/-! ## What the floods find -/

theorem mem_crossings {blocks : Bool} {sectors : List Nat} {y : Nat} :
    y ∈ crossings (ways halls floors ceilings) blocks sectors ↔
      ∃ x ∈ sectors, halls.Crosses (opens floors ceilings) blocks x y := by
  rw [crossings, List.mem_eraseDups, List.mem_map]
  simp only [ways, List.mem_filter, List.mem_append, List.mem_map, Bool.and_eq_true,
    beq_iff_eq, decide_eq_true_eq]
  constructor
  · rintro ⟨way, ⟨⟨line, ⟨hline, h2⟩, rfl⟩ | ⟨line, ⟨hline, h2⟩, rfl⟩, ⟨ho, hb⟩, hmem⟩, rfl⟩
    all_goals
      obtain ⟨back, hback⟩ := Option.isSome_iff_exists.mp (halls.sided line hline h2)
    · exact ⟨line.front, hmem, line, hline, h2, ho, hb, .inl ⟨rfl, by simp [hback]⟩⟩
    · exact ⟨_, hmem, line, hline, h2, ho, hb, .inr ⟨rfl, by simp [hback]⟩⟩
  · rintro ⟨x, hx, line, hline, h2, ho, hb, ⟨hfront, hback⟩ | ⟨hfront, hback⟩⟩
    · exact ⟨_, ⟨.inl ⟨line, ⟨hline, h2⟩, rfl⟩, ⟨ho, hb⟩, hfront ▸ hx⟩, by simp [hback]⟩
    · exact ⟨_, ⟨.inr ⟨line, ⟨hline, h2⟩, rfl⟩, ⟨ho, hb⟩, by simpa [hback] using hx⟩, hfront⟩

theorem spread_eq (ways : List Way) (rounds : Nat) (held : List Nat × List Nat) :
    spread ways rounds held = (Flood.round (crossings ways false))^[rounds] held := by
  rw [spread, List.foldl_const, List.length_range]
  rfl

/-- A flood over the sectors is done after as many rounds as there are of them. -/
theorem mem_spread (hlen : floors.length = halls.sectors) {held : List Nat × List Nat}
    (spreads : Flood.Spreads (halls.Crosses (opens floors ceilings) false) held)
    (start : held.1 ≠ []) (inside : ∀ x ∈ held.1, x < halls.sectors) {y : Nat} :
    y ∈ (spread (ways halls floors ceilings) floors.length held).1 ↔
      y ∈ held.1 ∨ ∃ x ∈ held.2, halls.Near (opens floors ceilings) x y := by
  have hrounds : y ∈ ((Flood.round (crossings (ways halls floors ceilings) false))^[
      (Finset.range halls.sectors).card] held).1 ↔ _ :=
    Flood.mem_rounds (fun l y => mem_crossings) (fun l => Marks.nodup_eraseDups _) spreads
      (Finset.range halls.sectors) start (fun x hx => Finset.mem_range.mpr (inside x hx))
      (fun x _ y hxy => Finset.mem_range.mpr hxy.lt)
  rw [Finset.card_range, ← hlen, ← spread_eq] at hrounds
  exact hrounds

theorem spreads_source (sector : Nat) :
    Flood.Spreads (halls.Crosses (opens floors ceilings) false) ([sector], [sector]) :=
  ⟨List.nodup_singleton _, fun _ hx => hx, fun _ hx hnot => absurd hx hnot⟩

theorem mem_near (hlen : floors.length = halls.sectors) {sector x : Nat}
    (hsector : sector < halls.sectors) :
    x ∈ near halls floors ceilings sector ↔ halls.Near (opens floors ceilings) sector x := by
  rw [near, mem_spread hlen (spreads_source sector) (by simp) (by simpa using hsector)]
  constructor
  · rintro (h | ⟨y, hy, h⟩)
    · rw [List.mem_singleton.mp h]
      exact .refl
    · rwa [List.mem_singleton.mp hy] at h
  · exact fun h => .inr ⟨sector, List.mem_singleton_self _, h⟩

theorem near_ne_nil (sector : Nat) : near halls floors ceilings sector ≠ [] := by
  obtain ⟨more, h⟩ := Flood.rounds_append (crossings (ways halls floors ceilings) false)
    ([sector], [sector]) floors.length
  rw [near, spread_eq, h]
  simp

theorem nodup_near (sector : Nat) : (near halls floors ceilings sector).Nodup := by
  rw [near, spread_eq]
  exact ((spreads_source sector).rounds (fun l y => mem_crossings) (fun l => Marks.nodup_eraseDups _) _).nodup

/-- A sector the first flood does not hold is one the second finds exactly where the sound
comes to it over one blocking line. -/
theorem mem_far (hlen : floors.length = halls.sectors) {sector x : Nat}
    (hsector : sector < halls.sectors) (hnear : x ∉ near halls floors ceilings sector) :
    x ∈ far halls floors ceilings sector ↔ halls.Far (opens floors ceilings) sector x := by
  set reached := near halls floors ceilings sector with hreached
  set ways := ways halls floors ceilings with hways
  have hseeds : ∀ v, v ∈ seeds halls floors ceilings sector ↔
      (∃ u ∈ reached, halls.Crosses (opens floors ceilings) true u v) ∧ v ∉ reached := by
    intro v
    rw [seeds, List.mem_filter, mem_crossings, ← hreached]
    simp
  have spreads : Flood.Spreads (halls.Crosses (opens floors ceilings) false)
      (reached ++ seeds halls floors ceilings sector, seeds halls floors ceilings sector) := by
    refine ⟨List.nodup_append.mpr ⟨nodup_near sector, (Marks.nodup_eraseDups _).filter _, ?_⟩,
      fun v hv => List.mem_append_right _ hv, ?_⟩
    · rintro u hu v hv rfl
      exact ((hseeds u).mp hv).2 hu
    · intro u hu hnot y huy
      have hu' : u ∈ reached := (List.mem_append.mp hu).resolve_right hnot
      rw [hreached, mem_near hlen hsector] at hu'
      exact List.mem_append_left _ ((mem_near hlen hsector).mpr (hu'.tail huy))
  have inside : ∀ v ∈ reached ++ seeds halls floors ceilings sector, v < halls.sectors := by
    intro v hv
    rcases List.mem_append.mp hv with h | h
    · rw [hreached, mem_near hlen hsector] at h
      cases h with
      | refl => exact hsector
      | tail _ step => exact step.lt
    · obtain ⟨u, -, huv⟩ := ((hseeds v).mp h).1
      exact huv.lt
  have hmem := mem_spread hlen spreads (by simp [hreached, near_ne_nil]) inside (y := x)
  obtain ⟨more, hmore⟩ := Flood.rounds_append (crossings ways false)
    (reached ++ seeds halls floors ceilings sector, seeds halls floors ceilings sector)
    floors.length
  rw [← spread_eq] at hmore
  have hfar : x ∈ far halls floors ceilings sector ↔
      x ∈ (spread ways floors.length
        (reached ++ seeds halls floors ceilings sector, seeds halls floors ceilings sector)).1 := by
    rw [far, ← hreached, ← hways, hmore, List.append_assoc, List.drop_left,
      List.mem_append (s := reached)]
    simp [hnear]
  rw [hfar, hmem]
  constructor
  · have along : ∀ v ∈ seeds halls floors ceilings sector,
        halls.Near (opens floors ceilings) v x → halls.Far (opens floors ceilings) sector x := by
      intro v hv hvx
      obtain ⟨u, hu, huv⟩ := ((hseeds v).mp hv).1
      exact ⟨u, v, (mem_near hlen hsector).mp hu, huv, hvx⟩
    rintro (h | ⟨v, hv, hvx⟩)
    · exact along x ((List.mem_append.mp h).resolve_left hnear) .refl
    · exact along v hv hvx
  · rintro ⟨u, v, hu, huv, hvx⟩
    refine .inr ⟨v, (hseeds v).mpr ⟨⟨u, (mem_near hlen hsector).mpr hu, huv⟩, fun hv => ?_⟩, hvx⟩
    exact hnear ((mem_near hlen hsector).mpr (((mem_near hlen hsector).mp hv).trans hvx))

theorem alert_getD (hlen : floors.length = halls.sectors) {sector x : Nat}
    (hsector : sector < halls.sectors) (hx : x < halls.sectors) :
    (alert halls floors ceilings sector).getD x 0 =
      halls.mark (opens floors ceilings) sector x := by
  have hget : (alert halls floors ceilings sector).getD x 0 =
      if x ∈ near halls floors ceilings sector then 1
      else if x ∈ far halls floors ceilings sector then 2 else 0 := by
    simp [alert, hlen, hx]
  rw [hget, Halls.mark]
  by_cases hnear : x ∈ near halls floors ceilings sector
  · rw [if_pos hnear, if_pos ((mem_near hlen hsector).mp hnear)]
  · rw [if_neg hnear, if_neg (mt (mem_near hlen hsector).mpr hnear)]
    by_cases hfar : x ∈ far halls floors ceilings sector
    · rw [if_pos hfar, if_pos ((mem_far hlen hsector hnear).mp hfar)]
    · rw [if_neg hfar, if_neg (mt (mem_far hlen hsector hnear).mpr hfar)]

end

/-! ## The alert -/

theorem map_paint (validcount target : Nat) (sectors : List SoundSector) (marks : List Nat) :
    (paint validcount target sectors marks).map (·.soundtarget) =
        List.zipWith (fun (r t : Nat) => if r ≠ 0 then target else t) marks
          (sectors.map (·.soundtarget)) ∧
      (paint validcount target sectors marks).map (·.soundtraversed) =
        List.zipWith (fun (r : Nat) (v : Int) => if r ≠ 0 then (r : Int) else v) marks
          (sectors.map (·.soundtraversed)) := by
  induction sectors generalizing marks with
  | nil => simp [paint]
  | cons sector rest ih =>
    cases marks with
    | nil => simp [paint]
    | cons mark marks =>
      obtain ⟨htarget, htraversed⟩ := ih marks
      rw [paint] at htarget htraversed
      by_cases hm : mark = 0 <;> simp [paint, hm, htarget, htraversed]

/-- Two floods of as many rounds as there are sectors leave every sector the target and the
count `P_RecursiveSound` leaves it, where every opening fits a `fixed_t`. -/
theorem alerted_eq_engine (halls : Halls) (floors ceilings : List Int32) (sounds : Sounds)
    (target sector fuel : Nat) (hlen : floors.length = halls.sectors)
    (hsounds : sounds.sectors.length = halls.sectors) (hsector : sector < halls.sectors)
    (hfuel : halls.sectors * 2 < fuel)
    (fits : ∀ line ∈ halls.lines, line.twoSided = true → GapFits floors ceilings line) :
    (noiseAlert halls floors ceilings sounds target sector fuel).map
        (fun left => (left.map (·.soundtarget), left.map (·.soundtraversed))) =
      some (alerted halls floors ceilings target sector
        (sounds.sectors.map (·.soundtarget), sounds.sectors.map (·.soundtraversed))) := by
  obtain ⟨marks, halert, hlength, hmarks⟩ :=
    Engine.noiseAlert_marks halls floors ceilings sounds target hsounds hsector hfuel
  have hsame : halls.mark (fun line => openrange floors ceilings line > 0) =
      halls.mark (opens floors ceilings) := by
    refine Halls.mark_congr fun line hline h2 => ?_
    rw [Bool.eq_iff_iff, decide_eq_true_eq]
    exact ((opens_iff line).mpr (fits line hline h2)).symm
  have hmarks' : marks = alert halls floors ceilings sector := by
    refine List.ext_getElem (by simp [alert, hlength, hlen]) fun x h1 h2 => ?_
    have hx : x < halls.sectors := hlength ▸ h1
    have hget : (alert halls floors ceilings sector).getD x 0 = _ := alert_getD hlen hsector hx
    rw [← hsame, ← hmarks, List.getD_eq_getElem _ _ h1, List.getD_eq_getElem _ _ h2] at hget
    exact hget.symm
  obtain ⟨htarget, htraversed⟩ := map_paint (sounds.validcount + 1) target sounds.sectors marks
  rw [halert, Option.map_some, htarget, htraversed, hmarks']
  rfl

/-- Three halls in a row, the second line blocking sound. -/
def row : Halls where
  sectors := 3
  lines := [⟨0, some 1, true, false⟩, ⟨1, some 2, true, true⟩, ⟨2, none, false, false⟩]
  front_lt := by decide
  back_lt := by simp
  sided := by decide

/-- No alert has been heard in three sectors. -/
def quiet : Sounds where
  validcount := 7
  sectors := [⟨0, 0, 0⟩, ⟨3, 2, 5⟩, ⟨0, 0, 0⟩]
  held := by decide

theorem alerted_row :
    (noiseAlert row [0, 0, 0] [128, 128, 128] quiet 1 0 7).map
        (fun left => (left.map (·.soundtarget), left.map (·.soundtraversed))) =
      some ([1, 1, 1], [1, 1, 2]) := by
  rw [alerted_eq_engine row [0, 0, 0] [128, 128, 128] quiet 1 0 7 rfl rfl (by decide)
    (by decide) (by unfold GapFits; decide)]
  decide

/-- Two halls whose opening is 40000 units high: the engine takes it for a closed door. -/
def tall : Halls where
  sectors := 2
  lines := [⟨0, some 1, true, false⟩]
  front_lt := by decide
  back_lt := by simp
  sided := by decide

def silent : Sounds where
  validcount := 0
  sectors := [⟨0, 0, 0⟩, ⟨0, 0, 0⟩]
  held := by decide

theorem tall_parts :
    noiseAlert tall [-20000 * 65536, -20000 * 65536] [20000 * 65536, 20000 * 65536] silent 1 0 5 =
        some [⟨1, 1, 1⟩, ⟨0, 0, 0⟩] ∧
      alerted tall [-20000 * 65536, -20000 * 65536] [20000 * 65536, 20000 * 65536] 1 0
          ([0, 0], [0, 0]) = ([1, 1], [1, 1]) := by
  decide

end ClickDoom.Native.Noise

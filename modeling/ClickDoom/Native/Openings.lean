import ClickDoom.Engine.Sight

/-! # What a seg divides

`seg_openings` of `native/src/sql/sim/sight.rs`: the heights on a seg's two sides,
turned into one value per seg, beside what `P_CrossSubsector` of `p_sight.c` computes
from its two sectors.
-/
namespace ClickDoom.Native.Sight
open Engine (Sector Opening opening)

/-- The sector columns of `lv_segs`; a seg of a line without the two-sided flag has
the back sector -1. -/
structure SegSectors where
  front : Int
  back : Int
  deriving DecidableEq, Repr

/-- The sector at a column's number; the two height arrays are indexed alike and the
server gives zeros for -1. -/
def sectorAt (sectors : List Sector) (number : Int) : Sector :=
  if number < 0 then ⟨0, 0⟩ else sectors.getD number.toNat ⟨0, 0⟩

/-- One seg's values in `seg_openings`: the back sector's number is held at the
front's or above. -/
def segOpening (sectors : List Sector) (seg : SegSectors) : Opening :=
  let front := sectorAt sectors seg.front
  let back := sectorAt sectors (max seg.back seg.front)
  { opentop := min front.ceilingheight back.ceilingheight
    openbottom := max front.floorheight back.floorheight
    stepped := front.floorheight != back.floorheight
    ducked := front.ceilingheight != back.ceilingheight }

def segOpenings (sectors : List Sector) (segs : List SegSectors) : List Opening :=
  segs.map (segOpening sectors)

/-- A two-sided seg: its columns name the sectors `front` and `back` of the level. -/
structure SegSectors.Divides (seg : SegSectors) (sectors : List Sector) (front back : Sector) :
    Prop where
  front_nonneg : 0 ≤ seg.front
  back_nonneg : 0 ≤ seg.back
  front_at : sectors[seg.front.toNat]? = some front
  back_at : sectors[seg.back.toNat]? = some back

/-- The seg on the other side of the same line. -/
def SegSectors.swap (seg : SegSectors) : SegSectors := ⟨seg.back, seg.front⟩

/-! ## Which sector the back is read from -/

theorem opening_self_iff (front back : Sector) :
    opening front front = opening front back ↔ front = back := by
  constructor
  · intro eq
    have floors : (false : Bool) = (front.floorheight != back.floorheight) := by
      simpa [opening] using congrArg Opening.stepped eq
    have ceilings : (false : Bool) = (front.ceilingheight != back.ceilingheight) := by
      simpa [opening] using congrArg Opening.ducked eq
    cases front
    cases back
    simp_all
  · rintro rfl
    rfl

theorem opening_comm (front back : Sector) : opening front back = opening back front := by
  have lower : ∀ a b : Int32, (if a < b then a else b) = if b < a then b else a := by
    intro a b
    split <;> split
    · exact absurd (Int32.lt_trans ‹_› ‹_›) (Int32.lt_irrefl)
    · rfl
    · rfl
    · exact Int32.le_antisymm (Int32.not_lt.1 ‹_›) (Int32.not_lt.1 ‹_›)
  have higher : ∀ a b : Int32, (if a > b then a else b) = if b > a then b else a := by
    intro a b
    split <;> split
    · exact absurd (Int32.lt_trans ‹_› ‹_›) (Int32.lt_irrefl)
    · rfl
    · rfl
    · exact Int32.le_antisymm (Int32.not_lt.1 ‹_›) (Int32.not_lt.1 ‹_›)
  simp only [opening, lower front.ceilingheight, higher front.floorheight,
    bne_comm (a := front.floorheight), bne_comm (a := front.ceilingheight)]

theorem segOpening_eq (sectors : List Sector) (seg : SegSectors) :
    segOpening sectors seg =
      opening (sectorAt sectors seg.front) (sectorAt sectors (max seg.back seg.front)) := by
  simp only [segOpening, opening, SignedWords.min_eq_ite, SignedWords.max_eq_ite]

/-- The opening is the two sectors' own exactly when the back sector's number is not
below the front's or both stand at the same heights. -/
theorem segOpening_iff (sectors : List Sector) (seg : SegSectors) :
    segOpening sectors seg =
        opening (sectorAt sectors seg.front) (sectorAt sectors seg.back) ↔
      seg.front ≤ seg.back ∨ sectorAt sectors seg.front = sectorAt sectors seg.back := by
  rw [segOpening_eq]
  by_cases order : seg.front ≤ seg.back
  · simp [order]
  · rw [max_eq_right (not_le.1 order).le, opening_self_iff]
    simp [order]

variable {sectors : List Sector} {segs : List SegSectors}

theorem sectorAt_of_getElem? {number : Int} {sector : Sector} (nonneg : 0 ≤ number)
    (found : sectors[number.toNat]? = some sector) : sectorAt sectors number = sector := by
  rw [sectorAt, if_neg (not_lt.2 nonneg), List.getD_eq_getElem?_getD, found]
  rfl

theorem segOpenings_getElem? {i : Nat} {seg : SegSectors} (here : segs[i]? = some seg) :
    (segOpenings sectors segs)[i]? = some (segOpening sectors seg) := by
  rw [segOpenings, List.getElem?_map, here]
  rfl

theorem segOpening_swap_iff {seg : SegSectors} {front back : Sector}
    (divides : seg.Divides sectors front back) :
    segOpening sectors seg = segOpening sectors seg.swap ↔ front = back := by
  have atFront := sectorAt_of_getElem? divides.front_nonneg divides.front_at
  have atBack := sectorAt_of_getElem? divides.back_nonneg divides.back_at
  rw [segOpening_eq, segOpening_eq, SegSectors.swap, atFront, atBack]
  rcases le_total seg.front seg.back with order | order
  · rw [max_eq_left order, max_eq_right order, atBack, eq_comm, opening_comm front back,
      opening_self_iff, eq_comm]
  · rw [max_eq_right order, max_eq_left order, atFront, opening_comm back front, opening_self_iff]

/-- For every level, all heights and every two-sided seg, the facts of the seg are
those of its two sectors, and those of the other seg of its line, exactly as follows. -/
theorem segOpenings_two_sided (sectors : List Sector) (segs : List SegSectors) :
    (∀ (i : Nat) (seg : SegSectors) (front back : Sector), segs[i]? = some seg →
      seg.Divides sectors front back →
      ((segOpenings sectors segs)[i]? = some (opening front back) ↔
        seg.front ≤ seg.back ∨ front = back)) ∧
    (∀ (i j : Nat) (seg : SegSectors) (front back : Sector), segs[i]? = some seg →
      segs[j]? = some seg.swap → seg.Divides sectors front back →
      ((segOpenings sectors segs)[i]? = (segOpenings sectors segs)[j]? ↔ front = back)) := by
  constructor
  · intro i seg front back here divides
    have atFront := sectorAt_of_getElem? divides.front_nonneg divides.front_at
    have atBack := sectorAt_of_getElem? divides.back_nonneg divides.back_at
    rw [segOpenings_getElem? here, Option.some_inj, ← atFront, ← atBack]
    exact segOpening_iff sectors seg
  · intro i j seg front back here behind divides
    rw [segOpenings_getElem? here, segOpenings_getElem? behind, Option.some_inj]
    exact segOpening_swap_iff divides

/-- A room and a lower one behind a step. -/
def stepSectors : List Sector := [⟨0, 8388608⟩, ⟨1572864, 6291456⟩]

/-- Facing the higher-numbered sector the facts are right. -/
theorem segOpenings_facing_up :
    (segOpenings stepSectors [⟨0, 1⟩])[0]? = some (opening ⟨0, 8388608⟩ ⟨1572864, 6291456⟩) :=
  ((segOpenings_two_sided stepSectors [⟨0, 1⟩]).1 0 ⟨0, 1⟩ _ _ rfl
    ⟨by decide, by decide, rfl, rfl⟩).2 (.inl (by decide))

/-- From the higher-numbered side the step is missed: the two segs of one line carry
different facts. -/
theorem step_missed_facing_down :
    (segOpenings stepSectors [⟨0, 1⟩, ⟨1, 0⟩])[1]? =
      some ⟨6291456, 1572864, false, false⟩ ∧
    opening ⟨1572864, 6291456⟩ ⟨0, 8388608⟩ = ⟨6291456, 1572864, true, true⟩ ∧
    (segOpenings stepSectors [⟨0, 1⟩, ⟨1, 0⟩])[0]? ≠
      (segOpenings stepSectors [⟨0, 1⟩, ⟨1, 0⟩])[1]? := by
  decide

end ClickDoom.Native.Sight

import ClickDoom.Native.Compose

/-! # A composed frame is a painted one

Sorting the drawn pixels and keeping the last of each offset leaves what painting them in order
would; cutting the runs of their offsets into the frame before changes those bytes and no others.
The string and the array of a frame hold the same bytes, in every frame a session draws.
-/
namespace ClickDoom.Native.Compose
open ClickHouse Runs

/-- Pixels that can be drawn: they lie in the frame, and no two have one key. -/
structure Drawable (pxAll : List Pixel) : Prop where
  inside : ∀ t ∈ pxAll, t.1.toNat / 1048576 < fbBytes
  distinct : (pxAll.map Prod.fst).Nodup

/-- The pixel drawn last at its offset. -/
def Latest (pxAll : List Pixel) (t : Pixel) : Prop :=
  t ∈ pxAll ∧ ∀ u ∈ pxAll, offset u = offset t → u.1 ≤ t.1

theorem offset_eq {t : Pixel} (inside : t.1.toNat / 1048576 < fbBytes) :
    offset t = t.1.toNat / 1048576 :=
  Nat.mod_eq_of_lt (inside.trans (by decide))

theorem offset_lt {t : Pixel} (inside : t.1.toNat / 1048576 < fbBytes) : offset t < fbBytes := by
  rwa [offset_eq inside]

/-! ## The last pixel of an offset -/

theorem lastOfRun_cons_cons (t u : Pixel) (l : List Pixel) :
    lastOfRun (t :: u :: l) =
      if offset t = offset u then lastOfRun (u :: l) else t :: lastOfRun (u :: l) := by
  by_cases same : offset t = offset u <;>
    simp [lastOfRun, shifted_false, arrayFilterThree, after_cons_cons, same]

theorem lastOfRun_singleton {t : Pixel} (inside : offset t < fbBytes) : lastOfRun [t] = [t] := by
  have small : offset t ≠ noOffset := by
    rw [fbBytes] at inside
    rw [noOffset]
    omega
  simp [lastOfRun, shifted_false, arrayFilterThree, after_singleton, small]

theorem mem_of_mem_lastOfRun {l : List Pixel} {t : Pixel} (there : t ∈ lastOfRun l) : t ∈ l := by
  obtain ⟨⟨u, a, n⟩, kept, rfl⟩ := List.mem_map.1 there
  exact (List.of_mem_zip (List.mem_of_mem_filter kept)).1

theorem offset_mono {t u : Pixel} (ht : t.1.toNat / 1048576 < fbBytes)
    (hu : u.1.toNat / 1048576 < fbBytes) (lt : t.1 < u.1) : offset t ≤ offset u := by
  rw [offset_eq ht, offset_eq hu]
  exact Nat.div_le_div_right (UInt64.lt_iff_toNat_lt.1 lt).le

section
variable {l : List Pixel} (inside : ∀ t ∈ l, t.1.toNat / 1048576 < fbBytes)
  (sorted : l.Pairwise fun t u => t.1 < u.1)
include inside sorted

/-- The last pixels of the offsets of a sorted list. -/
theorem mem_lastOfRun (t : Pixel) : t ∈ lastOfRun l ↔ Latest l t := by
  induction l with
  | nil => simp [lastOfRun, arrayFilterThree, Latest]
  | cons v l ih =>
    obtain ⟨low, sorted⟩ := List.pairwise_cons.1 sorted
    obtain ⟨here, inside⟩ := List.forall_mem_cons.1 inside
    cases l with
    | nil =>
      rw [lastOfRun_singleton (offset_lt here)]
      simp only [List.mem_singleton, Latest]
      refine ⟨?_, And.left⟩
      rintro rfl
      refine ⟨rfl, fun u same _ => ?_⟩
      rw [same]
      exact UInt64.le_refl _
    | cons u l =>
      have later := ih inside sorted
      have next := low u List.mem_cons_self
      rw [lastOfRun_cons_cons]
      have apart : ∀ w ∈ u :: l, offset v ≤ offset w := fun w there =>
        offset_mono here (inside w there) (low w there)
      have beyond : ∀ w ∈ u :: l, offset u ≤ offset w := fun w there => by
        rcases List.mem_cons.1 there with rfl | there
        · exact le_refl _
        · exact offset_mono (inside u List.mem_cons_self)
            (inside w (List.mem_cons_of_mem _ there)) ((List.pairwise_cons.1 sorted).1 w there)
      -- whether the first pixel is drawn over decides both sides
      by_cases same : offset v = offset u
      · rw [if_pos same, later]
        constructor
        · rintro ⟨there, last⟩
          refine ⟨List.mem_cons_of_mem _ there, List.forall_mem_cons.2 ⟨fun _ => ?_, last⟩⟩
          exact UInt64.le_of_lt (low t there)
        · rintro ⟨there, last⟩
          rcases List.mem_cons.1 there with rfl | there
          · exact absurd next (UInt64.not_lt.2 (last u (by simp) same.symm))
          · exact ⟨there, fun w in' => last w (List.mem_cons_of_mem _ in')⟩
      · rw [if_neg same, List.mem_cons, later]
        have first : ∀ w ∈ u :: l, offset v ≠ offset w := fun w there equal =>
          same ((apart u List.mem_cons_self).antisymm (equal ▸ beyond w there))
        constructor
        · rintro (rfl | ⟨there, last⟩)
          · refine ⟨List.mem_cons_self, List.forall_mem_cons.2 ⟨fun _ => UInt64.le_refl _, ?_⟩⟩
            exact fun w there equal => absurd equal.symm (first w there)
          · exact ⟨List.mem_cons_of_mem _ there, List.forall_mem_cons.2
              ⟨fun equal => absurd equal (first t there), last⟩⟩
        · rintro ⟨there, last⟩
          rcases List.mem_cons.1 there with rfl | there
          · exact .inl rfl
          · exact .inr ⟨there, fun w in' => last w (List.mem_cons_of_mem _ in')⟩

/-- Their offsets increase. -/
theorem increases_lastOfRun : ((lastOfRun l).map offset).Pairwise (· < ·) := by
  induction l with
  | nil => exact List.Pairwise.nil
  | cons v l ih =>
    obtain ⟨low, sorted⟩ := List.pairwise_cons.1 sorted
    obtain ⟨here, inside⟩ := List.forall_mem_cons.1 inside
    cases l with
    | nil =>
      rw [lastOfRun_singleton (offset_lt here)]
      exact List.pairwise_singleton _ _
    | cons u l =>
      have later := ih inside sorted
      rw [lastOfRun_cons_cons]
      by_cases same : offset v = offset u
      · rwa [if_pos same]
      · rw [if_neg same, List.map_cons]
        refine List.pairwise_cons.2 ⟨List.forall_mem_map.2 fun w kept => ?_, later⟩
        have up := offset_mono here (inside u List.mem_cons_self) (low u List.mem_cons_self)
        have there := mem_of_mem_lastOfRun kept
        have beyond : offset u ≤ offset w := by
          rcases List.mem_cons.1 there with rfl | there
          · exact le_refl _
          · exact offset_mono (inside u List.mem_cons_self)
              (inside w (List.mem_cons_of_mem _ there)) ((List.pairwise_cons.1 sorted).1 w there)
        omega

end

section
variable {pxAll : List Pixel} (drawable : Drawable pxAll)
include drawable

theorem pxOrdered_sorted : (pxOrdered pxAll).Pairwise fun t u => t.1 < u.1 := by
  have sorted : (pxOrdered pxAll).Pairwise fun t u => t.1 ≤ u.1 := by
    refine (List.pairwise_mergeSort ?_ ?_ pxAll).imp fun le => of_decide_eq_true le
    · intro a b c ab bc
      exact decide_eq_true (UInt64.le_trans (of_decide_eq_true ab) (of_decide_eq_true bc))
    · intro a b
      simpa using UInt64.le_total a.1 b.1
  have distinct : ((pxOrdered pxAll).map Prod.fst).Nodup :=
    ((List.mergeSort_perm pxAll _).map Prod.fst).nodup_iff.2 drawable.distinct
  exact (sorted.and (List.pairwise_map.1 distinct)).imp fun ⟨le, ne⟩ => UInt64.lt_of_le_of_ne le ne

theorem inside_pxOrdered : ∀ t ∈ pxOrdered pxAll, t.1.toNat / 1048576 < fbBytes := fun t there =>
  drawable.inside t ((List.mergeSort_perm pxAll _).mem_iff.1 there)

theorem mem_pxSorted (t : Pixel) : t ∈ pxSorted pxAll ↔ Latest pxAll t := by
  rw [pxSorted, mem_lastOfRun (inside_pxOrdered drawable) (pxOrdered_sorted drawable), Latest, Latest]
  simp only [pxOrdered, List.mem_mergeSort]

theorem increases_pxAt : (pxAt pxAll).Pairwise (· < ·) :=
  increases_lastOfRun (inside_pxOrdered drawable) (pxOrdered_sorted drawable)

theorem pxAt_lt : ∀ a ∈ pxAt pxAll, a < fbBytes := by
  refine List.forall_mem_map.2 fun t kept => offset_lt (drawable.inside t ?_)
  exact ((mem_pxSorted drawable t).1 kept).1

end

/-! ## Cutting the runs in -/

theorem slice_nonneg {α : Type} (a : List α) (offset n : Nat) {length : Int}
    (same : length = n) : slice a offset length = (a.drop (offset - 1)).take n := by
  subst same
  rw [slice]
  simp

theorem runStart_eq (pxAt : List Nat) : runStart pxAt = starts noOffset pxAt := by
  rw [runStart, shifted_true]
  rfl

theorem runHead_eq (pxAt : List Nat) : runHead pxAt = heads 1 noOffset pxAt := by
  rw [runHead, shifted_true]
  rfl

theorem runEnd_eq (pxAt : List Nat) : runEnd pxAt = ends noOffset pxAt := by
  rw [runEnd, shifted_false]
  rfl

/-- Just past the run before, for each run. -/
def gapsOf : Nat → List (Nat × Nat) → List Nat
  | _, [] => []
  | gap, (start, more) :: runs => gap :: gapsOf (start + more + 1) runs

/-- Just past the last run. -/
def pastOf : Nat → List (Nat × Nat) → Nat
  | gap, [] => gap
  | _, (start, more) :: runs => pastOf (start + more + 1) runs

theorem gapsOf_eq (gap : Nat) (run : Nat × Nat) (runs : List (Nat × Nat)) :
    gapsOf gap (run :: runs) =
      gap :: ((run :: runs).map fun run => run.1 + run.2).dropLast.map (· + 1) := by
  induction runs generalizing gap run with
  | nil => rfl
  | cons next runs ih =>
    rw [gapsOf, ih]
    rfl

theorem pastOf_eq (gap : Nat) (run : Nat × Nat) (runs : List (Nat × Nat)) :
    pastOf gap (run :: runs) = ((run :: runs).map fun run => run.1 + run.2).getLastD 0 + 1 := by
  induction runs generalizing gap run with
  | nil => rfl
  | cons next runs ih =>
    rw [pastOf, ih]
    rfl

/-- The runs one after the other, with the frame before between them and after them. -/
theorem patched_eq {prev px : List UInt8} (long : prev.length = fbBytes) {gap i : Nat}
    {runs : List (Nat × Nat)} (apart : Apart gap runs) :
    (((gapsOf gap runs).zip ((runs.map Prod.fst).zip ((runs.map fun run => run.1 + run.2).zip
      (headsOf (i + 1) runs)))).map fun (gf, rs, re, h) =>
        slice prev (gf + 1) ((rs : Int) - gf) ++ slice px h ((re : Int) - rs + 1)).flatten ++
      slice prev (pastOf gap runs + 1) fbBytes = patched prev px gap i runs := by
  induction runs generalizing gap i with
  | nil =>
    rw [slice_nonneg prev _ _ rfl]
    have all : (prev.drop gap).length ≤ fbBytes := by
      rw [List.length_drop]
      omega
    exact List.take_of_length_le all
  | cons run runs ih =>
    obtain ⟨start, more⟩ := run
    obtain ⟨first, apart⟩ := apart
    have later := ih (apart.mono (by omega) : Apart (start + more + 1) runs) (i := i + (more + 1))
    have before := slice_nonneg prev (gap + 1) (start - gap) (by omega : (start : Int) - gap = _)
    have inside := slice_nonneg px (i + 1) (more + 1)
      (by push_cast; omega : ((start + more : Nat) : Int) - start + 1 = _)
    rw [patched, ← later]
    simp only [gapsOf, headsOf, pastOf, List.map_cons, List.zip_cons_cons, List.flatten_cons]
    rw [before, inside, List.append_assoc, List.append_assoc, List.append_assoc]
    have place : i + 1 + (more + 1) = i + (more + 1) + 1 := by omega
    rw [place]
    rfl

/-- The frame before with the runs cut in. -/
theorem spliced_cover {prev px : List UInt8} {runs : List (Nat × Nat)} (apart : Apart 0 runs)
    (low : ∀ a ∈ cover runs, a < fbBytes) (long : prev.length = fbBytes) :
    spliced (cover runs) prev px = patched prev px 0 0 runs := by
  have far : ∀ a ∈ cover runs, a ≠ noOffset + 1 := fun a there => by
    have := low a there
    rw [fbBytes] at this
    rw [noOffset]
    omega
  have far' : ∀ a ∈ cover runs, noOffset ≠ a + 1 := fun a there => by
    have := low a there
    rw [fbBytes] at this
    rw [noOffset]
    omega
  rw [spliced, runGapFrom, runStart_eq, runHead_eq, runEnd_eq, starts_cover apart far,
    heads_cover apart far, ends_cover apart far', ← patched_eq long apart]
  cases runs with
  | nil => rfl
  | cons run runs =>
    rw [gapsOf_eq, pastOf_eq]
    rfl

/-- The colours cut into the frame before: a frame of the same length, with the colour of the pixel
drawn last at an offset, and the byte of the frame before where none was. -/
theorem spliced_painted {prev : List UInt8} (long : prev.length = fbBytes) {pxAll : List Pixel}
    (drawable : Drawable pxAll) :
    (spliced (pxAt pxAll) prev (pxColours pxAll)).length = fbBytes ∧
      (∀ t, Latest pxAll t → (spliced (pxAt pxAll) prev (pxColours pxAll))[offset t]? = some t.2) ∧
      ∀ o, (∀ t ∈ pxAll, offset t ≠ o) →
        (spliced (pxAt pxAll) prev (pxColours pxAll))[o]? = prev[o]? := by
  obtain ⟨runs, apart, covers⟩ := exists_cover (increases_pxAt drawable)
    (fun a _ => Nat.zero_le a)
  have low := pxAt_lt drawable
  have enough : (pxColours pxAll).length = 0 + (cover runs).length := by
    rw [← covers, pxAt, pxColours, List.length_map, List.length_map, Nat.zero_add]
  have here : ∀ k, (cover runs)[k]? = ((pxSorted pxAll)[k]?).map offset := fun k => by
    rw [← covers, pxAt, List.getElem?_map]
  rw [covers] at low ⊢
  have inside : ∀ a ∈ cover runs, a < prev.length := by rwa [long]
  rw [spliced_cover apart low long]
  refine ⟨?_, fun t latest => ?_, fun o none => ?_⟩
  · rw [length_patched apart (Nat.zero_le _) inside enough, long, Nat.sub_zero]
  · obtain ⟨k, found⟩ := List.mem_iff_getElem?.1 ((mem_pxSorted drawable t).2 latest)
    have at' := (getElem?_patched apart (Nat.zero_le _) inside enough (Nat.zero_le (offset t))).1 k
      (by rw [here, found]; rfl)
    rw [Nat.sub_zero] at at'
    rw [at', Nat.zero_add, pxColours, List.getElem?_map, found]
    rfl
  · have not' : o ∉ cover runs := fun there => by
      rw [← covers] at there
      obtain ⟨t, kept, same⟩ := List.mem_map.1 there
      exact none t ((mem_pxSorted drawable t).1 kept).1 same
    exact (getElem?_patched apart (Nat.zero_le _) inside enough (Nat.zero_le o)).2 not'

/-! ## The string and the array -/

theorem pxBytes_eq (pxAll : List Pixel) : pxBytes pxAll = pxColours pxAll := by
  rw [pxBytes, pxColours]
  induction pxSorted pxAll with
  | nil => rfl
  | cons t l ih => exact congrArg (t.2 :: ·) ih

theorem fbEnd_eq (prev : List UInt8) (pxAll : List Pixel) :
    fbEnd prev pxAll = fbEndBytes prev pxAll := by
  rw [fbEnd, fbEndBytes, pxBytes_eq]

theorem flatten_bytes (bytes : List UInt8) : (bytes.map fun c => [c]).flatten = bytes := by
  induction bytes with
  | nil => rfl
  | cons b bytes ih => exact congrArg (b :: ·) ih

/-! ## Every frame -/

theorem length_foldl_pushBack {α β : Type} (next : List α → β → α) (l : List β) (acc : List α) :
    (arrayFold (fun acc r => arrayPushBack acc (next acc r)) l acc).length =
      acc.length + l.length := by
  induction l generalizing acc with
  | nil => rfl
  | cons r l ih =>
    rw [arrayFold, List.foldl_cons]
    refine (ih _).trans ?_
    rw [arrayPushBack, List.length_append, List.length_singleton, List.length_cons]
    omega

theorem length_meltY (rndtable : List UInt8) (rndindex meltStep : Nat) :
    (meltY rndtable rndindex meltStep).length = 160 := by
  have all : (meltY0 rndtable rndindex).length = 320 := by
    rw [meltY0, length_foldl_pushBack]
    simp [arraySlice]
  simp [meltY, arraySlice, all]

theorem length_flatten_const {α : Type} (n : Nat) (l : List (List α))
    (same : ∀ row ∈ l, row.length = n) : l.flatten.length = l.length * n := by
  induction l with
  | nil => simp
  | cons row l ih =>
    obtain ⟨first, same⟩ := List.forall_mem_cons.1 same
    rw [List.flatten_cons, List.length_append, ih same, first, List.length_cons]
    ring

theorem length_meltBytes {meltY : List Int} (columns : meltY.length = 160) {bytes : List UInt8}
    (long : bytes.length = fbBytes) : (meltBytes meltY bytes).length = fbBytes := by
  have pairs : (meltY.map fun y => [y, y]).flatten.length = 320 := by
    rw [length_flatten_const 2 _ (List.forall_mem_map.2 fun _ _ => rfl), List.length_map, columns]
  have rows : (meltRowY meltY).length = fbBytes := by
    rw [meltRowY, length_flatten_const 320 _ (List.forall_mem_map.2 fun _ _ => pairs),
      List.length_map, List.length_range]
    rfl
  have row : meltRow.length = fbBytes := by
    rw [meltRow, length_flatten_const 320 _ (List.forall_mem_map.2 fun _ _ => by
      rw [List.length_map, List.length_range]), List.length_map, List.length_range]
    rfl
  rw [meltBytes, List.length_map, List.length_zip, List.length_zip, long, rows, row, min_self,
    min_self]

/-- A row's string and its array hold the same bytes, a whole frame of them. -/
def Whole (row : Frame) : Prop := row.fb = row.fbBytes ∧ row.fb.length = fbBytes

section
variable {frames : List Frame} (whole : ∀ row ∈ frames, Whole row)
include whole

theorem prevFb_eq (drawing : Drawing) :
    prevFb frames drawing = prevBytes frames drawing ∧
      (prevFb frames drawing).length = fbBytes := by
  rw [prevFb, prevBytes]
  cases meltOn drawing with
  | true =>
    simp only [if_true, List.isEmpty_nil]
    exact ⟨trivial, List.length_replicate⟩
  | false =>
    cases found : rowOf frames (drawing.frame - 1) with
    | none =>
      simp only [Bool.false_eq_true, if_false, if_true, Option.map_none, Option.getD_none,
        List.isEmpty_nil]
      exact ⟨trivial, List.length_replicate⟩
    | some row =>
      obtain ⟨same, long⟩ := whole row (List.mem_of_find?_eq_some found)
      refine ⟨?_, long⟩
      have some : row.fbBytes.isEmpty = false := by
        rw [← same, List.isEmpty_eq_false_iff]
        rintro none
        rw [none] at long
        cases long
      simp [some, same]

theorem whole_drawn {drawing : Drawing} (drawable : Drawable drawing.pxAll)
    (rndtable : List UInt8) : Whole (drawn frames drawing rndtable) := by
  obtain ⟨same, long⟩ := prevFb_eq whole drawing
  have painted := (spliced_painted (same ▸ long) drawable).1
  rw [Whole, drawn]
  cases melts : meltOn drawing with
  | true =>
    refine ⟨flatten_bytes _, ?_⟩
    simp only [if_true, flatten_bytes]
    exact length_meltBytes (length_meltY _ _ _) painted
  | false =>
    refine ⟨?_, ?_⟩
    · simp only [Bool.false_eq_true, if_false]
      rw [fbEnd_eq, same]
    · simp only [Bool.false_eq_true, if_false]
      rw [fbEnd_eq, same]
      exact painted

theorem whole_insertFrame {new : Frame} (here : Whole new) :
    ∀ row ∈ insertFrame frames new, Whole row := by
  rw [insertFrame]
  split_ifs
  · exact whole
  · exact List.forall_mem_append.2 ⟨whole, List.forall_mem_singleton.2 here⟩

theorem whole_drawnFrames (rndtable : List UInt8) {drawings : List Drawing}
    (drawable : ∀ drawing ∈ drawings, Drawable drawing.pxAll) :
    ∀ row ∈ drawnFrames rndtable frames drawings, Whole row := by
  induction drawings generalizing frames with
  | nil => exact whole
  | cons drawing drawings ih =>
    obtain ⟨first, drawable⟩ := List.forall_mem_cons.1 drawable
    exact ih (whole_insertFrame whole (whole_drawn whole first rndtable)) drawable

/-- A frame's bytes are the pixels in order over the frame before. -/
def PaintedOver (prev : List UInt8) (pxAll : List Pixel) (fb : List UInt8) : Prop :=
  (∀ t, Latest pxAll t → fb[offset t]? = some t.2) ∧
    ∀ o, (∀ t ∈ pxAll, offset t ≠ o) → fb[o]? = prev[o]?

theorem drawn_painted {drawing : Drawing} (drawable : Drawable drawing.pxAll)
    (still : meltOn drawing = false) (rndtable : List UInt8) :
    PaintedOver (prevFb frames drawing) drawing.pxAll (drawn frames drawing rndtable).fb := by
  obtain ⟨same, long⟩ := prevFb_eq whole drawing
  rw [drawn, still]
  simp only [Bool.false_eq_true, if_false]
  rw [fbEnd_eq]
  exact (spliced_painted long drawable).2

end

/-! ### The rows of the table -/

section
variable {frames : List Frame} {frame : UInt32} {row : Frame}

theorem rowOf_insertFrame (found : rowOf frames frame = some row) (new : Frame) :
    rowOf (insertFrame frames new) frame = some row := by
  rw [insertFrame]
  split
  · exact found
  · rw [rowOf, List.find?_append, ← rowOf, found]
    rfl

/-- A row stays as it was first written. -/
theorem rowOf_drawnFrames (found : rowOf frames frame = some row) (rndtable : List UInt8)
    (drawings : List Drawing) :
    rowOf (drawnFrames rndtable frames drawings) frame = some row := by
  induction drawings generalizing frames with
  | nil => exact found
  | cons drawing drawings ih => exact ih (rowOf_insertFrame found _)

theorem rowOf_insertFrame_self (fresh : rowOf frames row.frame = none) :
    rowOf (insertFrame frames row) row.frame = some row := by
  rw [insertFrame, fresh, if_neg (by simp), rowOf, List.find?_append, ← rowOf, fresh]
  simp

/-- The row of the first drawing of a frame. -/
theorem rowOf_drawn (rndtable : List UInt8) (pre post : List Drawing) (drawing : Drawing)
    (fresh : rowOf (drawnFrames rndtable [] pre) drawing.frame = none) :
    rowOf (drawnFrames rndtable [] (pre ++ drawing :: post)) drawing.frame =
      some (drawn (drawnFrames rndtable [] pre) drawing rndtable) := by
  have first : rowOf (insertFrame (drawnFrames rndtable [] pre)
      (drawn (drawnFrames rndtable [] pre) drawing rndtable)) drawing.frame =
        some (drawn (drawnFrames rndtable [] pre) drawing rndtable) :=
    rowOf_insertFrame_self fresh
  rw [drawnFrames, List.foldl_append, List.foldl_cons]
  exact rowOf_drawnFrames first rndtable post

end

/-- Two pixels at the last offset, over a black frame. -/
def corner : List Pixel := [(63999 * 1048576 + 1, 7), (63999 * 1048576, 5)]

theorem drawable_corner : Drawable corner := ⟨by simp [corner, fbBytes], by simp [corner]⟩

theorem drawable_nil : Drawable [] := ⟨by simp, by simp⟩

/-- The corner, a frame nothing is drawn in, and the corner in a melt. -/
def strip : List Drawing := [⟨1, 0, 0, corner⟩, ⟨2, 0, 0, []⟩, ⟨3, 3, 0, corner⟩]

end ClickDoom.Native.Compose

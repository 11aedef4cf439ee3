import ClickDoom.Base.Runs
import ClickDoom.Native.Fragments
import ClickDoom.Native.OrderAgrees
import ClickDoom.Native.SpansAgree

/-! # The walls are those of the clip list

A column is open to a seg exactly when its number is no smaller than the seg's place, so the runs of a
seg are what the clip list leaves of it.  Segs in rejected subtrees count towards the numbers too: a box
is rejected only when its columns are closed, so they close nothing that was open.
-/
namespace ClickDoom.Native.Fragments
open ClickHouse
open Engine (Bsp Cliprange addLines)
open Engine.ClippedWalk

/-! ## Minima and maxima -/

theorem le_foldl_min {p i : Nat} {a : List Nat} :
    p ≤ a.foldl min i ↔ p ≤ i ∧ ∀ b ∈ a, p ≤ b := by
  induction a generalizing i with
  | nil => simp
  | cons b a ih => rw [List.foldl_cons, ih, le_min_iff, List.forall_mem_cons, and_assoc]

theorem foldl_max_lt {p i : Nat} {a : List Nat} :
    a.foldl max i < p ↔ i < p ∧ ∀ b ∈ a, b < p := by
  induction a generalizing i with
  | nil => simp
  | cons b a ih => rw [List.foldl_cons, ih, max_lt_iff, List.forall_mem_cons, and_assoc]

theorem arrayMin_eq {m : Nat} {a : List Nat} (there : m ∈ a) (least : ∀ b ∈ a, m ≤ b)
    (low : m ≤ never) : arrayMin a = m := by
  refine le_antisymm ?_ (le_foldl_min.2 ⟨low, least⟩)
  exact (le_foldl_min.1 le_rfl).2 m there

/-! ## The visible segs -/

section
variable {α β : Type}

theorem range'_zip_map (list : List α) (g : α → β) (k : Nat) :
    (List.range' k list.length).zip (list.map g) = (list.zipIdx k).map fun a => (a.2, g a.1) := by
  induction list generalizing k with
  | nil => rfl
  | cons a list ih => simp [List.range'_succ, ih (k + 1)]

theorem masked_places (list : List α) (vis : α → Bool) (k : Nat) :
    masked (List.range' k list.length) (list.map vis) =
      ((list.zipIdx k).filter fun a => vis a.1).map Prod.snd := by
  rw [masked, range'_zip_map, List.filter_map, List.map_map]
  rfl

theorem masked_values (list : List α) (vis : α → Bool) (g : α → β) (k : Nat) :
    masked (list.map g) (list.map vis) = ((list.zipIdx k).filter fun a => vis a.1).map fun a => g a.1 := by
  have both : (list.map g).zip (list.map vis) = (list.zipIdx k).map fun a => (g a.1, vis a.1) := by
    conv_lhs => rw [List.zip_map', ← List.zipIdx_map_fst k list, List.map_map]
    rfl
  rw [masked, both, List.filter_map, List.map_map]
  rfl

end

section
variable (f : Frame)

/-- The visible segs with their places in the walk. -/
def visible : List (Nat × Nat) := ((segSeq f).zipIdx 1).filter fun a => (f.segs a.1).vis

theorem qPos_eq : qPos f = (visible f).map Prod.snd := masked_places _ _ _

theorem qSeg_eq : qSeg f = (visible f).map Prod.fst := by
  have same := masked_values (segSeq f) (fun sg => (f.segs sg).vis) id 1
  rwa [List.map_id] at same

theorem qX1_eq : qX1 f = (visible f).map fun a => (f.segs a.1).x1 := masked_values _ _ _ _

theorem qX2_eq : qX2 f = (visible f).map fun a => (f.segs a.1).x2 := masked_values _ _ _ _

theorem qClass_eq : qClass f = (visible f).map fun a => classOf (f.segs a.1) := by
  rw [qClass, qSeg_eq, List.map_map]
  rfl

theorem mem_visible {sg pos : Nat} : (sg, pos) ∈ visible f ↔
    (1 ≤ pos ∧ (segSeq f)[pos - 1]? = some sg) ∧ (f.segs sg).vis = true := by
  rw [visible, List.mem_filter, List.mem_zipIdx_iff_le_and_getElem?_sub]

/-- The walls, each from a visible seg. -/
theorem walls_eq : walls f = ((visible f).zipIdx 1).map fun a =>
    ⟨a.1.2, a.1.1, (f.segs a.1.1).x1, (f.segs a.1.1).x2, classOf (f.segs a.1.1), a.2⟩ := by
  have places : List.range' 1 (qPos f).length = ((visible f).zipIdx 1).map Prod.snd := by
    rw [qPos_eq, List.length_map]
    exact (List.zipIdx_map_snd ..).symm
  have values : ∀ {γ : Type} (g : Nat × Nat → γ),
      (visible f).map g = ((visible f).zipIdx 1).map fun a => g a.1 := by
    intro γ g
    conv_lhs => rw [← List.zipIdx_map_fst 1 (visible f), List.map_map]
    rfl
  rw [walls, places, qPos_eq, qSeg_eq, qX1_eq, qX2_eq, qClass_eq, values, values, values, values, values]
  simp only [List.zip_map', List.map_map]
  rfl

end

/-! ## The scene of the engine -/

/-- A seg as `R_AddLine` meets it. -/
def lineOf (look : SegLook) : Line :=
  ⟨if look.vis then some (look.x1, look.x2) else none, look.front, look.back, look.midtex⟩

/-- What `R_CheckBBox` makes of a box. -/
def boxOf (clipangle : UInt32) (look : BoxLook) : Box :=
  let clip2 := clipangle * 2
  if look.boxpos = 5 ∨ look.span ≥ 2147483648 then .seen
  else if look.t1 > clip2 ∧ look.t1 - clip2 ≥ look.span ∨
      look.t2 > clip2 ∧ look.t2 - clip2 ≥ look.span then .off
  else .columns look.sx1 look.sx2

def sceneOf (f : Frame) : Scene where
  nodes := f.level.nodes
  subsectors := f.level.subsectors
  lines := fun sg => lineOf (f.segs sg)
  boxes := fun id side => boxOf f.clipangle (f.boxes id side)
  viewx := f.viewx
  viewy := f.viewy

theorem classOf_eq (look : SegLook) : classOf look =
    match (lineOf look).clips with
    | .clipsolid => 1
    | .clippass => 2
    | .empty => 0 := by
  rw [classOf, Line.clips, show (lineOf look).backsector = look.back from rfl]
  cases look.back with
  | none => rfl
  | some back =>
    dsimp only [lineOf]
    split_ifs with shut step plain
    · rfl
    · rfl
    · simp only [plain, and_self, if_true]
    · simp only [plain, if_false]

theorem classOf_solid {look : SegLook} : classOf look = 1 ↔ (lineOf look).clips = .clipsolid := by
  rw [classOf_eq]
  cases (lineOf look).clips <;> simp

theorem classOf_empty {look : SegLook} : classOf look = 0 ↔ (lineOf look).clips = .empty := by
  rw [classOf_eq]
  cases (lineOf look).clips <;> simp

theorem crosses_iff {look : SegLook} {x : Int} :
    (lineOf look).Crosses x ↔ look.vis = true ∧ look.x1 ≤ x ∧ x < look.x2 := by
  rw [Line.Crosses, lineOf]
  by_cases vis : look.vis = true
  · simp only [vis, if_true, Option.some.injEq, Prod.mk.injEq, true_and]
    constructor
    · rintro ⟨x1, x2, ⟨rfl, rfl⟩, inside⟩
      exact inside
    · exact fun inside => ⟨_, _, ⟨rfl, rfl⟩, inside⟩
  · simp [vis]

/-! ## The number of a column -/

section
variable (f : Frame)

theorem mem_solidSegs {t : Nat × Int × Int × Nat} : t ∈ solidSegs f ↔
    ∃ a ∈ visible f, classOf (f.segs a.1) = 1 ∧
      t = (a.2, (f.segs a.1).x1, (f.segs a.1).x2, classOf (f.segs a.1)) := by
  have zipped : (qPos f).zip ((qX1 f).zip ((qX2 f).zip (qClass f))) = (visible f).map fun a =>
      (a.2, (f.segs a.1).x1, (f.segs a.1).x2, classOf (f.segs a.1)) := by
    rw [qPos_eq, qX1_eq, qX2_eq, qClass_eq]
    simp only [List.zip_map']
  rw [solidSegs, zipped, List.filter_map, List.mem_map]
  constructor
  · rintro ⟨a, there, rfl⟩
    obtain ⟨there, solid⟩ := List.mem_filter.1 there
    exact ⟨a, there, by simpa using solid, rfl⟩
  · rintro ⟨a, there, solid, rfl⟩
    exact ⟨a, List.mem_filter.2 ⟨there, by simpa using solid⟩, rfl⟩

theorem solidTime_getElem? {x : Nat} (low : x < 320) :
    (solidTime f)[x]? = some ((solidTime f).getD x 0) := by
  have length : (solidTime f).length = 320 := by rw [solidTime, List.length_map, List.length_range]
  rw [List.getD_eq_getElem?_getD, List.getElem?_eq_getElem (by omega)]
  rfl

/-- A column's number is under a place when an earlier seg closes the column. -/
theorem solidTime_lt {x place : Nat} (low : x < 320) (few : place < never) :
    (solidTime f).getD x 0 < place + 1 ↔ Closed (sceneOf f) ((segSeq f).take place) x := by
  rw [← not_iff_not, Nat.not_lt, solidTime, List.getD_eq_getElem?_getD, List.getElem?_map,
    List.getElem?_range low, Option.map_some, Option.getD_some, arrayMin, le_foldl_min,
    and_iff_right (by omega : place + 1 ≤ never), List.forall_mem_cons,
    and_iff_right (by omega : place + 1 ≤ never), List.forall_mem_map, Closed]
  push Not
  constructor
  · rintro least sg there ⟨solid, crosses⟩
    obtain ⟨vis, inside⟩ := crosses_iff.1 crosses
    obtain ⟨i, early, found⟩ := List.mem_take_iff_getElem.1 there
    have known : (sg, i + 1) ∈ visible f := by
      rw [mem_visible]
      exact ⟨⟨Nat.le_add_left 1 i, by
        rw [Nat.add_sub_cancel, List.getElem?_eq_getElem (early.trans_le (Nat.min_le_right _ _)),
          found]⟩, vis⟩
    have := least _ ((mem_solidSegs f).2 ⟨_, known, classOf_solid.2 solid, rfl⟩)
    rw [if_pos (by dsimp only; omega)] at this
    dsimp only at this
    omega
  · intro open_ t there
    obtain ⟨⟨sg, pos⟩, known, solid, rfl⟩ := (mem_solidSegs f).1 there
    obtain ⟨⟨first, found⟩, vis⟩ := (mem_visible f).1 known
    dsimp only
    split_ifs with inside
    · by_contra early
      have taken : sg ∈ (segSeq f).take place := by
        rw [List.mem_take_iff_getElem]
        obtain ⟨low, found⟩ := List.getElem?_eq_some_iff.1 found
        exact ⟨pos - 1, by omega, found⟩
      exact open_ sg taken ⟨classOf_solid.1 solid, crosses_iff.2 ⟨vis, inside.1, by omega⟩⟩
    · omega

/-- A box is culled when its columns are closed before the far side's first seg. -/
theorem culledAt_iff {look : BoxLook} (inView : (boxOf f.clipangle look).InView) {place : Nat}
    (few : place < never) : culledAt f look (place + 1) = true ↔
      (boxOf f.clipangle look).Hidden (Closed (sceneOf f) ((segSeq f).take place)) := by
  rw [culledAt, decide_eq_true_iff]
  rw [boxOf] at inView ⊢
  by_cases whole : look.boxpos = 5 ∨ look.span ≥ 2147483648
  · rw [if_pos whole, Box.Hidden, iff_false]
    rintro ⟨apart, narrow, -⟩
    rcases whole with inside | wide
    · exact apart inside
    · exact absurd narrow (UInt32.not_lt.2 wide)
  rw [if_neg whole] at inView ⊢
  rw [not_or] at whole
  rw [and_iff_right whole.1, and_iff_right (UInt32.not_le.1 whole.2), ← or_assoc]
  by_cases off : look.t1 > f.clipangle * 2 ∧ look.t1 - f.clipangle * 2 ≥ look.span ∨
      look.t2 > f.clipangle * 2 ∧ look.t2 - f.clipangle * 2 ≥ look.span
  · rw [if_pos off, Box.Hidden, iff_true]
    exact .inl off
  rw [if_neg off] at inView ⊢
  obtain ⟨low, le, high⟩ := inView _ _ rfl
  rw [or_iff_right off, Box.Hidden, arrayMax, foldl_max_lt, and_iff_right (Nat.succ_pos place)]
  refine or_congr_right ?_
  constructor
  · intro all x from_ under
    obtain ⟨x, rfl⟩ := Int.eq_ofNat_of_zero_le (low.trans from_)
    refine (solidTime_lt f (by omega) few).1 (all _ ?_)
    have here := solidTime_getElem? f (by omega : x < 320)
    refine List.mem_of_getElem? (i := x - look.sx1.toNat) ?_
    rw [arraySlice, List.getElem?_take_of_lt (by omega), List.getElem?_drop, Nat.add_sub_cancel,
      show look.sx1.toNat + (x - look.sx1.toNat) = x by omega]
    exact here
  · intro all t there
    obtain ⟨i, found⟩ := List.mem_iff_getElem?.1 there
    rw [arraySlice, List.getElem?_take] at found
    split_ifs at found with early
    rw [List.getElem?_drop, Nat.add_sub_cancel] at found
    have low : look.sx1.toNat + i < 320 := by omega
    rw [solidTime_getElem? f low] at found
    obtain rfl := Option.some.inj found
    exact (solidTime_lt f low few).2 (all _ (by omega) (by omega))

end

/-! ## Where the far sides start -/

/-- The subsectors under each node are the numbers from the first of the node's range to its last. -/
def Ranged (f : Frame) : Bsp → Prop
  | .leaf _ => True
  | .node id child0 child1 =>
    (∃ first more, f.rangeFirst[id]? = some first ∧ f.rangeLast[id]? = some (first + more) ∧
      (child0.leaves ++ child1.leaves).Perm (List.range' first (more + 1))) ∧
    Ranged f child0 ∧ Ranged f child1

theorem range_of_number {f : Frame} {child : Bsp} (ranged : Ranged f child) {bspnum : UInt32}
    (spells : child.Of f.level.nodes bspnum) : ∃ first more,
      (if bspnum.toNat &&& 32768 ≠ 0 then bspnum.toNat &&& 32767
        else f.rangeFirst.getD (bspnum.toNat &&& 32767) 0) = first ∧
      (if bspnum.toNat &&& 32768 ≠ 0 then bspnum.toNat &&& 32767
        else f.rangeLast.getD (bspnum.toNat &&& 32767) 0) = first + more ∧
      child.leaves.Perm (List.range' first (more + 1)) := by
  have masks : ∀ n : Nat, n &&& 32767 = n % 32768 := fun n => Nat.and_two_pow_sub_one_eq_mod n 15
  have flag : ∀ n : Nat, n &&& 32768 = (n.testBit 15).toNat * 2 ^ 15 := fun n => Nat.and_two_pow n 15
  have bit : ∀ n : Nat, n < 65536 → (n.testBit 15 = true ↔ 32768 ≤ n) := by
    intro n small
    rw [Nat.testBit_eq_decide_div_mod_eq, decide_eq_true_iff]
    omega
  cases child with
  | leaf num =>
    obtain ⟨low, same⟩ := spells
    have high := (bit bspnum.toNat (by omega)).2 (by omega)
    refine ⟨num, 0, ?_, ?_, by simp [Bsp.leaves]⟩
    · rw [flag, high, if_pos (by decide), masks]
      omega
    · rw [flag, high, if_pos (by decide), masks]
      omega
  | node id child0 child1 =>
    obtain ⟨same, low, -⟩ := spells
    obtain ⟨⟨first, more, atFirst, atLast, perm⟩, -, -⟩ := ranged
    have clear : bspnum.toNat.testBit 15 = false := by
      rw [← Bool.not_eq_true, bit _ (by omega)]
      omega
    have number : bspnum.toNat % 32768 = id := by omega
    refine ⟨first, more, ?_, ?_, perm⟩
    · rw [flag, clear, if_neg (by decide), masks, number, List.getD_eq_getElem?_getD, atFirst]
      rfl
    · rw [flag, clear, if_neg (by decide), masks, number, List.getD_eq_getElem?_getD, atLast]
      rfl

/-- The level's tree, its ranges, and views that stay on the screen. -/
structure WellFormed (f : Frame) (tree : Bsp) : Prop where
  order : Order.WellFormed f.level tree
  ranged : Ranged f tree
  /-- Each seg is in the subsector its table names. -/
  ssecs : ∀ sc, sc < f.level.subsectors.length → ∀ sg ∈ addLines (Order.subsectorAt f.level sc),
    f.segSsec[sg]? = some sc
  few : (segSeq f).length < never
  count : f.level.subsectors.length < never
  inView : ∀ sg, (f.segs sg).vis = true →
    0 ≤ (f.segs sg).x1 ∧ (f.segs sg).x1 < (f.segs sg).x2 ∧ (f.segs sg).x2 ≤ 320
  boxes : ∀ id side, (boxOf f.clipangle (f.boxes id side)).InView
  inside : Inside (sceneOf f) tree

section
variable {f : Frame} {tree : Bsp} (formed : WellFormed f tree)
include formed

theorem ssecOrder_eq : Order.ssecOrder f.level f.viewx f.viewy = tree.walk (side (sceneOf f)) :=
  Order.ssecOrder_walk formed.order f.viewx f.viewy

theorem segSeq_eq : segSeq f = segs (sceneOf f) tree := by
  rw [segSeq, Order.segSeq_addLines, ssecOrder_eq formed]
  rfl

/-- The first place of a part of the walk that some subsectors make up. -/
theorem start_eq {before part after : List Nat} {first more : Nat}
    (walk : tree.walk (side (sceneOf f)) = before ++ part ++ after) (some : part ≠ [])
    (perm : part.Perm (List.range' first (more + 1))) :
    (Order.rankSegbase f.level f.viewx f.viewy).getD
      (arrayMin (arraySlice (Order.ssecRank f.level f.viewx f.viewy) (first + 1) (more + 1)) - 1) 0 =
    (before.flatMap fun num => addLines (Order.subsectorAt f.level num)).length := by
  have order := ssecOrder_eq formed
  rw [walk] at order
  have ranks := @Order.ssecRank_inverse f.level tree formed.order f.viewx f.viewy
  have whole := Order.ssecOrder_perm formed.order f.viewx f.viewy
  have count : (before ++ part ++ after).length = f.level.subsectors.length := by
    rw [← order, whole.length_eq, List.length_range]
  have least : arrayMin (arraySlice (Order.ssecRank f.level f.viewx f.viewy) (first + 1) (more + 1)) =
      before.length + 1 := by
    obtain ⟨sc, rest, rfl⟩ := List.exists_cons_of_ne_nil some
    refine arrayMin_eq ?_ ?_ ?_
    · -- the part's first subsector has the least rank
      have place : (Order.ssecOrder f.level f.viewx f.viewy)[before.length]? = Option.some sc := by
        rw [order, List.append_assoc, List.getElem?_append_right le_rfl, Nat.sub_self]
        rfl
      have there := List.mem_range'_1.1 (perm.mem_iff.1 List.mem_cons_self)
      refine List.mem_of_getElem? (i := sc - first) ?_
      rw [arraySlice, List.getElem?_take_of_lt (by omega), List.getElem?_drop, Nat.add_sub_cancel,
        show first + (sc - first) = sc by omega]
      exact ranks.1 place
    · intro rank there
      obtain ⟨i, found⟩ := List.mem_iff_getElem?.1 there
      rw [arraySlice, List.getElem?_take] at found
      split_ifs at found with early
      rw [List.getElem?_drop, Nat.add_sub_cancel] at found
      have inside : first + i ∈ sc :: rest := perm.mem_iff.2 (List.mem_range'_1.2 (by omega))
      obtain ⟨k, at_⟩ := List.mem_iff_getElem?.1 inside
      have short := (List.getElem?_eq_some_iff.1 at_).1
      have place : (Order.ssecOrder f.level f.viewx f.viewy)[before.length + k]? =
          Option.some (first + i) := by
        rw [order, List.append_assoc, List.getElem?_append_right (Nat.le_add_right _ _),
          Nat.add_sub_cancel_left, List.getElem?_append_left short, at_]
      obtain rfl := Option.some.inj (found.symm.trans (ranks.1 place))
      omega
    · have := formed.count
      rw [← count] at this
      simp only [List.length_append, List.length_cons] at this
      omega
  rw [least, Nat.add_sub_cancel, List.getD_eq_getElem?_getD, Order.rankSegbase_eq, order]
  · rw [List.append_assoc, List.take_left' rfl]
    rfl
  · rw [order]
    have := List.length_pos_of_ne_nil some
    simp only [List.length_append]
    omega

/-- The number of a far child, and where its first seg stands. -/
theorem nStart_eq {id : Nat} {child0 child1 : Bsp} {before after : List Nat}
    (walk : tree.walk (side (sceneOf f)) =
      before ++ (near (sceneOf f) id child0 child1).walk (side (sceneOf f)) ++
        (far (sceneOf f) id child0 child1).walk (side (sceneOf f)) ++ after)
    {bspnum : UInt32} (spells : (Bsp.node id child0 child1).Of f.level.nodes bspnum)
    (ranged : Ranged f (.node id child0 child1)) :
    (nCulled f)[id]? = some (culledAt f (f.boxes id (side (sceneOf f) id ^^^ 1))
      ((before.flatMap fun num => addLines (Order.subsectorAt f.level num)).length +
        (segs (sceneOf f) (near (sceneOf f) id child0 child1)).length + 1)) := by
  obtain ⟨-, low, bsp, found, spells0, spells1⟩ := spells
  have two := side_lt (sceneOf f) id
  have inside := (List.getElem?_eq_some_iff.1 found).1
  have sided : (nodeSide f)[id]? = some (side (sceneOf f) id) := by
    have length : (nodeSide f).length = f.level.nodes.list.length := by
      rw [nodeSide, Order.nodeSide, List.length_map]
    rw [List.getElem?_eq_getElem (by omega), ← List.getD_eq_getElem _ 0]
    exact congrArg some (Order.nodeSide_getD f.viewx f.viewy id)
  -- the far child, its leaves and its range
  obtain ⟨number, spellsFar, chosen⟩ : ∃ number,
      (far (sceneOf f) id child0 child1).Of f.level.nodes number ∧
      (nChild f)[id]? = some number.toNat := by
    have both : (f.level.nodes.list.zip (nodeSide f))[id]? = some (bsp, side (sceneOf f) id) :=
      List.getElem?_zip_eq_some.2 ⟨found, sided⟩
    rw [nChild, List.getElem?_map, both, far]
    by_cases front : side (sceneOf f) id = 0
    · exact ⟨bsp.child1.toUInt32, by rwa [if_pos front], by simp [front]⟩
    · exact ⟨bsp.child0.toUInt32, by rwa [if_neg front], by simp [front]⟩
  have rangedFar : Ranged f (far (sceneOf f) id child0 child1) := by
    rw [far]
    split_ifs
    · exact ranged.2.2
    · exact ranged.2.1
  obtain ⟨first, more, atFirst, atLast, perm⟩ := range_of_number rangedFar spellsFar
  have ends : (nEnd f f.rangeFirst)[id]? = some first ∧ (nEnd f f.rangeLast)[id]? = some (first + more) := by
    rw [nEnd, nEnd, List.getElem?_map, List.getElem?_map, chosen]
    exact ⟨congrArg some atFirst, congrArg some atLast⟩
  have walked := (Bsp.walk_perm (side (sceneOf f)) (far (sceneOf f) id child0 child1))
  have start := start_eq formed walk
    (fun none => Bsp.leaves_ne_nil _ (List.length_eq_zero_iff.1
      (walked.length_eq.symm.trans (List.length_eq_zero_iff.2 none)))) (walked.trans perm)
  have starts : (nStart f)[id]? = some
      ((before.flatMap fun num => addLines (Order.subsectorAt f.level num)).length +
        (segs (sceneOf f) (near (sceneOf f) id child0 child1)).length + 1) := by
    have both : ((nEnd f f.rangeFirst).zip (nEnd f f.rangeLast))[id]? = some (first, first + more) :=
      List.getElem?_zip_eq_some.2 ends
    rw [nStart, List.getElem?_map, both, Option.map_some]
    dsimp only
    rw [Nat.add_sub_cancel_left, start, List.flatMap_append, List.length_append]
    rfl
  have all : ((List.range f.level.nodes.list.length).zip ((nodeSide f).zip (nStart f)))[id]? =
      some (id, side (sceneOf f) id, _) :=
    List.getElem?_zip_eq_some.2 ⟨List.getElem?_range inside, List.getElem?_zip_eq_some.2 ⟨sided, starts⟩⟩
  have other : 1 - side (sceneOf f) id = side (sceneOf f) id ^^^ 1 := by
    interval_cases side (sceneOf f) id <;> rfl
  rw [nCulled, List.getElem?_map, all, Option.map_some]
  dsimp only
  rw [other]

/-- The nodes culled are those whose far side is hidden when the walk comes to it. -/
theorem culls_of_walk {sub : Bsp} {before after : List Nat}
    (walk : tree.walk (side (sceneOf f)) = before ++ sub.walk (side (sceneOf f)) ++ after)
    {bspnum : UInt32} (spells : sub.Of f.level.nodes bspnum) (ranged : Ranged f sub) :
    Culls (sceneOf f) (segSeq f) (fun id => (nCulled f).getD id false)
      (before.flatMap fun num => addLines (Order.subsectorAt f.level num)).length sub := by
  induction sub generalizing before after bspnum with
  | leaf num => trivial
  | node id child0 child1 ih0 ih1 =>
    have split : (Bsp.node id child0 child1).walk (side (sceneOf f)) =
        (near (sceneOf f) id child0 child1).walk (side (sceneOf f)) ++
          (far (sceneOf f) id child0 child1).walk (side (sceneOf f)) := by
      rw [Bsp.walk, near, far]
      split_ifs <;> rfl
    rw [split, ← List.append_assoc] at walk
    have culled := nStart_eq formed walk spells ranged
    obtain ⟨-, -, bsp, -, spells0, spells1⟩ := spells
    have beyond : (before.flatMap fun num => addLines (Order.subsectorAt f.level num)).length +
        (segs (sceneOf f) (near (sceneOf f) id child0 child1)).length =
        ((before ++ (near (sceneOf f) id child0 child1).walk (side (sceneOf f))).flatMap fun num =>
          addLines (Order.subsectorAt f.level num)).length := by
      rw [List.flatMap_append, List.length_append]
      rfl
    have few : (before.flatMap fun num => addLines (Order.subsectorAt f.level num)).length +
        (segs (sceneOf f) (near (sceneOf f) id child0 child1)).length < never := by
      refine lt_of_le_of_lt ?_ formed.few
      have whole : segSeq f = (before ++ (near (sceneOf f) id child0 child1).walk (side (sceneOf f)) ++
          (far (sceneOf f) id child0 child1).walk (side (sceneOf f)) ++ after).flatMap fun num =>
            addLines (Order.subsectorAt f.level num) := by
        rw [segSeq_eq formed, segs, walk]
        rfl
      rw [beyond, whole, List.append_assoc _ _ after]
      simp only [List.flatMap_append, List.length_append]
      omega
    refine ⟨?_, ?_⟩
    · dsimp only
      rw [List.getD_eq_getElem?_getD, culled, Option.getD_some]
      exact culledAt_iff f (formed.boxes _ _) few
    · rw [beyond]
      rw [near, far] at walk
      rw [near]
      split_ifs at walk ⊢ with front
      · have walk0 : tree.walk (side (sceneOf f)) = before ++ child0.walk (side (sceneOf f)) ++
            (child1.walk (side (sceneOf f)) ++ after) := by simpa using walk
        exact ⟨ih0 walk0 spells0 ranged.2.1, ih1 walk spells1 ranged.2.2⟩
      · have walk1 : tree.walk (side (sceneOf f)) = before ++ child1.walk (side (sceneOf f)) ++
            (child0.walk (side (sceneOf f)) ++ after) := by simpa using walk
        exact ⟨ih1 walk1 spells1 ranged.2.2, ih0 walk spells0 ranged.2.1⟩

end

/-! ## The segs the walk comes to -/

theorem flatMap_filter_of_empty {α β : Type} {p : α → Bool} {g : α → List β} {list : List α}
    (empty : ∀ a ∈ list, p a = false → g a = []) : (list.filter p).flatMap g = list.flatMap g := by
  induction list with
  | nil => rfl
  | cons a list ih =>
    have rest := ih fun b there => empty b (List.mem_cons_of_mem a there)
    cases here : p a with
    | true => rw [List.filter_cons_of_pos here, List.flatMap_cons, List.flatMap_cons, rest]
    | false =>
      rw [List.filter_cons_of_neg (by simp [here]), List.flatMap_cons, rest,
        empty a List.mem_cons_self here, List.nil_append]

theorem mem_segs {scene : Scene} {sub : Bsp} {sg : Nat} (there : sg ∈ segs scene sub) :
    ∃ sc ∈ sub.leaves, sg ∈ addLines (scene.subsectors.getD sc ⟨0, 0⟩) := by
  obtain ⟨sc, walked, inside⟩ := List.mem_flatMap.1 there
  exact ⟨sc, (Bsp.walk_perm _ _).mem_iff.1 walked, inside⟩

/-- A subsector is come to when no node on its route is culled on the branch taken. -/
theorem reached_eq {scene : Scene} {culled cut : Nat → Bool} {ssec : Nat → Nat} {sub : Bsp}
    (routes : ∀ sc route, (sc, route) ∈ sub.routes →
      cut sc = route.any fun r => r.2 ≠ side scene r.1 ∧ culled r.1)
    (known : ∀ sc ∈ sub.leaves, ∀ sg ∈ addLines (scene.subsectors.getD sc ⟨0, 0⟩), ssec sg = sc)
    (base : Nat) : reached scene culled base sub =
      ((segs scene sub).zipIdx base).filter fun a => !cut (ssec a.1) := by
  induction sub generalizing cut base with
  | leaf num =>
    have list : segs scene (.leaf num) = addLines (scene.subsectors.getD num ⟨0, 0⟩) := by
      simp [segs, Bsp.walk]
    rw [reached, list, List.filter_eq_self.2]
    intro a there
    have inside := List.fst_mem_of_mem_zipIdx there
    rw [known num (List.mem_singleton_self num) a.1 inside, routes num [] (List.mem_singleton_self _)]
    rfl
  | node id child0 child1 ih0 ih1 =>
    have two := side_lt scene id
    -- each child with the branch that leads to it
    have below : ∀ (child : Bsp) (branch : Nat),
        (∀ sc route, (sc, route) ∈ child.routes →
          (sc, (id, branch) :: route) ∈ (Bsp.node id child0 child1).routes) →
        ∀ sc route, (sc, route) ∈ child.routes →
          cut sc = (decide (branch ≠ side scene id ∧ culled id) ||
            route.any fun r => r.2 ≠ side scene r.1 ∧ culled r.1) := by
      intro child branch leads sc route there
      rw [routes sc _ (leads sc route there), List.any_cons]
    have leads0 : ∀ sc route, (sc, route) ∈ child0.routes →
        (sc, (id, 0) :: route) ∈ (Bsp.node id child0 child1).routes :=
      fun sc route there => Bsp.mem_routes_node.2 (.inl ⟨route, rfl, there⟩)
    have leads1 : ∀ sc route, (sc, route) ∈ child1.routes →
        (sc, (id, 1) :: route) ∈ (Bsp.node id child0 child1).routes :=
      fun sc route there => Bsp.mem_routes_node.2 (.inr ⟨route, rfl, there⟩)
    have known0 := fun sc there => known sc (List.mem_append_left child1.leaves there)
    have known1 := fun sc there => known sc (List.mem_append_right child0.leaves there)
    -- a culled child is cut off as a whole
    have gone : ∀ child : Bsp, (∀ sc ∈ child.leaves,
        ∀ sg ∈ addLines (scene.subsectors.getD sc ⟨0, 0⟩), ssec sg = sc) →
        (∀ sc route, (sc, route) ∈ child.routes → cut sc = true) → ∀ base,
        ((segs scene child).zipIdx base).filter (fun a => !cut (ssec a.1)) = [] := by
      intro child known all base
      refine List.filter_eq_nil_iff.2 fun a there => ?_
      obtain ⟨sc, leaf, inside⟩ := mem_segs (List.fst_mem_of_mem_zipIdx there)
      rw [← Bsp.routes_leaves, List.mem_map] at leaf
      obtain ⟨⟨sc, route⟩, leaf, rfl⟩ := leaf
      have leaf' : sc ∈ child.leaves := by
        rw [← Bsp.routes_leaves]
        exact List.mem_map_of_mem leaf
      rw [known sc leaf' a.1 inside, all sc route leaf]
      decide
    rw [reached_node, segs_node, List.zipIdx_append, List.filter_append, near, far]
    by_cases front : side scene id = 0
    · have same0 : ∀ sc route, (sc, route) ∈ child0.routes →
          cut sc = route.any fun r => r.2 ≠ side scene r.1 ∧ culled r.1 := by
        intro sc route there
        simpa [front] using below child0 0 leads0 sc route there
      rw [if_pos front, if_pos front, ih0 same0 known0]
      congr 1
      by_cases cull : culled id = true
      · rw [if_pos cull, gone child1 known1 fun sc route there => by
          simpa [front, cull] using below child1 1 leads1 sc route there]
      · rw [if_neg cull, ih1 (fun sc route there => by
          simpa [cull] using below child1 1 leads1 sc route there) known1]
    · have back : side scene id = 1 := by omega
      have same1 : ∀ sc route, (sc, route) ∈ child1.routes →
          cut sc = route.any fun r => r.2 ≠ side scene r.1 ∧ culled r.1 := by
        intro sc route there
        simpa [back] using below child1 1 leads1 sc route there
      rw [if_neg front, if_neg front, ih1 same1 known1]
      congr 1
      by_cases cull : culled id = true
      · rw [if_pos cull, gone child0 known0 fun sc route there => by
          simpa [back, cull] using below child0 0 leads0 sc route there]
      · rw [if_neg cull, ih0 (fun sc route there => by
          simpa [cull] using below child0 0 leads0 sc route there) known0]

section
variable {f : Frame} {tree : Bsp} (formed : WellFormed f tree)
include formed

theorem ssecCulled_route {sc : Nat} {route : List (Nat × Nat)} (there : (sc, route) ∈ tree.routes) :
    (ssecCulled f).getD sc false = route.any fun r =>
      decide (r.2 ≠ side (sceneOf f) r.1 ∧ (nCulled f).getD r.1 false) := by
  have low := Order.lt_of_mem_routes formed.order there
  have path : f.level.pathNodes[sc]? = some (route.map Prod.fst) := by
    refine formed.order.paths sc _ ?_
    rw [← Bsp.routes_paths]
    exact List.mem_map_of_mem (f := fun route : Nat × List (Nat × Nat) =>
      (route.1, route.2.map Prod.fst)) there
  have next : (Order.pathNext f.level)[sc]? = some (Order.nextOf sc (route.map Prod.fst)) := by
    have both : (f.level.pathNodes.zip (Order.ssecIds f.level))[sc]? = some (route.map Prod.fst, sc) :=
      List.getElem?_zip_eq_some.2 ⟨path, List.getElem?_range low⟩
    rw [Order.pathNext, List.getElem?_map, both]
    rfl
  have sides : (Order.pathSides f.level)[sc]? = some (route.map Prod.snd) := by
    have both : (f.level.pathNodes.zip (Order.pathNext f.level))[sc]? =
        some (route.map Prod.fst, Order.nextOf sc (route.map Prod.fst)) :=
      List.getElem?_zip_eq_some.2 ⟨path, next⟩
    rw [Order.pathSides, List.getElem?_map, both,
      ← Order.sidesOf_route formed.order.spells (Order.once formed.order) there]
    rfl
  have both : (f.level.pathNodes.zip (Order.pathSides f.level))[sc]? =
      some (route.map Prod.fst, route.map Prod.snd) := List.getElem?_zip_eq_some.2 ⟨path, sides⟩
  rw [List.getD_eq_getElem?_getD, ssecCulled, List.getElem?_map, both, Option.map_some,
    Option.getD_some]
  dsimp only
  rw [List.zip_map', List.any_map]
  refine congrArg (route.any ·) (funext fun r => ?_)
  have here := @Order.nodeSide_getD f.level f.viewx f.viewy r.1
  simp only [Function.comp_apply, nodeSide, here]
  rfl

/-- A seg of the walk is come to unless its subsector is culled. -/
theorem reached_tree : reached (sceneOf f) (fun id => (nCulled f).getD id false) 0 tree =
    (segSeq f).zipIdx.filter fun a => !(ssecCulled f).getD (f.segSsec.getD a.1 0) false := by
  rw [segSeq_eq formed]
  refine @reached_eq (sceneOf f) _ (fun sc => (ssecCulled f).getD sc false)
    (fun sg => f.segSsec.getD sg 0) tree (fun sc route there => ssecCulled_route formed there)
    (fun sc leaf sg there => ?_) 0
  have low := List.mem_range.1 (formed.order.leaves.mem_iff.1 leaf)
  rw [List.getD_eq_getElem?_getD, formed.ssecs sc low sg there]
  rfl

end

/-! ## The runs of each wall -/

theorem before_range {α : Type} (fill : α) (g : Nat → α) (n : Nat) :
    fill :: ((List.range (n + 1)).map g).dropLast =
      (List.range (n + 1)).map fun x => if x = 0 then fill else g (x - 1) := by
  rw [List.range_succ, List.map_append, List.map_singleton, List.dropLast_concat, ← List.range_succ,
    List.range_succ_eq_map, List.map_cons, List.map_map]
  rfl

theorem after_range {α : Type} (fill : α) (g : Nat → α) (n : Nat) :
    ((List.range (n + 1)).map g).tail ++ [fill] =
      (List.range (n + 1)).map fun x => if x = n then fill else g (x + 1) := by
  rw [List.range_succ_eq_map, List.map_cons, List.tail_cons, List.map_map, ← List.range_succ_eq_map,
    List.range_succ, List.map_append, List.map_singleton, if_pos rfl]
  congr 1
  refine List.map_congr_left fun x low => ?_
  rw [if_neg (List.mem_range.1 low).ne]
  rfl

section
variable (f : Frame)

/-- A wall is drawn in a column. -/
def Wall.Drawn (t : Wall) (x : Nat) : Prop :=
  t.x1 ≤ (x : Int) ∧ t.x2 > (x : Int) ∧ (solidTime f).getD x 0 ≥ t.pos

instance (t : Wall) (x : Nat) : Decidable (t.Drawn f x) := inferInstanceAs (Decidable (_ ∧ _ ∧ _))

/-- The runs of the columns a wall is drawn in, each by its first column and how many follow. -/
def Wall.runs (t : Wall) : List (Nat × Nat) := Runs.runsOf ((List.range 320).filter fun x => t.Drawn f x)

theorem Wall.apart (t : Wall) : Runs.Apart 0 (t.runs f) :=
  Runs.apart_runsOf (List.pairwise_lt_range.filter _) fun a _ => Nat.zero_le a

theorem Wall.mem_cover (t : Wall) {x : Nat} : x ∈ Runs.cover (t.runs f) ↔ x < 320 ∧ t.Drawn f x := by
  rw [Wall.runs, Runs.cover_runsOf, List.mem_filter, List.mem_range, decide_eq_true_iff]

theorem walls_sorted : (walls f).Pairwise fun t u => t.pos < u.pos := by
  have sorted : (visible f).Pairwise fun a b => a.2 < b.2 :=
    List.Pairwise.filter _ (List.pairwise_map.1 (by rw [List.zipIdx_map_snd]; exact List.pairwise_lt_range'))
  rw [← List.zipIdx_map_fst 1 (visible f)] at sorted
  rw [walls_eq]
  exact List.pairwise_map.2 ((List.pairwise_map.1 sorted).imp fun less => less)

theorem dSegs_sorted : (dSegs f).Pairwise fun t u => t.pos < u.pos := (walls_sorted f).filter _

theorem dSegs_inj {t u : Wall} (ht : t ∈ dSegs f) (hu : u ∈ dSegs f) (same : t.pos = u.pos) : t = u := by
  have keys : ((dSegs f).map Wall.pos).Nodup :=
    List.pairwise_map.2 ((dSegs_sorted f).imp Nat.ne_of_lt)
  exact List.inj_on_of_nodup_map keys ht hu same

/-- The walls drawn in a column. -/
def column (x : Nat) : List Wall := (dSegs f).filter fun t => t.Drawn f x

theorem dBycol_eq : dBycol f = (List.range 320).map (column f) := rfl

theorem dPrevcol_eq : dPrevcol f =
    (List.range 320).map fun x => if x = 0 then [] else column f (x - 1) := before_range _ _ 319

theorem dNextcol_eq : dNextcol f =
    (List.range 320).map fun x => if x = 319 then [] else column f (x + 1) := after_range _ _ 319

theorem edges_eq (beside : Nat → List Wall) : edges f ((List.range 320).map beside) =
    (List.range 320).flatMap fun x =>
      ((column f x).filter fun t => ¬ (beside x).any fun u => u.pos = t.pos).map fun t =>
        (t.pos * 512 + x, t.index, x) := by
  rw [edges, dBycol_eq, List.flatMap_def]
  have all : ((List.range 320).map (column f)).zip (((List.range 320).map beside).zip (List.range 320)) =
      (List.range 320).map fun x => (column f x, beside x, x) := by
    conv_lhs => rw [← List.map_id (List.range 320)]
    rw [List.map_map, List.map_map, List.zip_map', List.zip_map']
    rfl
  rw [all, List.map_map]
  rfl

/-- A wall of a column stands beside one of another column when it is drawn there. -/
theorem any_column {t : Wall} (there : t ∈ dSegs f) (x : Nat) :
    ((column f x).any fun u => decide (u.pos = t.pos)) = true ↔ t.Drawn f x := by
  rw [List.any_eq_true]
  constructor
  · rintro ⟨u, inside, same⟩
    obtain ⟨known, drawn⟩ := List.mem_filter.1 inside
    obtain rfl := dSegs_inj f known there (of_decide_eq_true same)
    exact of_decide_eq_true drawn
  · exact fun drawn => ⟨t, List.mem_filter.2 ⟨there, decide_eq_true drawn⟩, decide_eq_true rfl⟩

/-- No two edges are the same. -/
theorem nodup_edges (beside : Nat → List Wall) : (edges f ((List.range 320).map beside)).Nodup := by
  rw [edges_eq]
  refine List.nodup_flatMap.2 ⟨fun x low => ?_, ?_⟩
  · refine List.Nodup.map_on ?_ ?_
    · intro t ht u hu same
      have known := (List.mem_filter.1 (List.mem_filter.1 ht).1).1
      have known' := (List.mem_filter.1 (List.mem_filter.1 hu).1).1
      have := (Prod.mk.inj same).1
      exact dSegs_inj f known known' (by omega)
    · exact (((dSegs_sorted f).imp fun less same => by rw [same] at less; exact Nat.lt_irrefl _ less).filter _).filter _
  · refine List.pairwise_lt_range.imp fun less => ?_
    intro e here there
    obtain ⟨t, -, rfl⟩ := List.mem_map.1 here
    obtain ⟨u, -, same⟩ := List.mem_map.1 there
    have := (Prod.mk.inj (Prod.mk.inj same).2).2
    omega

/-- The walls one after another, each with what its runs give, are in the order of the keys. -/
theorem layout_sorted {α : Type} (at_ : Nat × Nat → Nat) (entry : Wall → Nat × Nat → Nat × α)
    (within : ∀ run : Nat × Nat, run.1 ≤ at_ run ∧ at_ run ≤ run.1 + run.2)
    (keyed : ∀ t run, (entry t run).1 = t.pos * 512 + at_ run) :
    ((dSegs f).flatMap fun t => (t.runs f).map (entry t)).Pairwise fun e e' => e.1 < e'.1 := by
  have small : ∀ (t : Wall) (run : Nat × Nat), run ∈ t.runs f → at_ run < 320 := fun t run there =>
    ((t.mem_cover f).1 (Runs.mem_cover.2 ⟨run, there, within run⟩)).1
  refine List.pairwise_flatMap.2 ⟨fun t _ => ?_, ?_⟩
  · refine List.pairwise_map.2 ((t.apart f).increases.imp ?_)
    intro run run' less
    have := within run
    have := within run'
    rw [keyed, keyed]
    omega
  · refine (dSegs_sorted f).imp fun {t u} less e here e' there => ?_
    obtain ⟨run, kept, rfl⟩ := List.mem_map.1 here
    obtain ⟨run', kept', rfl⟩ := List.mem_map.1 there
    have := small t run kept
    have := small u run' kept'
    rw [keyed, keyed]
    omega

/-- The sorted starts are the first columns of the runs, wall by wall. -/
theorem sorted_starts : arraySort Prod.fst (dStarts f) = (dSegs f).flatMap fun t =>
    (t.runs f).map fun run => (t.pos * 512 + run.1, t.index, run.1) := by
  rw [dStarts, dPrevcol_eq]
  refine arraySort_eq (nodup_edges f _) (layout_sorted f Prod.fst
    (fun t run => (t.pos * 512 + run.1, t.index, run.1))
    (fun run => ⟨le_rfl, Nat.le_add_right _ _⟩) fun t run => rfl) fun e => ?_
  rw [edges_eq, List.mem_flatMap, List.mem_flatMap]
  have first : ∀ (t : Wall) (x : Nat), t ∈ dSegs f →
      (x ∈ (t.runs f).map Prod.fst ↔ (x < 320 ∧ t.Drawn f x) ∧
        ¬ ((if x = 0 then [] else column f (x - 1)).any fun u => decide (u.pos = t.pos)) = true) := by
    intro t x there
    rw [(t.apart f).mem_firsts, t.mem_cover]
    refine and_congr_right fun here => ?_
    by_cases left : x = 0
    · subst left
      simp
    · rw [if_neg left, any_column f there]
      constructor
      · exact fun none drawn => none (x - 1) ((t.mem_cover f).2 ⟨by omega, drawn⟩) (by omega)
      · rintro none b covered rfl
        exact none ((t.mem_cover f).1 covered).2
  constructor
  · rintro ⟨x, low, inside⟩
    obtain ⟨t, kept, rfl⟩ := List.mem_map.1 inside
    obtain ⟨here, free⟩ := List.mem_filter.1 kept
    obtain ⟨known, drawn⟩ := List.mem_filter.1 here
    obtain ⟨run, there, rfl⟩ := List.mem_map.1 ((first t x known).2
      ⟨⟨List.mem_range.1 low, of_decide_eq_true drawn⟩, by simpa using free⟩)
    exact ⟨t, known, List.mem_map.2 ⟨run, there, rfl⟩⟩
  · rintro ⟨t, known, inside⟩
    obtain ⟨run, there, rfl⟩ := List.mem_map.1 inside
    obtain ⟨⟨low, drawn⟩, free⟩ := (first t run.1 known).1 (List.mem_map_of_mem there)
    exact ⟨run.1, List.mem_range.2 low, List.mem_map.2 ⟨t, List.mem_filter.2
      ⟨List.mem_filter.2 ⟨known, decide_eq_true drawn⟩, by simpa using free⟩, rfl⟩⟩

/-- The sorted ends are the last columns of the runs, wall by wall. -/
theorem sorted_ends : arraySort Prod.fst (dEnds f) = (dSegs f).flatMap fun t =>
    (t.runs f).map fun run => (t.pos * 512 + (run.1 + run.2), run.1 + run.2) := by
  have last : ∀ (t : Wall) (x : Nat), t ∈ dSegs f →
      (x ∈ ((t.runs f).map fun run => run.1 + run.2) ↔ (x < 320 ∧ t.Drawn f x) ∧
        ¬ ((if x = 319 then [] else column f (x + 1)).any fun u => decide (u.pos = t.pos)) = true) := by
    intro t x there
    rw [(t.apart f).mem_lasts, t.mem_cover, t.mem_cover]
    refine and_congr_right fun here => ?_
    by_cases right : x = 319
    · subst right
      simp
    · rw [if_neg right, any_column f there, not_iff_not]
      exact and_iff_right (by omega)
  have distinct : (dEnds f).Nodup := by
    rw [dEnds, dNextcol_eq]
    refine List.Nodup.map_on ?_ (nodup_edges f _)
    intro e here e' there same
    rw [edges_eq, List.mem_flatMap] at here there
    obtain ⟨x, -, here⟩ := here
    obtain ⟨x', -, there⟩ := there
    obtain ⟨t, kept, rfl⟩ := List.mem_map.1 here
    obtain ⟨t', kept', rfl⟩ := List.mem_map.1 there
    obtain ⟨key, rfl⟩ := Prod.mk.inj same
    have known := (List.mem_filter.1 (List.mem_filter.1 kept).1).1
    have known' := (List.mem_filter.1 (List.mem_filter.1 kept').1).1
    rw [dSegs_inj f known known' (by dsimp only at key; omega)]
  refine arraySort_eq distinct (layout_sorted f (fun run => run.1 + run.2)
    (fun t run => (t.pos * 512 + (run.1 + run.2), run.1 + run.2))
    (fun run => ⟨Nat.le_add_right _ _, le_rfl⟩) fun t run => rfl) fun e => ?_
  rw [dEnds, dNextcol_eq, edges_eq, List.mem_map, List.mem_flatMap]
  simp only [List.mem_flatMap]
  constructor
  · rintro ⟨e, ⟨x, low, inside⟩, rfl⟩
    obtain ⟨t, kept, rfl⟩ := List.mem_map.1 inside
    obtain ⟨here, free⟩ := List.mem_filter.1 kept
    obtain ⟨known, drawn⟩ := List.mem_filter.1 here
    obtain ⟨run, there, rfl⟩ := List.mem_map.1 ((last t x known).2
      ⟨⟨List.mem_range.1 low, of_decide_eq_true drawn⟩, by simpa using free⟩)
    exact ⟨t, known, List.mem_map.2 ⟨run, there, rfl⟩⟩
  · rintro ⟨t, known, inside⟩
    obtain ⟨run, there, rfl⟩ := List.mem_map.1 inside
    obtain ⟨⟨low, drawn⟩, free⟩ := (last t (run.1 + run.2) known).1
      (List.mem_map.2 ⟨run, there, rfl⟩)
    exact ⟨(t.pos * 512 + (run.1 + run.2), t.index, run.1 + run.2),
      ⟨run.1 + run.2, List.mem_range.2 low, List.mem_map.2 ⟨t, List.mem_filter.2
        ⟨List.mem_filter.2 ⟨known, decide_eq_true drawn⟩, by simpa using free⟩, rfl⟩⟩, rfl⟩

/-- The fragments are the runs of the walls, wall by wall. -/
theorem dsAll_eq : dsAll f = (dSegs f).flatMap fun t =>
    (t.runs f).map fun run => (t.index, run.1, run.1 + run.2) := by
  rw [dsAll, sorted_starts, sorted_ends, Spans.zip_flatMap _ fun t _ => by simp, List.map_flatMap]
  simp only [List.zip_map', List.map_map]
  rfl

theorem mem_dSegs {t : Wall} (there : t ∈ dSegs f) :
    (t.seg, t.pos) ∈ visible f ∧ t.x1 = (f.segs t.seg).x1 ∧ t.x2 = (f.segs t.seg).x2 ∧
      (lineOf (f.segs t.seg)).clips ≠ .empty ∧ (qSeg f).getD (t.index - 1) 0 = t.seg := by
  obtain ⟨wall, shows⟩ := List.mem_filter.1 there
  rw [walls_eq] at wall
  obtain ⟨⟨⟨sg, pos⟩, index⟩, inside, rfl⟩ := List.mem_map.1 wall
  obtain ⟨first, found⟩ := List.mem_zipIdx_iff_le_and_getElem?_sub.1 inside
  refine ⟨List.mem_of_getElem? found, rfl, rfl, ?_, ?_⟩
  · rw [ne_eq, ← classOf_empty]
    exact (of_decide_eq_true shows).1
  · rw [qSeg_eq, List.getD_eq_getElem?_getD, List.getElem?_map, found]
    rfl

/-- The runs of a wall are those of the columns its seg draws, where the earlier segs have closed some. -/
theorem runs_draws (few : (segSeq f).length < never) {t : Wall} (there : t ∈ dSegs f)
    (inView : 0 ≤ (f.segs t.seg).x1 ∧ (f.segs t.seg).x2 ≤ 320) :
    Posts.Runs ((lineOf (f.segs t.seg)).Draws (Closed (sceneOf f) ((segSeq f).take (t.pos - 1))))
      ((t.runs f).map fun run => ⟨run.1, (run.1 + run.2 : Nat)⟩) := by
  obtain ⟨known, first, last, shows, -⟩ := mem_dSegs f there
  obtain ⟨⟨low, found⟩, vis⟩ := (mem_visible f).1 known
  have short := (List.getElem?_eq_some_iff.1 found).1
  refine ⟨⟨List.pairwise_map.2 ?_, ?_⟩, fun x => ?_⟩
  · have apart := (t.apart f).separate
    have increases := (t.apart f).increases
    refine increases.imp_of_mem fun {run run'} here here' less => ?_
    rcases apart run here run' here' with rfl | beyond | beyond
    · omega
    · dsimp only
      omega
    · omega
  · intro post kept
    obtain ⟨run, -, rfl⟩ := List.mem_map.1 kept
    dsimp only
    omega
  · have covers : Posts.Covers ((t.runs f).map fun run => ⟨run.1, (run.1 + run.2 : Nat)⟩) x ↔
        ∃ n : Nat, x = n ∧ n ∈ Runs.cover (t.runs f) := by
      rw [Posts.Covers]
      constructor
      · rintro ⟨post, kept, above, under⟩
        obtain ⟨run, here, rfl⟩ := List.mem_map.1 kept
        dsimp only at above under
        obtain ⟨n, rfl⟩ := Int.eq_ofNat_of_zero_le ((Int.natCast_nonneg _).trans above)
        exact ⟨n, rfl, Runs.mem_cover.2 ⟨run, here, by omega, by omega⟩⟩
      · rintro ⟨n, rfl, covered⟩
        obtain ⟨run, here, above, under⟩ := Runs.mem_cover.1 covered
        exact ⟨_, List.mem_map_of_mem here, by dsimp only; omega, by dsimp only; omega⟩
    have number : ∀ n : Nat, n < 320 →
        ((solidTime f).getD n 0 ≥ t.pos ↔ ¬ Closed (sceneOf f) ((segSeq f).take (t.pos - 1)) n) := by
      intro n small
      rw [← solidTime_lt f small (by omega), Nat.not_lt, Nat.sub_add_cancel low]
    rw [covers, Line.Draws, and_iff_right shows, crosses_iff, and_iff_right vis]
    constructor
    · rintro ⟨n, rfl, covered⟩
      obtain ⟨small, above, under, open_⟩ := (t.mem_cover f).1 covered
      exact ⟨⟨by omega, by omega⟩, (number n small).1 open_⟩
    · rintro ⟨⟨above, under⟩, open_⟩
      obtain ⟨n, rfl⟩ := Int.eq_ofNat_of_zero_le (inView.1.trans above)
      have small : n < 320 := by omega
      exact ⟨n, rfl, (t.mem_cover f).2 ⟨small, by omega, by omega, (number n small).2 open_⟩⟩

/-- The walls with their places are the visible segs that show and are not culled. -/
theorem dSegs_places : (dSegs f).map (fun t => (t.seg, t.pos)) =
    (visible f).filter fun a => decide (classOf (f.segs a.1) ≠ 0 ∧
      (ssecCulled f).getD (f.segSsec.getD a.1 0) false = false) := by
  rw [dSegs, walls_eq, List.filter_map, List.map_map]
  conv_rhs => rw [← List.zipIdx_map_fst 1 (visible f), List.filter_map]
  rfl

end

section
variable {f : Frame} {tree : Bsp} (formed : WellFormed f tree)
include formed

/-- The fragments, with the segs they are of, are what the clip list leaves of the segs the walk comes
to. -/
theorem dsAll_fragments :
    (dsAll f).map (fun t => ((qSeg f).getD (t.1 - 1) 0, (⟨t.2.1, t.2.2⟩ : Cliprange))) =
      (reached (sceneOf f) (fun id => (nCulled f).getD id false) 0 tree).flatMap
        (fragments (sceneOf f) (segSeq f)) := by
  -- wall by wall
  have walls : (dsAll f).map (fun t => ((qSeg f).getD (t.1 - 1) 0, (⟨t.2.1, t.2.2⟩ : Cliprange))) =
      ((dSegs f).map fun t => (t.seg, t.pos)).flatMap fun a =>
        fragments (sceneOf f) (segSeq f) (a.1, a.2 - 1) := by
    rw [dsAll_eq, List.map_flatMap, List.flatMap_map]
    refine List.flatMap_congr fun t there => ?_
    obtain ⟨known, -, -, -, seg⟩ := mem_dSegs f there
    have inView := formed.inView t.seg ((mem_visible f).1 known).2
    have runs := (runs_draws f formed.few there ⟨inView.1, inView.2.2⟩).runsOf_eq
    rw [fragments]
    dsimp only
    rw [show (sceneOf f).lines t.seg = lineOf (f.segs t.seg) from rfl, runs, List.map_map, List.map_map]
    refine List.map_congr_left fun run _ => ?_
    dsimp only [Function.comp_apply]
    rw [seg]
  -- a seg that shows nowhere leaves no fragment
  have empty : ∀ a : Nat × Nat, ((f.segs a.1).vis && decide (classOf (f.segs a.1) ≠ 0)) = false →
      fragments (sceneOf f) (segSeq f) a = [] := by
    intro a hides
    rw [fragments, runsOf_empty, List.map_nil]
    rintro x ⟨shows, crosses, -⟩
    have vis := (crosses_iff.1 crosses).1
    rw [vis, Bool.true_and, decide_eq_false_iff_not, not_not, classOf_empty] at hides
    exact shows hides
  have places : (dSegs f).map (fun t => (t.seg, t.pos)) =
      ((((segSeq f).zipIdx.filter fun a => !(ssecCulled f).getD (f.segSsec.getD a.1 0) false).filter
        fun a => (f.segs a.1).vis && decide (classOf (f.segs a.1) ≠ 0)).map
          fun a => (a.1, a.2 + 1)) := by
    rw [dSegs_places, visible, List.zipIdx_succ, List.filter_map, List.filter_map,
      List.filter_filter, List.filter_filter]
    congr 1
    · refine List.filter_congr fun a _ => ?_
      simp only [Function.comp_apply, Bool.decide_and]
      cases (f.segs a.1).vis <;> cases (ssecCulled f).getD (f.segSsec.getD a.1 0) false <;> simp
  rw [walls, places, reached_tree formed, List.flatMap_map]
  refine Eq.trans (List.flatMap_congr fun a _ => rfl) ?_
  exact flatMap_filter_of_empty fun a _ hides => empty a hides

/-- The walls of a frame are the drawsegs the engine's walk leaves, in the order it takes them, if its
clip list never overflows. -/
theorem dsList_renderBSPNode {clip : Engine.ClipSegs}
    (length : clip.solidsegs.length = Engine.maxsegs) {fuel : Nat} (enough : 64 < fuel) {view : View}
    (ran : renderBSPNode (sceneOf f) fuel (UInt32.ofNat (f.level.nodes.list.length - 1))
      ⟨clip.clear 320, []⟩ = some view) :
    view.drawsegs = (wSeg f).zip (((dsX1 f).zip (dsX2 f)).map fun x => ⟨x.1, x.2⟩) := by
  have lists : (wSeg f).zip (((dsX1 f).zip (dsX2 f)).map fun x => (⟨x.1, x.2⟩ : Cliprange)) =
      ((dsAll f).map fun t => ((qSeg f).getD (t.1 - 1) 0, (⟨t.2.1, t.2.2⟩ : Cliprange))).take 256 := by
    rw [wSeg, dsQi, dsX1, dsX2, dsList, List.zip_map', List.map_map, List.map_map, List.zip_map',
      List.map_take]
    rfl
  have order := segSeq_eq formed
  have lines : ∀ sg, ((sceneOf f).lines sg).InView := by
    intro sg x1 x2 columns
    by_cases vis : (f.segs sg).vis = true
    · obtain ⟨rfl, rfl⟩ := Prod.mk.inj (Option.some.inj ((if_pos vis).symm.trans columns))
      exact formed.inView sg vis
    · have none := (if_neg vis).symm.trans columns
      cases none
  rw [renderBSPNode_eq (sceneOf f) formed.order.spells (formed.order.depth.trans_lt enough)] at ran
  have walk : tree.walk (side (sceneOf f)) = [] ++ tree.walk (side (sceneOf f)) ++ [] := by simp
  have culls := culls_of_walk formed walk formed.order.spells formed.ranged
  obtain ⟨-, drawn⟩ := renders lines formed.boxes tree [] [] ⟨clip.clear 320, []⟩ view _
    (by simpa using order)
    ((Engine.ClipSegs.holds_clear (by decide) (by decide) length).congr fun x _ _ => by simp [Closed])
    (Nat.zero_le _) formed.inside culls ran
  rw [lists, dsAll_fragments formed, drawn]
  rfl

end

/-- One-sided. -/
def wall (x1 x2 : Int) : SegLook := ⟨true, x1, x2, ⟨0, 8, 1, 1, 160⟩, none, 0⟩
/-- A wall ahead of a window, and a wall they hide. -/
def crossFrame : Frame where
  level := Order.crossLevel
  viewx := -65536
  viewy := 65536
  rangeFirst := [1, 0]
  rangeLast := [2, 2]
  segSsec := [0, 0, 1, 1, 1, 2]
  clipangle := 0x20000000
  segs := fun sg =>
    match sg with
    | 0 => wall 10 40
    | 1 => ⟨true, 40, 90, ⟨0, 8, 1, 1, 160⟩, some ⟨2, 8, 1, 1, 160⟩, 0⟩
    | 2 => wall 30 50
    | 5 => wall 20 60
    | _ => ⟨false, 0, 0, ⟨0, 8, 1, 1, 160⟩, none, 0⟩
  boxes := fun id _ => if id = 0 then ⟨0, 0, 0, 0, 30, 50⟩ else ⟨0, 0, 0, 0, 10, 90⟩

theorem crossFrame_formed :
    WellFormed crossFrame (.node 1 (.leaf 0) (.node 0 (.leaf 1) (.leaf 2))) where
  order := Order.crossLevel_formed
  ranged := by
    refine ⟨⟨0, 2, rfl, rfl, by decide⟩, trivial, ⟨1, 1, rfl, rfl, by decide⟩, trivial, trivial⟩
  ssecs := by decide
  few := by
    have walk := Order.ssecOrder_walk Order.crossLevel_formed (-65536) 65536
    have count : (segSeq crossFrame).length = 6 := by
      rw [segSeq, Order.segSeq_addLines, crossFrame, walk]
      rfl
    rw [count]
    decide
  count := by decide
  inView := by
    intro sg
    obtain _ | _ | _ | _ | _ | _ | sg := sg
    all_goals simp [crossFrame, wall]
  boxes := by
    intro id side sx1 sx2 columns
    have known : ∀ look : BoxLook, look.boxpos = 0 → look.span = 0 → look.t1 = 0 → look.t2 = 0 →
        boxOf 0x20000000 look = .columns look.sx1 look.sx2 := by
      rintro ⟨_, _, _, _, x1, x2⟩ rfl rfl rfl rfl
      rfl
    by_cases inner : id = 0
    · have inner : crossFrame.boxes id side = ⟨0, 0, 0, 0, 30, 50⟩ := if_pos inner
      rw [inner] at columns
      obtain ⟨rfl, rfl⟩ := Box.columns.inj ((known _ rfl rfl rfl rfl).symm.trans columns)
      decide
    · have outer : crossFrame.boxes id side = ⟨0, 0, 0, 0, 10, 90⟩ := if_neg inner
      rw [outer] at columns
      obtain ⟨rfl, rfl⟩ := Box.columns.inj ((known _ rfl rfl rfl rfl).symm.trans columns)
      decide
  inside := by
    have walked : segs (sceneOf crossFrame) (.leaf 0) = [0, 1] ∧
        segs (sceneOf crossFrame) (.leaf 1) = [2, 3, 4] := by decide
    refine ⟨?_, trivial, ?_, trivial, trivial⟩
    · show ∀ sg ∈ segs (sceneOf crossFrame) (.leaf 0), Box.Around ((sceneOf crossFrame).lines sg) (.columns 10 90)
      rw [walked.1]
      simp only [List.forall_mem_cons, List.not_mem_nil, false_implies, implies_true, and_true]
      refine ⟨fun x crosses => ?_, fun x crosses => ?_⟩
      all_goals
        have columns := (crosses_iff.1 crosses).2
        simp only [crossFrame, wall] at columns
        omega
    · show ∀ sg ∈ segs (sceneOf crossFrame) (.leaf 1), Box.Around ((sceneOf crossFrame).lines sg) (.columns 30 50)
      rw [walked.2]
      simp only [List.forall_mem_cons, List.not_mem_nil, false_implies, implies_true, and_true]
      refine ⟨fun x crosses => ?_, fun x crosses => ?_, fun x crosses => ?_⟩
      all_goals
        have columns := (crosses_iff.1 crosses).2
        simp only [crossFrame, wall] at columns
        omega

/-- The wall behind the first one is culled, the one beside it and the window show in part. -/
theorem dsList_renderBSPNode_cross :
    WellFormed crossFrame (.node 1 (.leaf 0) (.node 0 (.leaf 1) (.leaf 2))) ∧
    [(5, ⟨20, 59⟩), (0, ⟨10, 19⟩), (1, ⟨60, 89⟩)] = (wSeg crossFrame).zip
      (((dsX1 crossFrame).zip (dsX2 crossFrame)).map fun x => (⟨x.1, x.2⟩ : Cliprange)) := by
  have ran : renderBSPNode (sceneOf crossFrame) 65 1
      ⟨Engine.ClipSegs.clear ⟨List.replicate Engine.maxsegs ⟨0, 0⟩, 0⟩ 320, []⟩ =
        some ⟨⟨⟨-0x7fffffff, -1⟩ :: ⟨10, 59⟩ :: ⟨320, 0x7fffffff⟩ :: List.replicate 29 ⟨0, 0⟩, 3⟩,
          [(5, ⟨20, 59⟩), (0, ⟨10, 19⟩), (1, ⟨60, 89⟩)]⟩ := rfl
  exact ⟨crossFrame_formed, dsList_renderBSPNode crossFrame_formed (List.length_replicate ..)
    (by decide : 64 < 65) ran⟩

end ClickDoom.Native.Fragments

import ClickDoom.Engine.Sight

/-! # Which subsectors a sight check reaches

`P_CrossBSPNode` crosses the subsectors of one list, one after the other, as long as no
crossing is cut short.  A subsector is on that list exactly when no partition line on its
way down turns the trace away.
-/
namespace ClickDoom.Engine

/-- The subsectors the descent crosses when no crossing is cut short, in order. -/
def descended (nodes : Nodes) (sight : Sighting) : Nat → UInt32 → List Nat
  | 0, _ => []
  | fuel + 1, bspnum =>
    if isSubsector bspnum then [subsectorOf bspnum]
    else
      match nodes.list[bspnum.toNat]? with
      | none => []
      | some bsp =>
        descended nodes sight fuel (bsp.child (startSide sight bsp)) ++
          if startSide sight bsp = endSide sight bsp then []
          else descended nodes sight fuel (bsp.child (startSide sight bsp ^^^ 1))

/-- The nodes the descent divides the trace at, in order. -/
def passed (nodes : Nodes) (sight : Sighting) : Nat → UInt32 → List Node
  | 0, _ => []
  | fuel + 1, bspnum =>
    if isSubsector bspnum then []
    else
      match nodes.list[bspnum.toNat]? with
      | none => []
      | some bsp =>
        bsp :: (passed nodes sight fuel (bsp.child (startSide sight bsp)) ++
          if startSide sight bsp = endSide sight bsp then []
          else passed nodes sight fuel (bsp.child (startSide sight bsp ^^^ 1)))

/-- The way down from a node to a leaf: each node passed and the side taken there. -/
inductive AncestorPath (nodes : Nodes) : UInt32 → List (Nat × Nat) → UInt32 → Prop
  | leaf {bspnum : UInt32} : isSubsector bspnum = true → AncestorPath nodes bspnum [] bspnum
  | step {bspnum : UInt32} {bsp : Node} {side : Nat} {path : List (Nat × Nat)} {leaf : UInt32} :
      isSubsector bspnum = false → nodes.list[bspnum.toNat]? = some bsp → side < 2 →
      AncestorPath nodes (bsp.child side) path leaf →
      AncestorPath nodes bspnum ((bspnum.toNat, side) :: path) leaf

/-- The trace goes down a side: it starts there, or its ends part over the line. -/
def takes (nodes : Nodes) (sight : Sighting) (step : Nat × Nat) : Bool :=
  let node := nodes.list.getD step.1 default
  step.2 == startSide sight node || startSide sight node != endSide sight node

variable {nodes : Nodes} {sight : Sighting}

theorem divlineSide_le (x y : Int32) (line : Divline) : divlineSide x y line ≤ 2 := by
  have truth_le : ∀ (p : Prop) [Decidable p], truth p ≤ 2 := by
    intro p _
    rw [truth]
    split <;> decide
  simp only [divlineSide]
  split_ifs <;> first | decide | exact truth_le _

theorem startSide_lt (node : Node) : startSide sight node < 2 := by
  have le := divlineSide_le sight.strace.x sight.strace.y node.toDivline
  rw [startSide]
  split
  · decide
  · omega

theorem getD_of_getElem? {nodes : Nodes} {i : Nat} {bsp : Node}
    (found : nodes.list[i]? = some bsp) : nodes.list.getD i default = bsp := by
  rw [List.getD_eq_getElem?_getD, found]
  rfl

/-- Of the two sides, the trace takes the one it starts on, and the other when its ends
part. -/
theorem takes_iff {i side : Nat} {bsp : Node} (found : nodes.list[i]? = some bsp)
    (small : side < 2) :
    takes nodes sight (i, side) = true ↔
      side = startSide sight bsp ∨
        (side = startSide sight bsp ^^^ 1 ∧ startSide sight bsp ≠ endSide sight bsp) := by
  have start : startSide sight bsp < 2 := startSide_lt bsp
  have flip : ∀ a < 2, ∀ b < 2, b ≠ a → b = a ^^^ 1 := by decide
  simp only [takes, getD_of_getElem? found, Bool.or_eq_true, beq_iff_eq, bne_iff_ne]
  constructor
  · rintro (same | part)
    · exact .inl same
    · by_cases same : side = startSide sight bsp
      · exact .inl same
      · exact .inr ⟨flip _ start _ small same, part⟩
  · rintro (same | ⟨-, part⟩)
    · exact .inl same
    · exact .inr part

/-- The descent reaches a subsector exactly down a way on which it takes every side. -/
theorem mem_descended {bspnum : UInt32} {depth fuel num : Nat} (tree : Subtree nodes bspnum depth)
    (enough : depth < fuel) :
    num ∈ descended nodes sight fuel bspnum ↔
      ∃ path leaf, AncestorPath nodes bspnum path leaf ∧ subsectorOf leaf = num ∧
        ∀ step ∈ path, takes nodes sight step = true := by
  induction depth using Nat.strong_induction_on generalizing bspnum fuel with
  | _ depth ih =>
    obtain ⟨fuel, rfl⟩ : ∃ f, fuel = f + 1 := ⟨fuel - 1, by omega⟩
    cases tree with
    | leaf flagged small =>
      rw [descended, if_pos flagged, List.mem_singleton]
      constructor
      · rintro rfl
        exact ⟨[], bspnum, .leaf flagged, rfl, by simp⟩
      · rintro ⟨path, leaf, way, rfl, -⟩
        cases way with
        | leaf _ => rfl
        | step unflagged => exact absurd flagged (by simp [unflagged])
    | @node _ bsp depth0 depth1 unflagged found tree0 tree1 =>
      rw [descended, unflagged, if_neg Bool.false_ne_true, found]
      have below : ∀ side, num ∈ descended nodes sight fuel (bsp.child side) ↔
          ∃ path leaf, AncestorPath nodes (bsp.child side) path leaf ∧ subsectorOf leaf = num ∧
            ∀ step ∈ path, takes nodes sight step = true := by
        intro side
        obtain ⟨under, le, tree⟩ := Subtree.child tree0 tree1 side
        exact ih under (by omega) tree (by omega)
      have start : startSide sight bsp < 2 := startSide_lt bsp
      have other : startSide sight bsp ^^^ 1 < 2 := by
        have : ∀ a < 2, a ^^^ 1 < 2 := by decide
        exact this _ start
      constructor
      · intro reached
        rcases List.mem_append.1 reached with here | there
        · obtain ⟨path, leaf, way, named, open'⟩ := (below _).1 here
          refine ⟨_, leaf, .step unflagged found start way, named, ?_⟩
          simpa using ⟨(takes_iff found start).2 (.inl rfl), fun a b => open' (a, b)⟩
        · split at there
          · exact absurd there (by simp)
          · obtain ⟨path, leaf, way, named, open'⟩ := (below _).1 there
            refine ⟨_, leaf, .step unflagged found other way, named, ?_⟩
            simpa using ⟨(takes_iff found other).2 (.inr ⟨rfl, ‹_›⟩), fun a b => open' (a, b)⟩
      · rintro ⟨path, leaf, way, named, open'⟩
        cases way with
        | leaf flagged => exact absurd flagged (by simp [unflagged])
        | @step _ _ side path _ _ again small way =>
          cases found.symm.trans again
          have rest : num ∈ descended nodes sight fuel (bsp.child side) :=
            (below side).2 ⟨path, leaf, way, named, fun step member =>
              open' step (List.mem_cons_of_mem _ member)⟩
          rcases (takes_iff found small).1 (open' _ List.mem_cons_self) with rfl | ⟨rfl, part⟩
          · exact List.mem_append_left _ rest
          · refine List.mem_append_right _ ?_
            rw [if_neg part]
            exact rest

/-- A node is divided at once every side on the way down to it is taken. -/
theorem mem_passed {depth fuel : Nat} {path before rest : List (Nat × Nat)} {step : Nat × Nat}
    {bspnum leaf : UInt32} {node : Node} (tree : Subtree nodes bspnum depth)
    (enough : depth < fuel) (way : AncestorPath nodes bspnum path leaf)
    (split : path = before ++ step :: rest)
    (taken : ∀ other ∈ before, takes nodes sight other = true)
    (named : nodes.list[step.1]? = some node) : node ∈ passed nodes sight fuel bspnum := by
  induction before generalizing bspnum depth fuel path with
  | nil =>
    obtain ⟨fuel, rfl⟩ : ∃ f, fuel = f + 1 := ⟨fuel - 1, by omega⟩
    cases way with
    | leaf _ => exact absurd split (by simp)
    | step unflagged found _ _ =>
      obtain ⟨rfl, -⟩ := List.cons.inj split
      cases found.symm.trans named
      rw [passed, unflagged, if_neg Bool.false_ne_true, found]
      exact List.mem_cons_self
  | cons other before ih =>
    obtain ⟨fuel, rfl⟩ : ∃ f, fuel = f + 1 := ⟨fuel - 1, by omega⟩
    cases way with
    | leaf _ => exact absurd split (by simp)
    | @step _ bsp side path _ unflagged found small way =>
      obtain ⟨rfl, onward⟩ := List.cons.inj split
      have later : ∀ next ∈ before, takes nodes sight next = true := fun next member =>
        taken next (List.mem_cons_of_mem _ member)
      cases tree with
      | leaf flagged _ => exact absurd flagged (by simp [unflagged])
      | @node _ _ _ _ _ again tree0 tree1 =>
        cases found.symm.trans again
        obtain ⟨under, le, tree⟩ := Subtree.child tree0 tree1 side
        have below : node ∈ passed nodes sight fuel (bsp.child side) :=
          ih tree (by omega) way onward later
        rw [passed, unflagged, if_neg Bool.false_ne_true, found]
        refine List.mem_cons_of_mem _ (List.mem_append.2 ?_)
        rcases (takes_iff found small).1 (taken _ List.mem_cons_self) with rfl | ⟨rfl, part⟩
        · exact .inl below
        · exact .inr (by rw [if_neg part]; exact below)

/-! ## The crossing of the list -/

variable {level : SightLevel}

/-- Every leaf of a tree names a subsector of the level. -/
def LeavesNamed (level : SightLevel) (bspnum : UInt32) : Prop :=
  ∀ path leaf, AncestorPath level.nodes bspnum path leaf →
    subsectorOf leaf < level.subsectors.length

/-- The segs of a subsector by its number. -/
def SightLevel.segsAt (level : SightLevel) (num : Nat) : List Seg :=
  level.segsOf (level.subsectors.getD num ⟨0, 0, 0⟩)

theorem crossSubsector_eq {num : Nat} (named : num < level.subsectors.length) (slopes : Slopes) :
    crossSubsector level sight slopes num =
      (level.segsAt num).foldlM (crossSeg level.lines sight) slopes := by
  rw [crossSubsector, readTable_ok named, SightLevel.segsAt, List.getD_eq_getElem _ _ named]
  rfl

/-- The descent is the crossing of the segs of the subsectors on its list. -/
theorem crossBspNode_eq {bspnum : UInt32} {depth fuel : Nat}
    (tree : Subtree level.nodes bspnum depth) (named : LeavesNamed level bspnum)
    (enough : depth < fuel) (slopes : Slopes) :
    crossBspNode level sight fuel bspnum slopes =
      ((descended level.nodes sight fuel bspnum).flatMap level.segsAt).foldlM
        (crossSeg level.lines sight) slopes := by
  induction depth using Nat.strong_induction_on generalizing bspnum fuel slopes with
  | _ depth ih =>
    obtain ⟨fuel, rfl⟩ : ∃ f, fuel = f + 1 := ⟨fuel - 1, by omega⟩
    cases tree with
    | leaf flagged small =>
      rw [crossBspNode, descended, if_pos flagged, if_pos flagged,
        crossSubsector_eq (named _ _ (.leaf flagged))]
      simp
    | @node _ bsp depth0 depth1 unflagged found tree0 tree1 =>
      have below : ∀ side < 2, ∀ slopes, crossBspNode level sight fuel (bsp.child side) slopes =
          ((descended level.nodes sight fuel (bsp.child side)).flatMap level.segsAt).foldlM
            (crossSeg level.lines sight) slopes := by
        intro side small slopes
        obtain ⟨under, le, tree⟩ := Subtree.child tree0 tree1 side
        exact ih under (by omega) tree
          (fun path leaf way => named _ leaf (.step unflagged found small way)) (by omega) slopes
      have start : startSide sight bsp < 2 := startSide_lt bsp
      have other : startSide sight bsp ^^^ 1 < 2 := by
        have : ∀ a < 2, a ^^^ 1 < 2 := by decide
        exact this _ start
      have node : readTable level.nodes.list bspnum.toNat = .ok bsp := by
        obtain ⟨inside, rfl⟩ := List.getElem?_eq_some_iff.1 found
        exact readTable_ok inside
      rw [crossBspNode, descended, unflagged, if_neg Bool.false_ne_true,
        if_neg Bool.false_ne_true, found, node, List.flatMap_append, List.foldlM_append,
        ← below _ start]
      show (crossBspNode level sight fuel (bsp.child (startSide sight bsp)) slopes >>= _) = _
      congr 1
      funext slopes'
      split
      · simp
      · exact below _ other slopes'

end ClickDoom.Engine

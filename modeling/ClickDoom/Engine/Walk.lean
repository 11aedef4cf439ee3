import ClickDoom.Engine.Nodes

/-! # The walk through the nodes

`r_bsp.c`: `R_RenderBSPNode` and `R_Subsector`, of which only the order of their calls is kept.
`R_CheckBBox` rejects nothing here.  A `Bsp` is the tree that the numbers of the nodes spell.
-/
namespace ClickDoom.Engine

/-- `R_RenderBSPNode`: the subsectors in the order it reaches them, none while the recursion is
deeper than `fuel` or a number is no node. -/
def renderBSPNode (nodes : Nodes) (viewx viewy : Int32) : Nat → UInt32 → Option (List Nat)
  | 0, _ => none
  | fuel + 1, bspnum =>
    if isSubsector bspnum then
      some [if bspnum = -1 then 0 else (bspnum &&& ~~~nfSubsector).toNat]
    else do
      let bsp ← nodes.list[bspnum.toNat]?
      let side := pointOnSide viewx viewy bsp.toDivline
      let near ← renderBSPNode nodes viewx viewy fuel (bsp.child side)
      let far ← renderBSPNode nodes viewx viewy fuel (bsp.child (side ^^^ 1))
      return near ++ far

/-- The fields of a `subsector_t` the walk reads. -/
structure SegRun where
  firstline : Nat
  numlines : Nat
  deriving DecidableEq, Repr

/-- The segs `R_Subsector` hands to `R_AddLine`. -/
def addLines (sub : SegRun) : List Nat := List.range' sub.firstline sub.numlines

/-! ## Trees -/

/-- A tree of nodes, with the number of a subsector at each leaf. -/
inductive Bsp
  | leaf (num : Nat)
  | node (id : Nat) (child0 child1 : Bsp)
  deriving DecidableEq, Repr

namespace Bsp

def depth : Bsp → Nat
  | leaf _ => 0
  | node _ child0 child1 => max child0.depth child1.depth + 1

def leaves : Bsp → List Nat
  | leaf num => [num]
  | node _ child0 child1 => child0.leaves ++ child1.leaves

/-- The number a tree goes by as a child: a node's own, a subsector's with the top bit set. -/
def number : Bsp → Nat
  | leaf num => num + 32768
  | node id _ _ => id

/-- The nodes spell the tree under a number. -/
def Of (nodes : Nodes) : Bsp → UInt32 → Prop
  | leaf num, bspnum => num < 32768 ∧ bspnum.toNat = num + 32768
  | node id child0 child1, bspnum => bspnum.toNat = id ∧ id < 32768 ∧
      ∃ bsp, nodes.list[id]? = some bsp ∧ child0.Of nodes bsp.child0.toUInt32 ∧
        child1.Of nodes bsp.child1.toUInt32

/-- The subsectors in the order of a walk that enters the child on a node's side first. -/
def walk (side : Nat → Nat) : Bsp → List Nat
  | leaf num => [num]
  | node id child0 child1 =>
    if side id = 0 then child0.walk side ++ child1.walk side
    else child1.walk side ++ child0.walk side

/-- The path of nodes to each subsector, from the root down. -/
def paths : Bsp → List (Nat × List Nat)
  | leaf num => [(num, [])]
  | node id child0 child1 =>
    (child0.paths ++ child1.paths).map fun (num, path) => (num, id :: path)

theorem walk_perm (side : Nat → Nat) : ∀ tree : Bsp, (tree.walk side).Perm tree.leaves
  | leaf _ => List.Perm.refl _
  | node id child0 child1 => by
    rw [walk, leaves]
    split_ifs
    · exact (walk_perm side child0).append (walk_perm side child1)
    · exact ((walk_perm side child1).append (walk_perm side child0)).trans List.perm_append_comm

end Bsp

/-! ## The walk of a tree -/

/-- The side of the view point at a node. -/
def sideOf (nodes : Nodes) (viewx viewy : Int32) (id : Nat) : Nat :=
  match nodes.list[id]? with
  | some bsp => pointOnSide viewx viewy bsp.toDivline
  | none => 0

theorem truth_lt (p : Prop) [Decidable p] : truth p < 2 := by
  rw [truth]
  split_ifs <;> decide

theorem pointOnSide_lt (x y : Int32) (line : Divline) : pointOnSide x y line < 2 := by
  rw [pointOnSide]
  dsimp only
  split_ifs <;> first | exact truth_lt _ | decide

theorem isSubsector_iff {bspnum : UInt32} (small : bspnum.toNat < 65536) :
    isSubsector bspnum = true ↔ 32768 ≤ bspnum.toNat := by
  have bit : (bspnum &&& nfSubsector).toNat = (bspnum.toNat.testBit 15).toNat * 2 ^ 15 := by
    rw [UInt32.toNat_and]
    exact Nat.and_two_pow _ 15
  have high : bspnum.toNat.testBit 15 = decide (32768 ≤ bspnum.toNat) := by
    rw [Nat.testBit_eq_decide_div_mod_eq, decide_eq_decide]
    omega
  rw [isSubsector, bne_iff_ne, ne_eq, ← UInt32.toNat_inj, bit, high]
  by_cases flagged : 32768 ≤ bspnum.toNat <;> simp [flagged]

theorem low_bits {bspnum : UInt32} {num : Nat} (low : num < 32768)
    (same : bspnum.toNat = num + 32768) : (bspnum &&& ~~~nfSubsector).toNat = num := by
  rw [mask_eq (by omega), UInt32.toNat_and, same]
  refine (Nat.and_two_pow_sub_one_eq_mod (num + 32768) 15).trans ?_
  omega

/-- The engine walks the tree that the nodes spell. -/
theorem renderBSPNode_walk {nodes : Nodes} (viewx viewy : Int32) {tree : Bsp} {bspnum : UInt32}
    (spells : tree.Of nodes bspnum) {fuel : Nat} (enough : tree.depth < fuel) :
    renderBSPNode nodes viewx viewy fuel bspnum = some (tree.walk (sideOf nodes viewx viewy)) := by
  induction tree generalizing bspnum fuel with
  | leaf num =>
    obtain ⟨fuel, rfl⟩ := Nat.exists_eq_add_of_lt enough
    obtain ⟨low, same⟩ := spells
    have flagged := (isSubsector_iff (by omega : bspnum.toNat < 65536)).2 (by omega)
    have known : bspnum ≠ -1 := by
      rintro rfl
      revert same
      rw [show (-1 : UInt32).toNat = 4294967295 from rfl]
      omega
    rw [renderBSPNode, if_pos flagged, if_neg known, low_bits low same]
    rfl
  | node id child0 child1 ih0 ih1 =>
    obtain ⟨fuel, rfl⟩ := Nat.exists_eq_add_of_le' (by omega : 1 ≤ fuel)
    obtain ⟨rfl, low, bsp, found, spells0, spells1⟩ := spells
    rw [Bsp.depth] at enough
    have plain : isSubsector bspnum = false := by
      rw [← Bool.not_eq_true, isSubsector_iff (by omega)]
      omega
    have walk0 := ih0 spells0 (by omega : child0.depth < fuel)
    have walk1 := ih1 spells1 (by omega : child1.depth < fuel)
    have side : sideOf nodes viewx viewy bspnum.toNat = pointOnSide viewx viewy bsp.toDivline := by
      rw [sideOf, found]
    rw [renderBSPNode, plain, if_neg Bool.false_ne_true, found, Bsp.walk, side]
    -- the side decides which child is the near one
    have two := pointOnSide_lt viewx viewy bsp.toDivline
    by_cases front : pointOnSide viewx viewy bsp.toDivline = 0
    · simp [front, Node.child, walk0, walk1]
    · have back : pointOnSide viewx viewy bsp.toDivline = 1 := by omega
      simp [back, Node.child, walk0, walk1]

end ClickDoom.Engine

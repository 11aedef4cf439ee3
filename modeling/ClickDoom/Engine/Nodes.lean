import ClickDoom.Base.Loops
import ClickDoom.Engine.Fixed

/-! # The engine's node tree

The nodes of a level as `p_setup.c` loads them and the descent of `r_main.c` through
them.  A child is a 16-bit number whose top bit says it names a subsector.
-/
namespace ClickDoom.Engine

/-- A `node_t`: its partition line and its two children. -/
structure Node extends Divline where
  child0 : UInt16
  child1 : UInt16
  deriving DecidableEq, Repr

instance : Inhabited Node := ⟨⟨⟨0, 0, 0, 0⟩, 0, 0⟩⟩

/-- The nodes of a level; `numnodes` is an `int`. -/
structure Nodes where
  list : List Node
  length_lt : list.length < 2 ^ 31

def nfSubsector : UInt32 := 0x8000

/-- Whether a node number names a subsector. -/
def isSubsector (nodenum : UInt32) : Bool := nodenum &&& nfSubsector != 0

/-- The child of a node on a side. -/
def Node.child (node : Node) (side : Nat) : UInt32 :=
  if side = 0 then node.child0.toUInt32 else node.child1.toUInt32

/-- The body of the loop of `R_PointInSubsector`; a number that is no node has none. -/
def descendStep (nodes : Nodes) (x y : Int32) (nodenum : UInt32) : Option UInt32 := do
  let node ← nodes.list[nodenum.toNat]?
  return node.child (pointOnSide x y node.toDivline)

/-- `R_PointInSubsector`: the number of the subsector, `none` while `fuel` steps have
not reached one. -/
def pointInSubsector (nodes : Nodes) (x y : Int32) (fuel : Nat) : Option UInt32 :=
  if nodes.list.length = 0 then some 0
  else do
    let nodenum ← Loops.whileLoop isSubsector (descendStep nodes x y) fuel
      (UInt32.ofNat (nodes.list.length - 1))
    return nodenum &&& ~~~nfSubsector

/-- The two masks agree on a child's 16 bits. -/
theorem mask_eq {leaf : UInt32} (small : leaf.toNat < 65536) :
    leaf &&& ~~~nfSubsector = leaf &&& (nfSubsector - 1) := by
  apply UInt32.toNat_inj.1
  rw [UInt32.toNat_and, UInt32.toNat_and]
  apply Nat.eq_of_testBit_eq
  intro i
  rw [Nat.testBit_and, Nat.testBit_and]
  by_cases low : i < 16
  · have masks : ∀ j < 16,
        (~~~nfSubsector).toNat.testBit j = (nfSubsector - 1).toNat.testBit j := by
      decide
    rw [masks i low]
  · rw [Nat.testBit_lt_two_pow
      (small.trans_le (Nat.pow_le_pow_right (n := 2) (by decide) (not_lt.1 low)))]
    rfl

/-! ## Well-formed trees -/

/-- `nodenum` is the root of a tree of the nodes, its deepest leaf under `depth`
partition lines. -/
inductive Subtree (nodes : Nodes) : UInt32 → Nat → Prop
  | leaf {nodenum : UInt32} : isSubsector nodenum = true → nodenum.toNat < 65536 →
      Subtree nodes nodenum 0
  | node {nodenum : UInt32} {node : Node} {depth0 depth1 : Nat} :
      isSubsector nodenum = false → nodes.list[nodenum.toNat]? = some node →
      Subtree nodes node.child0.toUInt32 depth0 → Subtree nodes node.child1.toUInt32 depth1 →
      Subtree nodes nodenum (max depth0 depth1 + 1)

/-- The last node is the root of a tree, or there are none. -/
def Nodes.Tree (nodes : Nodes) (depth : Nat) : Prop :=
  nodes.list.length = 0 ∨ Subtree nodes (UInt32.ofNat (nodes.list.length - 1)) depth

variable {nodes : Nodes}

theorem Subtree.child {node : Node} {depth0 depth1 : Nat}
    (tree0 : Subtree nodes node.child0.toUInt32 depth0)
    (tree1 : Subtree nodes node.child1.toUInt32 depth1) (side : Nat) :
    ∃ depth ≤ max depth0 depth1, Subtree nodes (node.child side) depth := by
  rw [Node.child]
  split
  · exact ⟨depth0, le_max_left .., tree0⟩
  · exact ⟨depth1, le_max_right .., tree1⟩

/-- The loop leaves a tree at a leaf, after no more steps than the tree is deep. -/
theorem Subtree.whileLoop {nodenum : UInt32} {depth : Nat} (tree : Subtree nodes nodenum depth)
    (x y : Int32) : ∃ leaf,
      Loops.whileLoop isSubsector (descendStep nodes x y) depth nodenum = some leaf ∧
      leaf.toNat < 65536 := by
  -- on the depth: the side test picks one of two trees, each less deep
  induction depth using Nat.strong_induction_on generalizing nodenum with
  | _ depth ih =>
    cases tree with
    | leaf flagged small => exact ⟨nodenum, by rw [Loops.whileLoop, if_pos flagged], small⟩
    | @node _ node depth0 depth1 unflagged found tree0 tree1 =>
      obtain ⟨under, le, tree⟩ :=
        Subtree.child tree0 tree1 (pointOnSide x y node.toDivline)
      obtain ⟨leaf, left, small⟩ := ih under (by omega) tree
      refine ⟨leaf, ?_, small⟩
      have stepped : descendStep nodes x y nodenum =
          some (node.child (pointOnSide x y node.toDivline)) := by
        rw [descendStep, found]
        rfl
      rw [Loops.whileLoop, unflagged, if_neg Bool.false_ne_true, stepped]
      exact Loops.whileLoop_mono left le

end ClickDoom.Engine

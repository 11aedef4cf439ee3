import ClickDoom.Engine.Nodes
import ClickDoom.Native.Fixed

/-! # The descent as a fold

`native/src/sql/bsp.rs`: the engine's loop to a leaf written as a fold of a fixed
number of steps.
-/
namespace ClickDoom.Native.Bsp
open Engine (Node Nodes isSubsector nfSubsector mask_eq)

/-- A row of the node table; outside it the server gives zeros. -/
def nodeAt (nodes : Nodes) (index : UInt32) : Node := nodes.list.getD index.toNat default

/-- What a step takes the accumulator to when it is no subsector. -/
def next (nodes : Nodes) (x y : Int32) (acc : UInt32) : UInt32 :=
  let node := nodeAt nodes acc
  if Fixed.pointOnSide x y node.x node.y node.dx node.dy 16 = 0 then node.child0.toUInt32
  else node.child1.toUInt32

/-- The accumulator after `depth` steps from the last node. -/
def descent (nodes : Nodes) (x y : Int32) (depth : Nat) : UInt32 :=
  Loops.guarded isSubsector (next nodes x y) depth (UInt32.ofNat (nodes.list.length - 1))

def pointInSubsector (nodes : Nodes) (x y : Int32) (depth : Nat) : UInt32 :=
  if nodes.list.length = 0 then 0 else descent nodes x y depth &&& (nfSubsector - 1)

variable {nodes : Nodes} {x y : Int32}

theorem next_of_descendStep (a a' : UInt32) (h : Engine.descendStep nodes x y a = some a') :
    next nodes x y a = a' := by
  rw [Engine.descendStep] at h
  obtain ⟨node, found, stepped⟩ := Option.bind_eq_some_iff.1 h
  cases stepped
  have row : nodeAt nodes a = node := by
    rw [nodeAt, List.getD_eq_getElem?_getD, found]
    rfl
  rw [next, row, Node.child, Fixed.pointOnSide_node]

/-- From a tree's depth on, the accumulator is a leaf and stays. -/
theorem descent_stays {deep : Nat}
    (tree : Engine.Subtree nodes (UInt32.ofNat (nodes.list.length - 1)) deep) (x y : Int32) :
    ∃ leaf, isSubsector leaf = true ∧ leaf.toNat < 65536 ∧
      (∀ fuel, deep ≤ fuel → Loops.whileLoop isSubsector (Engine.descendStep nodes x y) fuel
        (UInt32.ofNat (nodes.list.length - 1)) = some leaf) ∧
      ∀ depth, deep ≤ depth → descent nodes x y depth = leaf := by
  obtain ⟨leaf, left, small⟩ := tree.whileLoop x y
  have folds : ∀ depth, deep ≤ depth →
      descent nodes x y depth = leaf ∧ isSubsector leaf = true := fun depth le =>
    Loops.guarded_of_whileLoop next_of_descendStep left le
  exact ⟨leaf, (folds deep le_rfl).2, small, fun fuel le => Loops.whileLoop_mono left le,
    fun depth le => (folds depth le).1⟩

/-- On every well-formed tree no deeper than `depth`, the fold answers what the
engine's loop returns, and its steps from the tree's depth on change nothing. -/
theorem pointInSubsector_eq_engine {nodes : Nodes} {deep : Nat} (tree : nodes.Tree deep)
    (x y : Int32) {depth : Nat} (le : deep ≤ depth) :
    (∀ fuel, deep ≤ fuel →
      Engine.pointInSubsector nodes x y fuel = some (pointInSubsector nodes x y depth)) ∧
    (nodes.list.length ≠ 0 → isSubsector (descent nodes x y deep) = true ∧
      descent nodes x y depth = descent nodes x y deep) := by
  rcases tree with empty | tree
  · refine ⟨fun fuel _ => ?_, fun nonempty => absurd empty nonempty⟩
    rw [Engine.pointInSubsector, pointInSubsector, if_pos empty, if_pos empty]
  obtain ⟨leaf, flagged, small, loop, fold⟩ := descent_stays tree x y
  refine ⟨fun fuel fuelLe => ?_, fun _ => ?_⟩
  · by_cases empty : nodes.list.length = 0
    · rw [Engine.pointInSubsector, pointInSubsector, if_pos empty, if_pos empty]
    · rw [Engine.pointInSubsector, pointInSubsector, if_neg empty, if_neg empty, loop fuel fuelLe,
        fold depth le, ← mask_eq small]
      rfl
  · rw [fold deep le_rfl, fold depth le]
    exact ⟨flagged, rfl⟩

/-- Two partition lines, the second under the first's back. -/
def crossNodes : Nodes where
  list := [⟨⟨0, 0, 65536, 0⟩, 0x8001, 0x8002⟩, ⟨⟨0, 0, 0, 65536⟩, 0x8000, 0⟩]
  length_lt := by decide

theorem crossNodes_tree : crossNodes.Tree 2 := by
  have leaf : ∀ number : UInt32, isSubsector number = true → number.toNat < 65536 →
      Engine.Subtree crossNodes number 0 := fun _ flagged small => .leaf flagged small
  have inner : Engine.Subtree crossNodes 0 (max 0 0 + 1) :=
    Engine.Subtree.node (by decide) rfl (leaf 0x8001 (by decide) (by decide))
      (leaf 0x8002 (by decide) (by decide))
  have root : Engine.Subtree crossNodes 1 (max 0 (max 0 0 + 1) + 1) :=
    Engine.Subtree.node (by decide) rfl (leaf 0x8000 (by decide) (by decide)) inner
  exact .inr root

/-- A point behind both lines is in the same subsector after two steps and after
nineteen. -/
theorem pointInSubsector_cross :
    crossNodes.Tree 2 ∧ 2 ≤ 19 ∧
    Engine.pointInSubsector crossNodes (-65536) 65536 2 =
      some (pointInSubsector crossNodes (-65536) 65536 19) :=
  ⟨crossNodes_tree, by decide,
    (pointInSubsector_eq_engine crossNodes_tree (-65536) 65536 (by decide)).1 2 le_rfl⟩

end ClickDoom.Native.Bsp

import ClickDoom.Engine.Walk
import ClickDoom.Native.Bsp
import ClickDoom.Native.Compose

/-! # The walk by sorting

`native/src/sql/render.rs`: `k_path_next`, `k_path_sides` and `bsp_order`.  The tables of a level are
given, the paths of `lv_ssec_path` among them.
-/
namespace ClickDoom.Native.Order
open ClickHouse
open Compose (shifted shifted_true)
open Engine (Nodes SegRun)

/-- The tables the walk reads. -/
structure Level where
  nodes : Nodes
  /-- `k_path_nodes`: the nodes from the root to each subsector. -/
  pathNodes : List (List Nat)
  subsectors : List SegRun

section
variable (level : Level) (viewx viewy : Int32)

def ssecIds : List Nat := List.range level.subsectors.length

/-- `k_path_next`: what each step of a path leads to. -/
def pathNext : List (List Nat) :=
  (level.pathNodes.zip (ssecIds level)).map fun (ns, sc) =>
    (ns.map (· % 65536)).tail ++ [(sc + 32768) % 65536]

/-- `k_path_sides`: the branch taken at each node of a path. -/
def pathSides : List (List Nat) :=
  (level.pathNodes.zip (pathNext level)).map fun (ns, nx) =>
    (ns.zip nx).map fun (n, c) =>
      if (Bsp.nodeAt level.nodes (UInt32.ofNat n)).child0.toNat = c then 0 else 1

def nodeSide : List Nat :=
  level.nodes.list.map fun n => Fixed.pointOnSide viewx viewy n.x n.y n.dx n.dy 16

/-- `toUInt64(bitShiftLeft(toUInt64(1), toUInt8(64 - d)))`. -/
def bitAt (d : Nat) : Nat := 2 ^ ((64 - (d : Int)) % 256).toNat % 2 ^ 64

/-- The key of a path: a bit for each node whose far side it takes, the root's the highest. -/
def pathKey (nodeSide : List Nat) (ns ss : List Nat) : Nat :=
  ((ns.zip (ss.zip (List.range' 1 ns.length))).map fun (n, sd, d) =>
    if sd ≠ nodeSide.getD n 0 then bitAt d else 0).sum % 2 ^ 64

def ssecKey : List Nat :=
  (level.pathNodes.zip (pathSides level)).map fun (ns, ss) =>
    pathKey (nodeSide level viewx viewy) ns ss

def ssecOrder : List Nat :=
  (arraySort Prod.fst ((ssecKey level viewx viewy).zip (ssecIds level))).map Prod.snd

/-- `ssec_rank`: the place of each subsector in the walk, from one. -/
def ssecRank : List Nat :=
  let order := ssecOrder level viewx viewy
  (arraySort Prod.fst (order.zip (List.range' 1 order.length))).map Prod.snd

def subsectorAt (sc : Nat) : SegRun := level.subsectors.getD sc ⟨0, 0⟩

def segSeq : List Nat :=
  ((ssecOrder level viewx viewy).map fun sc =>
    List.range' (subsectorAt level sc).firstline (subsectorAt level sc).numlines).flatten

/-- `arrayCumSum`. -/
def arrayCumSum (a : List Nat) : List Nat :=
  (a.foldl (fun (sums, total) n => (sums ++ [total + n], total + n)) ([], 0)).1

def rankSegbase : List Nat :=
  shifted (arrayCumSum ((ssecOrder level viewx viewy).map fun sc =>
    (subsectorAt level sc).numlines)) 0 true

end

end ClickDoom.Native.Order

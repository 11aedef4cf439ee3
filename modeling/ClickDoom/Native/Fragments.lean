import ClickDoom.Engine.ClippedWalk
import ClickDoom.Native.Order

/-! # Walls without a clip list

`native/src/sql/render.rs`: `seg_classify`, `solid_columns`, the test of `check_bbox` and `fragments`.
What `seg_project` and `check_bbox` make of the angles of segs and boxes is given, and so are the tables
of a level, those of `lv_node_range` among them.
-/
namespace ClickDoom.Native.Fragments
open ClickHouse
open Engine.ClippedWalk (Sector)

/-- `arrayFilter((e, vs) -> vs = 1, from, mask)`. -/
def masked {α : Type} (list : List α) (mask : List Bool) : List α :=
  ((list.zip mask).filter (·.2)).map (·.1)

/-- What a seg looks like from the view point: `p_vis`, `p_x1`, `p_x2`, and what its sectors and its
sidedef hold. -/
structure SegLook where
  vis : Bool
  x1 : Int
  x2 : Int
  front : Sector
  back : Option Sector
  midtex : Int
  deriving DecidableEq, Repr

/-- What a box looks like: `n_boxpos`, `n_span`, `n_t1`, `n_t2`, `n_sx1`, `n_sx2`. -/
structure BoxLook where
  boxpos : Nat
  span : UInt32
  t1 : UInt32
  t2 : UInt32
  sx1 : Int
  sx2 : Int
  deriving DecidableEq, Repr

structure Frame where
  level : Order.Level
  viewx : Int32
  viewy : Int32
  /-- `k_range_first` and `k_range_last`. -/
  rangeFirst : List Nat
  rangeLast : List Nat
  /-- `k_seg_ssec`. -/
  segSsec : List Nat
  clipangle : UInt32
  segs : Nat → SegLook
  /-- The box of each child of a node. -/
  boxes : Nat → Nat → BoxLook

/-- `toUInt32(4294967295)`. -/
def never : Nat := 4294967295

/-- `arrayMin` of an array that holds `never`. -/
def arrayMin (a : List Nat) : Nat := a.foldl min never

/-- `arrayMax` of numbers. -/
def arrayMax (a : List Nat) : Nat := a.foldl max 0

section
variable (f : Frame)

def segSeq : List Nat := Order.segSeq f.level f.viewx f.viewy

def pVis : List Bool := (segSeq f).map fun sg => (f.segs sg).vis

def qPos : List Nat := masked (List.range' 1 (segSeq f).length) (pVis f)

def qSeg : List Nat := masked (segSeq f) (pVis f)

def qX1 : List Int := masked ((segSeq f).map fun sg => (f.segs sg).x1) (pVis f)

def qX2 : List Int := masked ((segSeq f).map fun sg => (f.segs sg).x2) (pVis f)

/-- `q_class`: 1 blocks the view, 2 is a window, 0 draws nothing. -/
def classOf (look : SegLook) : Nat :=
  match look.back with
  | none => 1
  | some back =>
    let front := look.front
    if back.ceilingheight ≤ front.floorheight ∨ back.floorheight ≥ front.ceilingheight then 1
    else if back.ceilingheight ≠ front.ceilingheight ∨ back.floorheight ≠ front.floorheight then 2
    else if back.ceilingpic = front.ceilingpic ∧ back.floorpic = front.floorpic ∧
        back.lightlevel = front.lightlevel ∧ look.midtex = 0 then 0
    else 2

def qClass : List Nat := (qSeg f).map fun sg => classOf (f.segs sg)

/-! ## The clip list as one number per column -/

def solidSegs : List (Nat × Int × Int × Nat) :=
  ((qPos f).zip ((qX1 f).zip ((qX2 f).zip (qClass f)))).filter fun t => t.2.2.2 = 1

/-- `solid_time`: the place in the walk of the first seg that closes each column. -/
def solidTime : List Nat :=
  (List.range 320).map fun x : Nat => arrayMin (never :: (solidSegs f).map fun t =>
    if (x : Int) ≥ t.2.1 ∧ (x : Int) ≤ t.2.2.1 - 1 then t.1 else never)

/-! ## The boxes -/

def nodeSide : List Nat := Order.nodeSide f.level f.viewx f.viewy

/-- `n_child`: the child on the far side. -/
def nChild : List Nat :=
  (f.level.nodes.list.zip (nodeSide f)).map fun (ch, sd) =>
    if sd = 0 then ch.child1.toNat else ch.child0.toNat

/-- `n_first` and `n_last`. -/
def nEnd (range : List Nat) : List Nat :=
  (nChild f).map fun ch => if ch &&& 32768 ≠ 0 then ch &&& 32767 else range.getD (ch &&& 32767) 0

/-- `n_start`: the place in the walk of the far side's first seg. -/
def nStart : List Nat :=
  ((nEnd f f.rangeFirst).zip (nEnd f f.rangeLast)).map fun (first, last) =>
    (Order.rankSegbase f.level f.viewx f.viewy).getD
      (arrayMin (arraySlice (Order.ssecRank f.level f.viewx f.viewy) (first + 1) (last - first + 1)) - 1)
      0 + 1

/-- One box against the columns closed before `start`. -/
def culledAt (look : BoxLook) (start : Nat) : Bool :=
  let clip2 := f.clipangle * 2
  look.boxpos ≠ 5 ∧ look.span < 2147483648 ∧
    ((look.t1 > clip2 ∧ look.t1 - clip2 ≥ look.span) ∨
      (look.t2 > clip2 ∧ look.t2 - clip2 ≥ look.span) ∨ look.sx1 = look.sx2 ∨
      arrayMax (arraySlice (solidTime f) (look.sx1.toNat + 1) (look.sx2 - look.sx1).toNat) < start)

def nCulled : List Bool :=
  ((List.range f.level.nodes.list.length).zip ((nodeSide f).zip (nStart f))).map fun (id, sd, start) =>
    culledAt f (f.boxes id (1 - sd)) start

/-- `ssec_culled`. -/
def ssecCulled : List Bool :=
  (f.level.pathNodes.zip (Order.pathSides f.level)).map fun (ns, ss) =>
    (ns.zip ss).any fun (n, sd) => sd ≠ (nodeSide f).getD n 0 ∧ (nCulled f).getD n false

/-! ## The fragments -/

/-- One of `d_segs`. -/
structure Wall where
  pos : Nat
  seg : Nat
  x1 : Int
  x2 : Int
  kind : Nat
  index : Nat
  deriving DecidableEq, Repr

/-- The visible segs, numbered from one. -/
def walls : List Wall :=
  ((qPos f).zip ((qSeg f).zip ((qX1 f).zip ((qX2 f).zip ((qClass f).zip
    (List.range' 1 (qPos f).length)))))).map fun (pos, seg, x1, x2, kind, index) =>
      ⟨pos, seg, x1, x2, kind, index⟩

def dSegs : List Wall :=
  (walls f).filter fun t =>
    t.kind ≠ 0 ∧ (ssecCulled f).getD (f.segSsec.getD t.seg 0) false = false

def dBycol : List (List Wall) :=
  (List.range 320).map fun x : Nat =>
    (dSegs f).filter fun t => t.x1 ≤ (x : Int) ∧ t.x2 > (x : Int) ∧ (solidTime f).getD x 0 ≥ t.pos

def dPrevcol : List (List Wall) := [] :: (dBycol f).dropLast

def dNextcol : List (List Wall) := (dBycol f).tail ++ [[]]

/-- The walls of each column that one beside it has not. -/
def edges (beside : List (List Wall)) : List (Nat × Nat × Nat) :=
  (((dBycol f).zip (beside.zip (List.range 320))).map fun (cs, ps, x) =>
    (cs.filter fun t => ¬ ps.any fun u => u.pos = t.pos).map fun t =>
      (t.pos * 512 + x, t.index, x)).flatten

def dStarts : List (Nat × Nat × Nat) := edges f (dPrevcol f)

def dEnds : List (Nat × Nat) := (edges f (dNextcol f)).map fun e => (e.1, e.2.2)

/-- `ds_all`: the visible seg of each run, its first column and its last. -/
def dsAll : List (Nat × Nat × Nat) :=
  ((arraySort Prod.fst (dStarts f)).zip (arraySort Prod.fst (dEnds f))).map fun (a, b) =>
    (a.2.1, a.2.2, b.2)

def dsList : List (Nat × Nat × Nat) := (dsAll f).take 256

def dsQi : List Nat := (dsList f).map fun t => t.1

def dsX1 : List Int := (dsList f).map fun t => (t.2.1 : Int)

def dsX2 : List Int := (dsList f).map fun t => (t.2.2 : Int)

/-- `w_seg`: the seg of each. -/
def wSeg : List Nat := (dsQi f).map fun i => (qSeg f).getD (i - 1) 0

end

end ClickDoom.Native.Fragments

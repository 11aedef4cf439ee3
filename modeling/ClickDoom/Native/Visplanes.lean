import ClickDoom.Base.ClickHouse
import ClickDoom.Base.Distinct
import ClickDoom.Engine.Visplanes
import ClickDoom.Native.SegLoop

/-! # Planes by name

`native/src/sql/render.rs`, `visplanes`, down to `pm`.  The walls are numbered from one; `ceilings
before floors` is the last bit of an event's number.
-/
namespace ClickDoom.Native.Visplanes
open ClickHouse
open Engine.Visplanes (Name Side Sector Wall Subsector)
open SegLoop (Mark)

section
variable (viewz skyflatnum : Int) (subs : List (Subsector viewz skyflatnum))

/-- The walls of a frame with their subsectors. -/
def walls : List (Subsector viewz skyflatnum × Wall) :=
  subs.flatMap fun sub => sub.walls.map fun w => (sub, w)

/-- The walls with their numbers. -/
def numbered : List (Nat × Subsector viewz skyflatnum × Wall) :=
  (List.range' 1 (walls viewz skyflatnum subs).length).zip (walls viewz skyflatnum subs)

/-- `mk_ceil` and `mk_floor`, in the order of `cw`. -/
def marks (side : Side) : List Mark :=
  ((List.range 320).map fun x => (numbered viewz skyflatnum subs).filterMap fun (d, _, w) =>
    (w.rows side x).map fun r => (⟨d, x, r.1, r.2⟩ : Mark)).flatten

/-- `pl_ckey` and `pl_fkey`. -/
def planeKey (sector : Sector) : Side → Name
  | .ceiling =>
    if sector.ceilingpic = skyflatnum then ⟨0, skyflatnum, 0⟩
    else ⟨sector.ceilingheight, sector.ceilingpic, sector.lightlevel⟩
  | .floor => ⟨sector.floorheight, sector.floorpic, sector.lightlevel⟩

/-- A row of `pl_ev_ceil` or `pl_ev_floor`. -/
structure Event where
  key : Name
  ssec : Nat
  ev : Nat
  x1 : Nat
  x2 : Nat
  cols : List Nat
  deriving DecidableEq, Repr

/-- The bit of an event's number. -/
def kind : Side → Nat
  | .ceiling => 0
  | .floor => 1

def plEvOf (side : Side) : List Event :=
  ((numbered viewz skyflatnum subs).map fun (d, sub, w) =>
    { key := planeKey skyflatnum sub.sector side
      ssec := sub.num
      ev := d * 2 + kind side
      x1 := w.x1
      x2 := w.x2
      cols := ((marks viewz skyflatnum subs side).filter fun m => m.ds = d).map Mark.x }).filter
    fun e => 0 < e.cols.length

def plEv : List Event :=
  plEvOf viewz skyflatnum subs .ceiling ++ plEvOf viewz skyflatnum subs .floor

def plKeys : List Name := arrayDistinct ((plEv viewz skyflatnum subs).map Event.key)

/-- What the fold keeps: the columns of the name's first plane and of the current one, whether the
current one is the first, its number, the last event's subsector, the next number and the answers. -/
structure Split where
  first : List Nat
  current : List Nat
  fresh : Bool
  num : Nat
  ssec : Nat
  next : Nat
  answer : List (Nat × Nat)
  deriving DecidableEq, Repr

/-- The fold's step. -/
def splitStep (acc : Split) (e : Event) : Split :=
  let base := if e.ssec ≠ acc.ssec then acc.first else acc.current
  let fresh := if e.ssec ≠ acc.ssec then true else acc.fresh
  let split := base.any fun c => c ≥ e.x1 ∧ c ≤ e.x2
  let num := if split then acc.next else if fresh then 0 else acc.num
  { first := if fresh ∧ ¬ split then base ++ e.cols else acc.first
    current := if split then e.cols else base ++ e.cols
    fresh := if split then false else fresh
    num := num
    ssec := e.ssec
    next := if split then acc.next + 1 else acc.next
    answer := acc.answer ++ [(e.ev, num)] }

def splitStart : Split := ⟨[], [], true, 0, 4294967295, 1, []⟩

/-- `pl_split` of one name. -/
def splitOf (key : Name) : List (Nat × Nat) :=
  ((arraySort Event.ev ((plEv viewz skyflatnum subs).filter fun e => e.key = key)).foldl splitStep
    splitStart).answer

def plSplit : List (List (Nat × Nat)) :=
  (plKeys viewz skyflatnum subs).map (splitOf viewz skyflatnum subs)

def plEvInst : List (Nat × Nat) :=
  (((plSplit viewz skyflatnum subs).zip
    (List.range' 1 (plSplit viewz skyflatnum subs).length)).map fun (res, ki) =>
      res.map fun o => (o.1, (ki - 1) * 1024 + o.2)).flatten

def plInstNum : List Nat := arrayDistinct ((plEvInst viewz skyflatnum subs).map Prod.snd)

def plInstName : List Name := (plInstNum viewz skyflatnum subs).map fun n =>
  (plKeys viewz skyflatnum subs).getD (n / 1024) ⟨0, 0, 0⟩

/-- `pl_of_ev`: the plane of each event, from one. -/
def plOfEv : List Nat :=
  (List.range (2 * (walls viewz skyflatnum subs).length + 2)).map fun e =>
    ((plEvInst viewz skyflatnum subs).map fun o =>
      if o.1 = e then indexOf (plInstNum viewz skyflatnum subs) o.2 else 0).foldr max 0

/-- `pl_of_ev[m.1 * 2 + kind + 1]`: the plane that owns a mark. -/
def planeOf (side : Side) (m : Mark) : Nat :=
  (plOfEv viewz skyflatnum subs).getD (m.ds * 2 + kind side) 0

end

end ClickDoom.Native.Visplanes

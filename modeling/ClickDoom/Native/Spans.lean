import ClickDoom.Native.Compose

/-! # Spans by two sorts

`native/src/sql/render.rs`, `visplanes`: `pm`, `sp_starts`, `sp_ends` and `spans`.  A mark is the
rows one drawseg leaves a plane in one column, with the number of the plane that owns it.
-/
namespace ClickDoom.Native.Spans
open Compose (shifted)

/-- A row of `pm_ceil` or `pm_floor`, before its plane and its column are packed. -/
structure Mark where
  plane : UInt32
  column : Nat
  top : Int
  bottom : Int
  deriving DecidableEq, Repr

/-- A mark with its plane and column in one number, and its rows. -/
abbrev Packed := Nat × Int × Int

def Mark.packed (m : Mark) : Packed := (m.plane.toNat * 512 + m.column, m.top, m.bottom)

/-- `(toUInt32(4294967295), toInt32(255), toInt32(255))`. -/
def noMark : Packed := (4294967295, 255, 255)

/-- `range(a, b)`. -/
def rangeFrom (a b : Int) : List Int := (List.range (b - a).toNat).map fun i : Nat => a + i

/-- A span's start or end: its key and its column. -/
abbrev Edge := Nat × Int

/-- The rows of `c` that its neighbour's range leaves. -/
def leftRows (c o : Packed) (adjacent : Bool) : List Int :=
  let top := if adjacent then o.2.1 else 255
  let bottom := if adjacent then o.2.2 else 255
  rangeFrom c.2.1 (max (min c.2.2 (top - 1) + 1) c.2.1) ++
    rangeFrom (max c.2.1 (bottom + 1)) (max (c.2.2 + 1) (max c.2.1 (bottom + 1)))

/-- The key of a row of a column. -/
def edge (c : Packed) (y : Int) : Edge :=
  (c.1 / 512 * 100000 + y.toNat * 320 + c.1 % 512, (c.1 % 512 : Nat))

/-- The edges a list of marks has beside its neighbours. -/
def edges (adjacent : Packed → Packed → Bool) (pm side : List Packed) : List Edge :=
  ((pm.zip side).map fun (c, o) => (leftRows c o (adjacent c o)).map (edge c)).flatten

section
variable (marks : List Mark)

def pm : List Packed := (marks.map Mark.packed).mergeSort fun t u => t.1 ≤ u.1

def pmPrev : List Packed := shifted (pm marks) noMark true

def pmNext : List Packed := shifted (pm marks) noMark false

def spStarts : List Edge := edges (fun c o => o.1 + 1 = c.1) (pm marks) (pmPrev marks)

def spEnds : List Edge := edges (fun c o => c.1 + 1 = o.1) (pm marks) (pmNext marks)

/-- A span: the plane, the row, and the two columns. -/
abbrev Span := Nat × Int × Int × Int

def spans : List Span :=
  (((spStarts marks).mergeSort fun t u => t.1 ≤ u.1).zip
    ((spEnds marks).mergeSort fun t u => t.1 ≤ u.1)).map fun (a, b) =>
      (a.1 / 100000 % 2 ^ 32, ((a.1 % 100000 / 320 : Nat) : Int), a.2, b.2)

end

end ClickDoom.Native.Spans

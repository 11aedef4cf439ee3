import ClickDoom.Base.Runs

/-! # Composing a frame

`native/src/sql/render.rs`: `compose`, `shifted`, and what `melt` leaves as the frame.  A drawn pixel
is a key, its offset times 2^20 with the time it was drawn at, and a colour.  A string is the list of
its bytes.  An offset takes 32 bits and a sum of one has more, so none of them wraps.
-/
namespace ClickDoom.Native.Compose
open ClickHouse

abbrev Pixel := UInt64 × UInt8

/-- `FB_BYTES`. -/
def fbBytes : Nat := 64000

/-- `toUInt32(intDiv(t.1, 1048576))`. -/
def offset (t : Pixel) : Nat := t.1.toNat / 1048576 % 2 ^ 32

/-- `shifted`: an array shifted one place, with `fill` in the place that opens up. -/
def shifted {α : Type} (arr : List α) (fill : α) (forward : Bool) : List α :=
  if arr.isEmpty then arr
  else if forward then fill :: arr.dropLast else arr.tail ++ [fill]

theorem shifted_true {α : Type} (arr : List α) (fill : α) : shifted arr fill true = Runs.before fill arr := by
  cases arr <;> rfl

theorem shifted_false {α : Type} (arr : List α) (fill : α) :
    shifted arr fill false = Runs.after fill arr := by
  cases arr <;> rfl

/-- `arraySlice(a, offset, length)` and `substring(a, offset, length)`: places count from one, and a
negative length leaves that many off the end. -/
def slice {α : Type} (a : List α) (offset : Nat) (length : Int) : List α :=
  let rest := a.drop (offset - 1)
  if length < 0 then rest.take (rest.length - length.natAbs) else rest.take length.toNat

/-! ## The drawn pixels -/

/-- `toUInt32(4294967295)`. -/
def noOffset : Nat := 4294967295

def pxOrdered (pxAll : List Pixel) : List Pixel := pxAll.mergeSort fun t u => t.1 ≤ u.1

/-- `px_sorted`: of the pixels of one offset the last. -/
def lastOfRun (ordered : List Pixel) : List Pixel :=
  let pxOrderedAt := ordered.map offset
  arrayFilterThree (fun _ a n => a ≠ n) ordered pxOrderedAt (shifted pxOrderedAt noOffset false)

def pxSorted (pxAll : List Pixel) : List Pixel := lastOfRun (pxOrdered pxAll)

def pxAt (pxAll : List Pixel) : List Nat := (pxSorted pxAll).map offset

/-- `px_bytes`, by `arrayStringConcat`. -/
def pxBytes (pxAll : List Pixel) : List UInt8 := ((pxSorted pxAll).map fun t => [t.2]).flatten

def pxColours (pxAll : List Pixel) : List UInt8 := (pxSorted pxAll).map Prod.snd

/-! ## Runs of offsets, and the frame before between them -/

section
variable (pxAt : List Nat)

def runHead : List Nat :=
  arrayFilterThree (fun _ a p => a ≠ p + 1) (List.range' 1 pxAt.length) pxAt
    (shifted pxAt noOffset true)

def runStart : List Nat := arrayFilterTwo (fun a p => a ≠ p + 1) pxAt (shifted pxAt noOffset true)

def runEnd : List Nat := arrayFilterTwo (fun a n => n ≠ a + 1) pxAt (shifted pxAt noOffset false)

/-- `run_gap_from`: just past the run before. -/
def runGapFrom : List Nat :=
  if (runEnd pxAt).isEmpty then runEnd pxAt else 0 :: (runEnd pxAt).dropLast.map (· + 1)

/-- The runs cut into the frame before. -/
def spliced (prev px : List UInt8) : List UInt8 :=
  (((runGapFrom pxAt).zip ((runStart pxAt).zip ((runEnd pxAt).zip (runHead pxAt)))).map
    fun (gf, rs, re, h) =>
      slice prev (gf + 1) ((rs : Int) - gf) ++ slice px h ((re : Int) - rs + 1)).flatten ++
    slice prev (if (runEnd pxAt).isEmpty then 1 else (runEnd pxAt).getLastD 0 + 2) fbBytes

end

def fbEnd (prevFb : List UInt8) (pxAll : List Pixel) : List UInt8 :=
  spliced (pxAt pxAll) prevFb (pxBytes pxAll)

def fbEndBytes (prevBytes : List UInt8) (pxAll : List Pixel) : List UInt8 :=
  spliced (pxAt pxAll) prevBytes (pxColours pxAll)

/-! ## The melt -/

/-- `melt_y0`. -/
def meltY0 (rndtable : List UInt8) (rndindex : Nat) : List Int :=
  let seed := (rndindex + 256 - 64) % 256
  let draw := (List.range' 1 320).map fun j => ((rndtable.getD ((seed + j) % 256) 0).toNat : Int)
  arrayFold
    (fun acc r => arrayPushBack acc (
      let y := acc.getLastD 0 + r
      if y > 0 then 0 else if y = -16 then -15 else y))
    ((arraySlice draw 2 319).map fun v => v % 3 - 1) [-(draw.headD 0 % 16)]

/-- One pass over a column's offset. -/
def meltPass (y : Int) : Int :=
  if y < 0 then y + 1 else if y ≥ 200 then y else y + min (if y < 16 then y + 1 else 8) (200 - y)

def meltY (rndtable : List UInt8) (rndindex meltStep : Nat) : List Int :=
  (arraySlice (meltY0 rndtable rndindex) 1 160).map fun y0 =>
    arrayFold (fun y _ => meltPass y) (List.range meltStep) y0

/-- `melt_row_y`. -/
def meltRowY (meltY : List Int) : List Int :=
  ((List.range 200).map fun _ => (meltY.map fun y => [y, y]).flatten).flatten

/-- `melt_row`. -/
def meltRow : List Int :=
  ((List.range 200).map fun r => (List.range 320).map fun _ => Int.ofNat r).flatten

def meltBytes (meltY : List Int) (fbEndBytes : List UInt8) : List UInt8 :=
  (fbEndBytes.zip ((meltRowY meltY).zip meltRow)).map fun (b, y, r) => if r < y then b else 0

/-! ## Frame rows -/

/-- The bytes of a row of `native_frames`, as a string and as an array. -/
structure Frame where
  frame : UInt32
  fb : List UInt8
  fbBytes : List UInt8
  deriving DecidableEq

/-- What one frame is drawn from. -/
structure Drawing where
  frame : UInt32
  meltStep : UInt8
  rndindex : Nat
  pxAll : List Pixel

/-- `joinGetOrNull` at a frame. -/
def rowOf (frames : List Frame) (frame : UInt32) : Option Frame := frames.find? (·.frame = frame)

section
variable (frames : List Frame) (drawing : Drawing)

def meltOn : Bool := drawing.meltStep > 0

/-- `prev_fb`. -/
def prevFb : List UInt8 :=
  if meltOn drawing then List.replicate fbBytes 0
  else ((rowOf frames (drawing.frame - 1)).map Frame.fb).getD (List.replicate fbBytes 0)

/-- `prev_bytes`, from `prev_fb_bytes`. -/
def prevBytes : List UInt8 :=
  let prevFbBytes :=
    if meltOn drawing then [] else ((rowOf frames (drawing.frame - 1)).map Frame.fbBytes).getD []
  if prevFbBytes.isEmpty then List.replicate fbBytes 0 else prevFbBytes

/-- The row one frame writes. -/
def drawn (rndtable : List UInt8) : Frame :=
  let fbEndBytes := fbEndBytes (prevBytes frames drawing) drawing.pxAll
  let meltBytes :=
    meltBytes (meltY rndtable drawing.rndindex drawing.meltStep.toNat) fbEndBytes
  { frame := drawing.frame
    fb := if meltOn drawing then (meltBytes.map fun c => [c]).flatten
      else fbEnd (prevFb frames drawing) drawing.pxAll
    fbBytes := if meltOn drawing then meltBytes else fbEndBytes }

/-- `INSERT INTO native_frames`, a join table that keeps the first row of a frame. -/
def insertFrame (row : Frame) : List Frame :=
  if (rowOf frames row.frame).isSome then frames else frames ++ [row]

end

/-- The rows after frames have been drawn, one after the other. -/
def drawnFrames (rndtable : List UInt8) (frames : List Frame) (drawings : List Drawing) :
    List Frame :=
  drawings.foldl (fun frames drawing => insertFrame frames (drawn frames drawing rndtable)) frames

end ClickDoom.Native.Compose

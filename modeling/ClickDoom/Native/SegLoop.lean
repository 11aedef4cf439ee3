import ClickDoom.Engine.SegLoop
import ClickDoom.Native.Fixed

/-! # The clip walk by column

`native/src/sql/render.rs`: `render_seg_loop`, the marks of `visplanes`, the runs of `wall_pixels`
and the clips `sprite_clip` copies.  A row of `cw_in` is a wall and its number from one.  The rows,
with twelve bits shifted off, never reach the ends of an `Int32`.
-/
namespace ClickDoom.Native.SegLoop
open Fixed (fixedMul add32 sub32)
open Engine (Drawseg)
open Engine.SegLoop (View Paint Run)

/-- A row of `cw`. -/
structure Cw where
  x : Nat
  ds : Nat
  yl : Int
  yh : Int
  midlo : Int
  botlo : Int
  cc0 : Int
  fc0 : Int
  texcol : Int32
  scale : Int32
  midtex : Int32
  toptex : Int32
  bottex : Int32
  midmid : Int32
  topmid : Int32
  botmid : Int32
  light : UInt8
  mkc : Bool
  mkf : Bool
  deriving DecidableEq, Repr

def viewHeight : Int := 168

/-- `toInt32(toInt64(frac) + toInt64(step) * toInt64(x - x1))`. -/
def stepped (frac step : Int32) (x x1 : Nat) : Int32 :=
  (frac.toInt64 + step.toInt64 * Int64.ofInt ((x : Int) - x1)).toInt32

/-- `bitShiftRight(toInt32(toInt64(frac) + 4095), 12)` and `bitShiftRight(frac, 12)`. -/
def rowUp (frac : Int32) : Int := (add32 frac 4095 >>> 12).toInt

def rowDown (frac : Int32) : Int := (frac >>> 12).toInt

section
variable (view : View) (x : Nat)

section
variable (acc : Int × Int) (t : Drawseg)

def yl : Int := max (rowUp (stepped t.topfrac t.topstep x t.x1)) (acc.1 + 1)

def yh : Int := min (rowDown (stepped t.bottomfrac t.bottomstep x t.x1)) (acc.2 - 1)

def midlo : Int := min (rowDown (stepped t.pixhigh t.pixhighstep x t.x1)) (acc.2 - 1)

def botlo : Int := max (rowUp (stepped t.pixlow t.pixlowstep x t.x1)) 0

def newCeil : Int :=
  if t.midtexture ≠ 0 then viewHeight
  else if t.toptexture ≠ 0 then
    if midlo x acc t ≥ yl x acc t then midlo x acc t else yl x acc t - 1
  else if t.markceiling then yl x acc t - 1
  else acc.1

def botloClamped : Int := max (botlo x t) (newCeil x acc t + 1)

def newFloor : Int :=
  if t.midtexture ≠ 0 then -1
  else if t.bottomtexture ≠ 0 then
    if botloClamped x acc t ≤ yh x acc t then botloClamped x acc t else yh x acc t + 1
  else if t.markfloor then yh x acc t + 1
  else acc.2

def texcol : Int32 :=
  let angle := (t.centerangle.toUInt64 + (view.xtoviewangle x).toUInt64).toUInt32 >>> 19
  sub32 t.offset (fixedMul (view.finetangent angle.toNat) t.distance) >>> 16

end

/-- The row a wall leaves of a column, from the clips before it. -/
def out (acc : Int × Int) (t : Nat × Drawseg) : Cw where
  x := x
  ds := t.1
  yl := yl x acc t.2
  yh := yh x acc t.2
  midlo := midlo x acc t.2
  botlo := botloClamped x acc t.2
  cc0 := acc.1
  fc0 := acc.2
  texcol := texcol view x t.2
  scale := stepped t.2.scale1 t.2.scalestep x t.2.x1
  midtex := t.2.midtexture
  toptex := t.2.toptexture
  bottex := t.2.bottomtexture
  midmid := t.2.midtexturemid
  topmid := t.2.toptexturemid
  botmid := t.2.bottomtexturemid
  light := t.2.walllights
  mkc := t.2.markceiling
  mkf := t.2.markfloor

/-- The fold's step. -/
def step (acc : (Int × Int) × List Cw) (t : Nat × Drawseg) : (Int × Int) × List Cw :=
  ((newCeil x acc.1 t.2, newFloor x acc.1 t.2), acc.2 ++ [out view x acc.1 t])

/-- `arrayMap(i -> (..), arrayEnumerate(ds_qi))`. -/
def cwIn (dss : List Drawseg) : List (Nat × Drawseg) := (List.range' 1 dss.length).zip dss

def columnFold (dss : List Drawseg) : (Int × Int) × List Cw :=
  ((cwIn dss).filter fun t => t.2.x1 ≤ x ∧ t.2.x2 ≥ x).foldl (step view x) ((-1, viewHeight), [])

end

def cw (view : View) (dss : List Drawseg) : List Cw :=
  ((List.range 320).map fun x => (columnFold view x dss).2).flatten

/-! ## Marks, runs and clips -/

/-- A row of `mk_ceil` or `mk_floor`. -/
structure Mark where
  ds : Nat
  x : Nat
  top : Int
  bottom : Int
  deriving DecidableEq, Repr

def Cw.ceilMark (t : Cw) : Mark := ⟨t.ds, t.x, t.cc0 + 1, min (t.yl - 1) (t.fc0 - 1)⟩

def Cw.floorMark (t : Cw) : Mark := ⟨t.ds, t.x, max (t.yh + 1) (t.cc0 + 1), t.fc0 - 1⟩

def mkCeil (cw : List Cw) : List Mark :=
  ((cw.filter fun t => t.mkc).map Cw.ceilMark).filter fun m => m.top ≤ m.bottom

def mkFloor (cw : List Cw) : List Mark :=
  ((cw.filter fun t => t.mkf).map Cw.floorMark).filter fun m => m.top ≤ m.bottom

/-- `column_run`: the run of one wall tier, when it has rows and a texture. -/
def Cw.columnRun (t : Cw) (lo hi : Int) (tex mid : Int32) : List Run :=
  if tex ≠ 0 ∧ lo ≤ hi then [⟨lo, hi, ⟨tex, mid, t.texcol, t.scale, t.light⟩⟩] else []

def Cw.single (t : Cw) : List Run := t.columnRun t.yl t.yh t.midtex t.midmid

def Cw.top (t : Cw) : List Run := t.columnRun t.yl (min t.midlo t.yh) t.toptex t.topmid

def Cw.bot (t : Cw) : List Run := t.columnRun t.botlo t.yh t.bottex t.botmid

def wallRuns (cw : List Cw) : List (Nat × Run) :=
  (cw.map fun t => (t.single ++ t.top ++ t.bot).map fun r => (t.x, r)).flatten

/-- `post_cc` and `post_fc`: the clips after a wall wrote its column. -/
def Cw.postCc (t : Cw) : Int :=
  if t.midtex ≠ 0 then viewHeight
  else if t.toptex ≠ 0 then if t.midlo ≥ t.yl then t.midlo else t.yl - 1
  else if t.mkc then t.yl - 1
  else t.cc0

def Cw.postFc (t : Cw) : Int :=
  if t.midtex ≠ 0 then -1
  else if t.bottex ≠ 0 then if t.botlo ≤ t.yh then t.botlo else t.yh + 1
  else if t.mkf then t.yh + 1
  else t.fc0

end ClickDoom.Native.SegLoop

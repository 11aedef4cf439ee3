import ClickDoom.Engine.Fixed

/-! # The columns of a wall

`r_segs.c`: `R_RenderSegLoop`.  `ceilingclip` and `floorclip` hold shorts and a plane's rows are
bytes; the other locals are ints.  A call of `colfunc` is the rows it draws with the column and the
scale they are drawn from.  `R_StoreWallRange` gives a wall a middle texture or the other two.
-/
namespace ClickDoom.Engine

/-- What `R_StoreWallRange` leaves the loop: the wall's columns, its edges and their steps at `x1`,
and what it draws. -/
structure Drawseg where
  x1 : Nat
  x2 : Nat
  topfrac : Int32
  topstep : Int32
  bottomfrac : Int32
  bottomstep : Int32
  pixhigh : Int32
  pixhighstep : Int32
  pixlow : Int32
  pixlowstep : Int32
  midtexture : Int32
  toptexture : Int32
  bottomtexture : Int32
  maskedtexture : Bool
  markceiling : Bool
  markfloor : Bool
  midtexturemid : Int32
  toptexturemid : Int32
  bottomtexturemid : Int32
  scale1 : Int32
  scalestep : Int32
  offset : Int32
  distance : Int32
  centerangle : UInt32
  /-- The row of `scalelight` that `walllights` points at. -/
  walllights : UInt8
  /-- Every column is one of the view's. -/
  x2_lt : x2 < 320
  single : midtexture ≠ 0 → toptexture = 0 ∧ bottomtexture = 0
  deriving DecidableEq, Repr

namespace SegLoop

/-- The tables the loop reads, as total functions: what an angle of 4096 or more finds, past the end
of `finetangent` in C and zero in SQL, is left out. -/
structure View where
  finetangent : Nat → Int32
  xtoviewangle : Nat → UInt32

def viewheight : Int := 168

/-- A value stored in a `short`. -/
def short (i : Int) : Int := (i + 32768) % 65536 - 32768

/-- A value stored in a `byte`. -/
def byte (i : Int) : Int := i % 256

/-- `(frac+HEIGHTUNIT-1)>>HEIGHTBITS`. -/
def rowUp (frac : Int32) : Int := ((frac + 4096 - 1) >>> 12).toInt

/-- `frac>>HEIGHTBITS`. -/
def rowDown (frac : Int32) : Int := (frac >>> 12).toInt

/-- The edges as the loop steps them. -/
structure Edges where
  scale : Int32
  topfrac : Int32
  bottomfrac : Int32
  pixhigh : Int32
  pixlow : Int32

def edges (ds : Drawseg) : Edges :=
  ⟨ds.scale1, ds.topfrac, ds.bottomfrac, ds.pixhigh, ds.pixlow⟩

def Edges.step (ds : Drawseg) (e : Edges) : Edges where
  scale := e.scale + ds.scalestep
  topfrac := e.topfrac + ds.topstep
  bottomfrac := e.bottomfrac + ds.bottomstep
  pixhigh := if ds.midtexture = 0 ∧ ds.toptexture ≠ 0 then e.pixhigh + ds.pixhighstep else e.pixhigh
  pixlow := if ds.midtexture = 0 ∧ ds.bottomtexture ≠ 0 then e.pixlow + ds.pixlowstep else e.pixlow

/-- What a row of a wall is drawn from. -/
structure Paint where
  texture : Int32
  texturemid : Int32
  texturecolumn : Int32
  scale : Int32
  walllights : UInt8
  deriving DecidableEq, Repr

/-- The rows one call of `colfunc` is given. -/
structure Run where
  yl : Int
  yh : Int
  paint : Paint
  deriving DecidableEq, Repr

/-- `colfunc` draws nothing when it has no rows. -/
def colfunc (run : Run) : List Run := if run.yh - run.yl < 0 then [] else [run]

/-- What one pass of the loop's body leaves in its column. -/
structure Column where
  x : Nat
  /-- `ceilingclip[rw_x]` and `floorclip[rw_x]` before it, and after it. -/
  before : Int × Int
  after : Int × Int
  ceilingplane : Option (Int × Int)
  floorplane : Option (Int × Int)
  middle : List Run
  top : List Run
  bottom : List Run
  deriving DecidableEq, Repr

section
variable (view : View) (ds : Drawseg)

/-- `texturecolumn`, of a wall with no texture at all zero. -/
def texturecolumn (x : Nat) : Int32 :=
  if ds.midtexture ≠ 0 ∨ ds.toptexture ≠ 0 ∨ ds.bottomtexture ≠ 0 ∨ ds.maskedtexture then
    let angle := (ds.centerangle + view.xtoviewangle x) >>> 19
    (ds.offset - fixedMul (view.finetangent angle.toNat) ds.distance) >>> 16
  else 0

/-- The loop's body at one column. -/
def column (e : Edges) (x : Nat) (ceilingclip floorclip : Int) : Column :=
  let yl := if rowUp e.topfrac < ceilingclip + 1 then ceilingclip + 1 else rowUp e.topfrac
  let ceilingplane :=
    if ds.markceiling then
      let top := ceilingclip + 1
      let bottom := if yl - 1 ≥ floorclip then floorclip - 1 else yl - 1
      if top ≤ bottom then some (byte top, byte bottom) else none
    else none
  let yh := if rowDown e.bottomfrac ≥ floorclip then floorclip - 1 else rowDown e.bottomfrac
  let floorplane :=
    if ds.markfloor then
      let bottom := floorclip - 1
      let top := if yh + 1 ≤ ceilingclip then ceilingclip + 1 else yh + 1
      if top ≤ bottom then some (byte top, byte bottom) else none
    else none
  let paint texture texturemid : Paint :=
    ⟨texture, texturemid, texturecolumn view ds x, e.scale, ds.walllights⟩
  if ds.midtexture ≠ 0 then
    { x, before := (ceilingclip, floorclip), after := (short viewheight, short (-1))
      ceilingplane, floorplane
      middle := colfunc ⟨yl, yh, paint ds.midtexture ds.midtexturemid⟩
      top := [], bottom := [] }
  else
    let high := if rowDown e.pixhigh ≥ floorclip then floorclip - 1 else rowDown e.pixhigh
    let ceiling :=
      if ds.toptexture ≠ 0 then if high ≥ yl then short high else short (yl - 1)
      else if ds.markceiling then short (yl - 1) else ceilingclip
    let low := if rowUp e.pixlow ≤ ceiling then ceiling + 1 else rowUp e.pixlow
    let floor :=
      if ds.bottomtexture ≠ 0 then if low ≤ yh then short low else short (yh + 1)
      else if ds.markfloor then short (yh + 1) else floorclip
    { x, before := (ceilingclip, floorclip), after := (ceiling, floor)
      ceilingplane, floorplane
      middle := []
      top := if ds.toptexture ≠ 0 ∧ high ≥ yl then
        colfunc ⟨yl, high, paint ds.toptexture ds.toptexturemid⟩ else []
      bottom := if ds.bottomtexture ≠ 0 ∧ low ≤ yh then
        colfunc ⟨low, yh, paint ds.bottomtexture ds.bottomtexturemid⟩ else [] }

/-- `ceilingclip` and `floorclip`. -/
abbrev Clips := Nat → Int × Int

/-- The loop over the columns that are left. -/
def loop : List Nat → Edges → Clips → Clips × List Column
  | [], _, clips => (clips, [])
  | x :: xs, e, clips =>
    let here := column view ds e x (clips x).1 (clips x).2
    let (clips, columns) := loop xs (e.step ds) (Function.update clips x here.after)
    (clips, here :: columns)

/-- The columns of a wall. -/
def columnsOf (ds : Drawseg) : List Nat := List.range' ds.x1 (ds.x2 + 1 - ds.x1)

/-- `R_RenderSegLoop`. -/
def renderSegLoop (clips : Clips) : Clips × List Column :=
  loop view ds (columnsOf ds) (edges ds) clips

end

/-- The clips that `R_ClearPlanes` leaves. -/
def cleared : Clips := fun _ => (-1, viewheight)

/-- The walls one after another, the columns of each. -/
def renderSegs (view : View) : List Drawseg → Clips → List (List Column)
  | [], _ => []
  | ds :: rest, clips =>
    let (clips, columns) := renderSegLoop view ds clips
    columns :: renderSegs view rest clips

/-! ## The edges at a column -/

/-- The edges after `k` steps. -/
def edgesAt (ds : Drawseg) (k : Nat) : Edges := (Edges.step ds)^[k] (edges ds)

section
variable (view : View) (ds : Drawseg)

/-- The body at a column of a wall, with the edges stepped up to it. -/
def columnAt (x : Nat) (clips : Int × Int) : Column :=
  column view ds (edgesAt ds (x - ds.x1)) x clips.1 clips.2

theorem loop_eq (n x : Nat) (e : Edges) (clips : Clips) :
    loop view ds (List.range' x n) e clips =
      ((fun y => if x ≤ y ∧ y < x + n then
          (column view ds ((Edges.step ds)^[y - x] e) y (clips y).1 (clips y).2).after else clips y),
        (List.range' x n).map fun y =>
          column view ds ((Edges.step ds)^[y - x] e) y (clips y).1 (clips y).2) := by
  induction n generalizing x e clips with
  | zero =>
    refine Prod.ext (funext fun y => ?_) rfl
    dsimp only
    rw [if_neg (by omega)]
    rfl
  | succ n ih =>
    rw [List.range'_succ, loop, ih]
    have later : ∀ y, x + 1 ≤ y → (Edges.step ds)^[y - (x + 1)] (e.step ds) =
        (Edges.step ds)^[y - x] e := by
      intro y le
      rw [← Function.iterate_succ_apply]
      congr 1
      omega
    refine Prod.ext (funext fun y => ?_) ?_
    · dsimp only
      by_cases first : y = x
      · subst first
        rw [if_neg (by omega), if_pos (by omega), Function.update_self, Nat.sub_self]
        rfl
      · rw [Function.update_of_ne first]
        by_cases inside : x + 1 ≤ y ∧ y < x + 1 + n
        · rw [if_pos inside, if_pos (by omega), later y inside.1]
        · rw [if_neg inside, if_neg (by omega)]
    · dsimp only
      rw [List.map_cons, Nat.sub_self]
      refine congrArg₂ _ rfl (List.map_congr_left fun y there => ?_)
      have after := (List.mem_range'_1.1 there).1
      rw [Function.update_of_ne (by omega), later y after]

/-- A wall draws its columns each from the clips it found there. -/
theorem renderSegLoop_columns (clips : Clips) : (renderSegLoop view ds clips).2 =
    (columnsOf ds).map fun x => columnAt view ds x (clips x) := by
  rw [renderSegLoop, columnsOf, loop_eq]
  rfl

theorem renderSegLoop_clips (clips : Clips) (x : Nat) : (renderSegLoop view ds clips).1 x =
    if ds.x1 ≤ x ∧ x ≤ ds.x2 then (columnAt view ds x (clips x)).after else clips x := by
  rw [renderSegLoop, columnsOf, loop_eq]
  dsimp only
  by_cases inside : ds.x1 ≤ x ∧ x ≤ ds.x2
  · rw [if_pos inside, if_pos (by omega)]
    rfl
  · rw [if_neg inside, if_neg (by omega)]

/-- The clips of a column after some walls. -/
def clipsAfter (x : Nat) (dss : List Drawseg) (clips : Int × Int) : Int × Int :=
  (dss.filter fun ds => ds.x1 ≤ x ∧ x ≤ ds.x2).foldl
    (fun clips ds => (columnAt view ds x clips).after) clips

/-- Each wall draws its columns from the clips the walls before it left there. -/
theorem renderSegs_getElem? (dss : List Drawseg) (clips : Clips) (i : Nat) :
    (renderSegs view dss clips)[i]? = dss[i]?.map fun ds =>
      (columnsOf ds).map fun x =>
        columnAt view ds x (clipsAfter view x (dss.take i) (clips x)) := by
  induction dss generalizing clips i with
  | nil => rfl
  | cons ds rest ih =>
    cases i with
    | zero =>
      rw [renderSegs, List.getElem?_cons_zero, renderSegLoop_columns]
      rfl
    | succ i =>
      rw [renderSegs, List.getElem?_cons_succ, ih, List.getElem?_cons_succ]
      refine congrArg (Option.map · rest[i]?) (funext fun ds' => List.map_congr_left fun x _ => ?_)
      rw [renderSegLoop_clips, List.take_succ_cons, clipsAfter, clipsAfter]
      by_cases inside : ds.x1 ≤ x ∧ x ≤ ds.x2
      · rw [if_pos inside, List.filter_cons_of_pos (by simpa using inside), List.foldl_cons]
      · rw [if_neg inside, List.filter_cons_of_neg (by simpa using inside)]

end

end SegLoop

end ClickDoom.Engine

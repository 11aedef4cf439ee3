import ClickDoom.Native.SegLoop

/-! # One fold a column is the loop over walls

The engine runs the columns of one wall and then those of the next; a fold takes the walls that reach
one column.  Both find at a wall what the walls before it left in the column.  The clips stay what
the engine stores while they are shorts.
-/
namespace ClickDoom.Native.SegLoop
open Engine (Drawseg)
open Engine.SegLoop (View Paint Run Column Edges columnAt columnsOf edgesAt clipsAfter renderSegs
  cleared short byte colfunc)

/-! ## Rows -/

/-- The edges after some steps. -/
theorem edgesAt_eq (ds : Drawseg) (k : Nat) : edgesAt ds k =
    { scale := ds.scale1 + ds.scalestep * Int32.ofNat k
      topfrac := ds.topfrac + ds.topstep * Int32.ofNat k
      bottomfrac := ds.bottomfrac + ds.bottomstep * Int32.ofNat k
      pixhigh := if ds.midtexture = 0 ∧ ds.toptexture ≠ 0 then
        ds.pixhigh + ds.pixhighstep * Int32.ofNat k else ds.pixhigh
      pixlow := if ds.midtexture = 0 ∧ ds.bottomtexture ≠ 0 then
        ds.pixlow + ds.pixlowstep * Int32.ofNat k else ds.pixlow } := by
  have more : ∀ (frac step : Int32) (k : Nat),
      frac + step * Int32.ofNat k + step = frac + step * Int32.ofNat (k + 1) := by
    intro frac step k
    rw [show Int32.ofNat (k + 1) = Int32.ofNat k + 1 from Int32.ofNat_add k 1, Int32.mul_add,
      Int32.mul_one, Int32.add_assoc]
  induction k with
  | zero =>
    have none : ∀ frac step : Int32, frac + step * Int32.ofNat 0 = frac := fun frac step => by
      rw [show Int32.ofNat 0 = 0 from rfl, Int32.mul_zero, Int32.add_zero]
    simp only [none, ite_self]
    rfl
  | succ k ih =>
    rw [edgesAt, Function.iterate_succ_apply']
    rw [edgesAt] at ih
    rw [ih, Edges.step]
    simp only [more]
    split_ifs <;> simp only [more]

theorem stepped_eq (frac step : Int32) {x x1 : Nat} (le : x1 ≤ x) :
    stepped frac step x x1 = frac + step * Int32.ofNat (x - x1) := by
  have run : (x : Int) - x1 = ((x - x1 : Nat) : Int) := by omega
  rw [stepped, run, Int64.toInt32_add, Int64.toInt32_mul, Int32.toInt32_toInt64,
    Int32.toInt32_toInt64, Int64.toInt32_ofInt, Int32.ofInt_eq_ofNat]

theorem rowUp_eq (frac : Int32) : rowUp frac = Engine.SegLoop.rowUp frac := by
  have same : Fixed.add32 frac 4095 = frac + 4096 - 1 := by
    rw [Fixed.add32, Int64.toInt32_add, Int32.toInt32_toInt64, Int32.toInt32_toInt64,
      Int32.sub_eq_add_neg, Int32.add_assoc]
    rfl
  rw [rowUp, same, Engine.SegLoop.rowUp]

theorem rowDown_eq (frac : Int32) : rowDown frac = Engine.SegLoop.rowDown frac := rfl

/-! ## One column of one wall -/

/-- The rows a list of runs draws, and what each is drawn from. -/
def Draws (runs : List Run) (y : Int) (paint : Paint) : Prop :=
  ∃ run ∈ runs, run.yl ≤ y ∧ y ≤ run.yh ∧ run.paint = paint

/-- A plane's rows of a column have the row. -/
def Covers (plane : Option (Int × Int)) (y : Int) : Prop := ∃ rows ∈ plane, rows.1 ≤ y ∧ y ≤ rows.2

/-- A row of the fold is what the loop left of the column: its clips, its marks and what it drew, the
rows of a top texture that the floor's mark covers apart. -/
structure Agrees (c : Column) (t : Cw) : Prop where
  x : t.x = c.x
  before : (t.cc0, t.fc0) = c.before
  after : (t.postCc, t.postFc) = c.after
  ceiling : (mkCeil [t]).map (fun m => (m.top, m.bottom)) = c.ceilingplane.toList
  floor : (mkFloor [t]).map (fun m => (m.top, m.bottom)) = c.floorplane.toList
  middle : t.single = c.middle
  bottom : t.bot = c.bottom
  top : ∀ y paint, Draws t.top y paint ↔ Draws c.top y paint ∧ ¬ Covers c.floorplane y

/-- Nothing the column stores leaves a short, and a top texture ends above the wall's bottom edge
unless the floor is marked. -/
def Fits (ds : Drawseg) (x : Nat) (clips : Int × Int) : Prop :=
  let e := edgesAt ds (x - ds.x1)
  ds.midtexture = 0 →
    (ds.toptexture ≠ 0 ∨ ds.markceiling → Engine.SegLoop.rowUp e.topfrac ≤ 32768) ∧
    (ds.bottomtexture ≠ 0 ∨ ds.markfloor → -32769 ≤ Engine.SegLoop.rowDown e.bottomfrac) ∧
    (ds.toptexture ≠ 0 ∧ ds.markfloor = false →
      min (Engine.SegLoop.rowDown e.pixhigh) (clips.2 - 1) ≤
        max (min (Engine.SegLoop.rowDown e.bottomfrac) (clips.2 - 1))
          (max (Engine.SegLoop.rowUp e.topfrac) (clips.1 + 1) - 1))

theorem short_eq_iff (i : Int) : short i = i ↔ -32768 ≤ i ∧ i ≤ 32767 := by
  rw [short]
  omega

theorem byte_eq {i : Int} (low : 0 ≤ i) (high : i < 256) : byte i = i := by
  rw [byte]
  omega

section
variable (view : View) (ds : Drawseg) (x : Nat) (clips : Int × Int)

theorem columnAt_x : (columnAt view ds x clips).x = x := by
  by_cases mid : ds.midtexture ≠ 0 <;> simp [columnAt, Engine.SegLoop.column, mid]

theorem columnAt_before : (columnAt view ds x clips).before = clips := by
  by_cases mid : ds.midtexture ≠ 0 <;> simp [columnAt, Engine.SegLoop.column, mid]

variable {view ds x clips}

theorem yl_eq (le : ds.x1 ≤ x) : yl x clips ds =
    max (Engine.SegLoop.rowUp (edgesAt ds (x - ds.x1)).topfrac) (clips.1 + 1) := by
  rw [yl, stepped_eq _ _ le, rowUp_eq, edgesAt_eq]

theorem yh_eq (le : ds.x1 ≤ x) : yh x clips ds =
    min (Engine.SegLoop.rowDown (edgesAt ds (x - ds.x1)).bottomfrac) (clips.2 - 1) := by
  rw [yh, stepped_eq _ _ le, rowDown_eq, edgesAt_eq]

theorem midlo_eq (le : ds.x1 ≤ x) (mid : ds.midtexture = 0) (top : ds.toptexture ≠ 0) :
    midlo x clips ds =
      min (Engine.SegLoop.rowDown (edgesAt ds (x - ds.x1)).pixhigh) (clips.2 - 1) := by
  rw [midlo, stepped_eq _ _ le, rowDown_eq, edgesAt_eq, if_pos ⟨mid, top⟩]

theorem botlo_eq (le : ds.x1 ≤ x) (mid : ds.midtexture = 0) (bottom : ds.bottomtexture ≠ 0) :
    botlo x ds = max (Engine.SegLoop.rowUp (edgesAt ds (x - ds.x1)).pixlow) 0 := by
  rw [botlo, stepped_eq _ _ le, rowUp_eq, edgesAt_eq]
  dsimp only
  rw [if_pos ⟨mid, bottom⟩]

theorem scale_eq (le : ds.x1 ≤ x) : stepped ds.scale1 ds.scalestep x ds.x1 =
    (edgesAt ds (x - ds.x1)).scale := by
  rw [stepped_eq _ _ le, edgesAt_eq]

theorem texcol_eq (textured : ds.midtexture ≠ 0 ∨ ds.toptexture ≠ 0 ∨ ds.bottomtexture ≠ 0) :
    texcol view x ds = Engine.SegLoop.texturecolumn view ds x := by
  have some : ds.midtexture ≠ 0 ∨ ds.toptexture ≠ 0 ∨ ds.bottomtexture ≠ 0 ∨ ds.maskedtexture := by
    tauto
  rw [texcol, Engine.SegLoop.texturecolumn, if_pos some, Fixed.sub32_eq, Fixed.fixedMul_eq]
  simp

/-- The ceiling a wall without a middle texture stores is the one the fold keeps while its top edge
fits. -/
theorem ceiling_eq_iff (top mkc : Prop) [Decidable top] [Decidable mkc] {u h c f : Int}
    (hc : -1 ≤ c ∧ c ≤ 32767) (hf : f ≤ 168) :
    (if top then if min h (f - 1) ≥ max u (c + 1) then min h (f - 1) else max u (c + 1) - 1
      else if mkc then max u (c + 1) - 1 else c) =
    (if top then if min h (f - 1) ≥ max u (c + 1) then short (min h (f - 1))
        else short (max u (c + 1) - 1)
      else if mkc then short (max u (c + 1) - 1) else c) ↔ (top ∨ mkc → u ≤ 32768) := by
  have stored : max u (c + 1) - 1 = short (max u (c + 1) - 1) ↔ u ≤ 32768 := by
    rw [eq_comm, short_eq_iff]
    omega
  by_cases textured : top
  · by_cases drawn : min h (f - 1) ≥ max u (c + 1)
    · have row : short (min h (f - 1)) = min h (f - 1) := (short_eq_iff _).2 (by omega)
      rw [if_pos textured, if_pos textured, if_pos drawn, if_pos drawn, row]
      exact ⟨fun _ _ => by omega, fun _ => rfl⟩
    · rw [if_pos textured, if_pos textured, if_neg drawn, if_neg drawn, stored]
      exact ⟨fun fits _ => fits, fun fits => fits (.inl textured)⟩
  · by_cases marked : mkc
    · rw [if_neg textured, if_neg textured, if_pos marked, if_pos marked, stored]
      exact ⟨fun fits _ => fits, fun fits => fits (.inr marked)⟩
    · rw [if_neg textured, if_neg textured, if_neg marked, if_neg marked]
      exact ⟨fun _ some => absurd some (by tauto), fun _ => rfl⟩

/-- The floor, below a ceiling `c'`. -/
theorem floor_eq_iff (bottom mkf : Prop) [Decidable bottom] [Decidable mkf] {d l c' f : Int}
    (hc : -1 ≤ c') (hf : -32768 ≤ f ∧ f ≤ 168) :
    (if bottom then if max (max l 0) (c' + 1) ≤ min d (f - 1) then max (max l 0) (c' + 1)
        else min d (f - 1) + 1
      else if mkf then min d (f - 1) + 1 else f) =
    (if bottom then if max l (c' + 1) ≤ min d (f - 1) then short (max l (c' + 1))
        else short (min d (f - 1) + 1)
      else if mkf then short (min d (f - 1) + 1) else f) ↔ (bottom ∨ mkf → -32769 ≤ d) := by
  have stored : min d (f - 1) + 1 = short (min d (f - 1) + 1) ↔ -32769 ≤ d := by
    rw [eq_comm, short_eq_iff]
    omega
  have low : max (max l 0) (c' + 1) = max l (c' + 1) := by omega
  rw [low]
  by_cases textured : bottom
  · by_cases drawn : max l (c' + 1) ≤ min d (f - 1)
    · have row : short (max l (c' + 1)) = max l (c' + 1) := (short_eq_iff _).2 (by omega)
      rw [if_pos textured, if_pos textured, if_pos drawn, if_pos drawn, row]
      exact ⟨fun _ _ => by omega, fun _ => rfl⟩
    · rw [if_pos textured, if_pos textured, if_neg drawn, if_neg drawn, stored]
      exact ⟨fun fits _ => fits, fun fits => fits (.inl textured)⟩
  · by_cases marked : mkf
    · rw [if_neg textured, if_neg textured, if_pos marked, if_pos marked, stored]
      exact ⟨fun fits _ => fits, fun fits => fits (.inr marked)⟩
    · rw [if_neg textured, if_neg textured, if_neg marked, if_neg marked]
      exact ⟨fun _ some => absurd some (by tauto), fun _ => rfl⟩

theorem clamp_up (a c : Int) : (if a < c + 1 then c + 1 else a) = max a (c + 1) := by
  split_ifs <;> omega

theorem clamp_down (a f : Int) : (if a ≥ f then f - 1 else a) = min a (f - 1) := by
  split_ifs <;> omega

theorem clamp_low (a c : Int) : (if a ≤ c then c + 1 else a) = max a (c + 1) := by
  split_ifs <;> omega

theorem newCeil_eq (le : ds.x1 ≤ x) (mid : ds.midtexture = 0) : newCeil x clips ds =
    let u := Engine.SegLoop.rowUp (edgesAt ds (x - ds.x1)).topfrac
    let h := Engine.SegLoop.rowDown (edgesAt ds (x - ds.x1)).pixhigh
    if ds.toptexture ≠ 0 then
      if min h (clips.2 - 1) ≥ max u (clips.1 + 1) then min h (clips.2 - 1)
      else max u (clips.1 + 1) - 1
    else if ds.markceiling then max u (clips.1 + 1) - 1 else clips.1 := by
  rw [newCeil, if_neg (not_not.2 mid), yl_eq le]
  by_cases top : ds.toptexture ≠ 0
  · rw [if_pos top, midlo_eq le mid top]
    simp only [if_pos top]
  · simp only [if_neg top]

theorem newFloor_eq (le : ds.x1 ≤ x) (mid : ds.midtexture = 0) : newFloor x clips ds =
    let d := Engine.SegLoop.rowDown (edgesAt ds (x - ds.x1)).bottomfrac
    let l := Engine.SegLoop.rowUp (edgesAt ds (x - ds.x1)).pixlow
    if ds.bottomtexture ≠ 0 then
      if max (max l 0) (newCeil x clips ds + 1) ≤ min d (clips.2 - 1) then
        max (max l 0) (newCeil x clips ds + 1)
      else min d (clips.2 - 1) + 1
    else if ds.markfloor then min d (clips.2 - 1) + 1 else clips.2 := by
  rw [newFloor, if_neg (not_not.2 mid), yh_eq le, botloClamped]
  by_cases bottom : ds.bottomtexture ≠ 0
  · rw [if_pos bottom, botlo_eq le mid bottom]
    simp only [if_pos bottom]
  · simp only [if_neg bottom]

/-- The ceiling that the loop stores. -/
def stored (ds : Drawseg) (e : Edges) (clips : Int × Int) : Int :=
  let u := Engine.SegLoop.rowUp e.topfrac
  let h := Engine.SegLoop.rowDown e.pixhigh
  if ds.toptexture ≠ 0 then
    if min h (clips.2 - 1) ≥ max u (clips.1 + 1) then short (min h (clips.2 - 1))
    else short (max u (clips.1 + 1) - 1)
  else if ds.markceiling then short (max u (clips.1 + 1) - 1) else clips.1

theorem columnAt_after (mid : ds.midtexture = 0) : (columnAt view ds x clips).after =
    let e := edgesAt ds (x - ds.x1)
    let d := Engine.SegLoop.rowDown e.bottomfrac
    let l := Engine.SegLoop.rowUp e.pixlow
    (stored ds e clips,
      if ds.bottomtexture ≠ 0 then
        if max l (stored ds e clips + 1) ≤ min d (clips.2 - 1) then
          short (max l (stored ds e clips + 1))
        else short (min d (clips.2 - 1) + 1)
      else if ds.markfloor then short (min d (clips.2 - 1) + 1) else clips.2) := by
  rw [columnAt, Engine.SegLoop.column]
  simp only [clamp_up, clamp_down, clamp_low, if_neg (not_not.2 mid)]
  rfl

theorem le_newCeil (low : -1 ≤ clips.1) : -1 ≤ newCeil x clips ds := by
  rw [newCeil, yl]
  split_ifs
  · decide
  · omega
  · omega
  · omega
  · exact low

theorem newFloor_le (high : clips.2 ≤ 168) : newFloor x clips ds ≤ 168 := by
  rw [newFloor, yh]
  split_ifs
  · decide
  · omega
  · omega
  · omega
  · exact high

theorem after_iff (le : ds.x1 ≤ x) (mid : ds.midtexture = 0) (n : Nat)
    (hc : -1 ≤ clips.1 ∧ clips.1 ≤ 32767) (hf : -32768 ≤ clips.2 ∧ clips.2 ≤ 168) :
    ((out view x clips (n, ds)).postCc, (out view x clips (n, ds)).postFc) =
        (columnAt view ds x clips).after ↔
      (ds.toptexture ≠ 0 ∨ ds.markceiling →
        Engine.SegLoop.rowUp (edgesAt ds (x - ds.x1)).topfrac ≤ 32768) ∧
      (ds.bottomtexture ≠ 0 ∨ ds.markfloor →
        -32769 ≤ Engine.SegLoop.rowDown (edgesAt ds (x - ds.x1)).bottomfrac) := by
  have post : ((out view x clips (n, ds)).postCc, (out view x clips (n, ds)).postFc) =
      (newCeil x clips ds, newFloor x clips ds) := rfl
  have ceiling := ceiling_eq_iff (ds.toptexture ≠ 0) (ds.markceiling = true)
    (u := Engine.SegLoop.rowUp (edgesAt ds (x - ds.x1)).topfrac)
    (h := Engine.SegLoop.rowDown (edgesAt ds (x - ds.x1)).pixhigh) hc hf.2
  have floor := floor_eq_iff (ds.bottomtexture ≠ 0) (ds.markfloor = true)
    (d := Engine.SegLoop.rowDown (edgesAt ds (x - ds.x1)).bottomfrac)
    (l := Engine.SegLoop.rowUp (edgesAt ds (x - ds.x1)).pixlow)
    (le_newCeil hc.1 : -1 ≤ newCeil x clips ds) hf
  rw [post, columnAt_after mid, Prod.mk.injEq, newFloor_eq le mid, ← ceiling, ← floor]
  have native := @newCeil_eq ds x clips le mid
  constructor
  · rintro ⟨same, below⟩
    rw [← same] at below
    exact ⟨native.symm.trans same, below⟩
  · rintro ⟨same, below⟩
    have same : newCeil x clips ds = stored ds (edgesAt ds (x - ds.x1)) clips := native.trans same
    rw [← same]
    exact ⟨rfl, below⟩

/-! ## Marks and runs -/

theorem ceiling_mark (le : ds.x1 ≤ x) (n : Nat) (hc : -1 ≤ clips.1) (hf : clips.2 ≤ 168) :
    (mkCeil [out view x clips (n, ds)]).map (fun m => (m.top, m.bottom)) =
      (columnAt view ds x clips).ceilingplane.toList := by
  have engine : (columnAt view ds x clips).ceilingplane = if ds.markceiling then
      if clips.1 + 1 ≤ min (yl x clips ds - 1) (clips.2 - 1) then
        some (byte (clips.1 + 1), byte (min (yl x clips ds - 1) (clips.2 - 1))) else none
      else none := by
    rw [yl_eq le, columnAt, Engine.SegLoop.column]
    simp only [clamp_up, clamp_down]
    by_cases mid : ds.midtexture ≠ 0
    · rw [if_pos mid]
    · rw [if_neg mid]
  have mark : (out view x clips (n, ds)).ceilMark =
      ⟨n, x, clips.1 + 1, min (yl x clips ds - 1) (clips.2 - 1)⟩ := rfl
  rw [engine, mkCeil]
  by_cases marked : ds.markceiling
  · rw [if_pos marked, List.filter_cons_of_pos (by exact marked), List.filter_nil, List.map_singleton,
      mark]
    by_cases some : clips.1 + 1 ≤ min (yl x clips ds - 1) (clips.2 - 1)
    · rw [if_pos some, List.filter_cons_of_pos (by simpa using some), byte_eq (by omega) (by omega),
        byte_eq (by omega) (by omega)]
      rfl
    · rw [if_neg some, List.filter_cons_of_neg (by simpa using some)]
      rfl
  · rw [if_neg marked, List.filter_cons_of_neg (by exact marked)]
    rfl

theorem floor_mark (le : ds.x1 ≤ x) (n : Nat) (hc : -1 ≤ clips.1) (hf : clips.2 ≤ 168) :
    (mkFloor [out view x clips (n, ds)]).map (fun m => (m.top, m.bottom)) =
      (columnAt view ds x clips).floorplane.toList := by
  have engine : (columnAt view ds x clips).floorplane = if ds.markfloor then
      if max (yh x clips ds + 1) (clips.1 + 1) ≤ clips.2 - 1 then
        some (byte (max (yh x clips ds + 1) (clips.1 + 1)), byte (clips.2 - 1)) else none
      else none := by
    rw [yh_eq le, columnAt, Engine.SegLoop.column]
    simp only [clamp_low, clamp_down]
    by_cases mid : ds.midtexture ≠ 0
    · rw [if_pos mid]
    · rw [if_neg mid]
  have mark : (out view x clips (n, ds)).floorMark =
      ⟨n, x, max (yh x clips ds + 1) (clips.1 + 1), clips.2 - 1⟩ := rfl
  rw [engine, mkFloor]
  by_cases marked : ds.markfloor
  · rw [if_pos marked, List.filter_cons_of_pos (by exact marked), List.filter_nil, List.map_singleton,
      mark]
    by_cases some : max (yh x clips ds + 1) (clips.1 + 1) ≤ clips.2 - 1
    · rw [if_pos some, List.filter_cons_of_pos (by simpa using some), byte_eq (by omega) (by omega),
        byte_eq (by omega) (by omega)]
      rfl
    · rw [if_neg some, List.filter_cons_of_neg (by simpa using some)]
      rfl
  · rw [if_neg marked, List.filter_cons_of_neg (by exact marked)]
    rfl

/-- A run of the loop is one the pass keeps. -/
theorem columnRun_eq (t : Cw) (lo hi : Int) {tex : Int32} (mid : Int32) (some : tex ≠ 0) :
    t.columnRun lo hi tex mid = colfunc ⟨lo, hi, ⟨tex, mid, t.texcol, t.scale, t.light⟩⟩ := by
  rw [Cw.columnRun, colfunc]
  by_cases rows : lo ≤ hi
  · rw [if_pos ⟨some, rows⟩, if_neg (by dsimp only; omega)]
  · rw [if_neg (by tauto), if_pos (by dsimp only; omega)]

theorem colfunc_of_le (lo hi : Int) (paint : Paint) :
    (if lo ≤ hi then colfunc ⟨lo, hi, paint⟩ else []) = colfunc ⟨lo, hi, paint⟩ := by
  rw [colfunc]
  dsimp only
  split_ifs <;> first | rfl | omega

theorem draws_colfunc (lo hi y : Int) (paint p : Paint) :
    Draws (colfunc ⟨lo, hi, paint⟩) y p ↔ lo ≤ y ∧ y ≤ hi ∧ paint = p := by
  rw [colfunc, Draws]
  split_ifs with none
  · dsimp only at none
    simp only [List.not_mem_nil, false_and, exists_false, false_iff]
    omega
  · simp only [List.mem_singleton, exists_eq_left]

theorem covers_floor (le : ds.x1 ≤ x) (n : Nat) (hc : -1 ≤ clips.1) (hf : clips.2 ≤ 168) (y : Int) :
    Covers (columnAt view ds x clips).floorplane y ↔
      ds.markfloor ∧ max (yh x clips ds + 1) (clips.1 + 1) ≤ y ∧ y ≤ clips.2 - 1 := by
  have rows : ∀ r, r ∈ (columnAt view ds x clips).floorplane ↔
      r ∈ (mkFloor [out view x clips (n, ds)]).map fun m => (m.top, m.bottom) := by
    intro r
    rw [floor_mark le n hc hf, Option.mem_toList]
    rfl
  have mark : (out view x clips (n, ds)).floorMark =
      ⟨n, x, max (yh x clips ds + 1) (clips.1 + 1), clips.2 - 1⟩ := rfl
  simp only [Covers, rows, mkFloor]
  by_cases marked : ds.markfloor
  · rw [List.filter_cons_of_pos (by exact marked), List.filter_nil, List.map_singleton, mark]
    by_cases some : max (yh x clips ds + 1) (clips.1 + 1) ≤ clips.2 - 1
    · rw [List.filter_cons_of_pos (by simpa using some)]
      simp [marked]
    · rw [List.filter_cons_of_neg (by simpa using some)]
      simp only [List.filter_nil, List.map_nil, List.not_mem_nil, false_and, exists_false, marked,
        true_and, false_iff]
      omega
  · rw [List.filter_cons_of_neg (by exact marked)]
    simp [marked]

theorem top_iff (le : ds.x1 ≤ x) (mid : ds.midtexture = 0) (n : Nat) (hc : -1 ≤ clips.1)
    (hf : clips.2 ≤ 168) :
    (∀ y paint, Draws (out view x clips (n, ds)).top y paint ↔
        Draws (columnAt view ds x clips).top y paint ∧
          ¬ Covers (columnAt view ds x clips).floorplane y) ↔
      (ds.toptexture ≠ 0 ∧ ds.markfloor = false →
        min (Engine.SegLoop.rowDown (edgesAt ds (x - ds.x1)).pixhigh) (clips.2 - 1) ≤
          max (min (Engine.SegLoop.rowDown (edgesAt ds (x - ds.x1)).bottomfrac) (clips.2 - 1))
            (max (Engine.SegLoop.rowUp (edgesAt ds (x - ds.x1)).topfrac) (clips.1 + 1) - 1)) := by
  by_cases top : ds.toptexture ≠ 0
  · let paint : Paint := ⟨ds.toptexture, ds.toptexturemid, Engine.SegLoop.texturecolumn view ds x,
      (edgesAt ds (x - ds.x1)).scale, ds.walllights⟩
    have engine : (columnAt view ds x clips).top =
        colfunc ⟨yl x clips ds, midlo x clips ds, paint⟩ := by
      rw [← colfunc_of_le, yl_eq le, midlo_eq le mid top, columnAt, Engine.SegLoop.column]
      simp only [clamp_up, clamp_down, if_neg (not_not.2 mid), top, true_and, ge_iff_le, ne_eq,
        not_false_eq_true]
      rfl
    have native : (out view x clips (n, ds)).top =
        colfunc ⟨yl x clips ds, min (midlo x clips ds) (yh x clips ds), paint⟩ := by
      have run : paint = ⟨ds.toptexture, ds.toptexturemid, texcol view x ds,
          stepped ds.scale1 ds.scalestep x ds.x1, ds.walllights⟩ := by
        rw [texcol_eq (.inr (.inl top)), scale_eq le]
      rw [run]
      exact columnRun_eq (out view x clips (n, ds)) _ _ _ top
    rw [engine, native, ← yl_eq le, ← yh_eq le, ← midlo_eq le mid top]
    simp only [draws_colfunc, covers_floor le n hc hf]
    have above : clips.1 + 1 ≤ yl x clips ds := by
      rw [yl]
      omega
    have below : midlo x clips ds ≤ clips.2 - 1 := by
      rw [midlo]
      omega
    constructor
    · rintro same ⟨-, unmarked⟩
      by_contra longer
      have drawn := (same (midlo x clips ds) paint).2
        ⟨⟨by omega, le_rfl, rfl⟩, fun covered => by simp [unmarked] at covered⟩
      omega
    · intro fits y p
      by_cases marked : ds.markfloor
      · simp only [marked, true_and]
        constructor
        · rintro ⟨low, high, rfl⟩
          exact ⟨⟨low, by omega, rfl⟩, by omega⟩
        · rintro ⟨⟨low, high, rfl⟩, bare⟩
          exact ⟨low, by omega, rfl⟩
      · have := fits ⟨top, by simpa using marked⟩
        constructor
        · rintro ⟨low, high, rfl⟩
          exact ⟨⟨low, by omega, rfl⟩, fun covered => marked covered.1⟩
        · rintro ⟨⟨low, high, rfl⟩, -⟩
          exact ⟨low, by omega, rfl⟩
  · have engine : (columnAt view ds x clips).top = [] := by
      rw [columnAt, Engine.SegLoop.column]
      simp only [if_neg (not_not.2 mid), top, false_and, if_false]
    have native : (out view x clips (n, ds)).top = [] := by
      rw [Cw.top, Cw.columnRun, if_neg fun some => top some.1]
    rw [engine, native]
    simp [Draws, top]

theorem middle_eq (le : ds.x1 ≤ x) (n : Nat) :
    (out view x clips (n, ds)).single = (columnAt view ds x clips).middle := by
  by_cases mid : ds.midtexture ≠ 0
  · have run := columnRun_eq (out view x clips (n, ds)) (yl x clips ds) (yh x clips ds)
      ds.midtexturemid mid
    refine run.trans ?_
    rw [columnAt, Engine.SegLoop.column, if_pos mid, ← texcol_eq (.inl mid), ← scale_eq le]
    simp only [clamp_up, clamp_down, yl_eq le, yh_eq le]
    rfl
  · rw [Cw.single, Cw.columnRun, if_neg fun some => mid some.1, columnAt, Engine.SegLoop.column]
    simp only [if_neg mid]

theorem bottom_eq (le : ds.x1 ≤ x) (mid : ds.midtexture = 0) (n : Nat)
    (same : newCeil x clips ds = stored ds (edgesAt ds (x - ds.x1)) clips) (low : -1 ≤ clips.1) :
    (out view x clips (n, ds)).bot = (columnAt view ds x clips).bottom := by
  by_cases bottom : ds.bottomtexture ≠ 0
  · have run := columnRun_eq (out view x clips (n, ds)) (botloClamped x clips ds) (yh x clips ds)
      ds.bottomtexturemid bottom
    have start : botloClamped x clips ds = max (Engine.SegLoop.rowUp (edgesAt ds (x - ds.x1)).pixlow)
        (stored ds (edgesAt ds (x - ds.x1)) clips + 1) := by
      have : -1 ≤ newCeil x clips ds := le_newCeil low
      rw [botloClamped, botlo_eq le mid bottom, ← same]
      omega
    refine run.trans ?_
    rw [← colfunc_of_le, start, columnAt, Engine.SegLoop.column]
    simp only [clamp_up, clamp_down, clamp_low, if_neg (not_not.2 mid), yh_eq le, bottom, true_and,
      ne_eq, not_false_eq_true]
    simp only [out, texcol_eq (.inr (.inr bottom)), scale_eq le]
    rfl
  · rw [Cw.bot, Cw.columnRun, if_neg fun some => bottom some.1, columnAt, Engine.SegLoop.column]
    simp only [if_neg (not_not.2 mid), bottom, false_and, if_false]

theorem agrees_iff (le : ds.x1 ≤ x) (n : Nat) (hc : -1 ≤ clips.1 ∧ clips.1 ≤ 32767)
    (hf : -32768 ≤ clips.2 ∧ clips.2 ≤ 168) :
    Agrees (columnAt view ds x clips) (out view x clips (n, ds)) ↔ Fits ds x clips := by
  by_cases mid : ds.midtexture = 0
  · have stores := @after_iff view ds x clips le mid n hc hf
    have tops := @top_iff view ds x clips le mid n hc.1 hf.2
    constructor
    · intro agrees _
      exact ⟨(stores.1 agrees.after).1, (stores.1 agrees.after).2, tops.1 agrees.top⟩
    · intro fits
      obtain ⟨up, down, above⟩ := fits mid
      have after := stores.2 ⟨up, down⟩
      have ceiling : newCeil x clips ds = stored ds (edgesAt ds (x - ds.x1)) clips := by
        rw [columnAt_after mid] at after
        exact congrArg Prod.fst after
      exact { x := (columnAt_x view ds x clips).symm
              before := (columnAt_before view ds x clips).symm
              after := after
              ceiling := ceiling_mark le n hc.1 hf.2
              floor := floor_mark le n hc.1 hf.2
              middle := middle_eq le n
              bottom := bottom_eq le mid n ceiling hc.1
              top := tops.2 above }
  · refine ⟨fun _ none => absurd none mid, fun _ => ?_⟩
    obtain ⟨top, bottom⟩ := ds.single mid
    have engine : (columnAt view ds x clips).top = [] ∧ (columnAt view ds x clips).bottom = [] ∧
        (columnAt view ds x clips).after = (168, -1) := by
      rw [columnAt, Engine.SegLoop.column, if_pos mid]
      exact ⟨rfl, rfl, rfl⟩
    have native : (out view x clips (n, ds)).top = [] ∧ (out view x clips (n, ds)).bot = [] :=
      ⟨if_neg fun some => some.1 top, if_neg fun some => some.1 bottom⟩
    exact { x := (columnAt_x view ds x clips).symm
            before := (columnAt_before view ds x clips).symm
            after := by
              rw [engine.2.2]
              exact Prod.ext (if_pos mid) (if_pos mid)
            ceiling := ceiling_mark le n hc.1 hf.2
            floor := floor_mark le n hc.1 hf.2
            middle := middle_eq le n
            bottom := by rw [engine.2.1, native.2]
            top := by
              rw [engine.1, native.1]
              simp [Draws] }

end

/-! ## A whole frame -/

/-- The clips of a column after some walls, as the fold keeps them. -/
def foldClips (x : Nat) (dss : List Drawseg) (clips : Int × Int) : Int × Int :=
  (dss.filter fun ds => ds.x1 ≤ x ∧ x ≤ ds.x2).foldl
    (fun clips ds => (newCeil x clips ds, newFloor x clips ds)) clips

section
variable (view : View)

/-- The rows of the fold from a wall's number on. -/
def rowsFrom (x : Nat) : Nat → List Drawseg → Int × Int → List Cw
  | _, [], _ => []
  | n, ds :: dss, clips =>
    if ds.x1 ≤ x ∧ x ≤ ds.x2 then
      out view x clips (n, ds) :: rowsFrom x (n + 1) dss (newCeil x clips ds, newFloor x clips ds)
    else rowsFrom x (n + 1) dss clips

theorem foldl_rows (x n : Nat) (dss : List Drawseg) (clips : Int × Int) (rows : List Cw) :
    ((((List.range' n dss.length).zip dss).filter fun t => t.2.x1 ≤ x ∧ t.2.x2 ≥ x).foldl
      (step view x) (clips, rows)).2 = rows ++ rowsFrom view x n dss clips := by
  induction dss generalizing n clips rows with
  | nil => exact (List.append_nil rows).symm
  | cons ds dss ih =>
    rw [List.length_cons, List.range'_succ, List.zip_cons_cons, rowsFrom]
    by_cases inside : ds.x1 ≤ x ∧ x ≤ ds.x2
    · rw [if_pos inside, List.filter_cons_of_pos (by simpa using inside), List.foldl_cons, step, ih,
        List.append_assoc]
      rfl
    · rw [if_neg inside, List.filter_cons_of_neg (by simpa using inside), ih]

theorem columnFold_rows (x : Nat) (dss : List Drawseg) :
    (columnFold view x dss).2 = rowsFrom view x 1 dss (-1, viewHeight) :=
  foldl_rows view x 1 dss (-1, viewHeight) []

theorem le_ds_of_mem {x n : Nat} {dss : List Drawseg} {clips : Int × Int} {t : Cw}
    (there : t ∈ rowsFrom view x n dss clips) : n ≤ t.ds := by
  induction dss generalizing n clips with
  | nil => exact absurd there List.not_mem_nil
  | cons ds dss ih =>
    rw [rowsFrom] at there
    split_ifs at there
    · rcases List.mem_cons.1 there with rfl | later
      · exact le_rfl
      · exact (Nat.le_succ n).trans (ih later)
    · exact (Nat.le_succ n).trans (ih there)

/-- The row of one wall in a column. -/
theorem rowsFrom_filter (x n i : Nat) (dss : List Drawseg) (clips : Int × Int) {ds : Drawseg}
    (found : dss[i]? = some ds) :
    (rowsFrom view x n dss clips).filter (fun t => t.ds = n + i) =
      if ds.x1 ≤ x ∧ x ≤ ds.x2 then
        [out view x (foldClips x (dss.take i) clips) (n + i, ds)] else [] := by
  induction dss generalizing n i clips with
  | nil => cases found
  | cons ds' dss ih =>
    cases i with
    | zero =>
      cases found
      have later : ∀ clips, (rowsFrom view x (n + 1) dss clips).filter
          (fun t => t.ds = n + 0) = [] := fun clips =>
        List.filter_eq_nil_iff.2 fun t there => by
          have := le_ds_of_mem view there
          simp only [decide_eq_true_eq]
          omega
      rw [rowsFrom]
      split_ifs
      · rw [List.filter_cons_of_pos (by simp [out]), later]
        rfl
      · exact later clips
    | succ i =>
      rw [List.getElem?_cons_succ] at found
      have shift : n + (i + 1) = n + 1 + i := by omega
      have first : (out view x clips (n, ds')).ds ≠ n + 1 + i :=
        show n ≠ n + 1 + i by omega
      rw [rowsFrom, List.take_succ_cons, foldClips, shift]
      by_cases inside : ds'.x1 ≤ x ∧ x ≤ ds'.x2
      · rw [if_pos inside, List.filter_cons_of_neg (by simpa using first), ih _ _ _ found,
          List.filter_cons_of_pos (by simpa using inside), List.foldl_cons]
        rfl
      · rw [if_neg inside, ih _ _ _ found, List.filter_cons_of_neg (by simpa using inside)]
        rfl

/-- A wall's columns among those of the view. -/
theorem flatten_columns {β : Type} (ds : Drawseg) (f : Nat → β) :
    ((List.range 320).map fun x => if ds.x1 ≤ x ∧ x ≤ ds.x2 then [f x] else []).flatten =
      (columnsOf ds).map f := by
  have low := ds.x2_lt
  by_cases some : ds.x1 ≤ ds.x2 + 1
  · have parts : List.range 320 = List.range' 0 ds.x1 ++ (columnsOf ds ++
        List.range' (ds.x2 + 1) (320 - (ds.x2 + 1))) := by
      rw [List.range_eq_range', columnsOf]
      have first : List.range' ds.x1 (ds.x2 + 1 - ds.x1) ++
          List.range' (ds.x2 + 1) (320 - (ds.x2 + 1)) = List.range' ds.x1 (320 - ds.x1) := by
        have := List.range'_append_1 (s := ds.x1) (m := ds.x2 + 1 - ds.x1)
          (n := 320 - (ds.x2 + 1))
        rw [show ds.x1 + (ds.x2 + 1 - ds.x1) = ds.x2 + 1 by omega] at this
        rw [this]
        congr 1
        omega
      have whole := List.range'_append_1 (s := 0) (m := ds.x1) (n := 320 - ds.x1)
      rw [Nat.zero_add] at whole
      rw [first, whole]
      congr 1
      omega
    have outside : ∀ l : List Nat, (∀ x ∈ l, ¬ (ds.x1 ≤ x ∧ x ≤ ds.x2)) →
        (l.map fun x => if ds.x1 ≤ x ∧ x ≤ ds.x2 then [f x] else []).flatten = [] := by
      intro l apart
      refine List.flatten_eq_nil_iff.2 fun one there => ?_
      obtain ⟨x, inside, rfl⟩ := List.mem_map.1 there
      exact if_neg (apart x inside)
    have inside : ∀ l : List Nat, (∀ x ∈ l, ds.x1 ≤ x ∧ x ≤ ds.x2) →
        (l.map fun x => if ds.x1 ≤ x ∧ x ≤ ds.x2 then [f x] else []).flatten = l.map f := by
      intro l within
      rw [List.map_congr_left fun x there => if_pos (within x there)]
      rw [← List.flatMap_def, ← List.map_eq_flatMap]
    rw [parts, List.map_append, List.map_append, List.flatten_append, List.flatten_append,
      outside _ fun x there => ?_, outside (List.range' (ds.x2 + 1) _) fun x there => ?_,
      inside _ fun x there => ?_, List.nil_append, List.append_nil]
    · have := List.mem_range'_1.1 there
      omega
    · have := List.mem_range'_1.1 there
      omega
    · have := List.mem_range'_1.1 there
      omega
  · rw [columnsOf, show ds.x2 + 1 - ds.x1 = 0 by omega]
    refine List.flatten_eq_nil_iff.2 fun one there => ?_
    obtain ⟨x, -, rfl⟩ := List.mem_map.1 there
    exact if_neg (by omega)

/-- The rows of one wall, in the order of its columns. -/
theorem cw_filter (dss : List Drawseg) (i : Nat) {ds : Drawseg} (found : dss[i]? = some ds) :
    (cw view dss).filter (fun t => t.ds = i + 1) = (columnsOf ds).map fun x =>
      out view x (foldClips x (dss.take i) (-1, viewHeight)) (i + 1, ds) := by
  rw [cw, List.filter_flatten, List.map_map, ← flatten_columns]
  refine congrArg List.flatten (List.map_congr_left fun x _ => ?_)
  rw [Function.comp_apply, columnFold_rows, Nat.add_comm i 1]
  exact rowsFrom_filter view x 1 i dss _ found

variable {view}

theorem clipsAfter_succ (x : Nat) (dss : List Drawseg) (clips : Int × Int) {i : Nat} {ds : Drawseg}
    (found : dss[i]? = some ds) : clipsAfter view x (dss.take (i + 1)) clips =
      if ds.x1 ≤ x ∧ x ≤ ds.x2 then
        (columnAt view ds x (clipsAfter view x (dss.take i) clips)).after
      else clipsAfter view x (dss.take i) clips := by
  rw [List.take_add_one, found, Option.toList_some, clipsAfter, List.filter_append, List.foldl_append]
  split_ifs with inside
  · rw [List.filter_cons_of_pos (by simpa using inside)]
    rfl
  · rw [List.filter_cons_of_neg (by simpa using inside)]
    rfl

theorem foldClips_succ (x : Nat) (dss : List Drawseg) (clips : Int × Int) {i : Nat} {ds : Drawseg}
    (found : dss[i]? = some ds) : foldClips x (dss.take (i + 1)) clips =
      if ds.x1 ≤ x ∧ x ≤ ds.x2 then
        (newCeil x (foldClips x (dss.take i) clips) ds,
          newFloor x (foldClips x (dss.take i) clips) ds)
      else foldClips x (dss.take i) clips := by
  rw [List.take_add_one, found, Option.toList_some, foldClips, List.filter_append, List.foldl_append]
  split_ifs with inside
  · rw [List.filter_cons_of_pos (by simpa using inside)]
    rfl
  · rw [List.filter_cons_of_neg (by simpa using inside)]
    rfl

/-- A value that fits a `short`. -/
def Short (i : Int) : Prop := -32768 ≤ i ∧ i ≤ 32767

theorem short_short (i : Int) : Short (short i) := by
  rw [Short, short]
  omega

/-- The clips stay shorts. -/
theorem after_short {ds : Drawseg} {x : Nat} {clips : Int × Int} (hc : Short clips.1)
    (hf : Short clips.2) : Short (columnAt view ds x clips).after.1 ∧
      Short (columnAt view ds x clips).after.2 := by
  by_cases mid : ds.midtexture = 0
  · rw [columnAt_after mid]
    constructor
    · dsimp only
      rw [stored]
      split_ifs <;> first | exact short_short _ | exact hc
    · dsimp only
      split_ifs <;> first | exact short_short _ | exact hf
  · rw [columnAt, Engine.SegLoop.column, if_pos mid]
    exact ⟨short_short _, short_short _⟩

theorem clipsAfter_short (x : Nat) (dss : List Drawseg) (clips : Int × Int) (hc : Short clips.1)
    (hf : Short clips.2) :
    Short (clipsAfter view x dss clips).1 ∧ Short (clipsAfter view x dss clips).2 := by
  rw [clipsAfter]
  induction dss.filter (fun ds => ds.x1 ≤ x ∧ x ≤ ds.x2) generalizing clips with
  | nil => exact ⟨hc, hf⟩
  | cons ds dss ih =>
    have next := @after_short view ds x clips hc hf
    exact ih _ next.1 next.2

theorem foldClips_view (x : Nat) (dss : List Drawseg) (clips : Int × Int) (hc : -1 ≤ clips.1)
    (hf : clips.2 ≤ 168) :
    -1 ≤ (foldClips x dss clips).1 ∧ (foldClips x dss clips).2 ≤ 168 := by
  rw [foldClips]
  induction dss.filter (fun ds => ds.x1 ≤ x ∧ x ≤ ds.x2) generalizing clips with
  | nil => exact ⟨hc, hf⟩
  | cons ds dss ih => exact ih _ (le_newCeil hc) (newFloor_le hf)

/-- While everything fits, the loop and the fold keep the same clips. -/
theorem clipsAfter_eq {x i : Nat} {dss : List Drawseg}
    (fits : ∀ j < i, ∀ ds, dss[j]? = some ds → ds.x1 ≤ x ∧ x ≤ ds.x2 →
      Fits ds x (clipsAfter view x (dss.take j) (-1, 168))) :
    clipsAfter view x (dss.take i) (-1, 168) = foldClips x (dss.take i) (-1, 168) := by
  induction i with
  | zero => rfl
  | succ i ih =>
    have same := ih fun j less => fits j (by omega)
    cases found : dss[i]? with
    | none =>
      have short : ∀ j, i ≤ j → dss.take j = dss := fun j le =>
        List.take_of_length_le ((List.getElem?_eq_none_iff.1 found).trans le)
      rw [short i le_rfl] at same
      rwa [short (i + 1) (Nat.le_succ i)]
    | some ds =>
      rw [clipsAfter_succ x dss _ found, foldClips_succ x dss _ found, ← same]
      split_ifs with inside
      · have short := @clipsAfter_short view x (dss.take i) (-1, 168)
          (by rw [Short]; omega) (by rw [Short]; omega)
        have rows := foldClips_view x (dss.take i) (-1, 168) le_rfl le_rfl
        rw [← same] at rows
        have agrees := (@agrees_iff view ds x _ inside.1 1 ⟨rows.1, short.1.2⟩
          ⟨short.2.1, rows.2⟩).2 (fits i (by omega) ds found inside)
        exact agrees.after.symm
      · rfl

/-! ## Inside the view -/

theorem mem_rowsFrom {x n : Nat} {dss : List Drawseg} {clips : Int × Int} {t : Cw}
    (there : t ∈ rowsFrom view x n dss clips) (hc : -1 ≤ clips.1) (hf : clips.2 ≤ 168) :
    ∃ clips' n' ds, t = out view x clips' (n', ds) ∧ -1 ≤ clips'.1 ∧ clips'.2 ≤ 168 := by
  induction dss generalizing n clips with
  | nil => exact absurd there List.not_mem_nil
  | cons ds dss ih =>
    rw [rowsFrom] at there
    split_ifs at there
    · rcases List.mem_cons.1 there with rfl | later
      · exact ⟨clips, n, ds, rfl, hc, hf⟩
      · exact ih later (le_newCeil hc) (newFloor_le hf)
    · exact ih there hc hf

theorem mem_cw {dss : List Drawseg} {t : Cw} (there : t ∈ cw view dss) :
    ∃ x clips n ds, t = out view x clips (n, ds) ∧ -1 ≤ clips.1 ∧ clips.2 ≤ 168 := by
  obtain ⟨rows, inside, here⟩ := List.mem_flatten.1 there
  obtain ⟨x, -, rfl⟩ := List.mem_map.1 inside
  rw [columnFold_rows] at here
  exact ⟨x, mem_rowsFrom here (by decide) (by decide)⟩

/-- No mark leaves the view. -/
theorem mark_view {dss : List Drawseg} {m : Mark}
    (there : m ∈ mkCeil (cw view dss) ++ mkFloor (cw view dss)) : 0 ≤ m.top ∧ m.bottom < 168 := by
  rcases List.mem_append.1 there with there | there
  · obtain ⟨t, marked, rfl⟩ := List.mem_map.1 (List.mem_of_mem_filter there)
    obtain ⟨x, clips, n, ds, rfl, hc, hf⟩ := mem_cw (List.mem_of_mem_filter marked)
    simp only [Cw.ceilMark, out]
    omega
  · obtain ⟨t, marked, rfl⟩ := List.mem_map.1 (List.mem_of_mem_filter there)
    obtain ⟨x, clips, n, ds, rfl, hc, hf⟩ := mem_cw (List.mem_of_mem_filter marked)
    simp only [Cw.floorMark, out]
    omega

theorem mem_columnRun {t : Cw} {lo hi : Int} {tex mid : Int32} {r : Run}
    (there : r ∈ t.columnRun lo hi tex mid) : r.yl = lo ∧ r.yh = hi := by
  rw [Cw.columnRun] at there
  split_ifs at there
  · cases List.mem_singleton.1 there
    exact ⟨rfl, rfl⟩
  · exact absurd there List.not_mem_nil

/-- No run leaves the view. -/
theorem run_view {dss : List Drawseg} {r : Nat × Run} (there : r ∈ wallRuns (cw view dss)) :
    0 ≤ r.2.yl ∧ r.2.yh < 168 := by
  obtain ⟨runs, inside, here⟩ := List.mem_flatten.1 there
  obtain ⟨t, row, rfl⟩ := List.mem_map.1 inside
  obtain ⟨run, some, rfl⟩ := List.mem_map.1 here
  obtain ⟨x, clips, n, ds, rfl, hc, hf⟩ := mem_cw row
  have upper : 0 ≤ yl x clips ds := by
    rw [yl]
    omega
  have lower : yh x clips ds < 168 := by
    rw [yh]
    omega
  have start : 0 ≤ botloClamped x clips ds := by
    rw [botloClamped, botlo]
    omega
  rcases List.mem_append.1 some with some | some
  · rcases List.mem_append.1 some with some | some
    · obtain ⟨first, last⟩ := mem_columnRun some
      exact ⟨first ▸ upper, last ▸ lower⟩
    · obtain ⟨first, last⟩ := mem_columnRun some
      refine ⟨first ▸ upper, ?_⟩
      rw [last]
      exact (min_le_right _ _).trans_lt lower
  · obtain ⟨first, last⟩ := mem_columnRun some
    exact ⟨first ▸ start, last ▸ lower⟩

theorem renderSegs_cleared (dss : List Drawseg) (i : Nat) {ds : Drawseg}
    (found : dss[i]? = some ds) : (renderSegs view dss cleared)[i]? = some ((columnsOf ds).map
      fun x => columnAt view ds x (clipsAfter view x (dss.take i) (-1, 168))) := by
  rw [Engine.SegLoop.renderSegs_getElem?, found]
  rfl

theorem mem_columnsOf {ds : Drawseg} {x : Nat} : x ∈ columnsOf ds ↔ ds.x1 ≤ x ∧ x ≤ ds.x2 := by
  rw [columnsOf, List.mem_range'_1]
  omega

/-- A wall's rows are its columns one by one. -/
theorem forall₂_iff {dss : List Drawseg} {i : Nat} {ds : Drawseg} (found : dss[i]? = some ds) :
    List.Forall₂ Agrees
      ((columnsOf ds).map fun x => columnAt view ds x (clipsAfter view x (dss.take i) (-1, 168)))
      ((cw view dss).filter fun t => t.ds = i + 1) ↔
    ∀ x ∈ columnsOf ds, Agrees (columnAt view ds x (clipsAfter view x (dss.take i) (-1, 168)))
      (out view x (foldClips x (dss.take i) (-1, 168)) (i + 1, ds)) := by
  rw [cw_filter view dss i found, List.forall₂_map_left_iff, List.forall₂_map_right_iff]
  exact List.forall₂_same

/-- The fold is the loop, in the view throughout, exactly while every column's values fit. -/
theorem cw_renderSegs_iff (dss : List Drawseg) :
    ((∀ i columns, (renderSegs view dss cleared)[i]? = some columns →
        List.Forall₂ Agrees columns ((cw view dss).filter fun t => t.ds = i + 1)) ∧
      (∀ m ∈ mkCeil (cw view dss) ++ mkFloor (cw view dss), 0 ≤ m.top ∧ m.bottom < 168) ∧
      ∀ r ∈ wallRuns (cw view dss), 0 ≤ r.2.yl ∧ r.2.yh < 168) ↔
    ∀ (i : Nat) (ds : Drawseg) (columns : List Column), dss[i]? = some ds →
      (renderSegs view dss cleared)[i]? = some columns → ∀ c ∈ columns, Fits ds c.x c.before := by
  have bounds : ∀ x (l : List Drawseg), Short (clipsAfter view x l (-1, 168)).1 ∧
      Short (clipsAfter view x l (-1, 168)).2 := fun x l =>
    clipsAfter_short x l _ (by rw [Short]; omega) (by rw [Short]; omega)
  constructor
  · rintro ⟨same, -, -⟩ i ds columns found walled c there
    rw [renderSegs_cleared dss i found, Option.some.injEq] at walled
    subst walled
    obtain ⟨x, inside, rfl⟩ := List.mem_map.1 there
    have agrees := (forall₂_iff found).1 (same i _ (renderSegs_cleared dss i found)) x inside
    have equal : foldClips x (dss.take i) (-1, 168) = clipsAfter view x (dss.take i) (-1, 168) :=
      agrees.before.trans (columnAt_before _ _ _ _)
    have rows := foldClips_view x (dss.take i) (-1, 168) le_rfl le_rfl
    rw [equal] at agrees rows
    rw [columnAt_x, columnAt_before]
    obtain ⟨ceiling, floor⟩ := bounds x (dss.take i)
    exact (agrees_iff (mem_columnsOf.1 inside).1 (i + 1) ⟨rows.1, ceiling.2⟩
      ⟨floor.1, rows.2⟩).1 agrees
  · intro fits
    refine ⟨fun i columns walled => ?_, fun m => mark_view, fun r => run_view⟩
    have fitsAt : ∀ j ds x, dss[j]? = some ds → ds.x1 ≤ x ∧ x ≤ ds.x2 →
        Fits ds x (clipsAfter view x (dss.take j) (-1, 168)) := by
      intro j ds x found inside
      have fit := fits j ds _ found (renderSegs_cleared dss j found) _
        (List.mem_map_of_mem (mem_columnsOf.2 inside))
      rwa [columnAt_x, columnAt_before] at fit
    cases found : dss[i]? with
    | none =>
      rw [Engine.SegLoop.renderSegs_getElem?, found] at walled
      cases walled
    | some ds =>
      rw [renderSegs_cleared dss i found, Option.some.injEq] at walled
      subst walled
      refine (forall₂_iff found).2 fun x inside => ?_
      have covered := mem_columnsOf.1 inside
      have equal := @clipsAfter_eq view x i dss
        fun j _ ds' found' => fitsAt j ds' x found'
      have rows := foldClips_view x (dss.take i) (-1, 168) le_rfl le_rfl
      rw [← equal] at rows ⊢
      obtain ⟨ceiling, floor⟩ := bounds x (dss.take i)
      exact (agrees_iff covered.1 (i + 1) ⟨rows.1, ceiling.2⟩ ⟨floor.1, rows.2⟩).2
        (fitsAt i ds x found covered)

theorem hanging_lt : 0 < 320 := by decide

/-- A wall whose back ceiling hangs below a floor it does not mark. -/
def hanging : Drawseg where
  x1 := 0
  x2 := 0
  topfrac := 10 * 4096
  topstep := 0
  bottomfrac := 50 * 4096
  bottomstep := 0
  pixhigh := 60 * 4096
  pixhighstep := 0
  pixlow := 0
  pixlowstep := 0
  midtexture := 0
  toptexture := 1
  bottomtexture := 0
  maskedtexture := false
  markceiling := true
  markfloor := false
  midtexturemid := 0
  toptexturemid := 0
  bottomtexturemid := 0
  scale1 := 65536
  scalestep := 0
  offset := 0
  distance := 65536
  centerangle := 0
  walllights := 0
  x2_lt := hanging_lt
  single := by decide

/-- The loop draws its top texture to row 60; the fold stops at row 50. -/
theorem cw_hanging : ¬ ∀ columns, (renderSegs ⟨fun _ => 0, fun _ => 0⟩ [hanging] cleared)[0]? =
    some columns → List.Forall₂ Agrees columns
      ((cw ⟨fun _ => 0, fun _ => 0⟩ [hanging]).filter fun t => t.ds = 0 + 1) := by
  intro same
  have walled := same _ (renderSegs_cleared [hanging] 0 rfl)
  have agrees := (forall₂_iff rfl).1 walled 0 (by decide)
  have fits := (agrees_iff (Nat.zero_le 0) 1 (by decide) (by decide)).1 agrees
  have above := (fits rfl).2.2 ⟨by decide, rfl⟩
  revert above
  decide

end

end ClickDoom.Native.SegLoop

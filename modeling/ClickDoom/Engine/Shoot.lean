import ClickDoom.Engine.Traverse

/-! # The engine's shots

`PTR_AimTraverse`, `PTR_ShootTraverse`, `P_AimLineAttack` and `P_LineAttack` of `p_map.c` and
`P_BulletSlope` of `p_pspr.c`, over the intercepts `P_TraverseIntercepts` hands them.  What a
shot special line starts is left out, all but the special it leaves the line.
-/
namespace ClickDoom.Engine

/-- What a shot reads of a line.  A line flagged two-sided has a back sector. -/
structure Wall where
  front : Nat
  back : Option Nat
  twoSided : Bool
  sided : twoSided = true → back.isSome = true
  deriving DecidableEq, Repr

/-- What a shot reads of a sector. -/
structure Room where
  floorheight : Int32
  ceilingheight : Int32
  ceilingpic : Int
  deriving DecidableEq, Repr

/-- What a shot reads of a thing. -/
structure Body where
  z : Int32
  height : Int32
  shootable : Bool
  deriving DecidableEq, Repr

structure Scene where
  walls : List Wall
  rooms : List Room
  bodies : List Body
  skyflatnum : Int
  deriving DecidableEq, Repr

def Scene.wall (scene : Scene) (number : Nat) : Wall :=
  scene.walls.getD number ⟨0, some 0, false, by simp⟩

def Scene.room (scene : Scene) (number : Nat) : Room := scene.rooms.getD number ⟨0, 0, 0⟩

def Scene.body (scene : Scene) (slot : Nat) : Body := scene.bodies.getD slot ⟨0, 0, false⟩

/-- The sectors on the two sides of a line. -/
def Scene.front (scene : Scene) (wall : Wall) : Room := scene.room wall.front

def Scene.back (scene : Scene) (wall : Wall) : Room := scene.room (wall.back.getD 0)

/-- `opentop` and `openbottom` after `P_LineOpening`. -/
def opentop (front back : Room) : Int32 :=
  if front.ceilingheight < back.ceilingheight then front.ceilingheight else back.ceilingheight

def openbottom (front back : Room) : Int32 :=
  if front.floorheight > back.floorheight then front.floorheight else back.floorheight

/-- The globals of one attack. -/
structure Attack where
  shootthing : Nat
  shootz : Int32
  attackrange : Int32
  trace : Divline
  deriving DecidableEq, Repr

/-- The traverser of `P_TraverseIntercepts` down the intercepts it takes in order, until it
answers false. -/
def handOn {σ : Type} (trav : σ → Intercept → Except Trap (σ × Bool)) :
    σ → List Intercept → Except Trap σ
  | state, [] => .ok state
  | state, intercept :: rest => do
    let (state, go) ← trav state intercept
    if go then handOn trav state rest else .ok state

/-- What follows from the slope to a side that steps, and what stays where none does. -/
def onStep {α : Type} (steps : Bool) (slope : Except Trap Int32) (follows : Int32 → α)
    (stays : α) : Except Trap α :=
  if steps then slope.map follows else .ok stays

/-! ## Aiming -/

structure Aim where
  topslope : Int32
  bottomslope : Int32
  aimslope : Int32
  linetarget : Option Nat
  deriving DecidableEq, Repr

section
variable (scene : Scene) (attack : Attack)

/-- `PTR_AimTraverse`. -/
def aimTraverse (aim : Aim) (intercept : Intercept) : Except Trap (Aim × Bool) :=
  let dist := fixedMul attack.attackrange intercept.frac
  match intercept.entry with
  | .line number => do
    let wall := scene.wall number
    let front := scene.front wall
    let back := scene.back wall
    if !wall.twoSided then return (aim, false)
    else if openbottom front back ≥ opentop front back then return (aim, false)
    else
      let bottomslope ← onStep (front.floorheight ≠ back.floorheight)
        (fixedDiv (openbottom front back - attack.shootz) dist)
        (fun slope => if slope > aim.bottomslope then slope else aim.bottomslope) aim.bottomslope
      let topslope ← onStep (front.ceilingheight ≠ back.ceilingheight)
        (fixedDiv (opentop front back - attack.shootz) dist)
        (fun slope => if slope < aim.topslope then slope else aim.topslope) aim.topslope
      return ({ aim with topslope, bottomslope }, topslope > bottomslope)
  | .thing slot => do
    let th := scene.body slot
    if slot = attack.shootthing then return (aim, true)
    else if !th.shootable then return (aim, true)
    else
      let thingtopslope ← fixedDiv (th.z + th.height - attack.shootz) dist
      if thingtopslope < aim.bottomslope then return (aim, true)
      else
        let thingbottomslope ← fixedDiv (th.z - attack.shootz) dist
        if thingbottomslope > aim.topslope then return (aim, true)
        else
          let thingtopslope :=
            if thingtopslope > aim.topslope then aim.topslope else thingtopslope
          let thingbottomslope :=
            if thingbottomslope < aim.bottomslope then aim.bottomslope else thingbottomslope
          return ({ aim with
            aimslope := (thingtopslope + thingbottomslope) / 2, linetarget := some slot }, false)

/-- `P_AimLineAttack`, given the intercepts and the slope a trace before it left: the slope and
the target. -/
def aimLineAttack (held : Int32) (intercepts : List Intercept) :
    Except Trap (Int32 × Option Nat) := do
  let aim ← handOn (aimTraverse scene attack)
    ⟨100 * fracUnit / 160, -100 * fracUnit / 160, held, none⟩ intercepts
  return (if aim.linetarget.isSome then aim.aimslope else 0, aim.linetarget)

/-! ## Shooting -/

/-- What a shot ends on and where it leaves its puff or its blood. -/
structure Hit where
  entry : Entry
  x : Int32
  y : Int32
  z : Int32
  deriving DecidableEq, Repr

/-- The lines' specials, the special lines shot so far, and the hit. -/
structure Shot where
  specials : List Int
  shot : List Nat
  hit : Option Hit
  deriving DecidableEq, Repr

/-- A point a little short of what stops a shot. -/
def puffAt (aimslope frac : Int32) (entry : Entry) : Hit :=
  ⟨entry, attack.trace.x + fixedMul attack.trace.dx frac,
    attack.trace.y + fixedMul attack.trace.dy frac,
    attack.shootz + fixedMul aimslope (fixedMul frac attack.attackrange)⟩

/-- `P_ShootSpecialLine` for a line with a special; `after` is the special it leaves. -/
def shootSpecialLine (after : Int → Int) (state : Shot) (number : Nat) : Shot :=
  if state.specials.getD number 0 ≠ 0 then
    { state with
      specials := state.specials.set number (after (state.specials.getD number 0))
      shot := state.shot ++ [number] }
  else state

/-- The jump to `hitline`. -/
def hitline (aimslope : Int32) (state : Shot) (frac : Int32) (number : Nat) :
    Except Trap (Shot × Bool) := do
  let wall := scene.wall number
  let hit := puffAt attack aimslope (frac - (← fixedDiv (4 * fracUnit) attack.attackrange))
    (.line number)
  if (scene.front wall).ceilingpic = scene.skyflatnum then
    if hit.z > (scene.front wall).ceilingheight then return (state, false)
    else if wall.back.isSome ∧ (scene.back wall).ceilingpic = scene.skyflatnum then
      return (state, false)
    else return ({ state with hit := some hit }, false)
  else return ({ state with hit := some hit }, false)

/-- `PTR_ShootTraverse`. -/
def shootTraverse (after : Int → Int) (aimslope : Int32) (state : Shot) (intercept : Intercept) :
    Except Trap (Shot × Bool) :=
  let dist := fixedMul attack.attackrange intercept.frac
  match intercept.entry with
  | .line number => do
    let wall := scene.wall number
    let front := scene.front wall
    let back := scene.back wall
    let state := shootSpecialLine after state number
    if !wall.twoSided then hitline scene attack aimslope state intercept.frac number
    else
      let below ← onStep (front.floorheight ≠ back.floorheight)
        (fixedDiv (openbottom front back - attack.shootz) dist)
        (fun slope => decide (slope > aimslope)) false
      if below then hitline scene attack aimslope state intercept.frac number
      else
        let above ← onStep (front.ceilingheight ≠ back.ceilingheight)
          (fixedDiv (opentop front back - attack.shootz) dist)
          (fun slope => decide (slope < aimslope)) false
        if above then hitline scene attack aimslope state intercept.frac number
        else return (state, true)
  | .thing slot => do
    let th := scene.body slot
    if slot = attack.shootthing then return (state, true)
    else if !th.shootable then return (state, true)
    else
      let thingtopslope ← fixedDiv (th.z + th.height - attack.shootz) dist
      if thingtopslope < aimslope then return (state, true)
      else
        let thingbottomslope ← fixedDiv (th.z - attack.shootz) dist
        if thingbottomslope > aimslope then return (state, true)
        else
          let frac := intercept.frac - (← fixedDiv (10 * fracUnit) attack.attackrange)
          return ({ state with hit := some (puffAt attack aimslope frac (.thing slot)) }, false)

/-- `P_LineAttack`, given the intercepts: the special lines it shot and its hit. -/
def lineAttack (after : Int → Int) (specials : List Int) (slope : Int32)
    (intercepts : List Intercept) : Except Trap (List Nat × Option Hit) := do
  let state ← handOn (shootTraverse scene attack after slope) ⟨specials, [], none⟩
    intercepts
  return (state.shot, state.hit)

end

/-! ## The trace and the three tries -/

/-- What an attack reads of the thing that makes it. -/
structure Shooter where
  slot : Nat
  x : Int32
  y : Int32
  z : Int32
  height : Int32
  angle : UInt32
  deriving DecidableEq, Repr

/-- `P_AimLineAttack` and `P_LineAttack` before they traverse; `finecosine` is `finesine` from
its entry 2048 on. -/
def attackOf (trig : Trig) (map : Blockmap) (shooter : Shooter) (angle : UInt32)
    (distance : Int32) : Attack :=
  let fine := (angle >>> 19).toNat
  let x2 := shooter.x + (distance >>> 16) * trig.finesine.getD (fine + 2048) 0
  let y2 := shooter.y + (distance >>> 16) * trig.finesine.getD fine 0
  let x1 := nudged shooter.x map.orgx
  let y1 := nudged shooter.y map.orgy
  { shootthing := shooter.slot
    shootz := shooter.z + (shooter.height >>> 1) + 8 * fracUnit
    attackrange := distance
    trace := ⟨x1, y1, x2 - x1, y2 - y1⟩ }

/-- `P_BulletSlope`, given the intercepts of a trace by its angle. -/
def bulletSlope (trig : Trig) (map : Blockmap) (scene : Scene) (shooter : Shooter) (held : Int32)
    (intercepts : UInt32 → List Intercept) : Except Trap (Int32 × Option Nat) := do
  let range := 16 * 64 * fracUnit
  let aim (angle : UInt32) (held : Int32) :=
    aimLineAttack scene (attackOf trig map shooter angle range) held (intercepts angle)
  let an := shooter.angle
  let ahead ← aim an held
  if ahead.2.isSome then return ahead
  else
    let an := an + 0x4000000
    let left ← aim an held
    if left.2.isSome then return left
    else
      let an := an - 0x8000000
      aim an held

end ClickDoom.Engine

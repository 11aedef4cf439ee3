import ClickDoom.Native.Press

/-! # A pressed switch comes back

`buttons` of `native/src/sql/sim/spec.rs`, the part of `P_UpdateSpecials` that runs the
button timers, and the tics in which presses and timers take turns.  A press writes the
line counted from one and the timers read it as the count before the line, so a picture
goes back to the side of the next line.
-/
namespace ClickDoom.Native.Buttons
open Press (Level Button Walls pressSwitch startButton alreadyPressed)
open Engine (Where)

/-- The timer reaches zero this tic. -/
def fires (button : Button) : Bool := button.timer != 0 && button.timer - 1 == 0

/-- The side an expiring button writes: `line_side0[1 + btn_line]`. -/
def sideOf (level : Level) (button : Button) : Nat := level.lineSide0.getD button.line.toNat 0

/-- The picture put back. -/
def restore (level : Level) (walls : Walls) (button : Button) : Walls :=
  walls.put button.place (sideOf level button) button.texture

/-- A slot after the tic: one that fired carries nothing. -/
def ticked (button : Button) : Button :=
  if fires button then ⟨0, 0, 0, 0⟩
  else { button with timer := if button.timer != 0 then button.timer - 1 else 0 }

/-- `buttons`. -/
def updateSpecials (level : Level) (walls : Walls) : Walls :=
  { (walls.buttons.filter fires).foldl (restore level) walls with
    buttons := walls.buttons.map ticked }

/-- A tic, with the line of a press that moved a plat if there was one. -/
def tic (level : Level) (press : Option Nat) (walls : Walls) : Walls :=
  updateSpecials level
    (match press with
    | none => walls
    | some line => pressSwitch level line walls)

/-- The walls of a level after any number of tics from its setup, where no button runs. -/
inductive Reachable (level : Level) : Walls → Prop
  | start {walls : Walls} : (∀ button ∈ walls.buttons, button.timer = 0) → Reachable level walls
  | tic {walls : Walls} (press : Option Nat) :
      Reachable level walls → Reachable level (tic level press walls)

/-! ## The timers -/

/-- The timers run from 0 to `most`, and no two that run are equal: one press starts at
most one button, and every tic takes one off each. -/
structure Spread (most : Int) (buttons : List Button) : Prop where
  bounds : ∀ button ∈ buttons, 0 ≤ button.timer ∧ button.timer ≤ most
  apart : ∀ (i j : Nat) (a b : Button), buttons[i]? = some a → buttons[j]? = some b →
    a.timer = b.timer → a.timer ≠ 0 → i = j

theorem startButton_spec (buttons : List Button) (button : Button) :
    ∃ slot : Nat, (∀ held, buttons[slot]? = some held → held.timer = 0) ∧
      ∀ j : Nat, (startButton buttons button)[j]? =
        if j = slot then some button else buttons[j]? := by
  rw [startButton]
  cases free : buttons.findIdx? (fun button => button.timer == 0) with
  | some slot =>
    obtain ⟨inside, zero, -⟩ := List.findIdx?_eq_some_iff_getElem.1 free
    refine ⟨slot, ?_, ?_⟩
    · intro held eq
      rw [List.getElem?_eq_getElem inside, Option.some.injEq] at eq
      rw [← eq]
      simpa using zero
    · intro j
      rw [List.getElem?_set]
      by_cases here : slot = j
      · subst here
        simp [inside]
      · simp [here, Ne.symm here]
  | none =>
    refine ⟨buttons.length, by simp, ?_⟩
    intro j
    rw [List.getElem?_append]
    by_cases here : j = buttons.length
    · simp [here]
    · by_cases inside : j < buttons.length
      · simp [here, inside]
      · rw [if_neg inside, if_neg here, List.getElem?_eq_none (by simp; omega),
          List.getElem?_eq_none (by omega)]

theorem Spread.startButton {buttons : List Button} (spread : Spread 34 buttons) {button : Button}
    (timer : button.timer = 35) : Spread 35 (startButton buttons button) := by
  obtain ⟨slot, -, spec⟩ := startButton_spec buttons button
  have old : ∀ {j held}, (Press.startButton buttons button)[j]? = some held → j ≠ slot →
      held.timer ≤ 34 := by
    intro j held eq ne
    rw [spec, if_neg ne] at eq
    exact (spread.bounds held (List.mem_of_getElem? eq)).2
  refine ⟨?_, ?_⟩
  · intro held member
    obtain ⟨j, eq⟩ := List.mem_iff_getElem?.1 member
    rw [spec] at eq
    split at eq
    · cases eq
      omega
    · have := spread.bounds held (List.mem_of_getElem? eq)
      omega
  · intro i j a b eqA eqB same running
    by_cases hi : i = slot <;> by_cases hj : j = slot
    · omega
    · have := old eqB hj
      rw [spec, if_pos hi] at eqA
      cases eqA
      omega
    · have := old eqA hi
      rw [spec, if_pos hj] at eqB
      cases eqB
      omega
    · rw [spec, if_neg hi] at eqA
      rw [spec, if_neg hj] at eqB
      exact spread.apart i j a b eqA eqB same running

theorem ticked_timer (button : Button) :
    (ticked button).timer = if button.timer = 0 then 0 else button.timer - 1 := by
  rw [ticked]
  by_cases idle : button.timer = 0
  · simp [fires, idle]
  · by_cases last : button.timer - 1 = 0
    · simp [fires, idle, last]
    · simp [fires, idle, last]

theorem Spread.ticked {buttons : List Button} {most : Int} (spread : Spread (most + 1) buttons)
    (nonneg : 0 ≤ most) : Spread most (buttons.map ticked) := by
  refine ⟨?_, ?_⟩
  · intro button member
    obtain ⟨held, there, rfl⟩ := List.mem_map.1 member
    have := spread.bounds held there
    rw [ticked_timer]
    split <;> omega
  · intro i j a b eqA eqB same running
    rw [List.getElem?_map, Option.map_eq_some_iff] at eqA eqB
    obtain ⟨a, eqA, rfl⟩ := eqA
    obtain ⟨b, eqB, rfl⟩ := eqB
    have boundsA := spread.bounds a (List.mem_of_getElem? eqA)
    have boundsB := spread.bounds b (List.mem_of_getElem? eqB)
    rw [ticked_timer] at same running
    rw [ticked_timer] at same
    refine spread.apart i j a b eqA eqB ?_ ?_
    · split at same <;> split at same <;> omega
    · split at running <;> omega

theorem pressSwitch_buttons (level : Level) (line : Nat) (walls : Walls) :
    (pressSwitch level line walls).buttons = walls.buttons ∨
      ∃ button : Button, button.timer = 35 ∧
        (pressSwitch level line walls).buttons = startButton walls.buttons button := by
  rw [pressSwitch]
  cases Switches.switched level.switches (walls.pictures (level.lineSide0.getD line 0)) with
  | none => exact .inl rfl
  | some switched =>
    dsimp only
    split
    · exact .inl rfl
    · exact .inr ⟨_, rfl, rfl⟩

theorem Spread.mono {buttons : List Button} {most most' : Int} (spread : Spread most buttons)
    (le : most ≤ most') : Spread most' buttons :=
  ⟨fun button member => ⟨(spread.bounds button member).1, (spread.bounds button member).2.trans le⟩,
    spread.apart⟩

/-- The walls a tic's timers find, and what they leave. -/
theorem Spread.pressed {walls : Walls} (spread : Spread 34 walls.buttons) (level : Level)
    (line : Nat) : Spread 35 (pressSwitch level line walls).buttons := by
  obtain same | ⟨button, timer, started⟩ := pressSwitch_buttons level line walls
  · rw [same]
    exact spread.mono (by decide)
  · rw [started]
    exact spread.startButton timer

theorem Spread.tic {walls : Walls} (spread : Spread 34 walls.buttons) (level : Level)
    (press : Option Nat) : Spread 34 (tic level press walls).buttons := by
  cases press with
  | none => exact (spread.mono (by decide) : Spread (34 + 1) walls.buttons).ticked (by decide)
  | some line => exact (spread.pressed level line).ticked (by decide)

theorem Reachable.spread {level : Level} {walls : Walls} (reachable : Reachable level walls) :
    Spread 34 walls.buttons := by
  induction reachable with
  | start idle =>
    refine ⟨fun button member => by have := idle button member; omega, ?_⟩
    intro i j a b eqA _ _ running
    exact absurd (idle a (List.mem_of_getElem? eqA)) running
  | tic press _ ih => exact ih.tic level press

/-! ## The slot of a running button -/

theorem pressSwitch_keeps {level : Level} {line slot : Nat} {walls : Walls} {button : Button}
    (held : walls.buttons[slot]? = some button) (running : button.timer ≠ 0) :
    (pressSwitch level line walls).buttons[slot]? = some button := by
  obtain same | ⟨new, timer, started⟩ := pressSwitch_buttons level line walls
  · rw [same]
    exact held
  · obtain ⟨free, idle, spec⟩ := startButton_spec walls.buttons new
    have ne : slot ≠ free := fun eq => running (idle button (eq ▸ held))
    rw [started, spec, if_neg ne]
    exact held

theorem updateSpecials_slot {level : Level} {slot : Nat} {walls : Walls} {button : Button}
    (held : walls.buttons[slot]? = some button) :
    (updateSpecials level walls).buttons[slot]? = some (ticked button) := by
  show (walls.buttons.map ticked)[slot]? = _
  rw [List.getElem?_map, held]
  rfl

/-- A tic takes one off a timer that has more to go. -/
theorem tic_slot {level : Level} {press : Option Nat} {slot : Nat} {walls : Walls}
    {button : Button} (held : walls.buttons[slot]? = some button) (more : 1 < button.timer) :
    (tic level press walls).buttons[slot]? = some { button with timer := button.timer - 1 } := by
  have later : ticked button = { button with timer := button.timer - 1 } := by
    have : button.timer ≠ 0 := by omega
    have : ¬button.timer - 1 = 0 := by omega
    simp [ticked, fires, *]
  cases press with
  | none => rw [tic, updateSpecials_slot held, later]
  | some line =>
    rw [tic, updateSpecials_slot (pressSwitch_keeps held (by omega)), later]

/-- The run of tics after the one that started a button. -/
def after (level : Level) (walls : Walls) (presses : List (Option Nat)) : Walls :=
  presses.foldl (fun walls press => tic level press walls) walls

theorem after_append (level : Level) (walls : Walls) (presses : List (Option Nat))
    (press : Option Nat) :
    after level walls (presses ++ [press]) = tic level press (after level walls presses) := by
  rw [after, List.foldl_append]
  rfl

theorem after_slot {level : Level} {slot : Nat} {walls : Walls} {button : Button}
    (held : walls.buttons[slot]? = some button) {presses : List (Option Nat)}
    (more : (presses.length : Int) < button.timer) :
    (after level walls presses).buttons[slot]? =
      some { button with timer := button.timer - presses.length } := by
  induction presses using List.reverseRecOn with
  | nil => simpa [after] using held
  | append_singleton presses press ih =>
    simp only [List.length_append, List.length_singleton, Nat.cast_add, Nat.cast_one] at more ⊢
    rw [after_append, tic_slot (ih (by omega)) (by simp only; omega)]
    simp only [sub_sub]

theorem after_spread (level : Level) {walls : Walls} (spread : Spread 34 walls.buttons)
    (presses : List (Option Nat)) : Spread 34 (after level walls presses).buttons := by
  induction presses using List.reverseRecOn with
  | nil => exact spread
  | append_singleton presses press ih =>
    rw [after_append]
    exact ih.tic level press

/-- Where one button fires, no other does. -/
theorem filter_fires {most : Int} {buttons : List Button} (spread : Spread most buttons)
    {slot : Nat} {button : Button} (held : buttons[slot]? = some button)
    (last : button.timer = 1) : buttons.filter fires = [button] := by
  have one : ∀ {other : Button}, fires other = true → other.timer = 1 := by
    intro other fire
    simp only [fires, Bool.and_eq_true, bne_iff_ne, ne_eq, beq_iff_eq] at fire
    omega
  have others : ∀ (j : Nat) (other : Button), buttons[j]? = some other → fires other = true →
      j = slot := by
    intro j other eq fire
    have timer := one fire
    exact spread.apart j slot other button eq held (by omega) (by omega)
  obtain ⟨inside, eq⟩ := List.getElem?_eq_some_iff.1 held
  have cut : buttons = buttons.take slot ++ button :: buttons.drop (slot + 1) := by
    rw [← eq, List.cons_getElem_drop_succ, List.take_append_drop]
  have front : (buttons.take slot).filter fires = [] := by
    rw [List.filter_eq_nil_iff]
    intro other member fire
    obtain ⟨j, there⟩ := List.mem_iff_getElem?.1 member
    rw [List.getElem?_take] at there
    split at there
    · have := others j other there fire
      omega
    · cases there
  have back : (buttons.drop (slot + 1)).filter fires = [] := by
    rw [List.filter_eq_nil_iff]
    intro other member fire
    obtain ⟨j, there⟩ := List.mem_iff_getElem?.1 member
    rw [List.getElem?_drop] at there
    have := others (slot + 1 + j) other there fire
    omega
  have fire : fires button = true := by simp [fires, last]
  rw [cut, List.filter_append, List.filter_cons, front, back, if_pos fire]
  rfl

/-! ## The pictures -/

/-- The pictures at a place, by side. -/
def column (walls : Walls) : Where → List Int16
  | .top => walls.top
  | .middle => walls.middle
  | .bottom => walls.bottom

/-- The picture at a place of a side. -/
def picture (walls : Walls) (place : Where) (side : Nat) : Int16 := (column walls place).getD side 0

theorem column_put (walls : Walls) (place place' : Where) (side : Nat) (new : Int) :
    column (walls.put (Press.number place) side new) place' =
      if place' = place then (column walls place).set side (Int16.ofInt new)
      else column walls place' := by
  cases place <;> cases place' <;> rfl

theorem length_column_put (walls : Walls) (number : Int) (place : Where) (side : Nat) (new : Int) :
    (column (walls.put number side new) place).length = (column walls place).length := by
  cases place <;>
  · simp only [column, Walls.put, Press.put]
    split <;> simp

theorem length_column_foldl (level : Level) (buttons : List Button) (walls : Walls)
    (place : Where) :
    (column (buttons.foldl (restore level) walls) place).length =
      (column walls place).length := by
  induction buttons generalizing walls with
  | nil => rfl
  | cons button rest ih => rw [List.foldl_cons, ih, restore, length_column_put]

theorem length_column_update (level : Level) (walls : Walls) (place : Where) :
    (column (updateSpecials level walls) place).length = (column walls place).length := by
  have sides : column (updateSpecials level walls) place =
      column ((walls.buttons.filter fires).foldl (restore level) walls) place := by
    cases place <;> rfl
  rw [sides, length_column_foldl]

theorem length_column_press (level : Level) (line : Nat) (walls : Walls) (place : Where) :
    (column (pressSwitch level line walls) place).length = (column walls place).length := by
  rw [pressSwitch]
  cases Switches.switched level.switches (walls.pictures (level.lineSide0.getD line 0)) with
  | none => rfl
  | some switched =>
    dsimp only
    split
    · exact length_column_put ..
    · refine Eq.trans ?_ (length_column_put walls (Press.number switched.place) place
        (level.lineSide0.getD line 0) switched.picture)
      cases place <;> rfl

theorem length_column_after (level : Level) (walls : Walls) (presses : List (Option Nat))
    (place : Where) :
    (column (after level walls presses) place).length = (column walls place).length := by
  induction presses using List.reverseRecOn with
  | nil => rfl
  | append_singleton presses press ih =>
    rw [after_append]
    cases press with
    | none => exact (length_column_update ..).trans ih
    | some line => exact (length_column_update ..).trans ((length_column_press ..).trans ih)

/-- The one write of an expiring button. -/
theorem picture_restore (level : Level) (walls : Walls) (button : Button) (place place' : Where)
    (side : Nat) (at_ : button.place = Press.number place)
    (other : place' ≠ place ∨ side ≠ sideOf level button) :
    picture (restore level walls button) place' side = picture walls place' side := by
  rw [picture, restore, at_, column_put]
  split
  · rename_i same
    subst same
    have ne : sideOf level button ≠ side := by
      rcases other with ne | ne
      · exact absurd rfl ne
      · exact Ne.symm ne
    rw [List.getD_eq_getElem?_getD, List.getElem?_set, if_neg ne, picture,
      List.getD_eq_getElem?_getD]
  · rfl

/-- A picture written where it had stood before. -/
theorem picture_restore_self (level : Level) (walls before : Walls) (button : Button)
    (place : Where) (at_ : button.place = Press.number place)
    (texture : button.texture = (picture before place (sideOf level button)).toInt)
    (same : (column walls place).length = (column before place).length) :
    picture (restore level walls button) place (sideOf level button) =
      picture before place (sideOf level button) := by
  rw [picture, restore, at_, column_put, if_pos rfl, texture, Int16.ofInt_toInt, picture]
  simp only [List.getD_eq_getElem?_getD, List.getElem?_set, if_true]
  by_cases inside : sideOf level button < (column walls place).length
  · simp [inside]
  · rw [if_neg inside, List.getElem?_eq_none (by omega)]

/-! ## The press and its thirty-five runs -/

/-- The press starts a button: the side has a switch picture and the line has no button
running. -/
structure Starts (level : Level) (line : Nat) (walls : Walls) (switched : Engine.Switched) :
    Prop where
  flips : Switches.switched level.switches (walls.pictures (level.lineSide0.getD line 0)) =
    some switched
  idle : alreadyPressed walls.buttons line = false

theorem Starts.buttons {level : Level} {line : Nat} {walls : Walls} {switched : Engine.Switched}
    (starts : Starts level line walls switched) :
    (pressSwitch level line walls).buttons = startButton walls.buttons
      ⟨(line : Int) + 1, Press.number switched.place, switched.before, 35⟩ := by
  rw [pressSwitch, starts.flips]
  dsimp only
  rw [if_neg (by simp [starts.idle])]

/-- What a switch changes is what the side had there. -/
theorem switched_before {switches : List (Int × Int)} {walls : Walls} {side : Nat}
    {switched : Engine.Switched}
    (eq : Switches.switched switches (walls.pictures side) = some switched) :
    switched.before = (picture walls switched.place side).toInt := by
  rw [Switches.switched] at eq
  split at eq
  · cases eq; rfl
  · split at eq
    · cases eq; rfl
    · split at eq
      · cases eq; rfl
      · cases eq

/-- The switch comes back after 35 runs: the picture is the old one again, the button's own
write was there and nowhere else, its slot is free, and until then pressing the line starts
no second button. -/
structure ComesBack (level : Level) (line : Nat) (walls : Walls) (switched : Engine.Switched)
    (presses : List (Option Nat)) : Prop where
  picture : picture (after level (updateSpecials level (pressSwitch level line walls)) presses)
      switched.place (level.lineSide0.getD line 0) =
    picture walls switched.place (level.lineSide0.getD line 0)
  slot : ∃ (slot : Nat) (button : Button),
    (pressSwitch level line walls).buttons[slot]? = some button ∧ button.timer = 35 ∧
    (∀ (others : Walls) (place : Where) (side : Nat),
      place ≠ switched.place ∨ side ≠ level.lineSide0.getD line 0 →
      Buttons.picture (restore level others button) place side =
        Buttons.picture others place side) ∧
    ∃ free : Button,
      (after level (updateSpecials level (pressSwitch level line walls)) presses).buttons[slot]? =
        some free ∧ free.timer = 0
  once : ∀ count < 34, ∀ running,
    running = after level (updateSpecials level (pressSwitch level line walls))
      (presses.take count) →
    (pressSwitch level line running).buttons = running.buttons

theorem pressSwitch_again {level : Level} {line slot : Nat} {walls : Walls} {button : Button}
    (held : walls.buttons[slot]? = some button) (own : button.line = (line : Int) + 1)
    (running : button.timer ≠ 0) : (pressSwitch level line walls).buttons = walls.buttons := by
  have pressed : alreadyPressed walls.buttons line = true := by
    rw [alreadyPressed, List.any_eq_true]
    exact ⟨button, List.mem_of_getElem? held, by simp [own, running]⟩
  rw [pressSwitch]
  cases Switches.switched level.switches (walls.pictures (level.lineSide0.getD line 0)) with
  | none => rfl
  | some switched =>
    dsimp only
    rw [if_pos pressed]
    rfl

/-- The last run of a button: its write is the only one. -/
theorem column_update_last {level : Level} {walls : Walls} (spread : Spread 35 walls.buttons)
    {slot : Nat} {button : Button} (held : walls.buttons[slot]? = some button)
    (last : button.timer = 1) (place : Where) :
    column (updateSpecials level walls) place = column (restore level walls button) place := by
  have one := filter_fires spread held last
  cases place <;> simp only [column, updateSpecials, one, List.foldl_cons, List.foldl_nil]

/-- Where the line after the pressed one has the same front side, the switch comes back,
whatever else is pressed meanwhile. -/
theorem comesBack_of_shared {level : Level} {line : Nat} {walls : Walls}
    (reachable : Reachable level walls) {switched : Engine.Switched}
    (starts : Starts level line walls switched)
    (shared : level.lineSide0.getD (line + 1) 0 = level.lineSide0.getD line 0)
    {presses : List (Option Nat)} (runs : presses.length = 34) :
    ComesBack level line walls switched presses := by
  obtain ⟨slot, -, spec⟩ := startButton_spec walls.buttons
    ⟨(line : Int) + 1, Press.number switched.place, switched.before, 35⟩
  generalize eq : Button.mk ((line : Int) + 1) (Press.number switched.place) switched.before 35 =
    button at spec
  have held : (pressSwitch level line walls).buttons[slot]? = some button := by
    rw [starts.buttons, eq, spec, if_pos rfl]
  have side : ∀ timer, sideOf level { button with timer := timer } =
      level.lineSide0.getD line 0 := by
    intro timer
    rw [← shared, ← eq]
    rfl
  have timer : button.timer = 35 := by rw [← eq]
  have first : (updateSpecials level (pressSwitch level line walls)).buttons[slot]? =
      some { button with timer := 34 } := by
    rw [updateSpecials_slot held, ← eq]
    rfl
  have spread : Spread 34 (updateSpecials level (pressSwitch level line walls)).buttons :=
    (reachable.spread.pressed level line).ticked (by decide)
  have columns := length_column_after level (updateSpecials level (pressSwitch level line walls))
  generalize same : updateSpecials level (pressSwitch level line walls) = started at *
  have start : ∀ place, (column started place).length = (column walls place).length := by
    intro place
    rw [← same, length_column_update, length_column_press]
  obtain ⟨init, last, rfl⟩ : ∃ init last, presses = init ++ [last] :=
    ⟨presses.dropLast, presses.getLast (by rintro rfl; cases runs),
      (List.dropLast_append_getLast _).symm⟩
  have count : init.length = 33 := by simpa using runs
  have almost : (after level started init).buttons[slot]? = some { button with timer := 1 } := by
    rw [after_slot first (by simp [count]), count]
    rfl
  have spread' := after_spread level spread init
  -- the walls the timers find on the last tic, after the press there may have been
  obtain ⟨found, eqTic, heldLast, spreadLast, lengths⟩ : ∃ found,
      tic level last (after level started init) = updateSpecials level found ∧
      found.buttons[slot]? = some { button with timer := 1 } ∧ Spread 35 found.buttons ∧
      ∀ place, (column found place).length = (column walls place).length := by
    cases last with
    | none =>
      exact ⟨_, rfl, almost, spread'.mono (by decide), fun place =>
        (columns init place).trans (start place)⟩
    | some other =>
      exact ⟨_, rfl, pressSwitch_keeps almost one_ne_zero, spread'.pressed level other,
        fun place => (length_column_press ..).trans ((columns init place).trans (start place))⟩
  refine ⟨?_, ⟨slot, button, held, timer, ?_, ?_⟩, ?_⟩
  · have own := side 1
    have texture : button.texture =
        (picture walls switched.place (sideOf level { button with timer := 1 })).toInt := by
      rw [own, ← switched_before starts.flips, ← eq]
    have back := picture_restore_self level found walls { button with timer := 1 } switched.place
      (by rw [← eq]) texture (lengths _)
    rw [own] at back
    rw [same, after_append, eqTic, picture, column_update_last spreadLast heldLast rfl]
    exact back
  · intro others place side' other
    have own := side button.timer
    refine picture_restore level others button switched.place place side' (by rw [← eq]) ?_
    rwa [own]
  · rw [same, after_append, eqTic, updateSpecials_slot heldLast]
    exact ⟨_, rfl, rfl⟩
  · rintro count less running rfl
    have taken : ((init ++ [last]).take count).length = count := by
      rw [List.length_take, runs]
      omega
    have more : (((init ++ [last]).take count).length : Int) < 34 := by
      rw [taken]
      exact_mod_cast less
    rw [same]
    refine pressSwitch_again (after_slot first more) (by rw [← eq]) ?_
    rw [taken]
    simp only
    omega

/-- The one button of 35 tics is the one the press started. -/
theorem Starts.eq_of_timer {level : Level} {line slot : Nat} {walls : Walls}
    {switched : Engine.Switched} (starts : Starts level line walls switched)
    (spread : Spread 34 walls.buttons) {button : Button}
    (held : (pressSwitch level line walls).buttons[slot]? = some button)
    (timer : button.timer = 35) :
    button = ⟨(line : Int) + 1, Press.number switched.place, switched.before, 35⟩ := by
  obtain ⟨free, -, spec⟩ := startButton_spec walls.buttons
    ⟨(line : Int) + 1, Press.number switched.place, switched.before, 35⟩
  rw [starts.buttons, spec] at held
  split at held
  · exact (Option.some.inj held).symm
  · have := (spread.bounds button (List.mem_of_getElem? held)).2
    omega

theorem ne_add_one (x : Int16) : x ≠ x + 1 := by
  intro eq
  have word : x.toBitVec = x.toBitVec + 1 := congrArg Int16.toBitVec eq
  bv_omega

/-- A button whose side is not the line's writes on another side: on walls long enough the
picture it puts there can be told from the one that was there. -/
theorem shared_of_comesBack {level : Level} {line : Nat} {walls : Walls}
    (reachable : Reachable level walls) {switched : Engine.Switched}
    (starts : Starts level line walls switched) {presses : List (Option Nat)}
    (back : ComesBack level line walls switched presses) :
    level.lineSide0.getD (line + 1) 0 = level.lineSide0.getD line 0 := by
  by_contra apart
  obtain ⟨slot, button, held, timer, only, -⟩ := back.slot
  have made := starts.eq_of_timer reachable.spread held timer
  have side : sideOf level button = level.lineSide0.getD (line + 1) 0 := by
    rw [made]
    rfl
  -- every picture is one off the button's
  let other : Int16 := Int16.ofInt button.texture + 1
  let blank := List.replicate (sideOf level button + 1) other
  have kept := only ⟨blank, blank, blank, []⟩ switched.place (sideOf level button)
    (.inr (side ▸ apart))
  have place : button.place = Press.number switched.place := by rw [made]
  have before : ∀ place, column ⟨blank, blank, blank, []⟩ place = blank := by
    intro place
    cases place <;> rfl
  rw [picture, picture, restore, place, column_put, if_pos rfl, before] at kept
  have inside : sideOf level button < blank.length := by simp [blank]
  simp only [List.getD_eq_getElem?_getD, List.getElem?_set_self inside, Option.getD_some] at kept
  rw [List.getElem?_eq_getElem inside, Option.getD_some, List.getElem_replicate] at kept
  exact ne_add_one _ kept

/-- A press that starts a button comes back after its 35 runs, whatever else is pressed meanwhile,
exactly where the line after the pressed one has the same front side. -/
theorem switch_comes_back {level : Level} {line : Nat} {walls : Walls}
    (reachable : Reachable level walls) {switched : Engine.Switched}
    (starts : Starts level line walls switched) {presses : List (Option Nat)}
    (runs : presses.length = 34) :
    ComesBack level line walls switched presses ↔
      level.lineSide0.getD (line + 1) 0 = level.lineSide0.getD line 0 :=
  ⟨shared_of_comesBack reachable starts, fun shared =>
    comesBack_of_shared reachable starts shared runs⟩

/-- A level of two lines with the given front sides and one switch. -/
def twoLines (side0 : List Nat) : Level where
  lineFront := [0, 0]
  lineBack := [-1, -1]
  lineSide0 := side0
  lineFlags := [0, 0]
  lineTag := [0, 0]
  secLines := [[0, 1]]
  secTag := [0]
  switches := [(88, 107)]

/-- The switch off on the first side, and sixteen free slots. -/
def switchOff : Walls where
  top := [88, 5]
  middle := [0, 0]
  bottom := [0, 0]
  buttons := List.replicate 16 ⟨-1, 0, 0, 0⟩

theorem switchOff_reachable (level : Level) : Reachable level switchOff :=
  .start fun button member => by rw [List.eq_of_mem_replicate member]

theorem switchOff_starts (side : Nat) : Starts (twoLines [0, side]) 0 switchOff ⟨.top, 107, 88⟩ :=
  ⟨rfl, rfl⟩

/-- The switch stays on and its old picture is painted on the next line's side. -/
theorem next_side_painted :
    Reachable (twoLines [0, 1]) switchOff ∧
    Starts (twoLines [0, 1]) 0 switchOff ⟨.top, 107, 88⟩ ∧
    (after (twoLines [0, 1]) (updateSpecials (twoLines [0, 1])
      (pressSwitch (twoLines [0, 1]) 0 switchOff)) (List.replicate 34 none)).top = [107, 88] ∧
    ¬ComesBack (twoLines [0, 1]) 0 switchOff ⟨.top, 107, 88⟩ (List.replicate 34 none) := by
  refine ⟨switchOff_reachable _, switchOff_starts 1, by decide +kernel, fun back => ?_⟩
  exact absurd back.picture (by decide +kernel)

/-- Two lines on one side. -/
theorem switch_comes_back_shared :
    Reachable (twoLines [0, 0]) switchOff ∧
    Starts (twoLines [0, 0]) 0 switchOff ⟨.top, 107, 88⟩ ∧
    ComesBack (twoLines [0, 0]) 0 switchOff ⟨.top, 107, 88⟩ (List.replicate 34 none) :=
  ⟨switchOff_reachable _, switchOff_starts 0,
    (switch_comes_back (switchOff_reachable _) (switchOff_starts 0) rfl).2 rfl⟩

end ClickDoom.Native.Buttons

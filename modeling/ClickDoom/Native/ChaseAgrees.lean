import ClickDoom.Native.Chase

/-! # A chase is the engine's

The engine tries one direction after the other; the pass looks the first one up that works.  Both
walk in the same direction and draw the same numbers, where no difference of two coordinates leaves
32 bits.
-/
namespace ClickDoom.Native.Chase
open Engine.Chase hiding eastWest northSouth
open SignedWords (Fits32 toInt_sub)

/-! ## One try -/

section
variable (s : Setting)

/-- A walk in a direction. -/
def landed (dir : Dir) (actor : Actor) : Actor :=
  { actor with
    x := actor.x + s.info.speed * xspeed dir
    y := actor.y + s.info.speed * yspeed dir
    z := (s.answers dir).floorz
    floorz := (s.answers dir).floorz
    ceilingz := (s.answers dir).ceilingz
    subsector := (s.answers dir).subsector
    movedir := dir
    flags := actor.flags &&& ~~~mfInfloat }

/-- A walk in a direction that was searched for. -/
def arrived (dir : Dir) (actor : Actor) : Actor :=
  { landed s dir actor with
    movecount := (Engine.random s.rndtable (s.prndindex + actor.drawn)).1 &&& 15
    drawn := actor.drawn + 1 }

/-- A failed try in a direction leaves nothing else. -/
def turned (dir : Dir) (actor : Actor) : Actor := { actor with movedir := dir }

/-- A mover on the ground, whose moves reach no special line. -/
structure Plain (actor : Actor) : Prop where
  ground : actor.flags &&& mfFloat = 0
  still : ∀ dir, (s.answers dir).spechit = []

variable {s}

theorem and_and_eq_zero {flags bit : Int32} (other : Int32) (zero : flags &&& bit = 0) :
    flags &&& other &&& bit = 0 := by
  rw [Int32.and_assoc, Int32.and_comm other, ← Int32.and_assoc, zero, Int32.zero_and]

theorem move_eq {actor : Actor} (plain : Plain s actor) :
    move s actor = if walks s actor.movedir then (true, landed s actor.movedir actor)
      else (false, actor) := by
  rw [move, walks]
  by_cases none : actor.movedir = noDir
  case pos => simp [none]
  rw [if_neg none]
  cases ok : (s.answers actor.movedir).ok with
  | false => simp [ok, none, plain.ground, plain.still]
  | true =>
    have ground := and_and_eq_zero (~~~mfInfloat) plain.ground
    simp [ok, none, ground, landed]

theorem tryWalk_eq {actor : Actor} (plain : Plain s actor) :
    tryWalk s actor = if walks s actor.movedir then (true, arrived s actor.movedir actor)
      else (false, actor) := by
  rw [tryWalk, move_eq plain]
  cases walks s actor.movedir with
  | false => rfl
  | true => rfl

theorem Plain.turned {actor : Actor} (plain : Plain s actor) (dir : Dir) :
    Plain s (turned dir actor) := ⟨plain.ground, plain.still⟩

/-- A try either walks or leaves only another direction behind. -/
theorem attempt_cases {actor : Actor} (plain : Plain s actor) (dir : Dir) :
    walks s dir = true ∧ attempt s dir actor = (true, arrived s dir actor) ∨
    walks s dir = false ∧ ∃ d, attempt s dir actor = (false, turned d actor) := by
  rw [attempt]
  by_cases none : dir = noDir
  case pos => exact .inr ⟨by simp [walks, none], actor.movedir, by rw [if_pos none]; rfl⟩
  rw [if_neg none]
  have tried := tryWalk_eq (plain.turned dir)
  cases walked : walks s dir with
  | true => exact .inl ⟨rfl, tried.trans (if_pos walked)⟩
  | false => exact .inr ⟨rfl, dir, tried.trans (if_neg (Bool.not_eq_true _ ▸ walked))⟩

/-! ## The search -/

/-- The search walks in the first direction that works. -/
theorem sweep_cases {actor : Actor} (plain : Plain s actor) (turn : Dir) (dirs : List Dir) :
    (∃ dir, (dirs.filter (· ≠ turn)).find? (walks s) = some dir ∧
      sweep s turn dirs actor = (true, arrived s dir actor)) ∨
    (dirs.filter (· ≠ turn)).find? (walks s) = none ∧
      ∃ d, sweep s turn dirs actor = (false, turned d actor) := by
  induction dirs generalizing actor with
  | nil => exact .inr ⟨rfl, actor.movedir, rfl⟩
  | cons dir dirs ih =>
    rw [sweep]
    by_cases back : dir = turn
    case pos =>
      rw [if_pos back, List.filter_cons_of_neg (by simp [back])]
      exact ih plain
    have tried := tryWalk_eq (plain.turned dir)
    rw [if_neg back, List.filter_cons_of_pos (by simp [back])]
    cases walked : walks s dir with
    | true =>
      refine .inl ⟨dir, List.find?_cons_of_pos walked, ?_⟩
      rw [show tryWalk s { actor with movedir := dir } = _ from tried.trans (if_pos walked)]
      rfl
    | false =>
      rw [List.find?_cons_of_neg (by simp [walked]),
        show tryWalk s { actor with movedir := dir } = _ from
          tried.trans (if_neg (Bool.not_eq_true _ ▸ walked))]
      exact ih (plain.turned dir)

/-- What the search leaves: a walk in the direction it found, or no direction. -/
def settled (s : Setting) (actor : Actor) : Option Dir → Actor
  | some dir => arrived s dir actor
  | none => turned noDir actor

/-- `P_Random`'s number, after some more are drawn. -/
def numberAfter (s : Setting) (actor : Actor) (n : Nat) : Int32 :=
  (Engine.random s.rndtable (s.prndindex + (actor.drawn + n))).1

/-- An actor that has drawn some more numbers. -/
def drew (actor : Actor) (n : Nat) : Actor := { actor with drawn := actor.drawn + n }

theorem Plain.drew {actor : Actor} (plain : Plain s actor) (n : Nat) : Plain s (drew actor n) :=
  ⟨plain.ground, plain.still⟩

theorem draw_turned (dir : Dir) (actor : Actor) :
    draw s (turned dir actor) = (numberAfter s actor 0, turned dir (drew actor 1)) := rfl

/-- The directions left when no direct path is. -/
def sweepDirs (turn : Dir) (number : Int32) : List Dir :=
  (searchOrder number).filter (· ≠ turn) ++ [turn]

theorem anyDirection_eq {actor : Actor} (plain : Plain s actor) (turn dir : Dir) :
    anyDirection s turn (turned dir actor) =
      settled s (drew actor 1) ((sweepDirs turn (numberAfter s actor 0)).find? (walks s)) := by
  have drawn := (plain.drew 1).turned dir
  rw [anyDirection, sweepDirs, List.find?_append]
  simp only [draw_turned]
  rcases sweep_cases drawn turn (searchOrder (numberAfter s actor 0)) with ⟨dir, found, swept⟩ | ⟨lost, e, swept⟩
  · simp only [swept, found, if_true, Option.some_or]
    rfl
  · simp only [swept, lost, Bool.false_eq_true, if_false, Option.none_or]
    rcases attempt_cases (drawn.turned e) turn with ⟨walked, tried⟩ | ⟨walked, e', tried⟩
    · rw [List.find?_cons_of_pos walked]
      simp only [tried, if_true]
      rfl
    · rw [List.find?_cons_of_neg (by simp [walked])]
      simp only [tried, Bool.false_eq_true, if_false]
      rfl

theorem axes_eq {actor : Actor} (plain : Plain s actor) (olddir d1 d2 dir : Dir) :
    axes s olddir d1 d2 (turned dir actor) =
      match [d1, d2, olddir].find? (walks s) with
      | some dir => arrived s dir actor
      | none => settled s (drew actor 1)
        ((sweepDirs (opposite olddir) (numberAfter s actor 0)).find? (walks s)) := by
  rw [axes]
  rcases attempt_cases (plain.turned dir) d1 with ⟨walked, tried⟩ | ⟨walked, e, tried⟩
  · rw [List.find?_cons_of_pos walked, tried]
    rfl
  rw [List.find?_cons_of_neg (by simp [walked]), tried]
  dsimp only
  rcases attempt_cases (plain.turned e) d2 with ⟨walked, tried⟩ | ⟨walked, e', tried⟩
  · rw [List.find?_cons_of_pos walked, show attempt s d2 (turned e (turned dir actor)) = _ from tried]
    rfl
  rw [List.find?_cons_of_neg (by simp [walked]),
    show attempt s d2 (turned e (turned dir actor)) = _ from tried]
  dsimp only
  rcases attempt_cases (plain.turned e') olddir with ⟨walked, tried⟩ | ⟨walked, e'', tried⟩
  · rw [List.find?_cons_of_pos walked,
      show attempt s olddir (turned e' (turned e actor)) = _ from tried]
    rfl
  rw [List.find?_cons_of_neg (by simp [walked]),
    show attempt s olddir (turned e' (turned e actor)) = _ from tried]
  exact anyDirection_eq plain (opposite olddir) e''

/-- The three directions tried before any other. -/
def axisDirs (olddir d1 d2 : Dir) (swapped : Bool) : List Dir :=
  [forward (opposite olddir) (if swapped then d2 else d1),
    forward (opposite olddir) (if swapped then d1 else d2), olddir]

theorem otherDirections_eq {actor : Actor} (plain : Plain s actor) (olddir d1 d2 dir : Dir)
    (deltax deltay : Int32) :
    otherDirections s olddir d1 d2 deltax deltay (turned dir actor) =
      match (axisDirs olddir d1 d2 (swaps (numberAfter s actor 0) deltax deltay)).find?
        (walks s) with
      | some dir => arrived s dir (drew actor 1)
      | none => settled s (drew actor 2)
        ((sweepDirs (opposite olddir) (numberAfter s actor 1)).find? (walks s)) :=
  axes_eq (plain.drew 1) olddir _ _ dir

/-- The direct route walks, or leaves only another direction behind. -/
theorem directRoute_cases {actor : Actor} (plain : Plain s actor) (olddir d1 d2 : Dir)
    (deltax deltay : Int32) :
    ((d1 ≠ noDir ∧ d2 ≠ noDir ∧ diag deltax deltay ≠ opposite olddir) ∧
      walks s (diag deltax deltay) = true ∧
      directRoute s olddir d1 d2 deltax deltay actor =
        (true, arrived s (diag deltax deltay) actor)) ∨
    ¬((d1 ≠ noDir ∧ d2 ≠ noDir ∧ diag deltax deltay ≠ opposite olddir) ∧
      walks s (diag deltax deltay) = true) ∧
      ∃ d, directRoute s olddir d1 d2 deltax deltay actor = (false, turned d actor) := by
  rw [directRoute]
  by_cases both : d1 ≠ noDir ∧ d2 ≠ noDir
  case neg =>
    exact .inr ⟨fun h => both ⟨h.1.1, h.1.2.1⟩, actor.movedir, by rw [if_neg both]; rfl⟩
  rw [if_pos both]
  by_cases back : diag deltax deltay = opposite olddir
  case pos =>
    exact .inr ⟨fun h => h.1.2.2 back, diag deltax deltay,
      by simp only [back, ne_eq, not_true_eq_false, if_false]; rfl⟩
  have tried := tryWalk_eq (plain.turned (diag deltax deltay))
  simp only [ne_eq, back, not_false_eq_true, if_true]
  cases walked : walks s (diag deltax deltay) with
  | true => exact .inl ⟨⟨both.1, both.2, trivial⟩, rfl, tried.trans (if_pos walked)⟩
  | false =>
    exact .inr ⟨fun h => Bool.false_ne_true h.2, diag deltax deltay,
      tried.trans (if_neg (Bool.not_eq_true _ ▸ walked))⟩

/-- Whether the direct route is tried and walked. -/
def Direct (s : Setting) (olddir d1 d2 : Dir) (deltax deltay : Int32) : Prop :=
  (d1 ≠ noDir ∧ d2 ≠ noDir ∧ diag deltax deltay ≠ opposite olddir) ∧
    walks s (diag deltax deltay) = true

/-- The whole search, by the first direction that works. -/
theorem newChaseDir_cases {actor : Actor} (plain : Plain s actor) {deltax deltay : Int32}
    (dx : s.target.x - actor.x = deltax) (dy : s.target.y - actor.y = deltay) :
    Direct s actor.movedir (Engine.Chase.eastWest deltax) (Engine.Chase.northSouth deltay) deltax
        deltay ∧
      newChaseDir s actor = arrived s (diag deltax deltay) actor ∨
    ¬Direct s actor.movedir (Engine.Chase.eastWest deltax) (Engine.Chase.northSouth deltay) deltax
        deltay ∧
      newChaseDir s actor =
        match (axisDirs actor.movedir (Engine.Chase.eastWest deltax)
          (Engine.Chase.northSouth deltay) (swaps (numberAfter s actor 0) deltax deltay)).find?
          (walks s) with
        | some dir => arrived s dir (drew actor 1)
        | none => settled s (drew actor 2)
          ((sweepDirs (opposite actor.movedir) (numberAfter s actor 1)).find? (walks s)) := by
  rw [newChaseDir, dx, dy]
  rcases directRoute_cases plain actor.movedir (Engine.Chase.eastWest deltax)
    (Engine.Chase.northSouth deltay) deltax deltay with ⟨tried, walked, route⟩ | ⟨blocked, d, route⟩
  · refine .inl ⟨⟨tried, walked⟩, ?_⟩
    rw [route]
    rfl
  · refine .inr ⟨blocked, ?_⟩
    rw [route]
    dsimp only
    rw [if_neg Bool.false_ne_true, otherDirections_eq plain]

end

/-! ## Numbers -/

/-- What a search for a direction compares stays in 32 bits: the differences of the coordinates,
and past the direct route their absolute values. -/
structure SearchFits (s : Setting) (actor : Actor) : Prop where
  deltax : Fits32 (s.target.x.toInt - actor.x.toInt)
  deltay : Fits32 (s.target.y.toInt - actor.y.toInt)
  abs : ¬Direct s actor.movedir (Engine.Chase.eastWest (s.target.x - actor.x))
      (Engine.Chase.northSouth (s.target.y - actor.y)) (s.target.x - actor.x)
      (s.target.y - actor.y) →
    s.target.x - actor.x ≠ Int32.minValue ∧ s.target.y - actor.y ≠ Int32.minValue

theorem eastWest_eq (delta : Int32) : Engine.Chase.eastWest delta = eastWest delta.toInt := by
  have high : (10 * fracunit).toInt = slop := by decide
  have low : (-(10 * fracunit)).toInt = -slop := by decide
  rw [Engine.Chase.eastWest, eastWest]
  simp only [gt_iff_lt, Int32.lt_iff_toInt_lt, high, low]

theorem northSouth_eq (delta : Int32) : Engine.Chase.northSouth delta = northSouth delta.toInt := by
  have high : (10 * fracunit).toInt = slop := by decide
  have low : (-(10 * fracunit)).toInt = -slop := by decide
  rw [Engine.Chase.northSouth, northSouth]
  simp only [gt_iff_lt, Int32.lt_iff_toInt_lt, high, low]

theorem diag_eq (deltax deltay : Int32) :
    diag deltax deltay = diagonal deltax.toInt deltay.toInt := by
  rw [diag, diagonal]
  simp only [gt_iff_lt, Int32.lt_iff_toInt_lt]
  rfl

theorem number_lt (s : Setting) (actor : Actor) (nth : Nat) : number s actor nth < 256 :=
  UInt8.toNat_lt _

theorem numberAfter_eq {s : Setting} {actor now : Actor} {drawn : Nat}
    (since : now.drawn = actor.drawn + drawn) (nth : Nat) :
    numberAfter s now nth = Int32.ofNat (number s actor (drawn + nth)) := by
  rw [numberAfter, Engine.random, number, since]
  simp only [Nat.add_assoc]

/-- What the engine asks of a drawn number. -/
theorem ofNat_number : ∀ n < 256, (Int32.ofNat n > 200 ↔ n > 200) ∧
    (Int32.ofNat n &&& 1 ≠ 0 ↔ n &&& 1 ≠ 0) ∧
    Int32.ofNat n &&& 15 = Int32.ofInt ((n &&& 15 : Nat) : Int) := by
  decide +kernel

theorem swaps_eq {n : Nat} (small : n < 256) {deltax deltay : Int32} (x : deltax ≠ Int32.minValue)
    (y : deltay ≠ Int32.minValue) :
    swaps (Int32.ofNat n) deltax deltay =
      (decide (n > 200) || decide (deltay.toInt.natAbs > deltax.toInt.natAbs)) := by
  have abs : deltay.abs > deltax.abs ↔ deltay.toInt.natAbs > deltax.toInt.natAbs := by
    rw [gt_iff_lt, Int32.lt_iff_toInt_lt, SignedWords.toInt_abs x, SignedWords.toInt_abs y]
    omega
  rw [swaps, decide_eq_decide.2 (ofNat_number n small).1, decide_eq_decide.2 abs]

theorem searchOrder_eq {n : Nat} (small : n < 256) :
    searchOrder (Int32.ofNat n) = if n &&& 1 ≠ 0 then directions else directions.reverse := by
  rw [searchOrder, if_congr (ofNat_number n small).2.1 rfl rfl]
  rfl

/-! ## The search the pass looks up -/

theorem forward_ite (turn d1 d2 : Dir) (swapped : Bool) :
    (if swapped then forward turn d2 else forward turn d1) =
      forward turn (if swapped then d2 else d1) := by
  cases swapped <;> rfl

theorem order_eq {s : Setting} {actor now : Actor} (entries : Nat) (fits : SearchFits s actor)
    (other : ¬Direct s actor.movedir (Engine.Chase.eastWest (s.target.x - actor.x))
      (Engine.Chase.northSouth (s.target.y - actor.y)) (s.target.x - actor.x)
      (s.target.y - actor.y))
    (since : now.drawn = actor.drawn + (shape s actor entries).missiledraw.toNat) :
    order s actor (shape s actor entries) =
      axisDirs actor.movedir (eastWest (deltax s actor)) (northSouth (deltay s actor))
        (swaps (numberAfter s now 0) (s.target.x - actor.x) (s.target.y - actor.y)) ++
      sweepDirs (opposite actor.movedir) (numberAfter s now 1) := by
  obtain ⟨x, y⟩ := fits.abs other
  rw [numberAfter_eq since, numberAfter_eq since, swaps_eq (number_lt s actor _) x y, sweepDirs,
    searchOrder_eq (number_lt s actor _), toInt_sub fits.deltax, toInt_sub fits.deltay, order,
    axisDirs, ← forward_ite, ← forward_ite, List.append_assoc]
  rfl

theorem direct_iff {s : Setting} {actor : Actor} {entries : Nat} (fits : SearchFits s actor)
    (new : newchase s actor = true) :
    (shape s actor entries).direct = true ↔
      Direct s actor.movedir (Engine.Chase.eastWest (s.target.x - actor.x))
        (Engine.Chase.northSouth (s.target.y - actor.y)) (s.target.x - actor.x)
        (s.target.y - actor.y) := by
  rw [Direct, eastWest_eq, northSouth_eq, diag_eq, toInt_sub fits.deltax, toInt_sub fits.deltay]
  simp only [shape, new, Bool.true_and, Bool.and_eq_true, decide_eq_true_eq]
  rw [and_assoc, and_assoc, and_assoc, and_assoc]
  rfl

theorem any_axisDirs (s : Setting) (olddir d1 d2 : Dir) (swapped : Bool) :
    (axisDirs olddir d1 d2 swapped).any (walks s) =
      (walks s (forward (opposite olddir) d1) || walks s (forward (opposite olddir) d2) ||
        walks s olddir) := by
  cases swapped <;> simp [axisDirs, Bool.or_assoc, Bool.or_left_comm]

/-- One of the axes or the old direction works. -/
theorem first_eq {s : Setting} {actor : Actor} (entries : Nat) (new : newchase s actor = true)
    (other : ¬(shape s actor entries).direct = true) (swapped : Bool) :
    (shape s actor entries).first =
      ((axisDirs actor.movedir (eastWest (deltax s actor)) (northSouth (deltay s actor))
        swapped).find? (walks s)).isSome := by
  rw [List.isSome_find?, any_axisDirs]
  have direct : (shape s actor entries).direct = false := Bool.eq_false_iff.2 other
  have unfolded : (shape s actor entries).first = (newchase s actor &&
    !(shape s actor entries).direct && (walks s (forward (opposite actor.movedir)
      (eastWest (deltax s actor))) || walks s (forward (opposite actor.movedir)
      (northSouth (deltay s actor))) || walks s actor.movedir)) := rfl
  rw [unfolded, new, direct]
  rfl

/-- The engine's search, by the order the pass lists. -/
theorem search_eq {s : Setting} {actor now : Actor} {entries : Nat} (fits : SearchFits s actor)
    (plain : Plain s now) (x : now.x = actor.x) (y : now.y = actor.y)
    (movedir : now.movedir = actor.movedir)
    (since : now.drawn = actor.drawn + (shape s actor entries).missiledraw.toNat)
    (new : newchase s actor = true) :
    newChaseDir s now =
      if (shape s actor entries).direct then arrived s (shape s actor entries).diag now
      else match (order s actor (shape s actor entries)).find? (walks s) with
      | some dir => arrived s dir (drew now (if (shape s actor entries).first then 1 else 2))
      | none => turned noDir (drew now 2) := by
  rcases newChaseDir_cases plain (by rw [x]) (by rw [y]) with ⟨direct, ends⟩ | ⟨other, ends⟩
  · rw [movedir, ← direct_iff fits new] at direct
    rw [ends, if_pos direct, diag_eq, toInt_sub fits.deltax, toInt_sub fits.deltay]
    rfl
  · rw [movedir] at other
    rw [ends, order_eq entries fits other since, List.find?_append, movedir, eastWest_eq,
      northSouth_eq, toInt_sub fits.deltax, toInt_sub fits.deltay]
    rw [← direct_iff fits new] at other
    rw [if_neg other]
    have first := first_eq entries new other
      (swaps (numberAfter s now 0) (s.target.x - actor.x) (s.target.y - actor.y))
    show (match (axisDirs actor.movedir (eastWest (deltax s actor)) (northSouth (deltay s actor))
      _).find? (walks s) with | some dir => _ | none => _) = _
    cases found : (axisDirs actor.movedir (eastWest (deltax s actor)) (northSouth (deltay s actor))
      (swaps (numberAfter s now 0) (s.target.x - actor.x) (s.target.y - actor.y))).find?
        (walks s) with
    | some dir =>
      rw [found] at first
      rw [first]
      rfl
    | none =>
      rw [found] at first
      rw [first, Option.none_or]
      cases (sweepDirs (opposite actor.movedir) (numberAfter s now 1)).find? (walks s) with
      | some dir => rfl
      | none => rfl

/-- The first index that works is where the first item that works stands. -/
theorem findIdx?_cases {α : Type} (p : α → Bool) (list : List α) :
    (∃ i item, list.findIdx? p = some i ∧ list.find? p = some item ∧ list[i]? = some item) ∨
    list.findIdx? p = none ∧ list.find? p = none := by
  induction list with
  | nil => exact .inr ⟨rfl, rfl⟩
  | cons first rest ih =>
    rw [List.findIdx?_cons]
    by_cases here : p first
    case pos => exact .inl ⟨0, first, by rw [if_pos here], List.find?_cons_of_pos here, rfl⟩
    rw [if_neg here, List.find?_cons_of_neg here]
    rcases ih with ⟨i, item, index, found, at_⟩ | ⟨index, found⟩
    · exact .inl ⟨i + 1, item, by rw [index]; rfl, found, at_⟩
    · exact .inr ⟨by rw [index]; rfl, found⟩

/-- What the pass makes of the first direction that works. -/
theorem won_cases (s : Setting) (actor : Actor) (sh : Shape) :
    (∃ dir, (order s actor sh).find? (walks s) = some dir ∧ won s actor sh ≠ 0 ∧
      (order s actor sh).getD (won s actor sh - 1) noDir = dir) ∨
    (order s actor sh).find? (walks s) = none ∧ won s actor sh = 0 := by
  rw [won]
  rcases findIdx?_cases (walks s) (order s actor sh) with ⟨i, dir, index, found, at_⟩ | ⟨index, found⟩
  · refine .inl ⟨dir, found, ?_, ?_⟩
    · rw [index]
      exact Nat.succ_ne_zero i
    · rw [index, List.getD_eq_getElem?_getD]
      show (order s actor sh)[i]?.getD noDir = dir
      rw [at_]
      rfl
  · exact .inr ⟨found, by rw [index]; rfl⟩

theorem any_sweepDirs (s : Setting) (turn : Dir) (number : Int32) :
    (sweepDirs turn number).any (walks s) =
      ((directions.any fun d => d ≠ turn && (s.answers d).ok) || walks s turn) := by
  have each : directions.any (fun d => decide (d ≠ turn) && walks s d) =
      directions.any fun d => d ≠ turn && (s.answers d).ok := rfl
  rw [sweepDirs, List.any_append, List.any_filter, searchOrder]
  split
  · rw [show upward = directions from rfl, each]
    simp
  · rw [show upward = directions from rfl, List.any_reverse, each]
    simp

/-! ## What is left -/

/-- An actor about to walk: nothing moved yet, and `drawn` numbers drawn. -/
structure Ready (s : Setting) (actor now : Actor) (drawn : Nat) : Prop where
  x : now.x = actor.x
  y : now.y = actor.y
  z : now.z = actor.z
  floorz : now.floorz = actor.floorz
  ceilingz : now.ceilingz = actor.ceilingz
  subsector : now.subsector = actor.subsector
  movedir : now.movedir = actor.movedir
  reactiontime : now.reactiontime = reactiontime actor
  threshold : now.threshold = if actor.threshold = 0 then 0
    else if s.target.health ≤ 0 then 0 else actor.threshold - 1
  entered : now.entered = none
  drawn : now.drawn = actor.drawn + drawn

/-- What a chase leaves is what the pass answers. -/
structure Same (actor left : Actor) (c : Chased) : Prop where
  x : c.x = left.x
  y : c.y = left.y
  z : c.z = left.z
  floorz : c.floorz = left.floorz
  ceilingz : c.ceilingz = left.ceilingz
  subsector : c.subsector = left.subsector
  movedir : c.movedir = left.movedir
  movecount : c.movecount = left.movecount
  reactiontime : c.reactiontime = left.reactiontime
  threshold : c.threshold = left.threshold
  state : c.state = left.entered
  draws : actor.drawn + c.draws = left.drawn

/-- The draw for the active sound. -/
def sounded (on : Bool) (actor : Actor) : Actor := drew actor on.toNat

theorem ofInt_step (x speed step : Int32) :
    Int32.ofInt (x.toInt + speed.toInt * step.toInt) = x + speed * step := by
  rw [Int32.ofInt_add, Int32.ofInt_mul, Int32.ofInt_toInt, Int32.ofInt_toInt, Int32.ofInt_toInt]

theorem threshold_eq {s : Setting} {actor now : Actor} {drawn : Nat}
    (ready : Ready s actor now drawn) :
    (if actor.threshold = 0 then actor.threshold
      else if s.target.health ≤ 0 then 0 else actor.threshold - 1) = now.threshold := by
  rw [ready.threshold]
  split
  case isTrue zero => exact zero
  case isFalse => rfl

/-- The pass that does not move the actor. -/
theorem same_of_not_moved {s : Setting} {actor now : Actor} {entries : Nat} {drawn : Nat}
    (ready : Ready s actor now drawn) {left : Actor}
    (leaves : left = { now with
      movedir := left.movedir, movecount := left.movecount, entered := left.entered,
      flags := left.flags, drawn := left.drawn })
    (still : moved s actor (shape s actor entries) = false)
    (movedir : (chased s actor entries).movedir = left.movedir)
    (movecount : (chased s actor entries).movecount = left.movecount)
    (state : (chased s actor entries).state = left.entered)
    (draws : actor.drawn + (chased s actor entries).draws = left.drawn) :
    Same actor left (chased s actor entries) where
  x := by rw [leaves, chased]; simp [still, ready.x]
  y := by rw [leaves, chased]; simp [still, ready.y]
  z := by rw [leaves, chased]; simp [still, ready.z]
  floorz := by rw [leaves, chased]; simp [still, ready.floorz]
  ceilingz := by rw [leaves, chased]; simp [still, ready.ceilingz]
  subsector := by rw [leaves, chased]; simp [still, ready.subsector]
  movedir := movedir
  movecount := movecount
  reactiontime := by rw [leaves]; exact ready.reactiontime.symm
  threshold := by rw [leaves]; exact (threshold_eq ready : _ = now.threshold)
  state := state
  draws := draws

/-- The pass that moves the actor in a direction. -/
theorem same_of_moved {s : Setting} {actor now : Actor} {entries : Nat} {drawn : Nat}
    (ready : Ready s actor now drawn) {left : Actor} (dir : Dir)
    (leaves : left = { landed s dir now with movecount := left.movecount, drawn := left.drawn })
    (moves : moved s actor (shape s actor entries) = true)
    (walked : walkedDir s actor (shape s actor entries) = dir)
    (movedir : (chased s actor entries).movedir = dir)
    (movecount : (chased s actor entries).movecount = left.movecount)
    (draws : actor.drawn + (chased s actor entries).draws = left.drawn) :
    Same actor left (chased s actor entries) := by
  have stops : attacked s actor (shape s actor entries) = false ∧
      (shape s actor entries).melee = false := by
    rw [moved, Bool.and_eq_true, Bool.and_eq_true, Bool.not_eq_true', Bool.not_eq_true'] at moves
    exact moves.1
  refine ⟨?_, ?_, ?_, ?_, ?_, ?_, ?_, movecount, ?_, ?_, ?_, draws⟩
  · rw [leaves, chased]
    simp only [moves, walked, if_true, ofInt_step, landed, ready.x]
  · rw [leaves, chased]
    simp only [moves, walked, if_true, ofInt_step, landed, ready.y]
  · rw [leaves, chased]
    simp only [moves, walked, if_true, landed]
  · rw [leaves, chased]
    simp only [moves, walked, if_true, landed]
  · rw [leaves, chased]
    simp only [moves, walked, if_true, landed]
  · rw [leaves, chased]
    simp only [moves, walked, if_true, landed]
  · rw [movedir, leaves]
    rfl
  · rw [leaves]
    exact ready.reactiontime.symm
  · rw [leaves]
    exact (threshold_eq ready : _ = now.threshold)
  · rw [leaves, chased]
    simp only [stops.1, stops.2, Bool.false_eq_true, if_false]
    exact ready.entered.symm

/-- What a walk draws beyond the missile check and the sound. -/
theorem draws_eq {s : Setting} {actor : Actor} (entries : Nat) (new : newchase s actor = true) :
    draws (shape s actor entries) false = (shape s actor entries).missiledraw.toNat +
      ((if (shape s actor entries).direct then 1
        else if (shape s actor entries).first then 2
        else if (shape s actor entries).loop || (shape s actor entries).turnaround then 3 else 2) +
      (shape s actor entries).sound.toNat) := by
  have unfolded : (shape s actor entries).newchase = true := new
  rw [draws, unfolded]
  simp

/-- Where neither the direct route nor the first three work, the search does when one of the
others works. -/
theorem rest_eq {s : Setting} {actor : Actor} {entries : Nat} (new : newchase s actor = true)
    (direct : (shape s actor entries).direct = false) (first : (shape s actor entries).first = false)
    (number : Int32) :
    ((shape s actor entries).loop || (shape s actor entries).turnaround) =
      ((sweepDirs (opposite actor.movedir) number).find? (walks s)).isSome := by
  rw [List.isSome_find?, any_sweepDirs]
  have none : (walks s (forward (opposite actor.movedir) (eastWest (deltax s actor))) ||
      walks s (forward (opposite actor.movedir) (northSouth (deltay s actor))) ||
      walks s actor.movedir) = false := by
    have unfolded : (shape s actor entries).first = (newchase s actor &&
      !(shape s actor entries).direct && (walks s (forward (opposite actor.movedir)
        (eastWest (deltax s actor))) || walks s (forward (opposite actor.movedir)
        (northSouth (deltay s actor))) || walks s actor.movedir)) := rfl
    rw [unfolded, new, direct] at first
    exact first
  have loop : (shape s actor entries).loop = (newchase s actor &&
      !(shape s actor entries).direct && !(walks s (forward (opposite actor.movedir)
        (eastWest (deltax s actor))) || walks s (forward (opposite actor.movedir)
        (northSouth (deltay s actor))) || walks s actor.movedir) &&
      directions.any fun d => d ≠ opposite actor.movedir && (s.answers d).ok) := rfl
  have turnaround : (shape s actor entries).turnaround = (newchase s actor &&
      !(shape s actor entries).direct && !(walks s (forward (opposite actor.movedir)
        (eastWest (deltax s actor))) || walks s (forward (opposite actor.movedir)
        (northSouth (deltay s actor))) || walks s actor.movedir) &&
      !(directions.any fun d => d ≠ opposite actor.movedir && (s.answers d).ok) &&
      walks s (opposite actor.movedir)) := rfl
  rw [loop, turnaround, none, new, direct]
  cases directions.any fun d => decide (d ≠ opposite actor.movedir) && (s.answers d).ok <;>
    cases walks s (opposite actor.movedir) <;> rfl

/-- The number a walk's count is drawn from. -/
theorem arrived_movecount {s : Setting} {actor now : Actor} {drawn : Nat}
    (since : now.drawn = actor.drawn + drawn) (dir : Dir) (n : Nat) :
    (arrived s dir (drew now n)).movecount =
      Int32.ofInt ((number s actor (drawn + n) &&& 15 : Nat) : Int) := by
  rw [← (ofNat_number _ (number_lt s actor (drawn + n))).2.2, ← numberAfter_eq since]
  rfl

/-- A search that walks, and the sound after it. -/
theorem same_arrived {s : Setting} {actor now : Actor} {entries : Nat}
    (ready : Ready s actor now (shape s actor entries).missiledraw.toNat)
    (new : newchase s actor = true) (goes : stops s actor (shape s actor entries) = false)
    {dir : Dir} {n : Nat} (moves : moved s actor (shape s actor entries) = true)
    (walked : walkedDir s actor (shape s actor entries) = dir)
    (total : draws (shape s actor entries) false = (shape s actor entries).missiledraw.toNat +
      (n + 1 + (shape s actor entries).sound.toNat)) :
    Same actor (sounded (shape s actor entries).sound (arrived s dir (drew now n)))
      (chased s actor entries) := by
  have unfolded : (shape s actor entries).newchase = true := new
  refine same_of_moved ready dir rfl moves walked ?_ ?_ ?_
  · rw [chased]
    simp [goes, unfolded, walked]
  · have count : countDraw s actor (shape s actor entries) =
        number s actor ((shape s actor entries).missiledraw.toNat + n) := by
      rw [countDraw, goes, total]
      congr 1
      omega
    show Int32.ofInt (movecount s actor (shape s actor entries)) =
      (arrived s dir (drew now n)).movecount
    rw [arrived_movecount ready.drawn, ← count, movecount]
    simp [goes, moves, unfolded]
  · show actor.drawn + draws (shape s actor entries) (stops s actor (shape s actor entries)) =
      now.drawn + n + 1 + (shape s actor entries).sound.toNat
    rw [goes, total, ready.drawn]
    omega

/-- A search, and the sound after it. -/
theorem same_search {s : Setting} {actor now : Actor} {entries : Nat} (fits : SearchFits s actor)
    (plain : Plain s now)
    (ready : Ready s actor now (shape s actor entries).missiledraw.toNat)
    (new : newchase s actor = true) (goes : stops s actor (shape s actor entries) = false)
    (count : Int32.ofInt (if (shape s actor entries).justattacked then actor.movecount.toInt
      else actor.movecount.toInt - 1) = now.movecount) :
    Same actor (sounded (shape s actor entries).sound (newChaseDir s now))
      (chased s actor entries) := by
  have unfolded : (shape s actor entries).newchase = true := new
  obtain ⟨held, far⟩ := Bool.or_eq_false_iff.1 goes
  have total := draws_eq entries new
  rw [search_eq fits plain ready.x ready.y ready.movedir ready.drawn new]
  cases direct : (shape s actor entries).direct with
  | true =>
    rw [if_pos rfl]
    refine same_arrived (n := 0) ready new goes ?_ ?_ ?_
    · simp [moved, held, far, unfolded, direct]
    · simp [walkedDir, unfolded, direct]
    · rw [total, direct, if_pos rfl]
  | false =>
    rw [if_neg Bool.false_ne_true]
    rw [direct] at total
    have order := order_eq entries fits
      (fun straight => by simp [(direct_iff fits new).2 straight] at direct) ready.drawn
    rcases won_cases s actor (shape s actor entries) with ⟨dir, found, won, at_⟩ | ⟨lost, won⟩
    · rw [found]
      refine same_arrived ready new goes ?_ ?_ ?_
      · simp [moved, held, far, unfolded, direct, won]
      · simp only [walkedDir, unfolded, direct, won, Bool.not_true, Bool.false_eq_true, if_false]
        exact at_
      · rw [total]
        cases first : (shape s actor entries).first with
        | true => rfl
        | false =>
          have rest := rest_eq new direct first (numberAfter s now 1)
          rw [order, List.find?_append] at found
          have none := first_eq entries new (by simp [direct])
            (swaps (numberAfter s now 0) (s.target.x - actor.x) (s.target.y - actor.y))
          rw [first, eq_comm, Option.isSome_eq_false_iff, Option.isNone_iff_eq_none] at none
          rw [none, Option.none_or] at found
          rw [found] at rest
          rw [rest]
          rfl
    · rw [lost]
      have still : moved s actor (shape s actor entries) = false := by
        simp [moved, held, far, unfolded, direct, won]
      refine same_of_not_moved ready rfl still ?_ ?_ ?_ ?_
      · rw [chased]
        simp [goes, unfolded, walkedDir, direct, won]
        rfl
      · show Int32.ofInt (movecount s actor (shape s actor entries)) = now.movecount
        rw [← count, movecount]
        cases just : (shape s actor entries).justattacked with
        | true => simp [goes, still]
        | false =>
          simp only [goes, still, unfolded, Bool.false_and, Bool.not_true, Bool.not_false,
            Bool.false_eq_true, if_false, if_true]
          rfl
      · rw [chased]
        simp only [held, far, Bool.false_eq_true, if_false]
        exact ready.entered.symm
      · show actor.drawn + draws (shape s actor entries) (stops s actor (shape s actor entries)) =
          now.drawn + 2 + (shape s actor entries).sound.toNat
        rw [order, List.find?_append, Option.or_eq_none_iff] at lost
        have first : (shape s actor entries).first = false := by
          rw [first_eq entries new (by simp [direct])
            (swaps (numberAfter s now 0) (s.target.x - actor.x) (s.target.y - actor.y)), lost.1]
          rfl
        have rest := rest_eq new direct first (numberAfter s now 1)
        rw [lost.2] at rest
        rw [goes, total, ready.drawn, first, rest]
        simp only [Bool.false_eq_true, if_false, Option.isSome_none]
        omega

/-! ## The checks before the walk -/

theorem distance_eq (s : Setting) (actor : Actor) :
    distance s actor =
      (Engine.aproxDistance (s.target.x - actor.x) (s.target.y - actor.y)).toInt := by
  rw [distance, deltax, deltay, SignedWords.ofInt_sub, SignedWords.ofInt_sub,
    Fixed.aproxDistance_eq]

theorem checkMeleeRange_eq {s : Setting} {actor now : Actor}
    (radius : s.sight = true → Fits32 (2883584 + s.target.radius.toInt)) (x : now.x = actor.x) (y : now.y = actor.y) :
    checkMeleeRange s now =
      (decide (distance s actor < 2883584 + s.target.radius.toInt) && s.sight) := by
  rw [checkMeleeRange, x, y, distance_eq]
  cases sight : s.sight with
  | false => simp
  | true =>
    have reach : (meleerange - 20 * fracunit).toInt = 2883584 := by decide
    have sum : (meleerange - 20 * fracunit + s.target.radius).toInt =
        2883584 + s.target.radius.toInt := by
      rw [SignedWords.toInt_add, reach]
      rw [reach]
      exact radius sight
    simp only [ge_iff_le, Int32.le_iff_toInt_le, sum]
    split
    case isTrue far => rw [decide_eq_false (not_lt.2 far), Bool.false_and]
    case isFalse near => rw [decide_eq_true (not_le.1 near), Bool.true_and]

theorem abs_sub_comm (a b : Int32) : (a - b).abs = (b - a).abs := by
  rw [← Int32.neg_sub (a := b) (b := a)]
  by_cases least : b - a = Int32.minValue
  · rw [least]
    rfl
  · have ne : -(b - a) ≠ Int32.minValue := fun h => least (by
      rw [← Int32.neg_neg (a := b - a), h]
      rfl)
    have low := (b - a).le_toInt
    have high := (b - a).toInt_lt
    have above : (b - a).toInt ≠ -2147483648 := fun h => least (Int32.toInt_inj.1 h)
    have neg : (-(b - a)).toInt = -(b - a).toInt := by
      rw [Int32.toInt_neg, Int.bmod_eq_of_le (by omega) (by omega)]
    apply Int32.toInt_inj.1
    rw [SignedWords.toInt_abs ne, SignedWords.toInt_abs least, neg, Int.natAbs_neg]

/-- The distance a missile check compares stays in 32 bits. -/
def DistanceFits (s : Setting) (actor : Actor) : Prop :=
  Fits32 ((Engine.aproxDistance (s.target.x - actor.x) (s.target.y - actor.y)).toInt - 4194304 -
    if s.info.meleestate = 0 then 8388608 else 0)

theorem rawDistance_eq {s : Setting} {actor now : Actor} (fits : DistanceFits s actor)
    (x : now.x = actor.x) (y : now.y = actor.y) :
    (rawDistance s now).toInt =
      (distance s actor - 4194304 - if s.info.meleestate = 0 then 8388608 else 0) >>> (16 : Nat) := by
  have near : (64 * fracunit).toInt = 4194304 := by decide
  have far : (128 * fracunit).toInt = 8388608 := by decide
  have same : Engine.aproxDistance (actor.x - s.target.x) (actor.y - s.target.y) =
      Engine.aproxDistance (s.target.x - actor.x) (s.target.y - actor.y) := by
    simp only [Engine.aproxDistance, abs_sub_comm actor.x, abs_sub_comm actor.y]
  have fit := fits
  rw [DistanceFits] at fit
  have low := (Engine.aproxDistance (s.target.x - actor.x) (s.target.y - actor.y)).toInt_lt
  rw [rawDistance, x, y, same, distance_eq, Int.shiftRight_eq_div_pow]
  rw [SignedWords.toInt_shiftRight (n := 16) (by decide)]
  congr 1
  split
  case isTrue none =>
    rw [if_pos none] at fit
    have first : (Engine.aproxDistance (s.target.x - actor.x) (s.target.y - actor.y) -
        64 * fracunit).toInt =
        (Engine.aproxDistance (s.target.x - actor.x) (s.target.y - actor.y)).toInt - 4194304 := by
      rw [toInt_sub, near]
      rw [near]
      exact ⟨by have := fit.1; omega, by omega⟩
    rw [toInt_sub, first, far]
    rw [first, far]
    exact fit
  case isFalse some =>
    rw [if_neg some] at fit
    rw [toInt_sub, near, Int.sub_zero]
    rw [near]
    rwa [Int.sub_zero] at fit

/-- The distance halved and cut, in integers. -/
theorem cutDistance_eq (s : Setting) (dist : Int32) :
    (cutDistance s dist).toInt =
      let halved := min (if s.type = mtUndead ∨ s.type = mtCyborg ∨ s.type = mtSpider ∨
        s.type = mtSkull then dist.toInt >>> (1 : Nat) else dist.toInt) 200
      if s.type = mtCyborg ∧ halved > 160 then 160 else halved := by
  have half : (dist >>> 1).toInt = dist.toInt >>> (1 : Nat) := by
    rw [SignedWords.toInt_shiftRight (n := 1) (by decide), Int.shiftRight_eq_div_pow]
    norm_cast
  have once : s.type = mtUndead → ¬(s.type = mtCyborg ∨ s.type = mtSpider ∨ s.type = mtSkull) := by
    rintro same
    rw [same]
    decide
  have halved : (if s.type = mtCyborg ∨ s.type = mtSpider ∨ s.type = mtSkull then
      (if s.type = mtUndead then dist >>> 1 else dist) >>> 1
      else if s.type = mtUndead then dist >>> 1 else dist).toInt =
      if s.type = mtUndead ∨ s.type = mtCyborg ∨ s.type = mtSpider ∨ s.type = mtSkull then
        dist.toInt >>> (1 : Nat) else dist.toInt := by
    by_cases undead : s.type = mtUndead
    · rw [if_neg (once undead), if_pos undead, if_pos (.inl undead), half]
    · rw [if_neg undead]
      by_cases others : s.type = mtCyborg ∨ s.type = mtSpider ∨ s.type = mtSkull
      · rw [if_pos others, if_pos (.inr others), half]
      · rw [if_neg others, if_neg (not_or.2 ⟨undead, others⟩)]
  rw [cutDistance]
  dsimp only
  rw [← halved]
  generalize (if s.type = mtCyborg ∨ s.type = mtSpider ∨ s.type = mtSkull then
    (if s.type = mtUndead then dist >>> 1 else dist) >>> 1
    else if s.type = mtUndead then dist >>> 1 else dist) = cut
  have capped : (if cut > 200 then 200 else cut).toInt = min cut.toInt 200 := by
    have cap : (200 : Int32).toInt = 200 := by decide
    split
    case isTrue above =>
      have above := Int32.lt_iff_toInt_lt.1 above
      rw [cap] at above ⊢
      exact (min_eq_right above.le).symm
    case isFalse below =>
      have below := Int32.le_iff_toInt_le.1 (Int32.not_lt.1 below)
      rw [cap] at below
      exact (min_eq_left below).symm
  rw [← capped]
  generalize (if cut > 200 then 200 else cut) = cut
  have cyborg : (160 : Int32).toInt = 160 := by decide
  have above : cut > 160 ↔ cut.toInt > 160 := by rw [gt_iff_lt, Int32.lt_iff_toInt_lt, cyborg]
  rw [if_congr (and_congr_right fun _ => above) rfl rfl]
  split <;> rfl

/-- The distance a missile is fired by. -/
theorem missileDistance_eq {s : Setting} {actor now : Actor} (fits : DistanceFits s actor)
    (x : now.x = actor.x) (y : now.y = actor.y) :
    missileDistance s now = none ∧ (missileRange s (distance s actor)).1 = false ∨
    ∃ dist, missileDistance s now = some dist ∧ (missileRange s (distance s actor)).1 = true ∧
      dist.toInt = (missileRange s (distance s actor)).2 := by
  have vile : (14 * 64 : Int32).toInt = 896 := by decide
  have undead : (196 : Int32).toInt = 196 := by decide
  have cut := cutDistance_eq s (rawDistance s now)
  rw [missileDistance, missileRange, ← rawDistance_eq fits x y]
  dsimp only
  by_cases far : s.type = mtVile ∧ rawDistance s now > 14 * 64
  case pos =>
    have above := Int32.lt_iff_toInt_lt.1 far.2
    rw [vile] at above
    exact .inl ⟨if_pos far, by simp [far.1, above]⟩
  rw [if_neg far]
  by_cases close : s.type = mtUndead ∧ rawDistance s now < 196
  case pos =>
    have below := Int32.lt_iff_toInt_lt.1 close.2
    rw [undead] at below
    exact .inl ⟨if_pos close, by simp [close.1, below]⟩
  rw [if_neg close]
  refine .inr ⟨_, rfl, ?_, cut⟩
  rw [gt_iff_lt, Int32.lt_iff_toInt_lt, vile] at far
  rw [Int32.lt_iff_toInt_lt, undead] at close
  simp only [Bool.and_eq_true, Bool.not_eq_true', Bool.and_eq_false_iff, decide_eq_false_iff_not]
  exact ⟨not_and_or.1 far, not_and_or.1 close⟩

/-! ## The walk and the chase -/

theorem draw_sound (s : Setting) (actor : Actor) :
    (if s.info.activesound ≠ 0 then (draw s actor).2 else actor) =
      sounded (decide (s.info.activesound ≠ 0)) actor := by
  by_cases sound : s.info.activesound ≠ 0
  · rw [if_pos sound, decide_eq_true sound]
    rfl
  · rw [if_neg sound, decide_eq_false sound]
    rfl

theorem movecount_pred {actor : Actor} (counts : actor.movecount ≠ Int32.minValue) :
    (actor.movecount - 1).toInt = actor.movecount.toInt - 1 := by
  have low := actor.movecount.le_toInt
  have high := actor.movecount.toInt_lt
  have above : actor.movecount.toInt ≠ -2147483648 := fun h => counts (Int32.toInt_inj.1 h)
  have one : (1 : Int32).toInt = 1 := by decide
  rw [toInt_sub, one]
  rw [one]
  exact ⟨by omega, by omega⟩

/-- The chase towards the player, once its count is taken. -/
theorem same_advance {s : Setting} {actor now : Actor} {entries : Nat}
    (counts : walks s actor.movedir = true → actor.movecount ≠ Int32.minValue)
    (fits : actor.movecount ≤ 0 ∨ walks s actor.movedir = false → SearchFits s actor)
    (plain : Plain s now)
    (ready : Ready s actor now (shape s actor entries).missiledraw.toNat)
    (count : now.movecount = actor.movecount - 1) (just : justattacked actor = false)
    (goes : stops s actor (shape s actor entries) = false) :
    Same actor (sounded (shape s actor entries).sound (advance s now)) (chased s actor entries) := by
  have unjust : (shape s actor entries).justattacked = false := just
  obtain ⟨held, far⟩ := Bool.or_eq_false_iff.1 goes
  have new : newchase s actor =
      !(decide (actor.movecount.toInt - 1 ≥ 0) && walks s actor.movedir) := by
    rw [newchase, just]
    rfl
  have counted : Int32.ofInt (actor.movecount.toInt - 1) = now.movecount := by
    rw [count, Int32.ofInt_sub, Int32.ofInt_toInt]
    rfl
  have neg : walks s actor.movedir = true → (now.movecount < 0 ↔ actor.movecount.toInt - 1 < 0) := by
    intro walked
    rw [count, Int32.lt_iff_toInt_lt, movecount_pred (counts walked)]
    rfl
  have step := move_eq plain
  rw [ready.movedir] at step
  rw [advance]
  by_cases goesOn : actor.movecount.toInt - 1 ≥ 0 ∧ walks s actor.movedir = true
  case pos =>
    have old : newchase s actor = false := by
      rw [new, decide_eq_true goesOn.1, goesOn.2]
      rfl
    have unfolded : (shape s actor entries).newchase = false := old
    rw [if_pos goesOn.2] at step
    rw [if_neg ((neg goesOn.2).not.2 (not_lt.2 goesOn.1)), step]
    dsimp only
    rw [if_pos rfl]
    refine same_of_moved ready actor.movedir rfl ?_ ?_ ?_ ?_ ?_
    · simp [moved, held, far, unfolded, unjust]
    · simp only [walkedDir, unfolded, Bool.not_false, if_true]
      rfl
    · rw [chased]
      simp only [goes, unfolded, Bool.not_false, Bool.false_eq_true, if_false, if_true]
      rfl
    · show Int32.ofInt (movecount s actor (shape s actor entries)) = now.movecount
      rw [← counted, movecount]
      simp only [goes, unjust, unfolded, Bool.false_and, Bool.not_false, Bool.false_eq_true, if_false,
        if_true]
      rfl
    · show actor.drawn + draws (shape s actor entries) (stops s actor (shape s actor entries)) =
        now.drawn + (shape s actor entries).sound.toNat
      rw [goes, ready.drawn, draws, unfolded]
      simp [Nat.add_assoc]
  case neg =>
    have fresh : newchase s actor = true := by
      rw [new]
      by_cases nonneg : actor.movecount.toInt - 1 ≥ 0
      · rw [decide_eq_true nonneg, Bool.eq_false_iff.2 fun walked => goesOn ⟨nonneg, walked⟩]
        rfl
      · rw [decide_eq_false nonneg]
        rfl
    have blocked : (if now.movecount < 0 then (false, now) else move s now) = (false, now) := by
      by_cases out : now.movecount < 0
      · rw [if_pos out]
      · rw [if_neg out, step, if_neg fun walked =>
          goesOn ⟨not_lt.1 ((neg walked).not.1 out), walked⟩]
    rw [blocked]
    dsimp only
    rw [if_neg Bool.false_ne_true]
    have fits := fits (by
      by_cases out : actor.movecount ≤ 0
      · exact .inl out
      · refine .inr (Bool.eq_false_iff.2 fun walked => goesOn ⟨?_, walked⟩)
        have above := Int32.lt_iff_toInt_lt.1 (Int32.not_le.1 out)
        rw [Int32.toInt_zero] at above
        omega)
    refine same_search fits plain ready fresh goes ?_
    rw [unjust]
    exact counted

/-- The chase towards the player, with its sound. -/
theorem same_walk {s : Setting} {actor now : Actor} {entries : Nat}
    (counts : walks s actor.movedir = true → actor.movecount ≠ Int32.minValue)
    (fits : actor.movecount ≤ 0 ∨ walks s actor.movedir = false → SearchFits s actor)
    (plain : Plain s now)
    (ready : Ready s actor now (shape s actor entries).missiledraw.toNat)
    (count : now.movecount = actor.movecount) (just : justattacked actor = false)
    (goes : stops s actor (shape s actor entries) = false) :
    Same actor (walk s now) (chased s actor entries) := by
  have sound : (shape s actor entries).sound = decide (s.info.activesound ≠ 0) := by
    show (!justattacked actor && _) = _
    rw [just]
    rfl
  rw [walk, draw_sound, ← sound]
  exact same_advance counts fits ⟨plain.ground, plain.still⟩
    ⟨ready.x, ready.y, ready.z, ready.floorz, ready.ceilingz, ready.subsector, ready.movedir,
      ready.reactiontime, ready.threshold, ready.entered, ready.drawn⟩ (by rw [← count]) just goes

/-- The actor a chase starts from, its counters run down. -/
def started (s : Setting) (actor : Actor) : Actor :=
  { actor with
    reactiontime := reactiontime actor
    threshold := if actor.threshold = 0 then 0
      else if s.target.health ≤ 0 then 0
      else actor.threshold - 1
    entered := none }

theorem ready_started (s : Setting) (actor : Actor) : Ready s actor (started s actor) 0 :=
  ⟨rfl, rfl, rfl, rfl, rfl, rfl, rfl, rfl, rfl, rfl, rfl⟩

/-- An attack enters a state and moves nothing. -/
theorem same_of_stops {s : Setting} {actor now : Actor} {entries : Nat}
    (ready : Ready s actor now (shape s actor entries).missiledraw.toNat)
    (count : now.movecount = actor.movecount)
    (goes : stops s actor (shape s actor entries) = true) (entered : Int32) (flags : Int32)
    (state : (chased s actor entries).state = some entered) :
    Same actor { now with entered := some entered, flags := flags } (chased s actor entries) := by
  have still : moved s actor (shape s actor entries) = false := by
    rw [stops, Bool.or_eq_true] at goes
    rcases goes with held | near <;> simp [moved, *]
  refine same_of_not_moved ready rfl still ?_ ?_ state ?_
  · rw [chased]
    simp only [goes, if_true]
    exact ready.movedir.symm
  · show Int32.ofInt (movecount s actor (shape s actor entries)) = now.movecount
    rw [movecount, goes, if_pos rfl, Int32.ofInt_toInt, count]
  · show actor.drawn + draws (shape s actor entries) (stops s actor (shape s actor entries)) =
      now.drawn
    rw [goes, ready.drawn, draws]
    rfl

/-- The branch of a thing that just attacked. -/
theorem same_justattacked {s : Setting} {actor : Actor} {entries : Nat}
    (fits : s.gameskill ≠ .nightmare → SearchFits s actor) (plain : Plain s actor) (just : justattacked actor = true) :
    Same actor
      (if s.gameskill ≠ .nightmare then
        newChaseDir s { started s actor with flags := actor.flags &&& ~~~mfJustattacked }
        else { started s actor with flags := actor.flags &&& ~~~mfJustattacked })
      (chased s actor entries) := by
  have melee : (shape s actor entries).melee = false := by
    show melee s actor = false
    rw [Chase.melee, just]
    rfl
  have asked : missileAsked s actor = false := by
    rw [missileAsked, just]
    rfl
  have hit : (shape s actor entries).missilehit = false := by
    show (missileAsked s actor && s.sight && _) = false
    rw [asked]
    rfl
  have drawn : (shape s actor entries).missiledraw = false := by
    show (missileAsked s actor && s.sight && _ && _ && _) = false
    rw [asked]
    rfl
  have sound : (shape s actor entries).sound = false := by
    show (!justattacked actor && _) = false
    rw [just]
    rfl
  have goes : stops s actor (shape s actor entries) = false := by
    rw [stops, attacked, hit, drawn, melee]
    rfl
  have justed : (shape s actor entries).justattacked = true := just
  have ready : Ready s actor { started s actor with flags := actor.flags &&& ~~~mfJustattacked }
      (shape s actor entries).missiledraw.toNat := by
    rw [drawn]
    exact ⟨rfl, rfl, rfl, rfl, rfl, rfl, rfl, rfl, rfl, rfl, rfl⟩
  have new : newchase s actor = decide (s.gameskill ≠ .nightmare) := by
    rw [newchase, just, if_pos rfl]
    cases s.gameskill <;> rfl
  by_cases skill : s.gameskill ≠ .nightmare
  case pos =>
    rw [if_pos skill]
    rw [decide_eq_true skill] at new
    have plain' : Plain s { started s actor with flags := actor.flags &&& ~~~mfJustattacked } :=
      ⟨and_and_eq_zero _ plain.ground, plain.still⟩
    have search := same_search (fits skill) plain' ready new goes (by
      rw [justed, if_pos rfl, Int32.ofInt_toInt]
      rfl)
    rw [sound] at search
    exact search
  case neg =>
    rw [if_neg skill]
    rw [decide_eq_false skill] at new
    have unfolded : (shape s actor entries).newchase = false := new
    have still : moved s actor (shape s actor entries) = false := by
      simp [moved, justed, unfolded]
    refine same_of_not_moved ready rfl still ?_ ?_ ?_ ?_
    · rw [chased]
      simp only [goes, unfolded, Bool.not_false, Bool.false_eq_true, if_false, if_true]
      rfl
    · show Int32.ofInt (movecount s actor (shape s actor entries)) = actor.movecount
      rw [movecount, goes, justed, still]
      exact Int32.ofInt_toInt _
    · rw [chased]
      simp only [attacked, hit, drawn, melee, Bool.false_and, Bool.or_false, Bool.false_eq_true,
        if_false]
      rfl
    · show actor.drawn + draws (shape s actor entries) (stops s actor (shape s actor entries)) =
        actor.drawn
      rw [goes, draws, unfolded, sound, drawn]
      rfl

/-- What `P_CheckMissileRange` answers, where the pass asks. -/
theorem checkMissileRange_cases {s : Setting} {actor now : Actor} (entries : Nat)
    (fits : s.sight = true → actor.flags &&& mfJusthit = 0 → reactiontime actor = 0 →
      DistanceFits s actor)
    (ready : Ready s actor now 0) (flags : now.flags = actor.flags)
    (asked : missileAsked s actor = true) :
    (checkMissileRange s now).1 = attacked s actor (shape s actor entries) ∧
      ∃ flags, (checkMissileRange s now).2 = { drew now (shape s actor entries).missiledraw.toNat with
        flags := flags } ∧ (flags = now.flags ∨ (checkMissileRange s now).1 = true) := by
  have hit : (shape s actor entries).missilehit =
      (s.sight && decide (actor.flags &&& mfJusthit ≠ 0)) := by
    show (missileAsked s actor && s.sight && _) = _
    rw [asked]
    rfl
  have drawn : (shape s actor entries).missiledraw =
      (s.sight && decide (actor.flags &&& mfJusthit = 0) && decide (reactiontime actor = 0) &&
        (missileRange s (distance s actor)).1) := by
    show (missileAsked s actor && s.sight && _ && _ && _) = _
    rw [asked]
    rfl
  have dist : (shape s actor entries).missiledist = (missileRange s (distance s actor)).2 := rfl
  rw [checkMissileRange, attacked, hit, drawn, dist, flags, ready.reactiontime]
  cases sight : s.sight with
  | false => exact ⟨rfl, now.flags, by simp [drew], .inl flags⟩
  | true =>
    by_cases justhit : actor.flags &&& mfJusthit = 0
    case neg =>
      refine ⟨by simp [justhit], actor.flags &&& ~~~mfJusthit, ?_, .inr (by simp [justhit])⟩
      simp [justhit, drew, ready.reactiontime]
    case pos =>
      by_cases waits : reactiontime actor = 0
      case neg =>
        exact ⟨by simp [justhit, waits], now.flags, by simp [justhit, waits, drew], .inl flags⟩
      case pos =>
        rcases missileDistance_eq (fits sight justhit waits) ready.x ready.y with ⟨none, far⟩ | ⟨dist, some, near, same⟩
        · exact ⟨by simp [justhit, waits, none, far], now.flags,
            by simp [justhit, waits, none, far, drew], .inl flags⟩
        · have small := number_lt s actor 0
          have value : (Int32.ofNat (number s actor 0)).toInt = number s actor 0 :=
            Int32.toInt_ofNat_of_lt (by omega)
          have drawsIt : (draw s now).1 = Int32.ofNat (number s actor 0) :=
            numberAfter_eq (s := s) ready.drawn 0
          have fires : (!decide ((draw s now).1 < dist)) =
              decide ((missileRange s (distance s actor)).2 ≤ (number s actor 0 : Int)) := by
            have below : (draw s now).1 < dist ↔
                (number s actor 0 : Int) < (missileRange s (distance s actor)).2 := by
              rw [drawsIt, Int32.lt_iff_toInt_lt, value, same]
            rw [decide_eq_decide.2 below, ← decide_not]
            exact decide_eq_decide.2 not_lt
          refine ⟨?_, now.flags, ?_, .inl flags⟩
          · simp only [justhit, waits, some, near, fires]
            simp
          · simp only [justhit, waits, some, near]
            simp [drew, draw]

/-- A missile check that is not asked draws nothing. -/
theorem not_asked {s : Setting} {actor : Actor} (entries : Nat)
    (asked : missileAsked s actor = false) :
    (shape s actor entries).missiledraw = false ∧
      attacked s actor (shape s actor entries) = false := by
  have hit : (shape s actor entries).missilehit = false := by
    show (missileAsked s actor && s.sight && _) = false
    rw [asked]
    rfl
  have drawn : (shape s actor entries).missiledraw = false := by
    show (missileAsked s actor && s.sight && _ && _ && _) = false
    rw [asked]
    rfl
  refine ⟨drawn, ?_⟩
  rw [attacked, hit, drawn]
  rfl

/-! ## Where nothing leaves 32 bits -/

/-- The melee range is asked. -/
def MeleeAsked (s : Setting) (actor : Actor) : Prop :=
  justattacked actor = false ∧ s.info.meleestate ≠ 0

/-- The missile range is asked: no fresh attack and none at hand, and the count allows it. -/
def MissileAsked (s : Setting) (actor : Actor) : Prop :=
  justattacked actor = false ∧ ¬(s.info.meleestate ≠ 0 ∧ checkMeleeRange s actor = true) ∧
    s.info.missilestate ≠ 0 ∧
    ¬(s.gameskill.value < Skill.nightmare.value ∧ actor.movecount ≠ 0)

/-- The chase walks: no fresh attack, none at hand, and no missile is fired. -/
def Advances (s : Setting) (actor : Actor) : Prop :=
  justattacked actor = false ∧ ¬(s.info.meleestate ≠ 0 ∧ checkMeleeRange s actor = true) ∧
    (s.info.missilestate ≠ 0 →
      ¬(s.gameskill.value < Skill.nightmare.value ∧ actor.movecount ≠ 0) →
      (checkMissileRange s (started s actor)).1 = false)

/-- A new direction is looked for: after an attack, or where the count is out or the old direction
cannot be walked. -/
def Searches (s : Setting) (actor : Actor) : Prop :=
  (justattacked actor = true ∧ s.gameskill ≠ .nightmare) ∨
    (Advances s actor ∧ (actor.movecount ≤ 0 ∨ walks s actor.movedir = false))

/-- What a chase compares, as far as it comes, stays in 32 bits. -/
structure Fits (s : Setting) (actor : Actor) : Prop where
  search : Searches s actor → SearchFits s actor
  radius : MeleeAsked s actor → s.sight = true → Fits32 (2883584 + s.target.radius.toInt)
  distance : MissileAsked s actor → s.sight = true → actor.flags &&& mfJusthit = 0 →
    reactiontime actor = 0 → DistanceFits s actor
  movecount : Advances s actor → walks s actor.movedir = true → actor.movecount ≠ Int32.minValue

theorem Fits.walk {s : Setting} {actor : Actor} (fits : Fits s actor)
    (advances : Advances s actor) :
    (walks s actor.movedir = true → actor.movecount ≠ Int32.minValue) ∧
      (actor.movecount ≤ 0 ∨ walks s actor.movedir = false → SearchFits s actor) :=
  ⟨fits.movecount advances, fun searches => fits.search (.inr ⟨advances, searches⟩)⟩

/-- `A_Chase` past its first lines, at a target that can be shot. -/
theorem chase_shootable {s : Setting} {actor : Actor}
    (shootable : ¬ s.target.flags &&& mfShootable = 0) :
    chase s actor =
      if actor.flags &&& mfJustattacked ≠ 0 then
        (if s.gameskill ≠ .nightmare then
          newChaseDir s { started s actor with flags := actor.flags &&& ~~~mfJustattacked }
          else { started s actor with flags := actor.flags &&& ~~~mfJustattacked })
      else if s.info.meleestate ≠ 0 ∧ checkMeleeRange s (started s actor) then
        { started s actor with entered := some s.info.meleestate }
      else if s.info.missilestate = 0 then walk s (started s actor)
      else if s.gameskill.value < Skill.nightmare.value ∧ actor.movecount ≠ 0 then
        walk s (started s actor)
      else if !(checkMissileRange s (started s actor)).1 then
        walk s (checkMissileRange s (started s actor)).2
      else { (checkMissileRange s (started s actor)).2 with
        entered := some s.info.missilestate
        flags := (checkMissileRange s (started s actor)).2.flags ||| mfJustattacked } :=
  if_neg shootable

theorem melee_eq {s : Setting} {actor : Actor} (fits : Fits s actor)
    (unjust : justattacked actor = false) :
    melee s actor = decide (s.info.meleestate ≠ 0 ∧
      checkMeleeRange s (started s actor) = true) := by
  by_cases armed : s.info.meleestate ≠ 0
  · have range : checkMeleeRange s (started s actor) =
        (decide (distance s actor < 2883584 + s.target.radius.toInt) && s.sight) :=
      checkMeleeRange_eq (fits.radius ⟨unjust, armed⟩) rfl rfl
    rw [melee, unjust, range, Bool.decide_and, Bool.decide_eq_true, Bool.and_assoc,
      Bool.not_false, Bool.true_and]
  · simp [melee, not_not.1 armed]

/-- Whether the missile check is asked at all. -/
theorem missileAsked_eq {s : Setting} {actor : Actor} (unjust : justattacked actor = false)
    (far : melee s actor = false) :
    missileAsked s actor = decide (s.info.missilestate ≠ 0 ∧
      ¬(s.gameskill.value < Skill.nightmare.value ∧ actor.movecount ≠ 0)) := by
  have skill : (s.gameskill.value.toInt < 4) ↔ s.gameskill.value < Skill.nightmare.value := by
    rw [Int32.lt_iff_toInt_lt]
    rfl
  rw [missileAsked, far, unjust, decide_eq_decide.2 skill]
  rw [Bool.decide_and, decide_not, decide_not (p := _ ∧ _), Bool.decide_and, decide_not,
    Bool.not_false, Bool.true_and, Bool.true_and]

/-- `A_Chase` and the pass leave the same, where the actor is not stuck and no answer reaches a
special line. -/
theorem chase_same {s : Setting} {actor : Actor} {entries : Nat} (fits : Fits s actor)
    (still : ∀ dir, (s.answers dir).spechit = [])
    (unstuck : (chased s actor entries).stuck = false) :
    Same actor (chase s actor) (chased s actor entries) := by
  obtain ⟨free, -⟩ := Bool.or_eq_false_iff.1 unstuck
  have free : (entries ≠ 1 || s.target.flags &&& mfShootable = 0 || actor.flags &&& mfFloat ≠ 0 ||
      s.target.flags &&& mfShadow ≠ 0 : Bool) = false := free
  simp only [Bool.or_eq_false_iff, decide_eq_false_iff_not, ne_eq, not_not] at free
  obtain ⟨⟨⟨-, shootable⟩, ground⟩, -⟩ := free
  have plain : Plain s (started s actor) := ⟨ground, still⟩
  rw [chase_shootable shootable]
  by_cases just : actor.flags &&& mfJustattacked ≠ 0
  case pos =>
    rw [if_pos just]
    exact same_justattacked (fun skill => fits.search (.inl ⟨decide_eq_true just, skill⟩))
      ⟨ground, still⟩ (decide_eq_true just)
  rw [if_neg just]
  have unjust : justattacked actor = false := decide_eq_false just
  have meleeEq := melee_eq fits unjust
  have meleeField : (shape s actor entries).melee = melee s actor := rfl
  by_cases near : s.info.meleestate ≠ 0 ∧ checkMeleeRange s (started s actor) = true
  case pos =>
    rw [if_pos near]
    rw [decide_eq_true near] at meleeEq
    have asked : missileAsked s actor = false := by
      rw [missileAsked, meleeEq, unjust]
      rfl
    obtain ⟨drawn, held⟩ := not_asked entries asked
    have ready : Ready s actor (started s actor) (shape s actor entries).missiledraw.toNat := by
      rw [drawn]
      exact ready_started s actor
    refine same_of_stops ready rfl ?_ _ _ ?_
    · rw [stops, held, meleeField, meleeEq]
      rfl
    · rw [chased]
      simp [held, meleeField, meleeEq]
  rw [if_neg near]
  rw [decide_eq_false near] at meleeEq
  have askedEq := missileAsked_eq unjust meleeEq
  by_cases asks : s.info.missilestate ≠ 0 ∧
      ¬(s.gameskill.value < Skill.nightmare.value ∧ actor.movecount ≠ 0)
  case neg =>
    have asked : missileAsked s actor = false := by rw [askedEq, decide_eq_false asks]
    obtain ⟨drawn, held⟩ := not_asked entries asked
    have goes : stops s actor (shape s actor entries) = false := by
      rw [stops, held, meleeField, meleeEq]
      rfl
    have ready : Ready s actor (started s actor) (shape s actor entries).missiledraw.toNat := by
      rw [drawn]
      exact ready_started s actor
    obtain ⟨counts, search⟩ := fits.walk ⟨unjust, near, fun fires rests => absurd ⟨fires, rests⟩ asks⟩
    have walks := same_walk counts search plain ready rfl unjust goes
    by_cases fires : s.info.missilestate = 0
    · rwa [if_pos fires]
    · have rests := not_not.1 fun h => asks ⟨fires, h⟩
      rwa [if_neg fires, if_pos rests]
  case pos =>
    have asked : missileAsked s actor = true := by rw [askedEq, decide_eq_true asks]
    obtain ⟨answer, flags, left, kept⟩ :=
      checkMissileRange_cases entries (fits.distance ⟨unjust, near, asks⟩) (ready_started s actor)
        rfl asked
    have ready : Ready s actor { drew (started s actor) (shape s actor entries).missiledraw.toNat with
        flags := flags } (shape s actor entries).missiledraw.toNat :=
      ⟨rfl, rfl, rfl, rfl, rfl, rfl, rfl, rfl, rfl, rfl, rfl⟩
    rw [if_neg asks.1, if_neg asks.2, left]
    cases fires : (checkMissileRange s (started s actor)).1 with
    | true =>
      rw [fires] at answer
      rw [Bool.not_true, if_neg Bool.false_ne_true]
      refine same_of_stops ready rfl ?_ _ _ ?_
      · rw [stops, ← answer]
        rfl
      · rw [chased]
        simp [← answer]
    | false =>
      rw [fires] at answer kept
      have same : flags = actor.flags := kept.resolve_right Bool.false_ne_true
      have goes : stops s actor (shape s actor entries) = false := by
        rw [stops, ← answer, meleeField, meleeEq]
        rfl
      obtain ⟨counts, search⟩ := fits.walk ⟨unjust, near, fun _ _ => fires⟩
      rw [Bool.not_false, if_pos rfl]
      exact same_walk counts search ⟨by rw [same]; exact ground, still⟩ ready rfl unjust goes

/-! ## The number of draws -/

/-- A setting that reads its random numbers from another table. -/
def redrawn (s : Setting) (rndtable : List UInt8) : Setting := { s with rndtable }

/-- Only the number the missile check draws decides how many are drawn. -/
theorem draws_redrawn {s : Setting} {actor : Actor} {entries : Nat} {rndtable : List UInt8}
    (missile : (shape s actor entries).missiledraw = true →
      number (redrawn s rndtable) actor 0 = number s actor 0) :
    (chased (redrawn s rndtable) actor entries).draws = (chased s actor entries).draws := by
  have shapes : shape (redrawn s rndtable) actor entries = shape s actor entries := rfl
  have answers : attacked (redrawn s rndtable) actor (shape s actor entries) =
      attacked s actor (shape s actor entries) := by
    rw [attacked, attacked]
    cases asked : (shape s actor entries).missiledraw with
    | false => rfl
    | true => rw [missile asked]
  show draws (shape (redrawn s rndtable) actor entries)
      (stops (redrawn s rndtable) actor (shape (redrawn s rndtable) actor entries)) = _
  rw [shapes, stops, answers]
  rfl

/-- A chase that is not stuck and reaches no special line walks the direction `A_Chase` does, with
its move count, its position and its draws, and the numbers drawn for the swap and for the sweep do
not change how many are drawn. -/
theorem chased_as_chase {s : Setting} {actor : Actor} {entries : Nat} (fits : Fits s actor)
    (still : ∀ dir, (s.answers dir).spechit = [])
    (unstuck : (chased s actor entries).stuck = false) :
    ((chased s actor entries).movedir = (chase s actor).movedir ∧
      (chased s actor entries).movecount = (chase s actor).movecount ∧
      (chased s actor entries).x = (chase s actor).x ∧
      (chased s actor entries).y = (chase s actor).y ∧
      (chased s actor entries).z = (chase s actor).z ∧
      actor.drawn + (chased s actor entries).draws = (chase s actor).drawn) ∧
      ∀ rndtable, ((shape s actor entries).missiledraw = true →
          number (redrawn s rndtable) actor 0 = number s actor 0) →
        (chased (redrawn s rndtable) actor entries).draws = (chased s actor entries).draws := by
  have same := chase_same fits still unstuck
  exact ⟨⟨same.movedir, same.movecount, same.x, same.y, same.z, same.draws⟩,
    fun _ missile => draws_redrawn missile⟩

/-- An open field: every direction can be walked, and the target is out of sight at an `x`. -/
def openField (x : Int32) : Setting where
  type := 1
  info := { speed := 8, meleestate := 0, missilestate := 184, activesound := 0 }
  target := { x, y := 0, radius := 16 * fracunit, flags := mfShootable, health := 100 }
  sight := false
  gameskill := .medium
  answers _ :=
    { ok := true, floorz := 0, ceilingz := 128 * fracunit, subsector := 0, floatok := false
      spechit := [] }
  uses _ := false
  looks := id
  rndtable := List.replicate 256 0
  prndindex := 0

/-- A mover at an `x`, whose move count is out. -/
def idle (x : Int32) : Actor where
  x
  y := 0
  z := 0
  floorz := 0
  ceilingz := 128 * fracunit
  subsector := 0
  movedir := noDir
  movecount := 0
  reactiontime := 0
  threshold := 0
  flags := 0
  entered := none
  drawn := 0

theorem fits_near : Fits (openField (1000 * fracunit)) (idle 0) where
  search _ := ⟨by decide, by decide, fun _ => by decide⟩
  radius asked := absurd rfl asked.2
  distance _ _ _ _ := by
    rw [DistanceFits]
    decide
  movecount _ _ := by decide

theorem chased_as_chase_near :
    ((chased (openField (1000 * fracunit)) (idle 0) 1).movedir =
        (chase (openField (1000 * fracunit)) (idle 0)).movedir ∧
      (chased (openField (1000 * fracunit)) (idle 0) 1).movecount =
        (chase (openField (1000 * fracunit)) (idle 0)).movecount ∧
      (chased (openField (1000 * fracunit)) (idle 0) 1).x =
        (chase (openField (1000 * fracunit)) (idle 0)).x ∧
      (chased (openField (1000 * fracunit)) (idle 0) 1).y =
        (chase (openField (1000 * fracunit)) (idle 0)).y ∧
      (chased (openField (1000 * fracunit)) (idle 0) 1).z =
        (chase (openField (1000 * fracunit)) (idle 0)).z ∧
      (idle 0).drawn + (chased (openField (1000 * fracunit)) (idle 0) 1).draws =
        (chase (openField (1000 * fracunit)) (idle 0)).drawn) ∧
      ∀ rndtable, ((shape (openField (1000 * fracunit)) (idle 0) 1).missiledraw = true →
          number (redrawn (openField (1000 * fracunit)) rndtable) (idle 0) 0 =
            number (openField (1000 * fracunit)) (idle 0) 0) →
        (chased (redrawn (openField (1000 * fracunit)) rndtable) (idle 0) 1).draws =
          (chased (openField (1000 * fracunit)) (idle 0) 1).draws :=
  chased_as_chase fits_near (fun _ => rfl) (by decide +kernel)

/-- A target 60000 units to the east: the difference of the engine's coordinates wraps, and the
engine goes west. -/
theorem chased_east :
    (chased (openField (30000 * fracunit)) (idle (-30000 * fracunit)) 1).stuck = false ∧
      (∀ dir, ((openField (30000 * fracunit)).answers dir).spechit = []) ∧
      (chased (openField (30000 * fracunit)) (idle (-30000 * fracunit)) 1).movedir = 0 ∧
      (chase (openField (30000 * fracunit)) (idle (-30000 * fracunit))).movedir = 4 :=
  ⟨by decide +kernel, fun _ => rfl, by decide +kernel, by decide +kernel⟩

end ClickDoom.Native.Chase

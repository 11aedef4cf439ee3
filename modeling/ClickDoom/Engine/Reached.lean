import ClickDoom.Base.Marks
import ClickDoom.Engine.Traverse

/-! # What the iterators hand on

The loop of `P_PathTraverse` as one list: block by block the lines not reached before and
then the things, each with the fraction it is added at.
-/
namespace ClickDoom.Engine

/-- The number of a block, unless the iterators return early for it. -/
def numberAt (map : Blockmap) (mapx mapy : Int) : Option Nat :=
  if mapx < 0 ∨ mapy < 0 ∨ mapx ≥ map.width ∨ mapy ≥ map.height then none
  else some (map.number ⟨mapx.toNat, mapy.toNat⟩)

/-- The numbers of the blocks the iterators do not return early for. -/
def onMap (map : Blockmap) (blocks : List (Int × Int)) : List Nat :=
  blocks.filterMap fun block => numberAt map block.1 block.2

/-- The things of a block, for a traversal that adds them. -/
def thingsOf (map : Blockmap) (things : Option (List Thing)) (number : Nat) : List Nat :=
  match things with
  | none => []
  | some things => blocklinks map things number

/-- What the blocks hand on, given the lines checked before. -/
def reached (level : PathLevel) (things : Option (List Thing)) :
    List Nat → List Nat → List Entry
  | _, [] => []
  | checked, number :: rest =>
    let lines := level.blockLines.getD number []
    (Marks.fresh checked lines).map Entry.line ++
      (thingsOf level.map things number).map Entry.thing ++
      reached level things (lines ++ checked) rest

/-- The intercept of an entry at its fraction. -/
def atFrac (frac : Entry → Option Int32) (entry : Entry) : Option Intercept :=
  (frac entry).map fun frac => ⟨frac, entry⟩

/-- `frac` is what the two routines add. -/
structure Adds (level : PathLevel) (things : Option (List Thing)) (trace : Divline)
    (frac : Entry → Option Int32) : Prop where
  line : ∀ number,
    addLineIntercepts trace (level.lines.getD number default) = .ok (frac (.line number))
  thing : ∀ slot thing, (things.getD [])[slot]? = some thing →
    addThingIntercepts trace thing = .ok (frac (.thing slot))

variable {level : PathLevel} {things : Option (List Thing)} {trace : Divline}
  {frac : Entry → Option Int32}

theorem Found.add_intercepts (found : Found) (entry : Entry) :
    found.add entry (frac entry) =
      { found with intercepts := found.intercepts ++ (atFrac frac entry).toList } := by
  rw [Found.add.eq_def, atFrac]
  cases frac entry with
  | none => simp
  | some frac => rfl

theorem foldlM_iterateLine (adds : Adds level things trace frac) (numbers : List Nat)
    (found : Found) :
    ∃ checked, (∀ number, number ∈ checked ↔ number ∈ numbers ++ found.checked) ∧
      numbers.foldlM (iterateLine level trace) found =
        .ok ⟨checked, found.intercepts ++
          ((Marks.fresh found.checked numbers).map Entry.line).filterMap (atFrac frac)⟩ := by
  induction numbers generalizing found with
  | nil => exact ⟨found.checked, by simp, by simp [Marks.fresh]; rfl⟩
  | cons number rest ih =>
    rw [List.foldlM_cons, iterateLine, Marks.fresh]
    split
    · rename_i visited
      obtain ⟨checked, members, eq⟩ := ih found
      refine ⟨checked, ?_, eq⟩
      intro other
      rw [members, List.cons_append, List.mem_cons]
      constructor
      · exact .inr
      · rintro (rfl | member)
        · exact List.mem_append_right _ visited
        · exact member
    · rw [adds.line, ok_bind]
      obtain ⟨checked, members, eq⟩ :=
        ih (Found.add { found with checked := number :: found.checked } (.line number)
          (frac (.line number)))
      rw [Found.add_intercepts] at members eq
      refine ⟨checked, ?_, ?_⟩
      · intro other
        rw [members]
        simp [or_left_comm]
      · rw [List.map_cons, List.filterMap_cons]
        show rest.foldlM (iterateLine level trace)
          (Found.add { found with checked := number :: found.checked } _ _) = _
        rw [Found.add_intercepts, eq]
        cases atFrac frac (.line number) <;> simp

theorem foldlM_iterateThing {list : List Thing} (adds : Adds level (some list) trace frac)
    {slots : List Nat} (there : ∀ slot ∈ slots, ∃ thing, list[slot]? = some thing)
    (found : Found) :
    slots.foldlM (iterateThing list trace) found =
      .ok { found with
        intercepts := found.intercepts ++
          (slots.map Entry.thing).filterMap (atFrac frac) } := by
  induction slots generalizing found with
  | nil => simp; rfl
  | cons slot rest ih =>
    obtain ⟨thing, eq⟩ := there slot List.mem_cons_self
    have read : readTable list slot = .ok thing := by
      rw [readTable, if_neg (by omega), Int.toNat_natCast, eq]
    have later := fun slot member => there slot (List.mem_cons_of_mem _ member)
    rw [List.foldlM_cons, iterateThing, read, ok_bind, adds.thing slot thing eq, ok_bind]
    refine (ih later _).trans ?_
    rw [Found.add_intercepts, List.map_cons, List.filterMap_cons]
    cases atFrac frac (.thing slot) <;> simp

theorem there_of_thingsOf {number slot : Nat} (member : slot ∈ thingsOf level.map things number) :
    ∃ thing, (things.getD [])[slot]? = some thing := by
  cases things with
  | none => cases member
  | some list =>
    obtain ⟨thing, eq, -⟩ := mem_blocklinks.1 member
    exact ⟨thing, eq⟩

/-- Both iterators at a block on the map. -/
theorem iterateBlock_eq (adds : Adds level things trace frac) {mapx mapy : Int} {number : Nat}
    (here : numberAt level.map mapx mapy = some number) (found : Found) :
    ∃ checked,
      (∀ line, line ∈ checked ↔ line ∈ level.blockLines.getD number [] ++ found.checked) ∧
      iterateBlock level things trace found mapx mapy =
        .ok ⟨checked, found.intercepts ++
          ((Marks.fresh found.checked (level.blockLines.getD number [])).map Entry.line ++
            (thingsOf level.map things number).map Entry.thing).filterMap (atFrac frac)⟩ := by
  rw [numberAt] at here
  split at here
  · cases here
  · rename_i inside
    have here := Option.some.inj here
    obtain ⟨checked, members, eq⟩ := foldlM_iterateLine adds (level.blockLines.getD number []) found
    refine ⟨checked, members, ?_⟩
    rw [iterateBlock, if_neg inside]
    simp only [here, eq, ok_bind]
    cases things with
    | none => simp [thingsOf]; rfl
    | some list =>
      have there : ∀ slot ∈ thingsOf level.map (some list) number,
          ∃ thing, list[slot]? = some thing := fun slot member => there_of_thingsOf member
      refine (foldlM_iterateThing adds there _).trans ?_
      simp

theorem reached_congr {checked checked' : List Nat}
    (same : ∀ line, line ∈ checked ↔ line ∈ checked') (numbers : List Nat) :
    reached level things checked numbers = reached level things checked' numbers := by
  induction numbers generalizing checked checked' with
  | nil => rfl
  | cons number rest ih =>
    have more : ∀ line, line ∈ level.blockLines.getD number [] ++ checked ↔
        line ∈ level.blockLines.getD number [] ++ checked' := by
      intro line
      rw [List.mem_append, List.mem_append, same]
    rw [reached, reached, Marks.fresh_congr same, ih more]

theorem mem_reached_thing {checked numbers : List Nat} {slot : Nat}
    (member : Entry.thing slot ∈ reached level things checked numbers) :
    ∃ thing, (things.getD [])[slot]? = some thing := by
  induction numbers generalizing checked with
  | nil => cases member
  | cons number rest ih =>
    rw [reached, List.mem_append, List.mem_append] at member
    rcases member with (line | thing) | later
    · simp at line
    · exact there_of_thingsOf (by simpa using thing)
    · exact ih later

/-- The whole loop. -/
theorem foldlM_iterateBlock (adds : Adds level things trace frac) (blocks : List (Int × Int))
    (found : Found) :
    ∃ checked,
      blocks.foldlM
          (fun found block => iterateBlock level things trace found block.1 block.2) found =
        .ok ⟨checked, found.intercepts ++
          (reached level things found.checked (onMap level.map blocks)).filterMap
            (atFrac frac)⟩ := by
  induction blocks generalizing found with
  | nil => exact ⟨found.checked, by simp [onMap, reached]; rfl⟩
  | cons block rest ih =>
    rw [List.foldlM_cons, onMap, List.filterMap_cons]
    cases here : numberAt level.map block.1 block.2 with
    | none =>
      have early : iterateBlock level things trace found block.1 block.2 = .ok found := by
        rw [numberAt] at here
        split at here
        · rw [iterateBlock, if_pos ‹_›]
        · cases here
      rw [early]
      exact ih found
    | some number =>
      obtain ⟨checked, members, eq⟩ := iterateBlock_eq adds here found
      obtain ⟨checked', eq'⟩ := ih ⟨checked, _⟩
      refine ⟨checked', ?_⟩
      rw [eq]
      refine eq'.trans ?_
      rw [reached, reached_congr members]
      simp [onMap]

/-- The intercepts a traversal along a path collects. -/
theorem collected_eq {p : Path} {x1 y1 x2 y2 : Int32}
    (eq : path level.map x1 y1 x2 y2 = .ok p) (adds : Adds level things p.trace frac) :
    collected level things x1 y1 x2 y2 =
      .ok ((reached level things [] (onMap level.map (visited p 64 p.start))).filterMap
        (atFrac frac)) := by
  obtain ⟨checked, loop⟩ := foldlM_iterateBlock adds (visited p 64 p.start) ⟨[], []⟩
  rw [collected, eq, ok_bind, walkBlocks_eq, loop]
  rfl

end ClickDoom.Engine

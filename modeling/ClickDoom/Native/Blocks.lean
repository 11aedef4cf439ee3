import ClickDoom.Base.StableSort
import ClickDoom.Engine.Blockmap

/-! # The things of a visited block

`things_in` of `native/src/sql/sim/map.rs` and `walked`, `cell_of` and `near` of
`native/src/sql/sim/maputl.rs`: a thing is looked for under one number,
`row * columns + column`, computed from where it stands without a test that the map
has such a row and column or that the thing is linked at all.
-/
namespace ClickDoom.Native.Blocks
open Engine (Blockmap Block Thing Entry)

/-- `cell_of`: the number a thing is looked for under.  The server's 64 bits hold every
value on the way. -/
def cellOf (map : Blockmap) (thing : Thing) : Int :=
  ((thing.y.toInt - map.orgy.toInt) >>> (23 : Nat)) * map.width +
    ((thing.x.toInt - map.orgx.toInt) >>> (23 : Nat))

/-- `near`: the things on the list under one of the numbers, with their slots. -/
def near (map : Blockmap) (cells : List Int) (things : List Thing) : List (Nat × Thing) :=
  (things.zipIdx.map Prod.swap).filter fun entry =>
    entry.2.alive && cells.contains (cellOf map entry.2)

/-- The things `walked` adds for a cell, the one linked last first. -/
def inBlock (map : Blockmap) (cells : List Int) (things : List Thing) (cell : Int) : List Nat :=
  (((near map cells things).filter fun entry => cellOf map entry.2 == cell).insertionSort
    fun a b => b.2.linkseq ≤ a.2.linkseq).map Prod.fst

/-- One block of the fold in `walked`: the lines not reached before, then the things. -/
def walkBlock (map : Blockmap) (lines : List (List Nat)) (cells : List Int)
    (things : List Thing) (walk : List Entry × List Nat) (cell : Int) : List Entry × List Nat :=
  let here := lines.getD cell.toNat []
  (walk.1 ++ (here.eraseDups.filter fun line => !walk.2.contains line).map Entry.line ++
    (inBlock map cells things cell).map Entry.thing, walk.2 ++ here)

/-- `walked` of a walk that adds things. -/
def walked (map : Blockmap) (lines : List (List Nat)) (cells : List Int)
    (things : List Thing) : List Entry :=
  (cells.foldl (walkBlock map lines cells things) ([], [])).1

/-- The sort key of `things_in`: the cell's place in the walk, then the link, last first. -/
def before (map : Blockmap) (cells : List Int) (a b : Nat × Thing) : Bool :=
  let placeA := cells.idxOf (cellOf map a.2)
  let placeB := cells.idxOf (cellOf map b.2)
  placeA < placeB || (placeA == placeB && b.2.linkseq ≤ a.2.linkseq)

/-- `things_in`. -/
def thingsIn (map : Blockmap) (cells : List Int) (things : List Thing) : List (Nat × Thing) :=
  (near map cells things).insertionSort fun a b => before map cells a b

/-- The things `things_in` reports for a cell. -/
def thingsAt (map : Blockmap) (cells : List Int) (things : List Thing) (cell : Int) : List Nat :=
  ((thingsIn map cells things).filter fun entry => cellOf map entry.2 == cell).map Prod.fst

/-! ## Who is reported -/

variable {map : Blockmap} {things : List Thing} {cells : List Int}

theorem mem_near {slot : Nat} {thing : Thing} :
    (slot, thing) ∈ near map cells things ↔
      things[slot]? = some thing ∧ thing.alive = true ∧ cellOf map thing ∈ cells := by
  simp [near, List.mem_zipIdx_iff_getElem?]

theorem mem_inBlock {slot : Nat} {cell : Int} :
    slot ∈ inBlock map cells things cell ↔
      ∃ thing, things[slot]? = some thing ∧ thing.alive = true ∧ cellOf map thing ∈ cells ∧
        cellOf map thing = cell := by
  simp [inBlock, mem_near, and_assoc]

theorem mem_thingsAt {slot : Nat} {cell : Int} :
    slot ∈ thingsAt map cells things cell ↔
      ∃ thing, things[slot]? = some thing ∧ thing.alive = true ∧ cellOf map thing ∈ cells ∧
        cellOf map thing = cell := by
  simp [thingsAt, thingsIn, mem_near, and_assoc]

/-- The things of the whole walk are those of its blocks. -/
theorem mem_walked_thing {lines : List (List Nat)} {slot : Nat} :
    Entry.thing slot ∈ walked map lines cells things ↔
      ∃ cell ∈ cells, slot ∈ inBlock map cells things cell := by
  have fold : ∀ (rest : List Int) (walk : List Entry × List Nat),
      Entry.thing slot ∈ (rest.foldl (walkBlock map lines cells things) walk).1 ↔
        Entry.thing slot ∈ walk.1 ∨ ∃ cell ∈ rest, slot ∈ inBlock map cells things cell := by
    intro rest
    induction rest with
    | nil => simp
    | cons cell rest ih =>
      intro walk
      rw [List.foldl_cons, ih]
      simp [walkBlock, or_assoc]
  rw [walked, fold]
  simp

/-! ## Distances that do not wrap -/

/-- Neither distance from the blockmap's origin leaves 32 bits. -/
def Fits (map : Blockmap) (thing : Thing) : Prop :=
  (thing.x - map.orgx).toInt = thing.x.toInt - map.orgx.toInt ∧
  (thing.y - map.orgy).toInt = thing.y.toInt - map.orgy.toInt

instance (map : Blockmap) (thing : Thing) : Decidable (Fits map thing) :=
  inferInstanceAs (Decidable (_ ∧ _))

theorem blockAt_eq {coordinate origin : Int32}
    (fits : (coordinate - origin).toInt = coordinate.toInt - origin.toInt) :
    Engine.blockAt coordinate origin = (coordinate.toInt - origin.toInt) >>> (23 : Nat) := by
  rw [Engine.blockAt, SignedWords.toInt_shiftRight (n := 23) rfl, fits, Int.shiftRight_eq_div_pow]
  norm_cast

/-- A row and a column inside the map are told apart by their number. -/
theorem number_injective {width x x' y y' : Nat} (hx : x < width) (hx' : x' < width)
    (eq : y * width + x = y' * width + x') : x = x' ∧ y = y' := by
  have column : x = x' := by
    have := congrArg (· % width) eq
    simpa [Nat.mod_eq_of_lt hx, Nat.mod_eq_of_lt hx'] using this
  have row : y = y' := by
    have := congrArg (· / width) eq
    have pos : 0 < width := by omega
    simpa [Nat.mul_comm _ width, Nat.mul_add_div pos, Nat.div_eq_of_lt hx, Nat.div_eq_of_lt hx']
      using this
  exact ⟨column, row⟩

/-- On the map and without a wrap, the number is the engine's. -/
theorem cellOf_eq {thing : Thing} {block : Block} (fits : Fits map thing)
    (found : map.blockOf thing = some block) : cellOf map thing = map.number block := by
  obtain ⟨hx, hy, -, -⟩ := Engine.blockOf_eq_some.1 found
  rw [cellOf, ← blockAt_eq fits.1, ← blockAt_eq fits.2, hx, hy, Blockmap.number]
  push_cast
  rfl

/-! ## When the two agree -/

/-- The blocks a walk visits: the iterators return early for one off the map. -/
def Visited (map : Blockmap) (blocks : List Block) : Prop :=
  ∀ block ∈ blocks, block.x < map.width ∧ block.y < map.height

/-- The numbers of the visited blocks. -/
def numbers (map : Blockmap) (blocks : List Block) : List Int :=
  blocks.map fun block => (map.number block : Int)

/-- Each visited block is reported with exactly the things of its list, and a thing
reported at all is reported in one block. -/
structure Agrees (map : Blockmap) (blocks : List Block) (things : List Thing) : Prop where
  thingsIn : ∀ block ∈ blocks, ∀ slot,
    slot ∈ thingsAt map (numbers map blocks) things (map.number block) ↔
      slot ∈ Engine.blocklinks map things (map.number block)
  walked : ∀ block ∈ blocks, ∀ slot,
    slot ∈ inBlock map (numbers map blocks) things (map.number block) ↔
      slot ∈ Engine.blocklinks map things (map.number block)
  once : ∀ slot thing, (slot, thing) ∈ Blocks.thingsIn map (numbers map blocks) things →
    ∃! block, block ∈ blocks ∧
      slot ∈ thingsAt map (numbers map blocks) things (map.number block)

/-- Both distances wrap, by amounts that cancel in the number: the map is one column wide. -/
def Cancels (map : Blockmap) (thing : Thing) : Prop :=
  map.width = 1 ∧
    (thing.x.toInt - map.orgx.toInt) + (thing.y.toInt - map.orgy.toInt) =
      (thing.x - map.orgx).toInt + (thing.y - map.orgy).toInt

/-- No thing strays into the block: whatever has its number is linked and on the map, and
none whose distances wrap has its number or is linked in it, unless the wraps cancel. -/
def Clean (map : Blockmap) (things : List Thing) (block : Block) : Prop :=
  ∀ thing ∈ things, thing.alive = true →
    (cellOf map thing = map.number block →
      thing.noblockmap = false ∧ (map.blockOf thing).isSome) ∧
    (¬Fits map thing → cellOf map thing = map.number block ∨
      (thing.noblockmap = false ∧ map.blockOf thing = some block) → Cancels map thing)

/-- The number says the block, and the block the number. -/
def Told (map : Blockmap) (things : List Thing) (block : Block) : Prop :=
  ∀ thing ∈ things, thing.alive = true →
    (cellOf map thing = map.number block ↔
      thing.noblockmap = false ∧ map.blockOf thing = some block)

theorem block_eq_of_number {block block' : Block} (inside : block.x < map.width)
    (inside' : block'.x < map.width) (eq : map.number block = map.number block') :
    block = block' := by
  obtain ⟨hx, hy⟩ := number_injective inside inside' eq
  cases block
  cases block'
  simp_all

/-- A wrap moves a block by 512. -/
theorem blockAt_wrapped (coordinate origin : Int32) :
    ∃ wraps : Int, coordinate.toInt - origin.toInt =
        (coordinate - origin).toInt + 4294967296 * wraps ∧ -1 ≤ wraps ∧ wraps ≤ 1 ∧
      (coordinate.toInt - origin.toInt) >>> (23 : Nat) =
        Engine.blockAt coordinate origin + 512 * wraps := by
  obtain ⟨low, high⟩ := And.intro coordinate.le_toInt coordinate.toInt_lt
  obtain ⟨low', high'⟩ := And.intro origin.le_toInt origin.toInt_lt
  obtain ⟨low'', high''⟩ := And.intro (coordinate - origin).le_toInt (coordinate - origin).toInt_lt
  obtain ⟨wraps, eq⟩ : ∃ wraps : Int, coordinate.toInt - origin.toInt =
      (coordinate - origin).toInt + 4294967296 * wraps := by
    rw [Int32.toInt_sub, Int.bmod_def]
    have part := Int.emod_add_mul_ediv (coordinate.toInt - origin.toInt) 4294967296
    split
    · exact ⟨(coordinate.toInt - origin.toInt) / 4294967296, by norm_num; omega⟩
    · exact ⟨(coordinate.toInt - origin.toInt) / 4294967296 + 1, by norm_num; omega⟩
  refine ⟨wraps, eq, by omega, by omega, ?_⟩
  rw [Engine.blockAt, SignedWords.toInt_shiftRight (n := 23) rfl, Int.shiftRight_eq_div_pow, eq]
  norm_num
  omega

/-- Where a distance wraps the number says the engine's block just when the wraps cancel. -/
theorem cellOf_eq_iff_cancels {thing : Thing} {block : Block} (wraps : ¬Fits map thing)
    (found : map.blockOf thing = some block) :
    cellOf map thing = map.number block ↔ Cancels map thing := by
  obtain ⟨hx, hy, width, -⟩ := Engine.blockOf_eq_some.1 found
  obtain ⟨east, eqx, lowx, highx, column⟩ := blockAt_wrapped thing.x map.orgx
  obtain ⟨north, eqy, lowy, highy, row⟩ := blockAt_wrapped thing.y map.orgy
  have some : east ≠ 0 ∨ north ≠ 0 := by
    by_contra none
    rw [not_or, not_not, not_not] at none
    exact wraps ⟨by rw [eqx, none.1]; ring, by rw [eqy, none.2]; ring⟩
  have number : cellOf map thing = map.number block + 512 * (north * map.width + east) := by
    rw [cellOf, column, row, hx, hy, Blockmap.number]
    push_cast
    ring
  rw [number, Cancels, eqx, eqy]
  constructor
  · intro same
    have cancel : north * map.width + east = 0 := by omega
    have one : map.width = 1 := by
      rcases (by omega : north = -1 ∨ north = 0 ∨ north = 1) with rfl | rfl | rfl <;> omega
    rw [one] at cancel
    exact ⟨one, by push_cast at cancel; omega⟩
  · rintro ⟨one, sum⟩
    rw [one]
    push_cast
    omega

theorem told_iff_clean {block : Block} (inside : block.x < map.width) :
    Told map things block ↔ Clean map things block := by
  constructor
  · intro told thing member alive
    have iff := told thing member alive
    refine ⟨fun same => ?_, fun wraps either => ?_⟩
    · obtain ⟨linked, found⟩ := iff.1 same
      exact ⟨linked, by rw [found]; rfl⟩
    · have same : cellOf map thing = map.number block := either.elim id iff.2
      exact (cellOf_eq_iff_cancels wraps (iff.1 same).2).1 same
  · intro clean thing member alive
    obtain ⟨strays, cancels⟩ := clean thing member alive
    -- on the map the number is that of the thing's own block, or is moved by a wrap
    have own : ∀ block', map.blockOf thing = some block' →
        (¬Fits map thing → Cancels map thing) → cellOf map thing = map.number block' := by
      intro block' found cancelled
      by_cases fits : Fits map thing
      · exact cellOf_eq fits found
      · exact (cellOf_eq_iff_cancels fits found).2 (cancelled fits)
    constructor
    · intro same
      obtain ⟨linked, found⟩ := strays same
      obtain ⟨block', found⟩ := Option.isSome_iff_exists.1 found
      have eq : map.number block' = map.number block := by
        exact_mod_cast (own block' found fun wraps => cancels wraps (.inl same)).symm.trans same
      have inside' := (Engine.blockOf_eq_some.1 found).2.2.1
      exact ⟨linked, block_eq_of_number inside' inside eq ▸ found⟩
    · rintro ⟨linked, found⟩
      exact own block found fun wraps => cancels wraps (.inr ⟨linked, found⟩)

theorem mem_blocklinks_number {block : Block} (inside : block.x < map.width) {slot : Nat} :
    slot ∈ Engine.blocklinks map things (map.number block) ↔
      ∃ thing, things[slot]? = some thing ∧ thing.alive = true ∧
        thing.noblockmap = false ∧ map.blockOf thing = some block := by
  rw [Engine.mem_blocklinks]
  constructor
  · rintro ⟨thing, at', alive, linked, block', found, same⟩
    have inside' := (Engine.blockOf_eq_some.1 found).2.2.1
    exact ⟨thing, at', alive, linked, block_eq_of_number inside inside' same ▸ found⟩
  · rintro ⟨thing, at', alive, linked, found⟩
    exact ⟨thing, at', alive, linked, block, found, rfl⟩

/-- A slot reported under the number of a visited block. -/
theorem reported_iff {block : Block} {blocks : List Block} (member : block ∈ blocks) {slot : Nat} :
    (∃ thing, things[slot]? = some thing ∧ thing.alive = true ∧
        cellOf map thing ∈ numbers map blocks ∧ cellOf map thing = map.number block) ↔
      ∃ thing, things[slot]? = some thing ∧ thing.alive = true ∧
        cellOf map thing = map.number block := by
  have visited : (map.number block : Int) ∈ numbers map blocks :=
    List.mem_map.2 ⟨block, member, rfl⟩
  constructor
  · rintro ⟨thing, at', alive, -, same⟩
    exact ⟨thing, at', alive, same⟩
  · rintro ⟨thing, at', alive, same⟩
    exact ⟨thing, at', alive, same ▸ visited, same⟩

theorem told_iff_reported {block : Block} (inside : block.x < map.width) :
    Told map things block ↔ ∀ slot : Nat,
      (∃ thing, things[slot]? = some thing ∧ thing.alive = true ∧
        cellOf map thing = map.number block) ↔
      slot ∈ Engine.blocklinks map things (map.number block) := by
  simp only [mem_blocklinks_number inside]
  constructor
  · intro told slot
    constructor
    · rintro ⟨thing, at', alive, same⟩
      exact ⟨thing, at', alive, (told thing (List.mem_of_getElem? at') alive).1 same⟩
    · rintro ⟨thing, at', alive, linked⟩
      exact ⟨thing, at', alive, (told thing (List.mem_of_getElem? at') alive).2 linked⟩
  · intro reported thing member alive
    obtain ⟨slot, at'⟩ := List.getElem?_of_mem member
    constructor
    · intro same
      obtain ⟨thing', again, -, linked⟩ := (reported slot).1 ⟨thing, at', alive, same⟩
      cases at'.symm.trans again
      exact linked
    · intro linked
      obtain ⟨thing', again, -, same⟩ := (reported slot).2 ⟨thing, at', alive, linked⟩
      cases at'.symm.trans again
      exact same

/-- A thing has one number, so it is reported in one block. -/
theorem reported_once {blocks : List Block} (visited : Visited map blocks) {slot : Nat}
    {thing : Thing} (reported : (slot, thing) ∈ thingsIn map (numbers map blocks) things) :
    ∃! block, block ∈ blocks ∧
      slot ∈ thingsAt map (numbers map blocks) things (map.number block) := by
  have found : things[slot]? = some thing ∧ thing.alive = true ∧
      cellOf map thing ∈ numbers map blocks := by
    simpa [thingsIn, mem_near] using reported
  obtain ⟨at', alive, numbered⟩ := found
  obtain ⟨block, member, same⟩ := List.mem_map.1 numbered
  refine ⟨block, ⟨member, mem_thingsAt.2 ⟨thing, at', alive, numbered, same.symm⟩⟩, ?_⟩
  rintro block' ⟨member', reported'⟩
  obtain ⟨thing', again, -, -, same'⟩ := mem_thingsAt.1 reported'
  cases at'.symm.trans again
  refine block_eq_of_number (visited block' member').1 (visited block member).1 ?_
  exact_mod_cast same'.symm.trans same.symm

/-- The things reported for every visited block are those of the engine's lists exactly
when no thing strays into one. -/
theorem agrees_iff_clean {map : Blockmap} {blocks : List Block} (visited : Visited map blocks)
    (things : List Thing) :
    Agrees map blocks things ↔ ∀ block ∈ blocks, Clean map things block := by
  constructor
  · intro agrees block member
    rw [← told_iff_clean (visited block member).1, told_iff_reported (visited block member).1]
    intro slot
    rw [← reported_iff member, ← mem_thingsAt]
    exact agrees.thingsIn block member slot
  · intro clean
    have told : ∀ block ∈ blocks, ∀ slot : Nat, _ := fun block member =>
      (told_iff_reported (visited block member).1).1
        ((told_iff_clean (visited block member).1).2 (clean block member))
    refine ⟨fun block member slot => ?_, fun block member slot => ?_, fun slot thing => ?_⟩
    · rw [mem_thingsAt, reported_iff member]
      exact told block member slot
    · rw [mem_inBlock, reported_iff member]
      exact told block member slot
    · exact reported_once visited

/-! ## In the order of the links -/

/-- Each thing on the list is looked for under the block that holds it, and no two were linked
at once. -/
structure Ordered (map : Blockmap) (things : List Thing) : Prop where
  held : ∀ thing ∈ things, thing.alive = true → ∀ number : Nat,
    (cellOf map thing == (number : Int)) = map.holds number thing
  apart : (things.filter (·.alive)).Pairwise fun a b => a.linkseq ≠ b.linkseq

theorem cellOf_beq {thing : Thing} (fits : Fits map thing) (linked : thing.noblockmap = false)
    (found : (map.blockOf thing).isSome = true) (number : Nat) :
    (cellOf map thing == (number : Int)) = map.holds number thing := by
  obtain ⟨block, found⟩ := Option.isSome_iff_exists.1 found
  rw [Blockmap.holds, linked, found, cellOf_eq fits found]
  simp [Bool.beq_eq_decide_eq, eq_comm]

theorem snd_mem_of_slots {things : List Thing} {entry : Nat × Thing}
    (member : entry ∈ things.zipIdx.map Prod.swap) : entry.2 ∈ things := by
  obtain ⟨⟨thing, slot⟩, zipped, rfl⟩ := List.mem_map.1 member
  exact List.fst_mem_of_mem_zipIdx zipped

theorem Ordered.slots_apart (ordered : Ordered map things) :
    ((things.zipIdx.map Prod.swap).filter fun entry => entry.2.alive).Pairwise
      fun a b => a.2.linkseq ≠ b.2.linkseq := by
  have slots : (things.zipIdx.map Prod.swap).map Prod.snd = things := by
    rw [List.map_map]
    exact List.zipIdx_map_fst 0 things
  have apart := ordered.apart
  rw [← slots, List.filter_map, List.pairwise_map] at apart
  exact apart

/-- The things of a visited block are the block's list. -/
theorem Ordered.inBlock_eq (ordered : Ordered map things) {cells : List Int} {number : Nat}
    (visited : (number : Int) ∈ cells) :
    inBlock map cells things number = Engine.blocklinks map things number := by
  have same : ((near map cells things).filter fun entry =>
        cellOf map entry.2 == (number : Int)) =
      ((things.zipIdx.map Prod.swap).filter fun entry => entry.2.alive).filter
        fun entry => map.holds number entry.2 := by
    rw [near, List.filter_filter, List.filter_filter]
    apply List.filter_congr
    intro entry member
    cases alive : entry.2.alive with
    | false => simp
    | true =>
      rw [← ordered.held _ (snd_mem_of_slots member) alive]
      by_cases here : cellOf map entry.2 = number
      · simp [here, visited]
      · simp [here]
  rw [inBlock, same, Engine.blocklinks, Engine.foldl_setThingPosition, Engine.linkOrder,
    StableSort.reverse_filter_insertionSort _ ordered.slots_apart, List.append_nil]

/-- The things of a walk are its blocks' lists one after the other. -/
theorem Ordered.thingsIn_eq (ordered : Ordered map things) {numbers : List Nat}
    (nodup : numbers.Nodup) :
    (thingsIn map (numbers.map Nat.cast) things).map Prod.fst =
      numbers.flatMap (Engine.blocklinks map things) := by
  have apart : (near map (numbers.map Nat.cast) things).Pairwise
      fun a b => a.2.linkseq ≠ b.2.linkseq := by
    have both : near map (numbers.map Nat.cast) things =
        ((things.zipIdx.map Prod.swap).filter fun entry => entry.2.alive).filter
          fun entry => (numbers.map Nat.cast).contains (cellOf map entry.2) := by
      rw [near, List.filter_filter]
      exact List.filter_congr fun entry _ => Bool.and_comm ..
    rw [both]
    exact ordered.slots_apart.filter _
  have groups : thingsIn map (numbers.map Nat.cast) things =
      (numbers.map (Nat.cast : Nat → Int)).flatMap fun cell =>
        ((near map (numbers.map Nat.cast) things).filter fun entry =>
          cellOf map entry.2 == cell).insertionSort fun a b => b.2.linkseq ≤ a.2.linkseq := by
    refine StableSort.insertionSort_grouped (fun entry : Nat × Thing => cellOf map entry.2)
      (fun entry => entry.2.linkseq) ?_ ?_ ?_ apart
    · intro a b
      simp [before]
    · exact nodup.map Nat.cast_injective
    · intro entry member
      have := (List.mem_filter.1 member).2
      simp only [Bool.and_eq_true, List.contains_iff_mem] at this
      exact this.2
  rw [groups, List.map_flatMap, List.flatMap_map]
  apply List.flatMap_congr
  intro number member
  exact ordered.inBlock_eq (List.mem_map_of_mem member)

/-! ## A thing off the map -/

/-- Two columns by two rows from the origin. -/
def twoByTwo : Blockmap := ⟨0, 0, 2, 2⟩

/-- A thing in the first column, one east of the map in the row below, and a missile. -/
def strayThings : List Thing :=
  [⟨0, 9437184, 0, 0, true, false⟩, ⟨17825792, 0, 0, 1, true, false⟩,
    ⟨0, 9437184, 0, 2, true, true⟩]

theorem clean_first : Clean twoByTwo [⟨0, 9437184, 0, 0, true, false⟩] ⟨0, 1⟩ := by
  intro thing member _
  rw [List.mem_singleton] at member
  subst member
  exact ⟨fun _ => by decide, fun wraps => absurd (by decide) wraps⟩

/-- Alone on the map, the thing is reported as the engine's list has it. -/
theorem agrees_first : Agrees twoByTwo [⟨0, 1⟩] [⟨0, 9437184, 0, 0, true, false⟩] :=
  (agrees_iff_clean (by simp [Visited, twoByTwo]) _).2
    (by simpa using clean_first)

/-- The thing off the map and the unlinked missile are both reported in block (0, 1),
whose list holds only the first thing. -/
theorem strays_reported :
    thingsAt twoByTwo (numbers twoByTwo [⟨0, 1⟩]) strayThings 2 = [2, 1, 0] ∧
    inBlock twoByTwo (numbers twoByTwo [⟨0, 1⟩]) strayThings 2 = [2, 1, 0] ∧
    Engine.blocklinks twoByTwo strayThings 2 = [0] := by
  decide

end ClickDoom.Native.Blocks

import ClickDoom.Refemu.ProbeWalk

/-! # The mobjs of the level setup

`setup_things` as the contract of `spec/src/native_state.rs` has it, how many of the mobjs the level
setup spawned are still on the thinker list, against what the probe reads off the position of the
first sector thinker and against the column `now_setup_things` of `native/src/sql/sim/mobj.rs`.

`P_LoadThings` adds the mobjs of a level, `P_SpawnSpecials` its sector thinkers after them, and play
appends to the list, marks thinkers removed and unlinks the removed ones.
-/
namespace ClickDoom.Probe

/-- A thinker on the engine's list. -/
structure Entry where
  addr : Word
  sector : Bool
  setup : Bool
  removed : Bool
  deriving DecidableEq, Repr

/-- The list as the level setup leaves it. -/
def levelSetup (mobjs sectors : List Word) : List Entry :=
  mobjs.map (⟨·, false, true, false⟩) ++ sectors.map (⟨·, true, true, false⟩)

/-- What play does to the list. -/
inductive Play
  | addThinker (addr : Word) (sector : Bool)
  | removeThinker (addr : Word)
  | unlink (addr : Word)

/-- `P_AddThinker`, `P_RemoveThinker` and the unlinking in `P_RunThinkers`. -/
def play (list : List Entry) : Play → List Entry
  | .addThinker addr sector => list ++ [⟨addr, sector, false, false⟩]
  | .removeThinker addr =>
    list.map fun entry => if entry.addr = addr then { entry with removed := true } else entry
  | .unlink addr => list.filter fun entry => ¬(entry.addr = addr ∧ entry.removed)

/-- The thinkers still on the list. -/
def live (list : List Entry) : List Entry := list.filter (!·.removed)

/-- The contract's `setup_things`. -/
def setupThings (list : List Entry) : Nat :=
  ((live list).filter fun entry => entry.setup ∧ ¬entry.sector).length

/-! ## The order of the list -/

/-- The setup's mobjs, then its sector thinkers, then what play added. -/
def Entry.rank (entry : Entry) : Nat :=
  if entry.setup then (if entry.sector then 1 else 0) else 2

/-- The list is in the order its thinkers were added. -/
def InOrder (list : List Entry) : Prop := list.Pairwise fun a b => a.rank ≤ b.rank

theorem inOrder_levelSetup (mobjs sectors : List Word) : InOrder (levelSetup mobjs sectors) := by
  refine List.pairwise_append.2 ⟨?_, ?_, ?_⟩
  · exact List.pairwise_map.2 (List.pairwise_of_forall fun _ _ => le_refl 0)
  · exact List.pairwise_map.2 (List.pairwise_of_forall fun _ _ => le_refl 1)
  · intro a first b second
    obtain ⟨_, -, rfl⟩ := List.mem_map.1 first
    exact Nat.zero_le _

theorem rank_le_two (entry : Entry) : entry.rank ≤ 2 := by
  rw [Entry.rank]
  split
  · split <;> omega
  · exact le_refl 2

theorem InOrder.play {list : List Entry} (ordered : InOrder list) (step : Play) :
    InOrder (play list step) := by
  cases step with
  | addThinker addr sector =>
    refine List.pairwise_append.2 ⟨ordered, List.pairwise_singleton _ _, ?_⟩
    intro a _ b last
    cases List.mem_singleton.1 last
    exact rank_le_two a
  | removeThinker addr =>
    refine List.pairwise_map.2 (ordered.imp fun {a b} less => ?_)
    have same : ∀ entry : Entry,
        (if entry.addr = addr then { entry with removed := true } else entry).rank = entry.rank := by
      intro entry
      split <;> rfl
    rw [same, same]
    exact less
  | unlink addr => exact ordered.filter _

/-- The order holds in every run. -/
theorem inOrder_plays (mobjs sectors : List Word) (steps : List Play) :
    InOrder (steps.foldl play (levelSetup mobjs sectors)) := by
  induction steps using List.reverseRecOn with
  | nil => exact inOrder_levelSetup mobjs sectors
  | append_singleton steps step ih =>
    rw [List.foldl_append]
    exact ih.play step

/-! ## What the probe infers -/

/-- The mobjs ahead of the first sector thinker. -/
def ahead (list : List Entry) : List Entry := (live list).takeWhile (!·.sector)

/-- No mobj of the setup stands behind a sector thinker. -/
theorem filter_setup_takeWhile {list : List Entry} (ordered : InOrder list) :
    (list.takeWhile (!·.sector)).filter (·.setup) =
      list.filter fun entry => entry.setup ∧ ¬entry.sector := by
  induction list with
  | nil => rfl
  | cons entry rest ih =>
    obtain ⟨least, ordered⟩ := List.pairwise_cons.1 ordered
    rw [List.takeWhile_cons]
    by_cases sector : entry.sector = true
    · have none : (entry :: rest).filter (fun entry => entry.setup ∧ ¬entry.sector) = [] := by
        refine List.filter_eq_nil_iff.2 fun other there => ?_
        have above : entry.rank ≤ other.rank := by
          rcases List.mem_cons.1 there with rfl | later
          · exact le_refl _
          · exact least other later
        have ranked : 1 ≤ entry.rank := by
          rw [Entry.rank, if_pos sector]
          split <;> omega
        intro mobj
        simp only [decide_eq_true_eq] at mobj
        have zero : other.rank = 0 := by simp [Entry.rank, mobj]
        omega
      rw [none]
      simp [sector]
    · have plain : entry.sector = false := by simpa using sector
      simp only [plain, Bool.not_false, if_true, List.filter_cons, ih ordered, Bool.false_eq_true,
        not_false_eq_true, and_true, Bool.decide_eq_true]

/-- What stands ahead is the setup's mobjs and those of play among them. -/
theorem length_ahead {list : List Entry} (ordered : InOrder list) :
    (ahead list).length = setupThings list + ((ahead list).filter (!·.setup)).length := by
  have kept : InOrder (live list) := ordered.filter _
  rw [List.length_eq_length_filter_add (fun entry : Entry => entry.setup), setupThings, ahead,
    filter_setup_takeWhile kept]

theorem split_foldl_push (list : List Thinker) (walk : Walking) :
    (list.foldl Walking.push walk).finish.setupThings =
      walk.split.getD (walk.mobjs.length + (list.takeWhile (·.kind = .mobj)).length) := by
  induction list generalizing walk with
  | nil => rfl
  | cons thinker rest ih =>
    rw [List.foldl_cons, ih, Walking.push, List.takeWhile_cons]
    by_cases mobj : thinker.kind = .mobj
    · simp only [mobj, if_true, decide_true, List.length_append, List.length_cons, List.length_nil]
      congr 1
      omega
    · simp [mobj]

/-- RAM holds the list: a circle of its entries, a removed one marked and any other one named as
what it is. -/
structure Stored (engine : Engine) (ram : Ram) (list : List Entry) : Prop where
  circular : Circular engine ram (list.map Entry.addr)
  short : list.length < thinkerLimit
  tables : ∀ addr ∈ tableAddresses engine, (ram.word? addr).isSome
  removed : ∀ entry ∈ list, entry.removed →
    functionOf engine ram entry.addr = some thinkerRemoved
  runs : ∀ entry ∈ list, ¬entry.removed → ∃ thinker,
    thinkerAt engine ram entry.addr = some thinker ∧ (thinker.kind = .mobj ↔ ¬entry.sector)

variable {engine : Engine} {ram : Ram}

theorem named_of_removed {entry : Word} (marked : functionOf engine ram entry = some thinkerRemoved) :
    named engine ram entry := by
  rw [named_of_function marked]
  simp

theorem named_of_thinkerAt {entry : Word} {thinker : Thinker}
    (found : thinkerAt engine ram entry = some thinker) : named engine ram entry := by
  rw [thinkerAt] at found
  split at found
  · cases found
  · rename_i function read
    rw [named_of_function read]
    split at found
    · cases found
    · obtain ⟨kind, named, -⟩ := Option.map_eq_some_iff.1 found
      simp [named]

theorem Stored.named {list : List Entry} (stored : Stored engine ram list) :
    ∀ entry ∈ list.map Entry.addr, named engine ram entry := by
  intro addr there
  obtain ⟨entry, mem, rfl⟩ := List.mem_map.1 there
  by_cases gone : entry.removed = true
  · exact named_of_removed (stored.removed entry mem gone)
  · obtain ⟨thinker, found, -⟩ := stored.runs entry mem gone
    exact named_of_thinkerAt found

/-- The walk counts the mobjs ahead of the first sector thinker. -/
theorem length_takeWhile_thinkers {list : List Entry}
    (removed : ∀ entry ∈ list, entry.removed →
      functionOf engine ram entry.addr = some thinkerRemoved)
    (runs : ∀ entry ∈ list, ¬entry.removed → ∃ thinker,
      thinkerAt engine ram entry.addr = some thinker ∧ (thinker.kind = .mobj ↔ ¬entry.sector)) :
    ((thinkers engine ram (list.map Entry.addr)).takeWhile (·.kind = .mobj)).length =
      (ahead list).length := by
  induction list with
  | nil => rfl
  | cons entry rest ih =>
    have ih := ih (fun e h => removed e (List.mem_cons_of_mem _ h))
      fun e h => runs e (List.mem_cons_of_mem _ h)
    rw [thinkers, List.map_cons, List.filterMap_cons, ← thinkers, ahead, live, List.filter_cons]
    by_cases gone : entry.removed = true
    · have none : thinkerAt engine ram entry.addr = none := by
        rw [thinkerAt, removed entry List.mem_cons_self gone]
        exact if_pos rfl
      simp only [none, gone, Bool.not_true, Bool.false_eq_true, if_false]
      exact ih
    · obtain ⟨thinker, found, kind⟩ := runs entry List.mem_cons_self gone
      have stays : entry.removed = false := by simpa using gone
      simp only [found, stays, Bool.not_false, if_true, List.takeWhile_cons]
      by_cases sector : entry.sector = true
      · simp [sector, kind]
      · have plain : entry.sector = false := by simpa using sector
        simp only [plain, Bool.not_false, if_true, kind, Bool.false_eq_true, not_false_eq_true,
          decide_true, List.length_cons]
        exact congrArg (· + 1) ih

theorem walk_stored {list : List Entry} (stored : Stored engine ram list) :
    ∃ walked, walk engine ram = .ok walked ∧ walked.setupThings = (ahead list).length := by
  refine ⟨_, walk_circular stored.circular (by simpa using stored.short) stored.named
    stored.tables, ?_⟩
  rw [split_foldl_push]
  exact (Nat.zero_add _).trans (length_takeWhile_thinkers stored.removed stored.runs)

/-! ## The column of the query -/

/-- `now_setup_things`: the kept ones among the first slots. -/
def nowSetupThings (setupThings : Nat) (kept : List Nat) : Nat := (kept.take setupThings).sum

/-- The mobj slots of the query, in list order. -/
def mobjSlots (list : List Entry) : List Entry := (live list).filter (!·.sector)

/-- The list without the mobjs a tic's compaction drops. -/
def compacted (keep : Entry → Bool) (list : List Entry) : List Entry :=
  list.filter fun entry => entry.sector || keep entry

/-- Among mobjs in order those of the setup are the first ones. -/
theorem take_setup {list : List Entry} (ordered : InOrder list)
    (mobjs : ∀ entry ∈ list, entry.sector = false) :
    list.take (list.filter (·.setup)).length = list.filter (·.setup) := by
  induction list with
  | nil => rfl
  | cons entry rest ih =>
    obtain ⟨least, ordered⟩ := List.pairwise_cons.1 ordered
    obtain ⟨plain, mobjs⟩ := List.forall_mem_cons.1 mobjs
    by_cases setup : entry.setup = true
    · simp only [List.filter_cons, setup, if_true, List.length_cons, List.take_succ_cons,
        ih ordered mobjs]
    · have none : (entry :: rest).filter (·.setup) = [] := by
        refine List.filter_eq_nil_iff.2 fun other there first => ?_
        rcases List.mem_cons.1 there with rfl | later
        · exact setup first
        · have above := least other later
          have plain' := mobjs other later
          simp only [Entry.rank, setup, first, plain', if_true, if_false, Bool.false_eq_true] at above
          omega
      rw [none]
      rfl

/-- The column goes on counting the mobjs of the setup. -/
theorem nowSetupThings_eq {list : List Entry} (ordered : InOrder list) (keep : Entry → Bool) :
    nowSetupThings (setupThings list) ((mobjSlots list).map fun entry => (keep entry).toNat) =
      setupThings (compacted keep list) := by
  have inMobjs : InOrder (mobjSlots list) := (ordered.filter _).filter _
  have mobjs : ∀ entry ∈ mobjSlots list, entry.sector = false := fun entry there => by
    simpa using (List.mem_filter.1 there).2
  have first : (live list).filter (fun entry => entry.setup ∧ ¬entry.sector) =
      (mobjSlots list).filter (·.setup) := by
    rw [mobjSlots, List.filter_filter]
    exact List.filter_congr fun entry _ => by cases entry.setup <;> cases entry.sector <;> rfl
  rw [nowSetupThings, setupThings, first, ← List.map_take, take_setup inMobjs mobjs]
  have counted : ∀ slots : List Entry, (slots.map fun entry => (keep entry).toNat).sum =
      (slots.filter keep).length := by
    intro slots
    induction slots with
    | nil => rfl
    | cons entry rest ih =>
      rw [List.map_cons, List.sum_cons, ih, List.filter_cons]
      cases keep entry
      · exact Nat.zero_add _
      · exact Nat.add_comm _ _
  rw [counted, setupThings, live, compacted, mobjSlots, live]
  simp only [List.filter_filter]
  congr 1
  exact List.filter_congr fun entry _ => by
    cases entry.setup <;> cases entry.sector <;> cases entry.removed <;> cases keep entry <;> rfl

/-- In every run the column counts what the contract says, from the mobjs of the level on; the
probe's count is that number exactly where no mobj of play is ahead of every sector thinker. -/
theorem setupThings_iff (mobjs sectors : List Word) (steps : List Play)
    (stored : Stored engine ram (steps.foldl play (levelSetup mobjs sectors))) :
    (∃ walked, walk engine ram = .ok walked ∧
      (walked.setupThings = setupThings (steps.foldl play (levelSetup mobjs sectors)) ↔
        ∀ entry ∈ ahead (steps.foldl play (levelSetup mobjs sectors)), entry.setup)) ∧
    setupThings (levelSetup mobjs sectors) = mobjs.length ∧
    ∀ keep : Entry → Bool, nowSetupThings (setupThings (steps.foldl play (levelSetup mobjs sectors)))
        ((mobjSlots (steps.foldl play (levelSetup mobjs sectors))).map fun entry =>
          (keep entry).toNat) =
      setupThings (compacted keep (steps.foldl play (levelSetup mobjs sectors))) := by
  have ordered := inOrder_plays mobjs sectors steps
  refine ⟨?_, ?_, nowSetupThings_eq ordered⟩
  · obtain ⟨walked, ends, counts⟩ := walk_stored stored
    refine ⟨walked, ends, ?_⟩
    rw [counts, length_ahead ordered, Nat.add_eq_left, List.length_eq_zero_iff,
      List.filter_eq_nil_iff]
    simp
  · rw [setupThings, levelSetup, live]
    simp [List.filter_append, List.filter_map, Function.comp_def]

/-! ## A level without sector thinkers -/

/-- A layout that knows mobjs only. -/
def mobjEngine : Engine := { bareEngine with byFunction := [(0x80001000, .mobj)] }

/-- The head, a mobj of the level and one that play added. -/
def twoMobjs : Ram where
  base := 0x80000000
  bytes := [0, 0, 0, 0, 0x0C, 0, 0, 0x80, 0, 0, 0, 0, 0, 0, 0, 0, 0x18, 0, 0, 0x80, 0, 0x10, 0, 0x80,
    0, 0, 0, 0, 0, 0, 0, 0x80, 0, 0x10, 0, 0x80]

theorem stored_twoMobjs : Stored mobjEngine twoMobjs
    ([Play.addThinker 0x80000018 false].foldl play (levelSetup [0x8000000C] [])) where
  circular := ⟨0x8000000C, by decide, rfl, by decide, 0x80000018, by decide, rfl, by decide,
    0x80000000, by decide, rfl⟩
  short := by decide
  tables := by decide
  removed := by decide
  runs := by
    intro entry there _
    fin_cases there
    · exact ⟨⟨0x8000000C, .mobj, true⟩, by decide, by decide⟩
    · exact ⟨⟨0x80000018, .mobj, true⟩, by decide, by decide⟩

/-- The probe counts the mobj of play as one of the level's. -/
theorem twoMobjs_counted : Stored mobjEngine twoMobjs
      ([Play.addThinker 0x80000018 false].foldl play (levelSetup [0x8000000C] [])) ∧
    (∃ walked, walk mobjEngine twoMobjs = .ok walked ∧ walked.setupThings = 2) ∧
    setupThings ([Play.addThinker 0x80000018 false].foldl play (levelSetup [0x8000000C] [])) = 1 := by
  refine ⟨stored_twoMobjs, ?_, by decide⟩
  obtain ⟨walked, ends, counts⟩ := walk_stored stored_twoMobjs
  exact ⟨walked, ends, counts⟩

/-- There the count is off because the mobj of play is ahead of every sector thinker. -/
theorem twoMobjs_ahead : ∃ walked, walk mobjEngine twoMobjs = .ok walked ∧
    (walked.setupThings =
        setupThings ([Play.addThinker 0x80000018 false].foldl play (levelSetup [0x8000000C] [])) ↔
      ∀ entry ∈ ahead ([Play.addThinker 0x80000018 false].foldl play (levelSetup [0x8000000C] [])),
        entry.setup) :=
  (setupThings_iff [0x8000000C] [] [.addThinker 0x80000018 false] stored_twoMobjs).1

end ClickDoom.Probe

import ClickDoom.Refemu.Probe

/-! # What the walk of the thinker list reads

The links are followed here over unbounded addresses: a word of RAM is there or not, and a list of
addresses fits when no address up to the first one outside RAM passes 32 bits.  Against that, the
walk ends without a panic exactly where the addresses it comes to fit, and where the links return
to `thinkercap` it holds the thinkers in list order.
-/
namespace ClickDoom.Probe
open Panics (Safe)

/-! ## Words of RAM -/

/-- The word at an address, if the address has 32 bits and the word is inside RAM. -/
def Ram.word? (ram : Ram) (addr : Nat) : Option Word :=
  if addr < 2 ^ 32 ∧ ram.base.toNat ≤ addr ∧ addr - ram.base.toNat + 4 ≤ ram.bytes.length then
    some (readLe ram.bytes (BitVec.ofNat 32 (addr - ram.base.toNat)) .word)
  else none

/-- A read at a sum that has not been cut to 32 bits. -/
def look (ram : Ram) (addr : Nat) (what : String) : Panics ProbeError Word :=
  match ram.word? addr with
  | some word => .ok word
  | none =>
    if addr < 2 ^ 32 then Panics.fail (.outsideRam (BitVec.ofNat 32 addr) 4 what)
    else .error .panic

variable {engine : Engine} {ram : Ram}

theorem u32_eq_look (ram : Ram) (addr : Word) (what : String) :
    ram.u32 addr what = look ram addr.toNat what := by
  have small := addr.isLt
  rw [Ram.u32, look, Ram.word?]
  by_cases above : ram.base ≤ addr
  · have below : ram.base.toNat ≤ addr.toNat := above
    have offset : (addr - ram.base).toNat = addr.toNat - ram.base.toNat :=
      BitVec.toNat_sub_of_le above
    by_cases room : (addr - ram.base).toNat + 4 ≤ ram.bytes.length
    · rw [if_pos ⟨above, room⟩, if_pos ⟨small, below, by omega⟩, ← offset, BitVec.ofNat_toNat,
        BitVec.setWidth_eq]
    · rw [if_neg (fun h => room h.2), if_neg (by omega)]
      simp [small]
  · have under : ¬ram.base.toNat ≤ addr.toNat := above
    rw [if_neg (fun h => above h.1), if_neg (fun h => under h.2.1)]
    simp [small]

/-- A sum that passes 32 bits is a panic, and any other read is one of RAM. -/
theorem readAt_eq_look (ram : Ram) (at' offset : Word) (what : String) :
    readAt ram at' offset what = look ram (at'.toNat + offset.toNat) what := by
  rw [readAt, add32]
  by_cases fits : at'.toNat + offset.toNat < 2 ^ 32
  · have sum : (at' + offset).toNat = at'.toNat + offset.toNat := by
      rw [BitVec.toNat_add, Nat.mod_eq_of_lt fits]
    rw [if_pos fits, Panics.ok_bind, u32_eq_look, sum]
  · rw [if_neg fits, look, Ram.word?, if_neg (fun h => fits h.1)]
    simp only [if_neg fits]
    rfl

theorem lt_of_word? {addr : Nat} {word : Word} (found : ram.word? addr = some word) :
    addr < 2 ^ 32 := by
  rw [Ram.word?] at found
  split at found
  · rename_i inside
    exact inside.1
  · cases found

theorem safe_look {addr : Nat} {what : String} : Safe (look ram addr what) ↔ addr < 2 ^ 32 := by
  rw [look]
  cases found : ram.word? addr with
  | some word => exact ⟨fun _ => lt_of_word? found, fun _ => Panics.safe_ok word⟩
  | none =>
    by_cases fits : addr < 2 ^ 32
    · simp only [if_pos fits]
      exact ⟨fun _ => fits, fun _ => Panics.safe_fail _⟩
    · simp only [if_neg fits]
      exact ⟨fun safe => absurd rfl safe, fun h => absurd h fits⟩

theorem look_eq_ok {addr : Nat} {what : String} {word : Word} :
    look ram addr what = .ok word ↔ ram.word? addr = some word := by
  rw [look]
  cases ram.word? addr with
  | some found =>
    simp only [Except.ok.injEq, Option.some.injEq]
  | none =>
    by_cases fits : addr < 2 ^ 32
    · simp only [if_pos fits]
      exact ⟨nofun, nofun⟩
    · simp only [if_neg fits]
      exact ⟨nofun, nofun⟩

/-- Taken in order up to the first one outside RAM, the addresses stay within 32 bits. -/
def Fit (ram : Ram) : List Nat → Prop
  | [] => True
  | addr :: rest => addr < 2 ^ 32 ∧ ((ram.word? addr).isSome → Fit ram rest)

theorem fit_append (front back : List Nat) :
    Fit ram (front ++ back) ↔
      Fit ram front ∧ ((∀ addr ∈ front, (ram.word? addr).isSome) → Fit ram back) := by
  induction front with
  | nil => simp [Fit]
  | cons addr rest ih =>
    simp only [List.cons_append, Fit, ih, List.forall_mem_cons]
    grind

/-! ## The tables -/

/-- The addresses of a table's entries. -/
def Global.addresses (table : Global) : List Nat :=
  (List.range table.count.toNat).map fun index => table.addr.toNat + index * 4

/-- The addresses read before the first link is followed. -/
def tableAddresses (engine : Engine) : List Nat :=
  engine.activeplats.addresses ++ engine.activeceilings.addresses

/-- What a table adds: its entries that are not null, the later ones first. -/
def stops (ram : Ram) (kind : ThinkerKind) (addresses : List Nat)
    (kinds : List (Word × ThinkerKind)) : List (Word × ThinkerKind) :=
  addresses.foldl (fun kinds addr =>
    match ram.word? addr with
    | some entry => if entry ≠ 0 then (entry, kind) :: kinds else kinds
    | none => kinds) kinds

/-- What the engine's two tables say of the thinkers with no function. -/
def inStasis (engine : Engine) (ram : Ram) : List (Word × ThinkerKind) :=
  stops ram .ceiling engine.activeceilings.addresses
    (stops ram .plat engine.activeplats.addresses [])

/-- One entry of a table, at the address its index gives. -/
theorem tableEntry_eq_look (ram : Ram) (table : Global) {index : Nat} (small : index < 2 ^ 32)
    (what : String) :
    (do let offset ← mul32 (BitVec.ofNat 32 index) 4
        let addr ← add32 table.addr offset
        ram.u32 addr what) = look ram (table.addr.toNat + index * 4) what := by
  have number : (BitVec.ofNat 32 index).toNat = index := Nat.mod_eq_of_lt small
  rw [mul32, number]
  by_cases fits : index * (4 : Word).toNat < 2 ^ 32
  · have product : (BitVec.ofNat 32 index * 4 : Word).toNat = index * 4 := by
      rw [BitVec.toNat_mul, number, Nat.mod_eq_of_lt fits]
      rfl
    rw [if_pos fits, Panics.ok_bind, ← readAt, readAt_eq_look, product]
  · have passes : ¬table.addr.toNat + index * 4 < 2 ^ 32 := fun h =>
      fits (lt_of_le_of_lt (Nat.le_add_left _ _) h)
    rw [if_neg fits, look, Ram.word?, if_neg (fun h => passes h.1)]
    simp only [if_neg passes]
    rfl

theorem stasisTable_cons (ram : Ram) (table : Global) (kind : ThinkerKind) (what : String)
    {index : Nat} (small : index < 2 ^ 32) (rest : List Nat) (kinds : List (Word × ThinkerKind)) :
    stasisTable ram table kind what (index :: rest) kinds =
      look ram (table.addr.toNat + index * 4) what >>= fun entry =>
        stasisTable ram table kind what rest
          (if entry ≠ 0 then (entry, kind) :: kinds else kinds) := by
  rw [stasisTable, ← tableEntry_eq_look ram table small]
  simp only [bind_assoc]

theorem safe_stasisTable (ram : Ram) (table : Global) (kind : ThinkerKind) (what : String)
    (indices : List Nat) (small : ∀ index ∈ indices, index < 2 ^ 32)
    (kinds : List (Word × ThinkerKind)) :
    Safe (stasisTable ram table kind what indices kinds) ↔
      Fit ram (indices.map fun index => table.addr.toNat + index * 4) := by
  induction indices generalizing kinds with
  | nil => exact ⟨fun _ => trivial, fun _ => Panics.safe_ok kinds⟩
  | cons index rest ih =>
    have ih := ih fun index h => small index (List.mem_cons_of_mem _ h)
    rw [stasisTable_cons ram table kind what (small index List.mem_cons_self),
      Panics.safe_bind_iff, safe_look, List.map_cons, Fit]
    simp only [ih, look_eq_ok, Option.isSome_iff_exists, forall_exists_index]

theorem stasisTable_eq_ok (ram : Ram) (table : Global) (kind : ThinkerKind) (what : String)
    (indices : List Nat) (small : ∀ index ∈ indices, index < 2 ^ 32)
    (kinds found : List (Word × ThinkerKind)) :
    stasisTable ram table kind what indices kinds = .ok found ↔
      (∀ addr ∈ indices.map fun index => table.addr.toNat + index * 4,
        (ram.word? addr).isSome) ∧
      found = stops ram kind (indices.map fun index => table.addr.toNat + index * 4) kinds := by
  induction indices generalizing kinds with
  | nil =>
    simp only [stasisTable, stops, List.map_nil, List.foldl_nil, Except.ok.injEq, List.not_mem_nil,
      false_implies, implies_true, true_and]
    exact eq_comm
  | cons index rest ih =>
    have ih := ih fun index h => small index (List.mem_cons_of_mem _ h)
    rw [stasisTable_cons ram table kind what (small index List.mem_cons_self), List.map_cons,
      List.forall_mem_cons, stops, List.foldl_cons, ← stops]
    cases read : ram.word? (table.addr.toNat + index * 4) with
    | none =>
      simp only [Option.isSome_none, Bool.false_eq_true, false_and, iff_false]
      intro ends
      obtain ⟨entry, entered, -⟩ := Panics.bind_ok ends
      rw [look_eq_ok, read] at entered
      cases entered
    | some entry =>
      rw [(look_eq_ok).2 read, Panics.ok_bind, ih]
      simp only [Option.isSome_some, true_and]

theorem range_small (count : Word) : ∀ index ∈ List.range count.toNat, index < 2 ^ 32 :=
  fun _ h => (List.mem_range.1 h).trans count.isLt

theorem stasisKinds_eq_ok {found : List (Word × ThinkerKind)} :
    stasisKinds engine ram = .ok found ↔
      (∀ addr ∈ tableAddresses engine, (ram.word? addr).isSome) ∧ found = inStasis engine ram := by
  rw [tableAddresses, List.forall_mem_append, inStasis, stasisKinds]
  constructor
  · intro ends
    obtain ⟨plats, first, second⟩ := Panics.bind_ok ends
    obtain ⟨platsRead, rfl⟩ := (stasisTable_eq_ok _ _ _ _ _ (range_small _) _ _).1 first
    obtain ⟨ceilingsRead, rfl⟩ := (stasisTable_eq_ok _ _ _ _ _ (range_small _) _ _).1 second
    exact ⟨⟨platsRead, ceilingsRead⟩, rfl⟩
  · rintro ⟨⟨platsRead, ceilingsRead⟩, rfl⟩
    rw [(stasisTable_eq_ok _ _ _ _ _ (range_small _) _ _).2 ⟨platsRead, rfl⟩, Panics.ok_bind]
    exact (stasisTable_eq_ok _ _ _ _ _ (range_small _) _ _).2 ⟨ceilingsRead, rfl⟩

theorem safe_stasisKinds : Safe (stasisKinds engine ram) ↔ Fit ram (tableAddresses engine) := by
  rw [stasisKinds, Panics.safe_bind_iff, tableAddresses, fit_append,
    safe_stasisTable _ _ _ _ _ (range_small _)]
  simp only [safe_stasisTable _ _ _ _ _ (range_small _),
    stasisTable_eq_ok _ _ _ _ _ (range_small _)]
  constructor
  · rintro ⟨plats, ceilings⟩
    exact ⟨plats, fun read => ceilings _ ⟨read, rfl⟩⟩
  · rintro ⟨plats, ceilings⟩
    exact ⟨plats, fun _ read => ceilings read.1⟩

/-! ## Following the links -/

variable (engine ram)

/-- The `next` link of an entry. -/
def link (entry : Word) : Option Word := ram.word? (entry.toNat + engine.next.toNat)

/-- The function word of an entry. -/
def functionOf (entry : Word) : Option Word := ram.word? (entry.toNat + engine.function.toNat)

/-- An entry that is removed, or that its function word or a table names. -/
def named (entry : Word) : Bool :=
  match functionOf engine ram entry with
  | none => false
  | some function =>
    function = thinkerRemoved ∨ (kindOf engine (inStasis engine ram) entry function).isSome

/-- The thinker at an entry, none where it is removed. -/
def thinkerAt (entry : Word) : Option Thinker :=
  match functionOf engine ram entry with
  | none => none
  | some function =>
    if function = thinkerRemoved then none
    else (kindOf engine (inStasis engine ram) entry function).map fun kind =>
      ⟨entry, kind.1, kind.2⟩

/-- The entry so many links on, if the walk gets there. -/
def follow : Nat → Word → Option Word
  | 0, entry => some entry
  | links + 1, entry =>
    if entry ≠ engine.thinkercap ∧ named engine ram entry then
      (link engine ram entry).bind (follow links)
    else none

/-- The entry the walk comes to after so many others. -/
def comesTo (visited : Nat) : Option Word :=
  if ∀ addr ∈ tableAddresses engine, (ram.word? addr).isSome then
    (link engine ram engine.thinkercap).bind (follow engine ram visited)
  else none

/-- The words of an entry the walk reads have addresses of 32 bits. -/
def Clear (entry : Word) : Prop :=
  entry ≠ engine.thinkercap →
    entry.toNat + engine.function.toNat < 2 ^ 32 ∧
    (named engine ram entry → entry.toNat + engine.next.toNat < 2 ^ 32)

/-- Every address the walk forms stays within 32 bits. -/
structure Fits : Prop where
  start : Fit ram (tableAddresses engine ++ [engine.thinkercap.toNat + engine.next.toNat])
  entries : ∀ visited < thinkerLimit, ∀ entry,
    comesTo engine ram visited = some entry → Clear engine ram entry

variable {engine ram}

theorem forall_follow_succ (left : Nat) (at' : Word) :
    (∀ visited < left + 1, ∀ entry, follow engine ram visited at' = some entry →
      Clear engine ram entry) ↔
    Clear engine ram at' ∧ (at' ≠ engine.thinkercap → named engine ram at' →
      ∀ next, link engine ram at' = some next → ∀ visited < left, ∀ entry,
        follow engine ram visited next = some entry → Clear engine ram entry) := by
  constructor
  · intro all
    refine ⟨all 0 (Nat.succ_pos _) at' rfl, ?_⟩
    intro inside known next linked visited less entry there
    refine all (visited + 1) (Nat.succ_lt_succ less) entry ?_
    rw [follow, if_pos ⟨inside, known⟩, linked]
    exact there
  · rintro ⟨here, later⟩ visited less entry there
    cases visited with
    | zero =>
      cases there
      exact here
    | succ visited =>
      rw [follow] at there
      split at there
      · rename_i goes
        obtain ⟨next, linked, there⟩ := Option.bind_eq_some_iff.1 there
        exact later goes.1 goes.2 next linked visited (Nat.lt_of_succ_lt_succ less) entry there
      · cases there

theorem named_of_function {entry function : Word}
    (read : functionOf engine ram entry = some function) :
    named engine ram entry = decide (function = thinkerRemoved ∨
      (kindOf engine (inStasis engine ram) entry function).isSome) := by
  rw [named, read]

/-- The loop panics exactly where an entry it comes to is not clear. -/
theorem safe_walkFrom (left : Nat) (at' : Word) (walk : Walking) :
    Safe (walkFrom engine ram (inStasis engine ram) left at' walk) ↔
      ∀ visited < left, ∀ entry, follow engine ram visited at' = some entry →
        Clear engine ram entry := by
  induction left generalizing at' walk with
  | zero =>
    refine ⟨fun _ visited none => absurd none (Nat.not_lt_zero visited), fun _ => ?_⟩
    rw [walkFrom]
    split
    · exact Panics.safe_ok walk
    · exact Panics.safe_fail _
  | succ left ih =>
    rw [forall_follow_succ, walkFrom, Clear]
    by_cases cap : at' = engine.thinkercap
    · rw [if_pos cap]
      exact ⟨fun _ => ⟨fun h => absurd cap h, fun h => absurd cap h⟩, fun _ => Panics.safe_ok walk⟩
    · rw [if_neg cap, Panics.safe_bind_iff, readAt_eq_look, safe_look]
      simp only [look_eq_ok, ne_eq, cap, not_false_eq_true, forall_const]
      rw [and_assoc]
      refine and_congr_right fun _ => ?_
      cases read : functionOf engine ram at' with
      | none =>
        have unnamed : named engine ram at' = false := by rw [named, read]
        rw [functionOf] at read
        simp [read, unnamed]
      | some function =>
        have name := named_of_function read
        rw [functionOf] at read
        rw [read, name]
        simp only [Option.some.injEq, forall_eq']
        by_cases removed : function = thinkerRemoved
        · rw [if_pos removed, Panics.safe_bind_iff, readAt_eq_look, safe_look]
          simp only [look_eq_ok, removed, true_or, decide_true, forall_const, ih, link]
        · rw [if_neg removed]
          cases kind : kindOf engine (inStasis engine ram) at' function with
          | none => simp [removed, Panics.safe_fail]
          | some found =>
            rw [Panics.safe_bind_iff, readAt_eq_look, safe_look]
            simp only [look_eq_ok, Option.isSome_some, or_true, decide_true, forall_const, ih, link]

theorem safe_walk : Safe (walk engine ram) ↔ Fits engine ram := by
  rw [walk, Panics.safe_bind_iff, safe_stasisKinds]
  simp only [stasisKinds_eq_ok, Panics.safe_bind_iff, readAt_eq_look, safe_look, look_eq_ok]
  constructor
  · rintro ⟨tables, rest⟩
    refine ⟨(fit_append _ _).2 ⟨tables, fun read => ⟨(rest _ ⟨read, rfl⟩).1, fun _ => trivial⟩⟩, ?_⟩
    intro visited less entry there
    rw [comesTo] at there
    split at there
    · rename_i read
      obtain ⟨first, linked, there⟩ := Option.bind_eq_some_iff.1 there
      exact (safe_walkFrom _ _ _).1 ((rest _ ⟨read, rfl⟩).2 first linked).1 visited less entry there
    · cases there
  · rintro ⟨start, entries⟩
    obtain ⟨tables, first⟩ := (fit_append _ _).1 start
    refine ⟨tables, ?_⟩
    rintro kinds ⟨read, rfl⟩
    refine ⟨(first read).1, fun next linked => ⟨(safe_walkFrom _ _ _).2 ?_, fun _ _ => Panics.safe_ok _⟩⟩
    intro visited less entry there
    refine entries visited less entry ?_
    rw [comesTo, if_pos read, link, linked]
    exact there

/-! ## A list that returns to its head -/

variable (engine ram) in
/-- From here the links go through the entries, in this order, and then to `thinkercap`. -/
def LinkedFrom : Word → List Word → Prop
  | at', [] => at' = engine.thinkercap
  | at', entry :: rest =>
    at' = entry ∧ entry ≠ engine.thinkercap ∧
      ∃ next, link engine ram entry = some next ∧ LinkedFrom next rest

variable (engine ram) in
/-- The links from `thinkercap` go through the entries and back to it. -/
def Circular (entries : List Word) : Prop :=
  ∃ first, link engine ram engine.thinkercap = some first ∧ LinkedFrom engine ram first entries

theorem LinkedFrom.unique {at' : Word} {entries others : List Word}
    (h : LinkedFrom engine ram at' entries) (h' : LinkedFrom engine ram at' others) :
    entries = others := by
  induction entries generalizing at' others with
  | nil =>
    cases others with
    | nil => rfl
    | cons other rest =>
      obtain ⟨rfl, inside, -⟩ := h'
      exact absurd h inside
  | cons entry rest ih =>
    obtain ⟨rfl, inside, next, linked, later⟩ := h
    cases others with
    | nil => exact absurd h' inside
    | cons other rest' =>
      obtain ⟨rfl, -, next', linked', later'⟩ := h'
      rw [linked] at linked'
      cases linked'
      rw [ih later later']

theorem LinkedFrom.suffix {at' entry : Word} {front back : List Word}
    (h : LinkedFrom engine ram at' (front ++ entry :: back)) :
    LinkedFrom engine ram entry (entry :: back) := by
  induction front generalizing at' with
  | nil =>
    obtain ⟨rfl, rest⟩ := h
    exact ⟨rfl, rest⟩
  | cons first rest ih =>
    obtain ⟨-, -, next, -, later⟩ := h
    exact ih later

/-- An entry met twice would lead round again and never back to the head. -/
theorem LinkedFrom.nodup {at' : Word} {entries : List Word}
    (h : LinkedFrom engine ram at' entries) : entries.Nodup := by
  induction entries generalizing at' with
  | nil => exact List.nodup_nil
  | cons entry rest ih =>
    obtain ⟨rfl, inside, next, linked, later⟩ := h
    refine List.nodup_cons.2 ⟨fun again => ?_, ih later⟩
    obtain ⟨front, back, rfl⟩ := List.append_of_mem again
    have round : LinkedFrom engine ram at' (at' :: (front ++ at' :: back)) :=
      ⟨rfl, inside, next, linked, later⟩
    have same := congrArg List.length (round.unique later.suffix)
    simp only [List.length_cons, List.length_append] at same
    omega

variable (engine ram) in
/-- The thinkers of the entries, in list order. -/
def thinkers (entries : List Word) : List Thinker := entries.filterMap (thinkerAt engine ram)

/-- Through named entries the loop pushes their thinkers, one by one. -/
theorem walkFrom_linked {left : Nat} {at' : Word} {entries : List Word}
    (linked : LinkedFrom engine ram at' entries) (room : entries.length ≤ left)
    (known : ∀ entry ∈ entries, named engine ram entry) (walk : Walking) :
    walkFrom engine ram (inStasis engine ram) left at' walk =
      .ok ((thinkers engine ram entries).foldl Walking.push walk) := by
  induction entries generalizing left at' walk with
  | nil =>
    cases left <;> exact if_pos linked
  | cons entry rest ih =>
    obtain ⟨rfl, inside, next, goes, later⟩ := linked
    obtain ⟨here, known⟩ := List.forall_mem_cons.1 known
    cases left with
    | zero => exact absurd room (Nat.not_succ_le_zero _)
    | succ left =>
      have ih := ih later (Nat.le_of_succ_le_succ room) known
      rw [link] at goes
      rw [thinkers, List.filterMap_cons, ← thinkers, thinkerAt, walkFrom, if_neg inside]
      simp only [readAt_eq_look, look_eq_ok.2 goes, Panics.ok_bind, ih]
      rw [named] at here
      cases read : functionOf engine ram at' with
      | none =>
        rw [read] at here
        cases here
      | some function =>
        rw [read] at here
        rw [functionOf] at read
        rw [look_eq_ok.2 read, Panics.ok_bind]
        by_cases removed : function = thinkerRemoved
        · simp only [if_pos removed]
        · simp only [if_neg removed]
          cases kind : kindOf engine (inStasis engine ram) at' function with
          | none => simp [removed, kind] at here
          | some found => rfl

/-! ## The two sequences -/

/-- The slots of a sequence, latest first. -/
def slotsOf (list : List Thinker) : List (Word × Nat) :=
  ((list.map Thinker.addr).zipIdx 1).reverse

theorem slotsOf_concat (list : List Thinker) (thinker : Thinker) :
    slotsOf (list ++ [thinker]) = (thinker.addr, list.length + 1) :: slotsOf list := by
  rw [slotsOf, slotsOf, List.map_append, List.zipIdx_append, List.reverse_append, List.length_map,
    Nat.add_comm 1]
  rfl

/-- The slots are those of the two sequences. -/
structure Slotted (walk : Walking) : Prop where
  mobjs : walk.slots = slotsOf walk.mobjs
  sectors : walk.sectorSlots = slotsOf walk.sectorThinkers

theorem Slotted.push {walk : Walking} (h : Slotted walk) (thinker : Thinker) :
    Slotted (walk.push thinker) := by
  rw [Walking.push]
  split
  · exact ⟨by rw [slotsOf_concat, ← h.mobjs], h.sectors⟩
  · exact ⟨h.mobjs, by rw [slotsOf_concat, ← h.sectors]⟩

/-- What the pushes leave: each thinker in its own sequence, in order. -/
theorem foldl_push (list : List Thinker) (walk : Walking) (slotted : Slotted walk) :
    (list.foldl Walking.push walk).mobjs = walk.mobjs ++ list.filter (·.kind = .mobj) ∧
    (list.foldl Walking.push walk).sectorThinkers =
      walk.sectorThinkers ++ list.filter (·.kind ≠ .mobj) ∧
    Slotted (list.foldl Walking.push walk) := by
  induction list generalizing walk with
  | nil => simp [slotted]
  | cons thinker rest ih =>
    rw [List.foldl_cons]
    obtain ⟨mobjs, sectors, slots⟩ := ih _ (slotted.push thinker)
    refine ⟨?_, ?_, slots⟩
    · rw [mobjs, Walking.push]
      by_cases kind : thinker.kind = .mobj <;> simp [kind]
    · rw [sectors, Walking.push]
      by_cases kind : thinker.kind = .mobj <;> simp [kind]

/-- A one-based numbering of a sequence's addresses, 0 for every other address. -/
structure Numbers (list : List Thinker) (slot : Word → Nat) : Prop where
  inside : ∀ index thinker, list[index]? = some thinker → slot thinker.addr = index + 1
  outside : ∀ addr, (∀ thinker ∈ list, thinker.addr ≠ addr) → slot addr = 0

theorem numbers_slotsOf {list : List Thinker} (distinct : (list.map Thinker.addr).Nodup) :
    Numbers list fun addr => ((slotsOf list).lookup addr).getD 0 := by
  induction list using List.reverseRecOn with
  | nil => exact ⟨nofun, fun _ _ => rfl⟩
  | append_singleton list last ih =>
    rw [List.map_append, List.nodup_append] at distinct
    obtain ⟨distinct, -, apart⟩ := distinct
    obtain ⟨inside, outside⟩ := ih distinct
    have differs : ∀ thinker ∈ list, thinker.addr ≠ last.addr := fun thinker h =>
      apart _ (List.mem_map_of_mem h) _ (List.mem_singleton_self _)
    constructor
    · intro index thinker found
      rw [slotsOf_concat, List.lookup_cons]
      rw [List.getElem?_append] at found
      split at found
      · have mem := List.mem_of_getElem? found
        rw [beq_false_of_ne (differs thinker mem)]
        exact inside index thinker found
      · rename_i past
        obtain ⟨rfl, at'⟩ : last = thinker ∧ index = list.length := by
          have := (List.getElem?_eq_some_iff.1 found).1
          simp only [List.length_singleton] at this
          have zero : index - list.length = 0 := by omega
          rw [zero] at found
          exact ⟨Option.some.inj found, by omega⟩
        rw [beq_self_eq_true, at']
        rfl
    · intro addr none
      rw [slotsOf_concat, List.lookup_cons]
      obtain ⟨others, self⟩ := List.forall_mem_append.1 none
      rw [beq_false_of_ne (self last (List.mem_singleton_self _)).symm]
      exact outside addr others

theorem addr_thinkerAt {entry : Word} {thinker : Thinker}
    (found : thinkerAt engine ram entry = some thinker) : thinker.addr = entry := by
  rw [thinkerAt] at found
  split at found
  · cases found
  · split at found
    · cases found
    · obtain ⟨kind, -, rfl⟩ := Option.map_eq_some_iff.1 found
      rfl

theorem addr_thinkers_sublist (engine : Engine) (ram : Ram) (entries : List Word) :
    List.Sublist ((thinkers engine ram entries).map Thinker.addr) entries := by
  induction entries with
  | nil => exact List.Sublist.slnil
  | cons entry rest ih =>
    rw [thinkers, List.filterMap_cons, ← thinkers]
    cases found : thinkerAt engine ram entry with
    | none => exact ih.cons entry
    | some thinker =>
      rw [List.map_cons, addr_thinkerAt found]
      exact ih.cons_cons entry

variable (engine ram) in
/-- A walk that holds exactly the entries not removed, in order and with their slots. -/
structure Holds (entries : List Word) (walk : Walk) : Prop where
  mobjs : walk.mobjs = (thinkers engine ram entries).filter (·.kind = .mobj)
  sectorThinkers : walk.sectorThinkers = (thinkers engine ram entries).filter (·.kind ≠ .mobj)
  mobjSlots : Numbers walk.mobjs walk.mobjSlot
  sectorSlots : Numbers walk.sectorThinkers walk.sectorSlot

/-- The walk of a list that returns to its head, its tables read. -/
theorem walk_circular {entries : List Word} (circular : Circular engine ram entries)
    (short : entries.length < thinkerLimit) (known : ∀ entry ∈ entries, named engine ram entry)
    (read : ∀ addr ∈ tableAddresses engine, (ram.word? addr).isSome) :
    walk engine ram = .ok ((thinkers engine ram entries).foldl Walking.push
      ⟨[], [], [], [], none⟩).finish := by
  obtain ⟨first, linked, goes⟩ := circular
  rw [link] at linked
  rw [walk, stasisKinds_eq_ok.2 ⟨read, rfl⟩, Panics.ok_bind, readAt_eq_look, look_eq_ok.2 linked,
    Panics.ok_bind, walkFrom_linked goes short.le known, Panics.ok_bind]
  rfl

theorem holds_pushed {entries : List Word} (distinct : entries.Nodup) :
    Holds engine ram entries ((thinkers engine ram entries).foldl Walking.push
      ⟨[], [], [], [], none⟩).finish := by
  obtain ⟨mobjs, sectors, slots⟩ := foldl_push (thinkers engine ram entries)
    ⟨[], [], [], [], none⟩ ⟨rfl, rfl⟩
  have addresses := distinct.sublist (addr_thinkers_sublist engine ram entries)
  generalize (thinkers engine ram entries).foldl Walking.push ⟨[], [], [], [], none⟩ = walked at *
  have inMobjs : (walked.mobjs.map Thinker.addr).Nodup := by
    rw [mobjs]
    exact addresses.sublist (List.filter_sublist.map _)
  have inSectors : (walked.sectorThinkers.map Thinker.addr).Nodup := by
    rw [sectors]
    exact addresses.sublist (List.filter_sublist.map _)
  refine ⟨mobjs, sectors, ?_, ?_⟩
  · have numbers := numbers_slotsOf inMobjs
    rw [← slots.mobjs] at numbers
    exact numbers
  · have numbers := numbers_slotsOf inSectors
    rw [← slots.sectors] at numbers
    exact numbers

/-- The walk never overflows an address, and reads a list that returns to its head as it is,
exactly where the addresses it comes to fit in 32 bits. -/
theorem walk_faithful_iff (engine : Engine) (ram : Ram) :
    (walk engine ram ≠ .error .panic ∧
      ∀ entries, Circular engine ram entries → entries.length < thinkerLimit →
        (∀ entry ∈ entries, named engine ram entry) →
        (∀ walked, walk engine ram = .ok walked → Holds engine ram entries walked) ∧
        ((∀ addr ∈ tableAddresses engine, (ram.word? addr).isSome) →
          ∃ walked, walk engine ram = .ok walked)) ↔
      Fits engine ram := by
  constructor
  · rintro ⟨safe, -⟩
    exact safe_walk.1 safe
  · intro fits
    refine ⟨safe_walk.2 fits, fun entries circular short known => ⟨?_, ?_⟩⟩
    · intro walked ends
      have read : ∀ addr ∈ tableAddresses engine, (ram.word? addr).isSome := by
        rw [walk] at ends
        obtain ⟨kinds, tables, -⟩ := Panics.bind_ok ends
        exact (stasisKinds_eq_ok.1 tables).1
      rw [walk_circular circular short known read] at ends
      cases ends
      obtain ⟨first, -, goes⟩ := circular
      exact holds_pushed goes.nodup
    · intro read
      exact ⟨_, walk_circular circular short known read⟩

/-- A layout with no tables, its list head at the start of RAM. -/
def bareEngine : Engine where
  next := 4
  function := 8
  thinkercap := 0x80000000
  activeplats := ⟨0, 0⟩
  activeceilings := ⟨0, 0⟩
  byFunction := []

/-- The head's link is four bytes below the end of the address space. -/
def highLink : Ram where
  base := 0x80000000
  bytes := [0, 0, 0, 0, 0xFC, 0xFF, 0xFF, 0xFF, 0, 0, 0, 0]

/-- The function word of a thinker at the top of the address space has no address. -/
theorem walk_highLink : walk bareEngine highLink = .error .panic := by
  decide +kernel

end ClickDoom.Probe

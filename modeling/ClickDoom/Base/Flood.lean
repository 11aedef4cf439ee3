import Mathlib

/-! # Floods

Two ways to find what a relation reaches.  A flood in rounds steps out of what the round before
added and drops what it holds; over a set of `n` it is done after `n` rounds.  A flood that
recurses marks each node with the level it arrives with and walks a node again where a later
arrival has a lower one; it leaves every node marked with the least level any way in offers.
-/
namespace Flood

/-! ## In rounds -/

section
variable {α : Type} [DecidableEq α] (next : List α → List α)

/-- One round, on what is reached and what the round before added. -/
def round (held : List α × List α) : List α × List α :=
  let new := (next held.2).filter (· ∉ held.1)
  (held.1 ++ new, new)

variable {next} {R : α → α → Prop}

/-- What holds between rounds: only the frontier may lead out. -/
structure Spreads (R : α → α → Prop) (held : List α × List α) : Prop where
  nodup : held.1.Nodup
  front : ∀ x ∈ held.2, x ∈ held.1
  closed : ∀ x ∈ held.1, x ∉ held.2 → ∀ y, R x y → y ∈ held.1

variable (mem_next : ∀ l y, y ∈ next l ↔ ∃ x ∈ l, R x y) (nodup_next : ∀ l, (next l).Nodup)

include mem_next in
theorem mem_round {held : List α × List α} {y : α} :
    y ∈ (round next held).1 ↔ y ∈ held.1 ∨ ∃ x ∈ held.2, R x y := by
  simp only [round, List.mem_append, List.mem_filter, mem_next, decide_eq_true_eq]
  constructor
  · rintro (h | ⟨h, -⟩)
    · exact .inl h
    · exact .inr h
  · rintro (h | h)
    · exact .inl h
    · by_cases hy : y ∈ held.1
      · exact .inl hy
      · exact .inr ⟨h, hy⟩

include mem_next nodup_next in
theorem Spreads.round {held : List α × List α} (spreads : Spreads R held) :
    Spreads R (Flood.round next held) where
  nodup := by
    refine List.nodup_append.mpr ⟨spreads.nodup, (nodup_next _).filter _, ?_⟩
    rintro x hx y hy rfl
    simpa [hx] using (List.mem_filter.mp hy).2
  front x hx := List.mem_append_right _ hx
  closed x hx hnew y hxy := by
    have hheld : x ∈ held.1 := by
      rcases List.mem_append.mp hx with h | h
      · exact h
      · exact absurd h hnew
    refine (mem_round mem_next).mpr ?_
    by_cases hfront : x ∈ held.2
    · exact .inr ⟨x, hfront, hxy⟩
    · exact .inl (spreads.closed x hheld hfront y hxy)

include mem_next nodup_next in
theorem Spreads.rounds {held : List α × List α} (spreads : Spreads R held) (n : Nat) :
    Spreads R ((Flood.round next)^[n] held) := by
  induction n generalizing held with
  | zero => exact spreads
  | succ n ih => exact ih (spreads.round mem_next nodup_next)

/-- A flood appends to what it holds. -/
theorem rounds_append (next : List α → List α) (held : List α × List α) (n : Nat) :
    ∃ more, ((round next)^[n] held).1 = held.1 ++ more := by
  induction n generalizing held with
  | zero => exact ⟨[], by simp⟩
  | succ n ih =>
    obtain ⟨more, h⟩ := ih (round next held)
    exact ⟨_, by rw [Function.iterate_succ_apply, h, round, List.append_assoc]⟩

/-- Once a round adds nothing the flood stands still; before that every round adds. -/
theorem rounds_grow (held : List α × List α) (n : Nat) (nil : next [] = []) :
    ((round next)^[n] held).2 = [] ∨
      held.1.length + n ≤ ((round next)^[n] held).1.length := by
  induction n with
  | zero => exact .inr le_rfl
  | succ n ih =>
    rw [Function.iterate_succ_apply']
    rcases ih with h | h
    · left
      simp [round, h, nil]
    · by_cases hnew : (round next ((round next)^[n] held)).2 = []
      · exact .inl hnew
      · right
        have hpos := List.length_pos_iff.mpr hnew
        simp only [round, List.length_append] at hpos ⊢
        omega

include mem_next in
/-- What a flood finds is reached from its frontier. -/
theorem reached_of_mem_rounds {held : List α × List α} (front : ∀ x ∈ held.2, x ∈ held.1)
    {n : Nat} {y : α} (hy : y ∈ ((round next)^[n] held).1) :
    y ∈ held.1 ∨ ∃ x ∈ held.2, Relation.ReflTransGen R x y := by
  induction n generalizing held with
  | zero => exact .inl hy
  | succ n ih =>
    have hfront : ∀ x ∈ (round next held).2, x ∈ (round next held).1 := by
      intro x hx
      exact List.mem_append_right _ hx
    rcases ih hfront hy with h | ⟨x, hx, hxy⟩
    · rcases (mem_round mem_next).mp h with h | ⟨x, hx, hxy⟩
      · exact .inl h
      · exact .inr ⟨x, hx, .single hxy⟩
    · obtain ⟨z, hz, hzx⟩ := (mem_next _ _).mp (List.mem_filter.mp hx).1
      exact .inr ⟨z, hz, .head hzx hxy⟩

omit [DecidableEq α] in
theorem stays_reached {M : Type} [Membership α M] {S : M}
    (stays : ∀ x ∈ S, ∀ y, R x y → y ∈ S) {x y : α} (h : Relation.ReflTransGen R x y)
    (hx : x ∈ S) : y ∈ S := by
  induction h with
  | refl => exact hx
  | tail _ step ih => exact stays _ ih _ step

include mem_next nodup_next in
/-- A flood over a finite set finds what its frontier reaches, in as many rounds as the set has
elements. -/
theorem mem_rounds {held : List α × List α} (spreads : Spreads R held) (U : Finset α)
    (start : held.1 ≠ []) (inside : ∀ x ∈ held.1, x ∈ U) (stays : ∀ x ∈ U, ∀ y, R x y → y ∈ U)
    {y : α} :
    y ∈ ((round next)^[U.card] held).1 ↔
      y ∈ held.1 ∨ ∃ x ∈ held.2, Relation.ReflTransGen R x y := by
  set last := (round next)^[U.card] held with hlast
  have hspreads : Spreads R last := spreads.rounds mem_next nodup_next _
  refine ⟨reached_of_mem_rounds mem_next spreads.front, ?_⟩
  have nil : next [] = [] := by
    refine List.eq_nil_iff_forall_not_mem.mpr fun y hy => ?_
    obtain ⟨x, hx, -⟩ := (mem_next _ _).mp hy
    cases hx
  have hinside : ∀ x ∈ last.1, x ∈ U := by
    intro x hx
    rcases reached_of_mem_rounds mem_next spreads.front hx with h | ⟨z, hz, hzx⟩
    · exact inside x h
    · exact stays_reached stays hzx (inside z (spreads.front z hz))
  -- a flood that still adds after `U.card` rounds would hold more than `U`
  have hdone : last.2 = [] := by
    refine (rounds_grow held U.card nil).resolve_right fun hgrow => ?_
    rw [← hlast] at hgrow
    have hpos := List.length_pos_iff.mpr start
    have hcard := Finset.card_le_card (s := last.1.toFinset) (t := U)
      fun x hx => hinside x (List.mem_toFinset.mp hx)
    rw [List.toFinset_card_of_nodup hspreads.nodup] at hcard
    omega
  have hclosed : ∀ x ∈ last.1, ∀ y, R x y → y ∈ last.1 :=
    fun x hx => hspreads.closed x hx (by simp [hdone])
  obtain ⟨more, hmore⟩ := rounds_append next held U.card
  have hheld : ∀ x ∈ held.1, x ∈ last.1 := by
    intro x hx
    rw [hlast, hmore]
    exact List.mem_append_left _ hx
  rintro (h | ⟨x, hx, hxy⟩)
  · exact hheld y h
  · exact stays_reached hclosed hxy (hheld x (spreads.front x hx))

end

/-! ## By recursion -/

section
variable (succ : Nat → Nat → List (Nat × Nat))

/-- The recursion, with `fuel` for its depth: a node holding a level no higher than the one it
is reached with is left alone; level `l` is held as `l + 1`, and zero is none. -/
def flood : Nat → List Nat → Nat → Nat → Option (List Nat)
  | 0, _, _, _ => none
  | fuel + 1, marks, node, level =>
    if marks.getD node 0 ≠ 0 ∧ marks.getD node 0 ≤ level + 1 then some marks
    else
      (succ node level).foldlM (fun marks (way : Nat × Nat) => flood fuel marks way.1 way.2)
        (marks.set node (level + 1))

theorem length_flood {fuel : Nat} {marks after : List Nat} {node level : Nat}
    (h : flood succ fuel marks node level = some after) : after.length = marks.length := by
  induction fuel generalizing marks node level after with
  | zero => cases h
  | succ fuel ih =>
    rw [flood] at h
    split at h
    · rw [Option.some.inj h]
    · have hways : ∀ (ways : List (Nat × Nat)) (held : List Nat),
          ways.foldlM (fun marks way => flood succ fuel marks way.1 way.2) held = some after →
          after.length = held.length := by
        intro ways
        induction ways with
        | nil =>
          intro held hheld
          rw [Option.some.inj hheld]
        | cons way rest ihways =>
          intro held hheld
          obtain ⟨mid, hmid, hrest⟩ := Option.bind_eq_some_iff.mp hheld
          rw [ihways mid hrest, ih hmid]
      rw [hways _ _ h, List.length_set]

/-- One step of the walk. -/
def Step (p q : Nat × Nat) : Prop := q ∈ succ p.1 p.2

/-- A node holds a level no higher than this one. -/
def Covered (marks : List Nat) (p : Nat × Nat) : Prop :=
  marks.getD p.1 0 ≠ 0 ∧ marks.getD p.1 0 ≤ p.2 + 1

/-- What a call does to the marks it is given. -/
structure Walked (start : Nat × Nat) (marks after : List Nat) : Prop where
  length : after.length = marks.length
  better : ∀ p, Covered marks p → Covered after p
  sound : ∀ x, after.getD x 0 ≠ marks.getD x 0 →
    ∃ level, after.getD x 0 = level + 1 ∧ Relation.ReflTransGen (Step succ) start (x, level)
  closed : ∀ x level, after.getD x 0 = level + 1 → after.getD x 0 ≠ marks.getD x 0 →
    ∀ q ∈ succ x level, Covered after q

variable {succ}

theorem Walked.refl (start : Nat × Nat) (marks : List Nat) : Walked succ start marks marks where
  length := rfl
  better _ h := h
  sound _ h := absurd rfl h
  closed _ _ _ h := absurd rfl h

theorem Walked.trans {start : Nat × Nat} {a b c : List Nat} (hab : Walked succ start a b)
    (hbc : Walked succ start b c) : Walked succ start a c where
  length := hbc.length.trans hab.length
  better p h := hbc.better p (hab.better p h)
  sound x h := by
    by_cases hx : c.getD x 0 = b.getD x 0
    · rw [hx] at h ⊢
      exact hab.sound x h
    · exact hbc.sound x hx
  closed x level hlevel h q hq := by
    by_cases hx : c.getD x 0 = b.getD x 0
    · rw [hx] at hlevel h
      exact hbc.better q (hab.closed x level hlevel h q hq)
    · exact hbc.closed x level hlevel hx q hq

/-- A walk from a node's successor is part of the walk from the node. -/
theorem Walked.of_step {p q : Nat × Nat} (step : Step succ p q) {a b : List Nat}
    (h : Walked succ q a b) : Walked succ p a b where
  length := h.length
  better := h.better
  sound x hx := by
    obtain ⟨level, hlevel, hreach⟩ := h.sound x hx
    exact ⟨level, hlevel, .head step hreach⟩
  closed := h.closed

/-- How often a mark may still be lowered, with levels under `K`. -/
def room (K mark : Nat) : Nat := if mark = 0 then K else mark - 1

/-- How often the marks of a list may still be lowered. -/
def rooms (K : Nat) (marks : List Nat) : Nat := (marks.map (room K)).sum

theorem rooms_set (K : Nat) {marks : List Nat} {node : Nat} (mark : Nat) (h : node < marks.length) :
    rooms K (marks.set node mark) + room K (marks.getD node 0) =
      rooms K marks + room K mark := by
  induction marks generalizing node with
  | nil => cases h
  | cons a rest ih =>
    cases node with
    | zero =>
      simp only [rooms, List.set_cons_zero, List.map_cons, List.sum_cons, List.getD_cons_zero]
      omega
    | succ node =>
      have := ih (Nat.lt_of_succ_lt_succ h)
      simp only [rooms, List.set_cons_succ, List.map_cons, List.sum_cons,
        List.getD_cons_succ] at this ⊢
      omega

theorem getD_set (marks : List Nat) {node mark : Nat} (h : node < marks.length) (x : Nat) :
    (marks.set node mark).getD x 0 = if x = node then mark else marks.getD x 0 := by
  by_cases hx : x = node
  · subst hx
    simp [h]
  · simp [hx, Ne.symm hx]

variable {n K : Nat}
  (inside : ∀ x level, x < n → level < K → ∀ q ∈ succ x level, q.1 < n ∧ q.2 < K)

/-- What a call with some fuel does. -/
def Walks (n K fuel : Nat) (succ : Nat → Nat → List (Nat × Nat)) : Prop :=
  ∀ (marks : List Nat) (node level : Nat), marks.length = n → node < n → level < K →
    rooms K marks < fuel →
    ∃ after, flood succ fuel marks node level = some after ∧
      Walked succ (node, level) marks after ∧ Covered after (node, level) ∧
      rooms K after ≤ rooms K marks

include inside in
/-- The ways out of a node, each walked on the marks the ones before it left. -/
theorem ways_walked {fuel node level : Nat} (walks : Walks n K fuel succ) (hnode : node < n)
    (hlevel : level < K) (ways : List (Nat × Nat)) (hways : ∀ q ∈ ways, q ∈ succ node level)
    {held : List Nat} (hlen : held.length = n) (hfuel : rooms K held < fuel) :
    ∃ after, ways.foldlM (fun marks way => flood succ fuel marks way.1 way.2) held = some after ∧
      Walked succ (node, level) held after ∧ (∀ q ∈ ways, Covered after q) ∧
      rooms K after ≤ rooms K held := by
  induction ways generalizing held with
  | nil => exact ⟨held, rfl, .refl _ _, by simp, le_rfl⟩
  | cons way rest ih =>
    rw [List.forall_mem_cons] at hways
    obtain ⟨hn, hk⟩ := inside node level hnode hlevel way hways.1
    obtain ⟨mid, hmid, hwalk, hcovered, hless⟩ := walks held way.1 way.2 hlen hn hk hfuel
    obtain ⟨after, hafter, hrest, hall, hless'⟩ :=
      ih hways.2 (hwalk.length.trans hlen) (by omega)
    have hstep : Step succ (node, level) way := hways.1
    refine ⟨after, by simp [hmid, hafter], (hwalk.of_step hstep).trans hrest, ?_, by omega⟩
    rw [List.forall_mem_cons]
    exact ⟨hrest.better _ hcovered, hall⟩

include inside in
/-- A call with more fuel than there is room comes back, having walked from its node. -/
theorem flood_walks (fuel : Nat) : Walks n K fuel succ := by
  induction fuel with
  | zero => exact fun _ _ _ _ _ _ hfuel => absurd hfuel (Nat.not_lt_zero _)
  | succ fuel ih =>
    intro marks node level hlen hnode hlevel hfuel
    rw [flood]
    split
    · next hcov => exact ⟨marks, rfl, .refl _ _, hcov, le_rfl⟩
    · next hcov =>
      set marked := marks.set node (level + 1) with hmarked
      have hget : ∀ x, marked.getD x 0 = if x = node then level + 1 else marks.getD x 0 :=
        getD_set marks (hlen ▸ hnode)
      have hroom : rooms K marked < rooms K marks := by
        have hset := rooms_set K (level + 1) (hlen ▸ hnode : node < marks.length)
        have hless : room K (level + 1) < room K (marks.getD node 0) := by
          simp only [room]
          split <;> split <;> omega
        rw [← hmarked] at hset
        omega
      obtain ⟨after, hafter, hwalk, hall, hless⟩ :=
        ways_walked inside ih hnode hlevel (succ node level) (fun _ h => h)
          (by simp [hmarked, hlen] : marked.length = n) (by omega)
      have hnodeIn : Covered marked (node, level) := by
        rw [Covered, hget]
        simp
      refine ⟨after, hafter, ⟨?_, ?_, ?_, ?_⟩, hwalk.better _ hnodeIn, by omega⟩
      · rw [hwalk.length, hmarked, List.length_set]
      · intro p hp
        refine hwalk.better p ?_
        rw [Covered, hget]
        split
        · next hx =>
          rw [Covered, hx] at hp
          simp only [ne_eq, Nat.add_eq_zero_iff, one_ne_zero, and_false, not_false_eq_true,
            true_and]
          omega
        · exact hp
      · intro x hx
        by_cases hsame : after.getD x 0 = marked.getD x 0
        · rw [hsame, hget] at hx ⊢
          split at hx
          · next hnode' =>
            subst hnode'
            exact ⟨level, by simp, .refl⟩
          · exact absurd rfl hx
        · exact hwalk.sound x hsame
      · intro x l hl hx q hq
        by_cases hsame : after.getD x 0 = marked.getD x 0
        · rw [hsame, hget] at hl hx
          split at hx
          · next hnode' =>
            subst hnode'
            rw [if_pos rfl] at hl
            obtain rfl : level = l := by omega
            exact hall q hq
          · exact absurd rfl hx
        · exact hwalk.closed x l hl hsame q hq

/-- What is reached is covered, where a lower level leads wherever a higher one does. -/
theorem covered_of_reached {start : Nat × Nat} {marks : List Nat}
    (lower : ∀ x level level', level' ≤ level → ∀ q ∈ succ x level,
      ∃ l ≤ q.2, (q.1, l) ∈ succ x level')
    (covered : Covered marks start)
    (closed : ∀ x level, marks.getD x 0 = level + 1 → ∀ q ∈ succ x level, Covered marks q)
    {p : Nat × Nat} (h : Relation.ReflTransGen (Step succ) start p) : Covered marks p := by
  induction h with
  | refl => exact covered
  | @tail p q _ step ih =>
    obtain ⟨hne, hle⟩ := ih
    obtain ⟨level', hlevel'⟩ := Nat.exists_eq_succ_of_ne_zero hne
    obtain ⟨l, hl, hmem⟩ := lower p.1 p.2 level' (by omega) q step
    obtain ⟨hne', hle'⟩ := closed p.1 level' hlevel' _ hmem
    exact ⟨hne', hle'.trans (Nat.succ_le_succ hl)⟩

include inside in
/-- A flood over no marks leaves every node marked with the least level it is reached with. -/
theorem flood_least {fuel node level : Nat} (hnode : node < n) (hlevel : level < K)
    (hfuel : n * K < fuel)
    (lower : ∀ x level level', level' ≤ level → ∀ q ∈ succ x level,
      ∃ l ≤ q.2, (q.1, l) ∈ succ x level') :
    ∃ after, flood succ fuel (List.replicate n 0) node level = some after ∧ after.length = n ∧
      ∀ x, (after.getD x 0 = 0 ∧
          ∀ l, ¬Relation.ReflTransGen (Step succ) (node, level) (x, l)) ∨
        ∃ l, after.getD x 0 = l + 1 ∧
          IsLeast {l | Relation.ReflTransGen (Step succ) (node, level) (x, l)} l := by
  have hrooms : rooms K (List.replicate n 0) = n * K := by simp [rooms, room]
  have hblank : ∀ x, (List.replicate n 0).getD x 0 = 0 := by
    intro x
    by_cases hx : x < n <;> simp [hx]
  obtain ⟨after, hafter, hwalk, hcovered, -⟩ := flood_walks inside fuel (List.replicate n 0) node
    level (by simp) hnode hlevel (by omega)
  refine ⟨after, hafter, by rw [hwalk.length, List.length_replicate], fun x => ?_⟩
  have hreach : ∀ l, Relation.ReflTransGen (Step succ) (node, level) (x, l) →
      Covered after (x, l) :=
    fun l => covered_of_reached lower hcovered fun x' l' h =>
      hwalk.closed x' l' h (by rw [hblank, h]; omega)
  by_cases hx : after.getD x 0 = 0
  · exact .inl ⟨hx, fun l h => (hreach l h).1 hx⟩
  · obtain ⟨l, hl, hreached⟩ := hwalk.sound x (by rw [hblank]; exact hx)
    refine .inr ⟨l, hl, hreached, fun l' h => ?_⟩
    have := (hreach l' h).2
    simp only at this
    omega

end

end Flood

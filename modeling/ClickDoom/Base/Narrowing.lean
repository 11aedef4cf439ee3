import Mathlib

/-! # A walk that narrows a window

A walk over items, each of which shuts the window or lowers its top and raises its
bottom, that skips an item whose key it has met, and stops when the window is shut or
has closed.  What an item does depends on its key.  Because a window only ever narrows,
whether the walk gets through depends on which items there are, not on their order or
number.
-/
namespace Narrowing

variable {ι κ β : Type}

/-- What an item does to the window. -/
structure Effect (β : Type) where
  shut : Bool
  top : β
  bottom : β

/-- The keys met and the window left. -/
structure Window (κ β : Type) where
  met : List κ
  top : β
  bottom : β

variable (key : ι → κ) (effect : κ → Effect β)

/-- The effects a walk can meet: those of the items whose keys it has not met. -/
def Ahead (items : List ι) (window : Window κ β) (e : Effect β) : Prop :=
  ∃ item ∈ items, key item ∉ window.met ∧ e = effect (key item)

section Ahead
variable {key effect}

theorem ahead_cons_met {item : ι} {items : List ι} {window : Window κ β}
    (met : key item ∈ window.met) (e : Effect β) :
    Ahead key effect (item :: items) window e ↔ Ahead key effect items window e := by
  constructor
  · rintro ⟨other, member, unmet, rfl⟩
    rcases List.mem_cons.1 member with rfl | member
    · exact absurd met unmet
    · exact ⟨other, member, unmet, rfl⟩
  · rintro ⟨other, member, unmet, rfl⟩
    exact ⟨other, List.mem_cons_of_mem _ member, unmet, rfl⟩

/-- An item with a new key, met twice or once, adds its own effect. -/
theorem ahead_cons_new {item : ι} {items : List ι} {window : Window κ β}
    (new : key item ∉ window.met) {top bottom : β} (e : Effect β) :
    Ahead key effect (item :: items) window e ↔
      e = effect (key item) ∨
        Ahead key effect items ⟨key item :: window.met, top, bottom⟩ e := by
  constructor
  · rintro ⟨other, member, unmet, rfl⟩
    by_cases same : key other = key item
    · exact .inl (by rw [same])
    · rcases List.mem_cons.1 member with rfl | member
      · exact absurd rfl same
      · exact .inr ⟨other, member, by simp [same, unmet], rfl⟩
  · rintro (rfl | ⟨other, member, unmet, rfl⟩)
    · exact ⟨item, List.mem_cons_self, new, rfl⟩
    · exact ⟨other, List.mem_cons_of_mem _ member, fun met => unmet (List.mem_cons_of_mem _ met), rfl⟩

end Ahead

variable [DecidableEq κ] [LinearOrder β]

/-- One item: `none` stops the walk. -/
def step (window : Window κ β) (item : ι) : Option (Window κ β) :=
  if key item ∈ window.met then some window
  else
    let e := effect (key item)
    let top := min window.top e.top
    let bottom := max window.bottom e.bottom
    if e.shut || decide (top ≤ bottom) then none
    else some ⟨key item :: window.met, top, bottom⟩

/-- The walk gets through. -/
def Through (items : List ι) (window : Window κ β) : Prop :=
  (items.foldlM (step key effect) window).isSome

/-- The window stays open under every effect ahead at once. -/
structure Open (items : List ι) (window : Window κ β) : Prop where
  shut : ∀ e, Ahead key effect items window e → e.shut = false
  now : window.bottom < window.top
  top : ∀ e, Ahead key effect items window e → window.bottom < e.top
  bottom : ∀ e, Ahead key effect items window e → e.bottom < window.top
  pair : ∀ e e', Ahead key effect items window e → Ahead key effect items window e' →
    e'.bottom < e.top

variable {key effect}

omit [DecidableEq κ] in
theorem open_cons_met {item : ι} {items : List ι} {window : Window κ β}
    (met : key item ∈ window.met) :
    Open key effect (item :: items) window ↔ Open key effect items window := by
  have ahead : ∀ e, Ahead key effect (item :: items) window e ↔ Ahead key effect items window e :=
    ahead_cons_met met
  constructor
  · intro h
    exact ⟨fun e a => h.shut e ((ahead e).2 a), h.now, fun e a => h.top e ((ahead e).2 a),
      fun e a => h.bottom e ((ahead e).2 a),
      fun e e' a a' => h.pair e e' ((ahead e).2 a) ((ahead e').2 a')⟩
  · intro h
    exact ⟨fun e a => h.shut e ((ahead e).1 a), h.now, fun e a => h.top e ((ahead e).1 a),
      fun e a => h.bottom e ((ahead e).1 a),
      fun e e' a a' => h.pair e e' ((ahead e).1 a) ((ahead e').1 a')⟩

omit [DecidableEq κ] in
/-- Taking an item's effect at once or ahead is the same. -/
theorem open_cons_new {item : ι} {items : List ι} {window : Window κ β}
    (new : key item ∉ window.met) :
    Open key effect (item :: items) window ↔
      (effect (key item)).shut = false ∧
      Open key effect items ⟨key item :: window.met, min window.top (effect (key item)).top,
        max window.bottom (effect (key item)).bottom⟩ := by
  have ahead : ∀ e, Ahead key effect (item :: items) window e ↔ e = effect (key item) ∨
      Ahead key effect items ⟨key item :: window.met, min window.top (effect (key item)).top,
        max window.bottom (effect (key item)).bottom⟩ e := ahead_cons_new new
  have own := (ahead (effect (key item))).2 (.inl rfl)
  constructor
  · intro h
    refine ⟨h.shut _ own, fun e a => h.shut e ((ahead e).2 (.inr a)), ?_, fun e a => ?_,
      fun e a => ?_, fun e e' a a' => h.pair e e' ((ahead e).2 (.inr a)) ((ahead e').2 (.inr a'))⟩
    · exact max_lt (lt_min h.now (h.top _ own)) (lt_min (h.bottom _ own) (h.pair _ _ own own))
    · have a := (ahead e).2 (.inr a)
      exact max_lt (h.top e a) (h.pair _ _ a own)
    · have a := (ahead e).2 (.inr a)
      exact lt_min (h.bottom e a) (h.pair _ _ own a)
  · rintro ⟨shut, h⟩
    have window := h.now
    simp only [max_lt_iff, lt_min_iff] at window
    have top := fun e a => max_lt_iff.1 (h.top e a)
    have bottom := fun e a => lt_min_iff.1 (h.bottom e a)
    refine ⟨fun e a => ?_, window.1.1, fun e a => ?_, fun e a => ?_, fun e e' a a' => ?_⟩
    · rcases (ahead e).1 a with rfl | a
      · exact shut
      · exact h.shut e a
    · rcases (ahead e).1 a with rfl | a
      · exact window.2.1
      · exact (top e a).1
    · rcases (ahead e).1 a with rfl | a
      · exact window.1.2
      · exact (bottom e a).1
    · rcases (ahead e).1 a with rfl | a <;> rcases (ahead e').1 a' with rfl | a'
      · exact window.2.2
      · exact (bottom e' a').2
      · exact (top e a).2
      · exact h.pair e e' a a'

/-- A walk from an open window gets through exactly when the window stays open under
every effect ahead. -/
theorem through_iff_open (items : List ι) {window : Window κ β} (h : window.bottom < window.top) :
    Through key effect items window ↔ Open key effect items window := by
  induction items generalizing window with
  | nil =>
    refine iff_of_true rfl ⟨?_, h, ?_, ?_, ?_⟩ <;> rintro e <;> simp [Ahead]
  | cons item items ih =>
    rw [Through, List.foldlM_cons]
    by_cases met : key item ∈ window.met
    · rw [open_cons_met met, ← ih h, Through, step, if_pos met]
      rfl
    · rw [open_cons_new met, step, if_neg met]
      by_cases stops : ((effect (key item)).shut || decide (min window.top (effect (key item)).top ≤
          max window.bottom (effect (key item)).bottom)) = true
      · simp only [stops, if_true]
        refine iff_of_false (by simp) ?_
        rintro ⟨shut, after⟩
        simp only [shut, Bool.false_or, decide_eq_true_eq] at stops
        exact absurd after.now (not_lt.2 stops)
      · simp only [stops]
        simp only [Bool.or_eq_true, decide_eq_true_eq, not_or, Bool.not_eq_true, not_le] at stops
        rw [← ih stops.2]
        simp [stops.1, Through]

/-! ## Every effect at once -/

omit [DecidableEq κ] in
/-- Which items there are decides, not their order or number. -/
theorem open_congr {items items' : List ι} (same : ∀ item, item ∈ items ↔ item ∈ items')
    {window : Window κ β} : Open key effect items window ↔ Open key effect items' window := by
  have ahead : ∀ e, Ahead key effect items window e ↔ Ahead key effect items' window e := by
    intro e
    simp only [Ahead, same]
  constructor
  · rintro ⟨shut, now, top, bottom, pair⟩
    simp only [ahead] at shut top bottom pair
    exact ⟨shut, now, top, bottom, pair⟩
  · rintro ⟨shut, now, top, bottom, pair⟩
    simp only [← ahead] at shut top bottom pair
    exact ⟨shut, now, top, bottom, pair⟩

theorem lt_foldr_min {x y : β} {list : List β} :
    y < list.foldr min x ↔ y < x ∧ ∀ z ∈ list, y < z := by
  induction list with
  | nil => simp
  | cons z list ih =>
    rw [List.foldr_cons, lt_min_iff, ih]
    simp only [List.forall_mem_cons]
    tauto

theorem foldr_max_lt {x y : β} {list : List β} :
    list.foldr max x < y ↔ x < y ∧ ∀ z ∈ list, z < y := by
  induction list with
  | nil => simp
  | cons z list ih =>
    rw [List.foldr_cons, max_lt_iff, ih]
    simp only [List.forall_mem_cons]
    tauto

omit [DecidableEq κ] in
/-- Before any key is met, the window stays open when no item shuts it and the least top
is above the greatest bottom. -/
theorem open_iff_extremes {items : List ι} {top bottom : β} :
    Open key effect items ⟨[], top, bottom⟩ ↔
      (∀ item ∈ items, (effect (key item)).shut = false) ∧
      (items.map fun item => (effect (key item)).bottom).foldr max bottom <
        (items.map fun item => (effect (key item)).top).foldr min top := by
  simp only [lt_foldr_min, foldr_max_lt, List.forall_mem_map]
  constructor
  · rintro ⟨shut, now, high, low, pair⟩
    have own : ∀ item ∈ items, Ahead key effect items ⟨[], top, bottom⟩ (effect (key item)) :=
      fun item member => ⟨item, member, List.not_mem_nil, rfl⟩
    exact ⟨fun item member => shut _ (own item member),
      ⟨now, fun item member => low _ (own item member)⟩,
      fun item member => ⟨high _ (own item member),
        fun item' member' => pair _ _ (own item member) (own item' member')⟩⟩
  · rintro ⟨shut, ⟨now, low⟩, high⟩
    refine ⟨?_, now, ?_, ?_, ?_⟩
    · rintro e ⟨item, member, -, rfl⟩
      exact shut item member
    · rintro e ⟨item, member, -, rfl⟩
      exact (high item member).1
    · rintro e ⟨item, member, -, rfl⟩
      exact low item member
    · rintro e e' ⟨item, member, -, rfl⟩ ⟨item', member', -, rfl⟩
      exact (high item member).2 item' member'

end Narrowing

import ClickDoom.Engine.Switches

/-! # Which switch picture flips

The `P_ChangeSwitchTexture` part of `use_special_line` in
`native/src/sql/sim/specials.rs`: positions outside, entries inside, with the pairs as two
arrays.
-/
namespace ClickDoom.Native.Switches
open Engine (Pictures Switched)

/-- `switch_off` and `switch_on`. -/
def switchOff (pairs : List (Int × Int)) : List Int := pairs.map Prod.fst
def switchOn (pairs : List (Int × Int)) : List Int := pairs.map Prod.snd

/-- `has(switch_off, tex) OR has(switch_on, tex)`. -/
def named (pairs : List (Int × Int)) (picture : Int) : Bool :=
  (switchOff pairs).contains picture || (switchOn pairs).contains picture

/-- `flip`. -/
def flip (pairs : List (Int × Int)) (picture : Int) : Int :=
  if (switchOff pairs).contains picture then
    (switchOn pairs).getD ((switchOff pairs).idxOf picture) 0
  else if (switchOn pairs).contains picture then
    (switchOff pairs).getD ((switchOn pairs).idxOf picture) 0
  else picture

/-- `switched`; -1 is none. -/
def switched (pairs : List (Int × Int)) (side : Pictures) : Option Switched :=
  if named pairs side.top then some ⟨.top, flip pairs side.top, side.top⟩
  else if named pairs side.middle then some ⟨.middle, flip pairs side.middle, side.middle⟩
  else if named pairs side.bottom then some ⟨.bottom, flip pairs side.bottom, side.bottom⟩
  else none

/-! ## When the two orders agree -/

/-- The first of the side's pictures that is a switch picture at all. -/
def firstNamed (pairs : List (Int × Int)) (side : Pictures) : Option Int :=
  side.all.find? (named pairs)

/-- The first pair that has the picture has it as its off picture, or no pair does, or the
first pair that does has the same picture beside it. -/
def OneSided (pairs : List (Int × Int)) (picture : Int) : Prop :=
  ∀ pair, pairs.find? (fun pair => pair.1 == picture || pair.2 == picture) = some pair →
    pair.1 = picture ∨
      ∀ later, pairs.find? (fun pair => pair.1 == picture) = some later → later.2 = pair.1

/-- Nothing else on the side stands earlier in the flat list than the picture the
positions find, and the picture has one partner. -/
def Unambiguous (pairs : List (Int × Int)) (side : Pictures) : Prop :=
  ∀ picture, firstNamed pairs side = some picture →
    (∀ another ∈ side.all, Engine.placeOf pairs picture ≤ Engine.placeOf pairs another) ∧
      OneSided pairs picture

theorem named_iff {pairs : List (Int × Int)} {picture : Int} :
    named pairs picture = true ↔ picture ∈ Engine.switchlist pairs := by
  simp only [named, switchOff, switchOn, Engine.switchlist, Bool.or_eq_true, List.contains_iff_mem,
    List.mem_map, List.mem_flatMap, List.mem_cons, List.not_mem_nil, or_false]
  constructor
  · rintro (⟨pair, member, rfl⟩ | ⟨pair, member, rfl⟩)
    · exact ⟨pair, member, .inl rfl⟩
    · exact ⟨pair, member, .inr rfl⟩
  · rintro ⟨pair, member, rfl | rfl⟩
    · exact .inl ⟨pair, member, rfl⟩
    · exact .inr ⟨pair, member, rfl⟩

theorem switched_eq (pairs : List (Int × Int)) (side : Pictures) :
    switched pairs side = (firstNamed pairs side).map fun picture =>
      ⟨side.position picture, flip pairs picture, picture⟩ := by
  simp only [switched, firstNamed, Pictures.all, List.find?_cons, List.find?_nil, Pictures.position]
  cases top : named pairs side.top with
  | true => simp
  | false =>
    cases middle : named pairs side.middle with
    | true =>
      have apart : side.top ≠ side.middle := fun eq => by simp [eq, middle] at top
      simp [apart]
    | false =>
      cases bottom : named pairs side.bottom with
      | true =>
        have apart : side.top ≠ side.bottom := fun eq => by simp [eq, bottom] at top
        have apart' : side.middle ≠ side.bottom := fun eq => by simp [eq, bottom] at middle
        simp [apart, apart']
      | false => simp

theorem flip_of_find {pairs : List (Int × Int)} {picture : Int} {pair : Int × Int}
    (found : pairs.find? (fun pair => pair.1 == picture) = some pair) :
    flip pairs picture = pair.2 := by
  induction pairs with
  | nil => cases found
  | cons head rest ih =>
    obtain ⟨off, on⟩ := head
    rw [List.find?_cons] at found
    by_cases here : off = picture
    · subst here
      simp only [beq_self_eq_true, Option.some.injEq] at found
      subst found
      simp [flip, switchOff, switchOn]
    · simp only [beq_eq_false_iff_ne.2 here] at found
      have there := ih found
      have member : picture ∈ switchOff rest :=
        List.mem_map.2 ⟨pair, List.mem_of_find?_eq_some found, by
          simpa using List.find?_some found⟩
      rw [flip, if_pos (by simpa using member)] at there
      rw [flip, if_pos (by simp [switchOff] at member ⊢; exact .inr member)]
      simpa [switchOff, switchOn, List.idxOf_cons, here] using there

/-- What `flip` gives is the picture beside the first place. -/
theorem flip_eq_beside_iff {pairs : List (Int × Int)} {picture other : Int}
    (found : Engine.beside pairs picture = some other) :
    flip pairs picture = other ↔ OneSided pairs picture := by
  induction pairs with
  | nil => cases found
  | cons head rest ih =>
    obtain ⟨off, on⟩ := head
    rw [Engine.beside] at found
    by_cases hoff : off = picture
    · subst hoff
      rw [if_pos rfl] at found
      obtain rfl := Option.some.inj found
      have first : ((off, on) :: rest).find? (fun pair => pair.1 == off) = some (off, on) := by simp
      refine iff_of_true (flip_of_find first) fun pair eq => ?_
      simp only [List.find?_cons, beq_self_eq_true, Bool.true_or, Option.some.injEq] at eq
      exact .inl (by rw [← eq])
    rw [if_neg hoff] at found
    by_cases hon : on = picture
    · subst hon
      rw [if_pos rfl] at found
      obtain rfl := Option.some.inj found
      have only : OneSided ((off, on) :: rest) on ↔
          ∀ later, rest.find? (fun pair => pair.1 == on) = some later → later.2 = off := by
        simp [OneSided, hoff]
      rw [only]
      cases later : rest.find? (fun pair => pair.1 == on) with
      | some pair =>
        have there : ((off, on) :: rest).find? (fun pair => pair.1 == on) = some pair := by
          simp [hoff, later]
        simp [flip_of_find there]
      | none =>
        have absent : on ∉ switchOff rest := by
          rintro member
          obtain ⟨pair, there, eq⟩ := List.mem_map.1 member
          exact List.find?_eq_none.1 later pair there (by simp [eq])
        have gone : on ∉ switchOff ((off, on) :: rest) := by
          simp [switchOff] at absent ⊢
          exact ⟨Ne.symm hoff, absent⟩
        have here : on ∈ switchOn ((off, on) :: rest) := by simp [switchOn]
        rw [flip, if_neg (by simpa using gone), if_pos (by simpa using here)]
        simp [switchOn, switchOff]
    · rw [if_neg hon] at found
      have offs : (switchOff ((off, on) :: rest)).contains picture =
          (switchOff rest).contains picture := by
        show (off :: switchOff rest).contains picture = _
        simp [Ne.symm hoff]
      have ons : (switchOn ((off, on) :: rest)).contains picture =
          (switchOn rest).contains picture := by
        show (on :: switchOn rest).contains picture = _
        simp [Ne.symm hon]
      have same : flip ((off, on) :: rest) picture = flip rest picture := by
        rw [flip, flip, offs, ons]
        simp [switchOff, switchOn, hoff, hon]
      have sameSided : OneSided ((off, on) :: rest) picture ↔ OneSided rest picture := by
        simp [OneSided, hoff, hon]
      rw [same, sameSided]
      exact ih found

/-- The press changes what the engine's loop changes exactly where the switch list and the
side leave no choice. -/
theorem switched_eq_engine_iff (pairs : List (Int × Int)) (side : Pictures) :
    switched pairs side = Engine.changeSwitchTexture pairs side ↔ Unambiguous pairs side := by
  rw [switched_eq]
  cases named : firstNamed pairs side with
  | none =>
    have absent : ∀ picture ∈ side.all, picture ∉ Engine.switchlist pairs := by
      intro picture there member
      exact List.find?_eq_none.1 named picture there (named_iff.2 member)
    rw [Engine.changeSwitchTexture_of_none absent]
    exact iff_of_true rfl fun picture eq => by cases named.symm.trans eq
  | some picture =>
    have there : picture ∈ side.all := List.mem_of_find?_eq_some named
    have member := named_iff.1 (List.find?_some named)
    have only : Unambiguous pairs side ↔
        (∀ another ∈ side.all, Engine.placeOf pairs picture ≤ Engine.placeOf pairs another) ∧
          OneSided pairs picture := by
      simp [Unambiguous, named]
    rw [only, Option.map_some]
    by_cases leads : ∀ another ∈ side.all,
        Engine.placeOf pairs picture ≤ Engine.placeOf pairs another
    · obtain ⟨other, found⟩ := Option.isSome_iff_exists.1 (Engine.beside_isSome.2 member)
      rw [Engine.changeSwitchTexture_of_first there found leads, ← flip_eq_beside_iff found,
        and_iff_right leads]
      simp
    · -- the engine's loop stops at another picture of the side
      obtain ⟨first, firstThere, least⟩ :=
        side.all.toFinset.exists_min_image (Engine.placeOf pairs) ⟨picture, by simpa using there⟩
      have least : ∀ another ∈ side.all,
          Engine.placeOf pairs first ≤ Engine.placeOf pairs another := by simpa using least
      have firstMember : first ∈ Engine.switchlist pairs := by
        have le := least picture there
        exact List.idxOf_lt_length_iff.1 (le.trans_lt (List.idxOf_lt_length_iff.2 member))
      obtain ⟨other, found⟩ := Option.isSome_iff_exists.1 (Engine.beside_isSome.2 firstMember)
      rw [Engine.changeSwitchTexture_of_first (by simpa using firstThere) found least]
      refine iff_of_false ?_ fun both => leads both.1
      intro eq
      simp only [Option.some.injEq, Switched.mk.injEq] at eq
      exact leads (eq.2.2 ▸ least)

/-- A side with the second pair's picture on top and the first pair's in the middle, and a
picture that ends one pair and begins the next. -/
theorem orders_differ :
    (switched [(10, 11), (20, 21)] ⟨20, 10, 0⟩ = some ⟨.top, 21, 20⟩ ∧
      Engine.changeSwitchTexture [(10, 11), (20, 21)] ⟨20, 10, 0⟩ = some ⟨.middle, 11, 10⟩) ∧
    (switched [(10, 11), (11, 12)] ⟨11, 0, 0⟩ = some ⟨.top, 12, 11⟩ ∧
      Engine.changeSwitchTexture [(10, 11), (11, 12)] ⟨11, 0, 0⟩ = some ⟨.top, 10, 11⟩) := by
  decide

end ClickDoom.Native.Switches

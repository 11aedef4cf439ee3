import Mathlib

/-! # The engine's switches

`P_ChangeSwitchTexture` of `p_switch.c`: the flat switch list holds the two pictures of
each pair next to each other, and the first entry that is one of the side's pictures
decides which of them changes.
-/
namespace ClickDoom.Engine

/-- `bwhere_e`. -/
inductive Where
  | top
  | middle
  | bottom
  deriving DecidableEq, Repr

/-- The texture a press changes, the picture it changes to and the one it had. -/
structure Switched where
  place : Where
  picture : Int
  before : Int
  deriving DecidableEq, Repr

/-- A side's pictures. -/
structure Pictures where
  top : Int
  middle : Int
  bottom : Int
  deriving DecidableEq, Repr

/-- `switchlist`. -/
def switchlist (pairs : List (Int × Int)) : List Int := pairs.flatMap fun pair => [pair.1, pair.2]

/-- One entry of the loop, with the one beside it. -/
def switchEntry (side : Pictures) (entry other : Int) : Option Switched :=
  if entry = side.top then some ⟨.top, other, entry⟩
  else if entry = side.middle then some ⟨.middle, other, entry⟩
  else if entry = side.bottom then some ⟨.bottom, other, entry⟩
  else none

/-- `P_ChangeSwitchTexture`: the loop over the flat list. -/
def changeSwitchTexture (pairs : List (Int × Int)) (side : Pictures) : Option Switched :=
  let list := switchlist pairs
  (List.range list.length).findSome? fun i =>
    switchEntry side (list.getD i 0) (list.getD (i ^^^ 1) 0)

/-! ## The loop by pairs -/

theorem add_two_xor_one (i : Nat) : (i + 2) ^^^ 1 = (i ^^^ 1) + 2 := by
  rcases Nat.even_or_odd i with even | odd
  · rw [Nat.xor_one_of_even even, Nat.xor_one_of_even (even.add even_two)]
  · rw [Nat.xor_one_of_odd odd, Nat.xor_one_of_odd (odd.add_even even_two)]
    have := odd.pos
    omega

theorem changeSwitchTexture_cons (off on : Int) (pairs : List (Int × Int)) (side : Pictures) :
    changeSwitchTexture ((off, on) :: pairs) side =
      ((switchEntry side off on).or (switchEntry side on off)).or
        (changeSwitchTexture pairs side) := by
  have list : switchlist ((off, on) :: pairs) = off :: on :: switchlist pairs := rfl
  simp only [changeSwitchTexture, list, List.length_cons]
  rw [List.range_succ_eq_map, List.range_succ_eq_map]
  simp only [List.map_cons, List.map_map, List.findSome?_cons, List.findSome?_map]
  have rest : (fun i => switchEntry side ((off :: on :: switchlist pairs).getD i 0)
      ((off :: on :: switchlist pairs).getD (i ^^^ 1) 0)) ∘ (Nat.succ ∘ Nat.succ) =
      fun i => switchEntry side ((switchlist pairs).getD i 0)
        ((switchlist pairs).getD (i ^^^ 1) 0) := by
    funext i
    show switchEntry side ((off :: on :: switchlist pairs).getD (i + 2) 0)
      ((off :: on :: switchlist pairs).getD ((i + 2) ^^^ 1) 0) = _
    rw [add_two_xor_one]
    rfl
  have first : switchEntry side ((off :: on :: switchlist pairs).getD 0 0)
      ((off :: on :: switchlist pairs).getD (0 ^^^ 1) 0) = switchEntry side off on := rfl
  have second : switchEntry side ((off :: on :: switchlist pairs).getD (Nat.succ 0) 0)
      ((off :: on :: switchlist pairs).getD (Nat.succ 0 ^^^ 1) 0) = switchEntry side on off := rfl
  rw [rest, first, second]
  cases switchEntry side off on with
  | some switched => rfl
  | none => cases switchEntry side on off <;> rfl

/-- The picture beside the first place of a picture in the list. -/
def beside (pairs : List (Int × Int)) (picture : Int) : Option Int :=
  match pairs with
  | [] => none
  | (off, on) :: rest =>
    if off = picture then some on else if on = picture then some off else beside rest picture

/-- Where a picture first stands in the flat list, its length if it does not. -/
def placeOf (pairs : List (Int × Int)) (picture : Int) : Nat := (switchlist pairs).idxOf picture

/-- A side's pictures in the order they are looked at. -/
def Pictures.all (side : Pictures) : List Int := [side.top, side.middle, side.bottom]

/-- The first position that has a picture. -/
def Pictures.position (side : Pictures) (picture : Int) : Where :=
  if side.top = picture then .top else if side.middle = picture then .middle else .bottom

theorem switchEntry_of_mem {side : Pictures} {picture : Int} (member : picture ∈ side.all)
    (other : Int) :
    switchEntry side picture other = some ⟨side.position picture, other, picture⟩ := by
  simp only [Pictures.all, List.mem_cons, List.not_mem_nil, or_false] at member
  rw [switchEntry, Pictures.position]
  by_cases top : picture = side.top
  · rw [if_pos top, if_pos top.symm]
  · by_cases middle : picture = side.middle
    · rw [if_neg top, if_pos middle, if_neg (Ne.symm top), if_pos middle.symm]
    · have bottom : picture = side.bottom := by tauto
      rw [if_neg top, if_neg middle, if_pos bottom, if_neg (Ne.symm top), if_neg (Ne.symm middle)]

theorem switchEntry_of_not_mem {side : Pictures} {picture : Int} (absent : picture ∉ side.all)
    (other : Int) : switchEntry side picture other = none := by
  simp only [Pictures.all, List.mem_cons, List.not_mem_nil, or_false, not_or] at absent
  rw [switchEntry, if_neg absent.1, if_neg absent.2.1, if_neg absent.2.2]

theorem placeOf_cons (off on : Int) (pairs : List (Int × Int)) (picture : Int) :
    placeOf ((off, on) :: pairs) picture =
      if off = picture then 0 else if on = picture then 1 else placeOf pairs picture + 2 := by
  show (off :: on :: switchlist pairs).idxOf picture = _
  rw [List.idxOf_cons, List.idxOf_cons]
  simp only [cond_eq_ite, beq_iff_eq]
  split
  · rfl
  · split <;> rfl

/-- The press changes the picture of the side that stands first in the flat list. -/
theorem changeSwitchTexture_of_first {pairs : List (Int × Int)} {side : Pictures}
    {picture other : Int} (member : picture ∈ side.all) (found : beside pairs picture = some other)
    (first : ∀ another ∈ side.all, placeOf pairs picture ≤ placeOf pairs another) :
    changeSwitchTexture pairs side = some ⟨side.position picture, other, picture⟩ := by
  induction pairs with
  | nil => cases found
  | cons pair rest ih =>
    obtain ⟨off, on⟩ := pair
    rw [changeSwitchTexture_cons]
    simp only [placeOf_cons] at first
    rw [beside] at found
    split at found
    · rename_i here
      subst here
      cases found
      rw [switchEntry_of_mem member]
      rfl
    · rename_i later
      have notOff : off ∉ side.all := by
        intro there
        have := first off there
        rw [if_neg later, if_pos rfl] at this
        split at this <;> omega
      rw [switchEntry_of_not_mem notOff]
      split at found
      · rename_i here
        subst here
        cases found
        rw [switchEntry_of_mem member]
        rfl
      · rename_i further
        have notOn : on ∉ side.all := by
          intro there
          have := first on there
          rw [if_neg later, if_neg further] at this
          split at this
          · omega
          · rw [if_pos rfl] at this
            omega
        rw [switchEntry_of_not_mem notOn]
        refine ih found ?_
        intro another there
        have := first another there
        rw [if_neg later, if_neg further, if_neg (fun eq : off = another => notOff (eq ▸ there)),
          if_neg (fun eq : on = another => notOn (eq ▸ there))] at this
        omega

theorem changeSwitchTexture_of_none {pairs : List (Int × Int)} {side : Pictures}
    (absent : ∀ picture ∈ side.all, picture ∉ switchlist pairs) :
    changeSwitchTexture pairs side = none := by
  induction pairs with
  | nil => rfl
  | cons pair rest ih =>
    obtain ⟨off, on⟩ := pair
    have list : switchlist ((off, on) :: rest) = off :: on :: switchlist rest := rfl
    have notOff : off ∉ side.all := fun there => absent off there (by simp [list])
    have notOn : on ∉ side.all := fun there => absent on there (by simp [list])
    rw [changeSwitchTexture_cons, switchEntry_of_not_mem notOff, switchEntry_of_not_mem notOn]
    refine ih fun picture there member => absent picture there ?_
    rw [list]
    exact List.mem_cons_of_mem _ (List.mem_cons_of_mem _ member)

theorem beside_isSome {pairs : List (Int × Int)} {picture : Int} :
    (beside pairs picture).isSome ↔ picture ∈ switchlist pairs := by
  induction pairs with
  | nil => simp [beside, switchlist]
  | cons pair rest ih =>
    obtain ⟨off, on⟩ := pair
    have list : switchlist ((off, on) :: rest) = off :: on :: switchlist rest := rfl
    rw [beside, list, List.mem_cons, List.mem_cons, ← ih]
    split
    · simp [‹off = picture›]
    · split
      · simp [‹on = picture›]
      · rename_i hoff hon
        simp [Ne.symm hoff, Ne.symm hon]

end ClickDoom.Engine

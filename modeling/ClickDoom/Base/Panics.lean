import Mathlib

/-! # Computations that may panic

A function that returns a `Result` ends with a value, with an error of its own, or in
a panic: an index out of range or, where arithmetic is checked, a sum or a product that
overflows.  Both ways of ending early are kept apart here, so that a parser can be
shown to end in no panic whatever it is given.  Addresses have 64 bits.
-/

/-- How a computation ends without a value. -/
inductive Stop (ε : Type) where
  | error (e : ε)
  | panic
  deriving DecidableEq

abbrev Panics (ε α : Type) := Except (Stop ε) α

namespace Panics
variable {ε α β : Type}

/-- The computation's own error. -/
def fail (e : ε) : Panics ε α := .error (.error e)

/-- `x.ok()`: an error is no value, a panic stays one. -/
def attempt {ε' : Type} : Panics ε α → Panics ε' (Option α)
  | .ok a => .ok (some a)
  | .error (.error _) => .ok none
  | .error .panic => .error .panic

def add (a b : Nat) : Panics ε Nat := if a + b < 2 ^ 64 then .ok (a + b) else .error .panic

def mul (a b : Nat) : Panics ε Nat := if a * b < 2 ^ 64 then .ok (a * b) else .error .panic

/-- `a.checked_add(b)`. -/
def checkedAdd (a b : Nat) : Option Nat := if a + b < 2 ^ 64 then some (a + b) else none

/-- `a.checked_mul(b)`. -/
def checkedMul (a b : Nat) : Option Nat := if a * b < 2 ^ 64 then some (a * b) else none

/-- `items[i]`. -/
def index (items : List α) (i : Nat) : Panics ε α :=
  match items[i]? with
  | some item => .ok item
  | none => .error .panic

/-- `items.get(start..stop)`. -/
def getRange (items : List α) (start stop : Nat) : Option (List α) :=
  if start ≤ stop ∧ stop ≤ items.length then some ((items.drop start).take (stop - start)) else none

/-- `items[start..stop]`. -/
def range (items : List α) (start stop : Nat) : Panics ε (List α) :=
  match getRange items start stop with
  | some slice => .ok slice
  | none => .error .panic

/-- What a loop pushes, pass by pass. -/
def gather (f : Nat → Panics ε (List α)) : List Nat → Panics ε (List α)
  | [] => .ok []
  | i :: rest => do
    let here ← f i
    let later ← gather f rest
    return here ++ later

/-! ## Ending without a panic -/

/-- The computation does not panic. -/
def Safe (x : Panics ε α) : Prop := x ≠ .error .panic

theorem safe_ok (a : α) : Safe (.ok a : Panics ε α) := nofun

theorem safe_fail (e : ε) : Safe (fail e : Panics ε α) := nofun

theorem ok_bind (a : α) (f : α → Panics ε β) : ((.ok a : Panics ε α) >>= f) = f a := rfl

theorem bind_ok {x : Panics ε α} {f : α → Panics ε β} {b : β} (h : (x >>= f) = .ok b) :
    ∃ a, x = .ok a ∧ f a = .ok b := by
  cases x with
  | error e => cases h
  | ok a => exact ⟨a, rfl, h⟩

theorem Safe.bind {x : Panics ε α} {f : α → Panics ε β} (hx : Safe x)
    (hf : ∀ a, x = .ok a → Safe (f a)) : Safe (x >>= f) := by
  cases x with
  | error e =>
    intro h
    exact hx (congrArg _ (Except.error.inj h))
  | ok a => exact hf a rfl

/-- A computation in two parts panics in neither of them. -/
theorem safe_bind_iff {x : Panics ε α} {f : α → Panics ε β} :
    Safe (x >>= f) ↔ Safe x ∧ ∀ a, x = .ok a → Safe (f a) := by
  constructor
  · intro safe
    cases x with
    | error e =>
      refine ⟨fun panics => safe ?_, nofun⟩
      rw [panics]
      rfl
    | ok a =>
      refine ⟨safe_ok a, fun b same => ?_⟩
      cases same
      exact safe
  · rintro ⟨hx, hf⟩
    exact hx.bind hf

theorem toOption_bind (x : Panics ε α) (f : α → Panics ε β) :
    (x >>= f).toOption = x.toOption.bind fun a => (f a).toOption := by
  cases x <;> rfl

theorem attempt_eq {ε' : Type} {x : Panics ε α} (h : Safe x) :
    (attempt x : Panics ε' (Option α)) = .ok x.toOption := by
  cases x with
  | ok a => rfl
  | error e =>
    cases e with
    | error e => rfl
    | panic => exact absurd rfl h

theorem attempt_panic {ε' : Type} {x : Panics ε α} :
    (attempt x : Panics ε' (Option α)) = .error .panic ↔ x = .error .panic := by
  cases x with
  | ok a => simp [attempt]
  | error e => cases e <;> simp [attempt]

theorem add_eq {a b : Nat} (h : a + b < 2 ^ 64) : (add a b : Panics ε Nat) = .ok (a + b) := if_pos h

theorem mul_eq {a b : Nat} (h : a * b < 2 ^ 64) : (mul a b : Panics ε Nat) = .ok (a * b) := if_pos h

theorem index_eq {items : List α} {i : Nat} {item : α} (h : items[i]? = some item) :
    (index items i : Panics ε α) = .ok item := by
  rw [index, h]

theorem range_eq {items : List α} {start stop : Nat} (h : start ≤ stop) (hstop : stop ≤ items.length) :
    (range items start stop : Panics ε (List α)) = .ok ((items.drop start).take (stop - start)) := by
  rw [range, getRange, if_pos ⟨h, hstop⟩]

theorem safe_gather {f : Nat → Panics ε (List α)} {l : List Nat} (h : ∀ i ∈ l, Safe (f i)) :
    Safe (gather f l) := by
  induction l with
  | nil => exact safe_ok []
  | cons i rest ih =>
    rw [gather]
    refine (h i List.mem_cons_self).bind fun here _ => ?_
    exact (ih fun j hj => h j (List.mem_cons_of_mem _ hj)).bind fun later _ => safe_ok _

/-- A loop that ended pushed what each pass pushes. -/
theorem gather_ok {f : Nat → Panics ε (List α)} {g : Nat → List α} {l : List Nat} {items : List α}
    (hf : ∀ i ∈ l, ∀ xs, f i = .ok xs → xs = g i) (h : gather f l = .ok items) :
    items = l.flatMap g ∧ ∀ i ∈ l, f i = .ok (g i) := by
  induction l generalizing items with
  | nil =>
    cases h
    exact ⟨rfl, fun i hi => absurd hi List.not_mem_nil⟩
  | cons i rest ih =>
    rw [gather] at h
    obtain ⟨here, hhere, h⟩ := bind_ok h
    obtain ⟨later, hlater, h⟩ := bind_ok h
    cases h
    obtain ⟨rfl, hrest⟩ := ih (fun j hj => hf j (List.mem_cons_of_mem _ hj)) hlater
    have heq := hf i List.mem_cons_self here hhere
    refine ⟨?_, List.forall_mem_cons.mpr ⟨heq ▸ hhere, hrest⟩⟩
    rw [List.flatMap_cons, heq]

/-- Every item a loop pushed was pushed by one of its passes. -/
theorem mem_of_gather {f : Nat → Panics ε (List α)} {l : List Nat} {items : List α}
    (h : gather f l = .ok items) {x : α} (hx : x ∈ items) :
    ∃ i ∈ l, ∃ xs, f i = .ok xs ∧ x ∈ xs := by
  induction l generalizing items with
  | nil =>
    cases h
    cases hx
  | cons i rest ih =>
    rw [gather] at h
    obtain ⟨here, hhere, h⟩ := bind_ok h
    obtain ⟨later, hlater, h⟩ := bind_ok h
    cases h
    rcases List.mem_append.mp hx with hx | hx
    · exact ⟨i, List.mem_cons_self, here, hhere, hx⟩
    · obtain ⟨j, hj, xs, hxs, hmem⟩ := ih hlater hx
      exact ⟨j, List.mem_cons_of_mem _ hj, xs, hxs, hmem⟩

end Panics

import ClickDoom.Base.Bytes

/-! # ClickHouse functions over lists

The array functions a fold expression is written with, on lists.  Arrays are
subscripted from one, and a subscript that finds nothing gives the type's
default.  A divisor is a value that carries the proof that it is not zero, so an
expression that could divide by zero cannot be written.
-/
namespace ClickHouse

variable {α β γ : Type}

/-- `a[i]`. -/
def arrayElement [Inhabited α] (a : List α) : Nat → α
  | 0 => default
  | i + 1 => a.getD i default

@[simp] theorem arrayElement_succ [Inhabited α] (a : List α) (i : Nat) :
    arrayElement a (i + 1) = a.getD i default := rfl

/-- The subscript of the last element that satisfies `p`, or zero. -/
def arrayLastIndex (p : α → Bool) : List α → Nat
  | [] => 0
  | x :: xs =>
    match arrayLastIndex p xs with
    | 0 => if p x then 1 else 0
    | n + 1 => n + 2

theorem arrayLastIndex_le_length (p : α → Bool) (l : List α) : arrayLastIndex p l ≤ l.length := by
  induction l with
  | nil => exact Nat.le_refl 0
  | cons x xs ih =>
    rw [List.length_cons, arrayLastIndex]
    split
    · split_ifs <;> omega
    · omega

/-- The last element decides first. -/
theorem arrayLastIndex_append (p : α → Bool) (l : List α) (x : α) :
    arrayLastIndex p (l ++ [x]) = if p x then l.length + 1 else arrayLastIndex p l := by
  induction l with
  | nil => rfl
  | cons y ys ih =>
    rw [List.cons_append, arrayLastIndex, ih]
    by_cases hx : p x = true
    · simp only [hx, if_true, List.length_cons]
    · simp only [hx, Bool.false_eq_true, if_false, arrayLastIndex]

/-- `arraySlice(a, offset, length)`. -/
def arraySlice (a : List α) (offset length : Nat) : List α := (a.drop (offset - 1)).take length

/-- `arraySlice(a, offset)`. -/
def arraySliceFrom (a : List α) (offset : Nat) : List α := a.drop (offset - 1)

def arrayPushBack (a : List α) (x : α) : List α := a ++ [x]

/-- `arrayFilter((x, y) -> p, a, b)`. -/
def arrayFilterTwo (p : α → β → Bool) (a : List α) (b : List β) : List α :=
  ((a.zip b).filter fun x => p x.1 x.2).map Prod.fst

/-- `arrayFilter((x, y, z) -> p, a, b, c)`. -/
def arrayFilterThree (p : α → β → γ → Bool) (a : List α) (b : List β) (c : List γ) : List α :=
  ((a.zip (b.zip c)).filter fun x => p x.1 x.2.1 x.2.2).map Prod.fst

/-- `arraySort(x -> key, a)`, of keys that are numbers. -/
def arraySort (key : α → Nat) (a : List α) : List α := a.mergeSort fun x y => key x ≤ key y

theorem arraySort_perm (key : α → Nat) (a : List α) : (arraySort key a).Perm a :=
  List.mergeSort_perm _ _

theorem arraySort_sorted (key : α → Nat) (a : List α) :
    (arraySort key a).Pairwise fun x y => key x ≤ key y := by
  refine (List.pairwise_mergeSort ?_ ?_ a).imp fun le => of_decide_eq_true le
  · intro x y z xy yz
    exact decide_eq_true (Nat.le_trans (of_decide_eq_true xy) (of_decide_eq_true yz))
  · intro x y
    simpa using Nat.le_total (key x) (key y)

/-- An array whose keys increase is the sort of every array with its elements. -/
theorem arraySort_eq {key : α → Nat} {a sorted : List α} (nodup : a.Nodup)
    (increases : sorted.Pairwise fun x y => key x < key y) (same : ∀ x, x ∈ a ↔ x ∈ sorted) :
    arraySort key a = sorted := by
  have distinct : sorted.Nodup := increases.imp fun less same => by
    rw [same] at less
    exact Nat.lt_irrefl _ less
  have perm : (arraySort key a).Perm sorted :=
    (arraySort_perm key a).trans ((List.perm_ext_iff_of_nodup nodup distinct).2 same)
  refine perm.eq_of_pairwise ?_ (arraySort_sorted key a) (increases.imp Nat.le_of_lt)
  intro x y hx hy le ge
  have keys : (sorted.map key).Nodup := List.pairwise_map.2 (increases.imp Nat.ne_of_lt)
  exact List.inj_on_of_nodup_map keys (perm.mem_iff.1 hx) hy (Nat.le_antisymm le ge)

/-- `arrayFold((acc, i) -> step, range(k), init)`. -/
def arrayFold (step : β → α → β) (a : List α) (init : β) : β := a.foldl step init

/-- The value of the first arm whose condition holds, or the last argument. -/
def multiIf : List (Bool × α) → α → α
  | [], x => x
  | (c, y) :: rest, x => if c then y else multiIf rest x

@[simp] theorem multiIf_nil (x : α) : multiIf [] x = x := rfl

@[simp] theorem multiIf_cons (c : Bool) (y : α) (rest : List (Bool × α)) (x : α) :
    multiIf ((c, y) :: rest) x = if c then y else multiIf rest x := rfl

/-- What holds of every arm's value holds of the result. -/
theorem multiIf_of_forall {P : α → Prop} {l : List (Bool × α)} {x : α} (hx : P x)
    (hl : ∀ arm ∈ l, P arm.2) : P (multiIf l x) := by
  induction l with
  | nil => exact hx
  | cons arm rest ih =>
    rw [multiIf_cons]
    split
    · exact hl arm List.mem_cons_self
    · exact ih fun arm' h => hl arm' (List.mem_cons_of_mem _ h)

/-- An expression read by a name, bound by a lambda over a one-element array when
`on`, written out where it is read otherwise. -/
def bound [Inhabited β] (on : Bool) (e : α) (body : α → β) : β :=
  if on then arrayElement ([e].map body) 1 else body e

/-- A binding changes the text and not the value. -/
@[simp] theorem bound_eq [Inhabited β] (on : Bool) (e : α) (body : α → β) :
    bound on e body = body e := by
  cases on <;> rfl

/-! ## Division -/

/-- A divisor. -/
abbrev Divisor (w : Nat) := { x : BitVec w // x ≠ 0 }

/-- `intDiv` of unsigned numbers. -/
def intDiv {w : Nat} (a : BitVec w) (b : Divisor w) : BitVec w := a / b.val

/-- `modulo` of unsigned numbers. -/
def modulo {w : Nat} (a : BitVec w) (b : Divisor w) : BitVec w := a % b.val

/-- `intDiv` of signed numbers, which rounds toward zero. -/
def intDivSigned {w : Nat} (a : BitVec w) (b : Divisor w) : BitVec w := a.sdiv b.val

/-- `modulo` of signed numbers, which takes the sign of the dividend. -/
def moduloSigned {w : Nat} (a : BitVec w) (b : Divisor w) : BitVec w := a.srem b.val

end ClickHouse

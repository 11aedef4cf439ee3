import ClickDoom.Base.ClickHouse

/-! # Runs of consecutive numbers

An increasing list of numbers falls into runs of consecutive ones.  Where a number does not follow
the one before it a run starts, and where the next one does not follow it a run ends; the list
beside itself, shifted by one place, tells both.
-/
namespace Runs
open ClickHouse (arrayFilterTwo arrayFilterThree)

section
variable {α : Type}

/-- The element before each element. -/
def before (fill : α) (l : List α) : List α := (fill :: l).dropLast

/-- The element after each element. -/
def after (fill : α) (l : List α) : List α := (l ++ [fill]).tail

theorem before_cons (fill a : α) (l : List α) : before fill (a :: l) = fill :: before a l := rfl

theorem after_cons_cons (fill a b : α) (l : List α) :
    after fill (a :: b :: l) = b :: after fill (b :: l) := rfl

theorem after_singleton (fill a : α) : after fill [a] = [fill] := rfl

end

/-! ## Starts and ends -/

/-- The numbers that do not follow the one before them. -/
def starts (prev : Nat) (l : List Nat) : List Nat :=
  arrayFilterTwo (fun a p => a ≠ p + 1) l (before prev l)

/-- The places of these numbers, the first of the list at `i`. -/
def heads (i prev : Nat) (l : List Nat) : List Nat :=
  arrayFilterThree (fun _ a p => a ≠ p + 1) (List.range' i l.length) l (before prev l)

/-- The numbers that the next one does not follow. -/
def ends (fill : Nat) (l : List Nat) : List Nat :=
  arrayFilterTwo (fun a n => n ≠ a + 1) l (after fill l)

theorem starts_cons (prev a : Nat) (l : List Nat) :
    starts prev (a :: l) = if a = prev + 1 then starts a l else a :: starts a l := by
  by_cases follows : a = prev + 1 <;>
    simp [starts, arrayFilterTwo, before_cons, follows]

theorem heads_cons (i prev a : Nat) (l : List Nat) :
    heads i prev (a :: l) = if a = prev + 1 then heads (i + 1) a l else i :: heads (i + 1) a l := by
  by_cases follows : a = prev + 1 <;>
    simp [heads, arrayFilterThree, before_cons, follows, List.range'_succ]

theorem ends_cons_cons (fill a b : Nat) (l : List Nat) :
    ends fill (a :: b :: l) = if b = a + 1 then ends fill (b :: l) else a :: ends fill (b :: l) := by
  by_cases follows : b = a + 1 <;>
    simp [ends, arrayFilterTwo, after_cons_cons, follows]

/-! ## A list as runs -/

/-- The numbers of runs, each given by its first number and how many follow it. -/
def cover (runs : List (Nat × Nat)) : List Nat := runs.flatMap fun run => List.range' run.1 (run.2 + 1)

/-- The runs are apart, and the first starts at a bound or after it. -/
def Apart : Nat → List (Nat × Nat) → Prop
  | _, [] => True
  | bound, (start, more) :: runs => bound ≤ start ∧ Apart (start + more + 2) runs

theorem Apart.mono {bound bound' : Nat} (le : bound' ≤ bound) :
    ∀ {runs : List (Nat × Nat)}, Apart bound runs → Apart bound' runs
  | [], _ => trivial
  | _ :: _, ⟨first, apart⟩ => ⟨le.trans first, apart⟩

theorem Apart.le_of_mem {bound a : Nat} {runs : List (Nat × Nat)} (apart : Apart bound runs)
    (there : a ∈ cover runs) : bound ≤ a := by
  induction runs generalizing bound with
  | nil => cases there
  | cons run runs ih =>
    obtain ⟨start, more⟩ := run
    obtain ⟨first, apart⟩ := apart
    rcases List.mem_append.1 there with here | later
    · exact first.trans (List.mem_range'_1.1 here).1
    · have := ih apart later
      omega

theorem cover_cons (start more : Nat) (runs : List (Nat × Nat)) :
    cover ((start, more) :: runs) = List.range' start (more + 1) ++ cover runs := rfl

/-- The runs of an increasing list. -/
def runsOf : List Nat → List (Nat × Nat)
  | [] => []
  | a :: l =>
    match runsOf l with
    | (start, more) :: runs =>
      if start = a + 1 then (a, more + 1) :: runs else (a, 0) :: (start, more) :: runs
    | [] => [(a, 0)]

theorem cover_runsOf (l : List Nat) : cover (runsOf l) = l := by
  induction l with
  | nil => rfl
  | cons a l ih =>
    rw [runsOf]
    split
    · rename_i start more runs here
      rw [here, cover_cons] at ih
      by_cases follows : start = a + 1
      · rw [if_pos follows, cover_cons, List.range'_succ, ← follows, List.cons_append, ih]
      · rw [if_neg follows, ← ih]
        rfl
    · rename_i here
      rw [here] at ih
      rw [← ih]
      rfl

theorem apart_runsOf {l : List Nat} (increases : l.Pairwise (· < ·)) {bound : Nat}
    (above : ∀ a ∈ l, bound ≤ a) : Apart bound (runsOf l) := by
  induction l generalizing bound with
  | nil => trivial
  | cons a l ih =>
    obtain ⟨first, increases⟩ := List.pairwise_cons.1 increases
    have low := above a List.mem_cons_self
    have apart := ih increases (fun b there => first b there : ∀ b ∈ l, a + 1 ≤ b)
    rw [runsOf]
    split
    · rename_i start more runs here
      rw [here] at apart
      obtain ⟨le, apart⟩ := apart
      by_cases follows : start = a + 1
      · rw [if_pos follows]
        exact ⟨low, apart.mono (by omega)⟩
      · rw [if_neg follows]
        exact ⟨low, by omega, apart⟩
    · exact ⟨low, trivial⟩

/-- An increasing list is runs that are apart. -/
theorem exists_cover {l : List Nat} (increases : l.Pairwise (· < ·)) {bound : Nat}
    (above : ∀ a ∈ l, bound ≤ a) : ∃ runs, Apart bound runs ∧ l = cover runs :=
  ⟨runsOf l, apart_runsOf increases above, (cover_runsOf l).symm⟩

theorem mem_cover {a : Nat} {runs : List (Nat × Nat)} :
    a ∈ cover runs ↔ ∃ run ∈ runs, run.1 ≤ a ∧ a ≤ run.1 + run.2 := by
  rw [cover, List.mem_flatMap]
  refine exists_congr fun run => and_congr_right fun _ => ?_
  rw [List.mem_range'_1]
  omega

/-- Two runs of a list are one, or one ends before the other starts and a number lies between. -/
theorem Apart.separate {bound : Nat} {runs : List (Nat × Nat)} (apart : Apart bound runs) :
    ∀ run ∈ runs, ∀ run' ∈ runs, run = run' ∨ run.1 + run.2 + 2 ≤ run'.1 ∨
      run'.1 + run'.2 + 2 ≤ run.1 := by
  induction runs generalizing bound with
  | nil => exact fun run there => absurd there List.not_mem_nil
  | cons first runs ih =>
    obtain ⟨start, more⟩ := first
    obtain ⟨-, apart⟩ := apart
    have beyond : ∀ run ∈ runs, start + more + 2 ≤ run.1 := fun run there =>
      apart.le_of_mem (mem_cover.2 ⟨run, there, le_refl _, Nat.le_add_right _ _⟩)
    intro run there run' there'
    rcases List.mem_cons.1 there with rfl | there
    · rcases List.mem_cons.1 there' with rfl | there'
      · exact .inl rfl
      · exact .inr (.inl (beyond run' there'))
    · rcases List.mem_cons.1 there' with rfl | there'
      · exact .inr (.inr (beyond run there))
      · exact ih apart run there run' there'

/-- The runs are the stretches of consecutive numbers that go on neither way. -/
theorem Apart.mem_iff {bound start more : Nat} {runs : List (Nat × Nat)} (apart : Apart bound runs) :
    (start, more) ∈ runs ↔ (∀ a, start ≤ a → a ≤ start + more → a ∈ cover runs) ∧
      (∀ a ∈ cover runs, a + 1 ≠ start) ∧ start + more + 1 ∉ cover runs := by
  have separate := apart.separate
  constructor
  · intro there
    refine ⟨fun a low high => mem_cover.2 ⟨_, there, low, high⟩, fun a covered follows => ?_,
      fun covered => ?_⟩
    · obtain ⟨run, there', low, high⟩ := mem_cover.1 covered
      rcases separate _ there _ there' with rfl | far | far <;> omega
    · obtain ⟨run, there', low, high⟩ := mem_cover.1 covered
      rcases separate _ there _ there' with rfl | far | far <;> omega
  · rintro ⟨all, before, after⟩
    obtain ⟨run, there, low, high⟩ := mem_cover.1 (all start (le_refl _) (Nat.le_add_right _ _))
    have first : run.1 = start := by
      by_contra other
      exact before (start - 1) (mem_cover.2 ⟨run, there, by omega, by omega⟩) (by omega)
    have last : run.2 = more := by
      rcases lt_trichotomy run.2 more with less | same | more'
      · obtain ⟨run', there', low', high'⟩ := mem_cover.1 (all (run.1 + run.2 + 1) (by omega) (by omega))
        rcases separate _ there _ there' with rfl | far | far <;> omega
      · exact same
      · exact absurd (mem_cover.2 ⟨run, there, by omega, by omega⟩) after
    rwa [← first, ← last]

theorem Apart.mem_firsts {bound a : Nat} {runs : List (Nat × Nat)} (apart : Apart bound runs) :
    a ∈ runs.map Prod.fst ↔ a ∈ cover runs ∧ ∀ b ∈ cover runs, b + 1 ≠ a := by
  constructor
  · intro there
    obtain ⟨⟨start, more⟩, kept, rfl⟩ := List.mem_map.1 there
    have run := apart.mem_iff.1 kept
    exact ⟨run.1 _ (le_refl _) (Nat.le_add_right _ _), run.2.1⟩
  · rintro ⟨covered, before⟩
    obtain ⟨run, there, low, high⟩ := mem_cover.1 covered
    refine List.mem_map.2 ⟨run, there, ?_⟩
    by_contra other
    exact before (a - 1) (mem_cover.2 ⟨run, there, by omega, by omega⟩) (by omega)

theorem Apart.mem_lasts {bound a : Nat} {runs : List (Nat × Nat)} (apart : Apart bound runs) :
    a ∈ (runs.map fun run => run.1 + run.2) ↔ a ∈ cover runs ∧ a + 1 ∉ cover runs := by
  constructor
  · intro there
    obtain ⟨⟨start, more⟩, kept, rfl⟩ := List.mem_map.1 there
    have run := apart.mem_iff.1 kept
    exact ⟨run.1 _ (Nat.le_add_right _ _) (le_refl _), run.2.2⟩
  · rintro ⟨covered, after⟩
    obtain ⟨run, there, low, high⟩ := mem_cover.1 covered
    refine List.mem_map.2 ⟨run, there, ?_⟩
    by_contra other
    exact after (mem_cover.2 ⟨run, there, by omega, by omega⟩)

/-- The runs increase. -/
theorem Apart.increases {bound : Nat} {runs : List (Nat × Nat)} (apart : Apart bound runs) :
    runs.Pairwise fun run run' => run.1 + run.2 < run'.1 := by
  induction runs generalizing bound with
  | nil => exact List.Pairwise.nil
  | cons run runs ih =>
    obtain ⟨start, more⟩ := run
    obtain ⟨-, apart⟩ := apart
    refine List.pairwise_cons.2 ⟨fun run' there => ?_, ih apart⟩
    have := apart.le_of_mem (mem_cover.2 ⟨run', there, le_refl _, Nat.le_add_right _ _⟩)
    omega

/-! ## Reading the runs off a list -/

theorem starts_range' (prev n : Nat) (l : List Nat) :
    starts prev (List.range' (prev + 1) n ++ l) = starts (prev + n) l := by
  induction n generalizing prev with
  | zero => rfl
  | succ n ih =>
    rw [List.range'_succ, List.cons_append, starts_cons, if_pos rfl, ih]
    congr 1
    omega

theorem heads_range' (i prev n : Nat) (l : List Nat) :
    heads i prev (List.range' (prev + 1) n ++ l) = heads (i + n) (prev + n) l := by
  induction n generalizing i prev with
  | zero => rfl
  | succ n ih =>
    rw [List.range'_succ, List.cons_append, heads_cons, if_pos rfl, ih]
    congr 1 <;> omega

theorem starts_cover {prev bound : Nat} {runs : List (Nat × Nat)} (apart : Apart bound runs)
    (far : ∀ a ∈ cover runs, a ≠ prev + 1) : starts prev (cover runs) = runs.map Prod.fst := by
  induction runs generalizing prev bound with
  | nil => rfl
  | cons run runs ih =>
    obtain ⟨start, more⟩ := run
    obtain ⟨-, apart⟩ := apart
    rw [cover_cons, List.range'_succ, List.cons_append] at far ⊢
    rw [starts_cons, if_neg (far start List.mem_cons_self), starts_range', ih apart fun a there => by
      have := apart.le_of_mem there
      omega]
    rfl

/-- Where each run starts in the list. -/
def headsOf : Nat → List (Nat × Nat) → List Nat
  | _, [] => []
  | i, (_, more) :: runs => i :: headsOf (i + (more + 1)) runs

theorem heads_cover {prev bound : Nat} {runs : List (Nat × Nat)} (apart : Apart bound runs)
    (far : ∀ a ∈ cover runs, a ≠ prev + 1) (i : Nat) : heads i prev (cover runs) = headsOf i runs := by
  induction runs generalizing prev bound i with
  | nil => rfl
  | cons run runs ih =>
    obtain ⟨start, more⟩ := run
    obtain ⟨-, apart⟩ := apart
    rw [cover_cons, List.range'_succ, List.cons_append] at far ⊢
    rw [heads_cons, if_neg (far start List.mem_cons_self), heads_range', ih apart fun a there => by
      have := apart.le_of_mem there
      omega]
    rw [headsOf]
    congr 2
    omega

theorem ends_range' {fill : Nat} (start n : Nat) {l : List Nat}
    (apart : ∀ a, (l ++ [fill]).head? = some a → a ≠ start + n + 1) :
    ends fill (List.range' start (n + 1) ++ l) = (start + n) :: ends fill l := by
  induction n generalizing start with
  | zero =>
    cases l with
    | nil =>
      have last := apart fill rfl
      simp [ends, arrayFilterTwo, after, last]
    | cons b l => exact (ends_cons_cons fill start b l).trans (if_neg (apart b rfl))
  | succ n ih =>
    have later := ih (start + 1) (fun a first => by
      have := apart a first
      omega)
    rw [List.range'_succ] at later
    rw [List.range'_succ, List.range'_succ, List.cons_append, List.cons_append, ends_cons_cons,
      if_pos rfl, ← List.cons_append, later]
    congr 1
    omega

theorem ends_cover {fill bound : Nat} {runs : List (Nat × Nat)} (apart : Apart bound runs)
    (far : ∀ a ∈ cover runs, fill ≠ a + 1) :
    ends fill (cover runs) = runs.map fun run => run.1 + run.2 := by
  induction runs generalizing bound with
  | nil => rfl
  | cons run runs ih =>
    obtain ⟨start, more⟩ := run
    obtain ⟨-, apart⟩ := apart
    rw [cover_cons] at far ⊢
    rw [ends_range', ih apart fun a there => far a (List.mem_append_right _ there)]
    · rfl
    · intro a first
      cases runs with
      | nil =>
        cases first
        exact far _ (List.mem_append_left _ (List.mem_range'_1.2 ⟨by omega, by omega⟩))
      | cons run runs =>
        obtain ⟨next, -⟩ := apart
        rw [cover_cons, List.range'_succ] at first
        cases first
        omega

/-! ## Laying runs over a list -/

section
variable {α : Type} (base new : List α)

/-- The list from `g` on with the runs replaced, one after the other, by what is new from `i` on. -/
def patched : Nat → Nat → List (Nat × Nat) → List α
  | g, _, [] => base.drop g
  | g, i, (start, more) :: runs =>
    (base.drop g).take (start - g) ++ (new.drop i).take (more + 1) ++
      patched (start + more + 1) (i + (more + 1)) runs

variable {base new}

theorem length_cover_cons (start more : Nat) (runs : List (Nat × Nat)) :
    (cover ((start, more) :: runs)).length = more + 1 + (cover runs).length := by
  rw [cover_cons, List.length_append, List.length_range']

theorem length_patched {g i : Nat} {runs : List (Nat × Nat)} (apart : Apart g runs)
    (low : g ≤ base.length) (inside : ∀ a ∈ cover runs, a < base.length)
    (enough : new.length = i + (cover runs).length) :
    (patched base new g i runs).length = base.length - g := by
  induction runs generalizing g i with
  | nil => exact List.length_drop
  | cons run runs ih =>
    obtain ⟨start, more⟩ := run
    obtain ⟨first, apart⟩ := apart
    have last : start + more < base.length := inside _
      (List.mem_append_left _ (List.mem_range'_1.2 ⟨by omega, by omega⟩))
    rw [length_cover_cons] at enough
    rw [patched, List.length_append, List.length_append, List.length_take, List.length_take,
      List.length_drop, List.length_drop, ih (apart.mono (by omega)) (by omega)
        (fun a there => inside a (List.mem_append_right _ there)) (by omega)]
    omega

/-- A number of a run has what is new, any other one what was there. -/
theorem getElem?_patched {g i : Nat} {runs : List (Nat × Nat)} (apart : Apart g runs)
    (low : g ≤ base.length) (inside : ∀ a ∈ cover runs, a < base.length)
    (enough : new.length = i + (cover runs).length) {o : Nat} (above : g ≤ o) :
    (∀ k, (cover runs)[k]? = some o → (patched base new g i runs)[o - g]? = new[i + k]?) ∧
      (o ∉ cover runs → (patched base new g i runs)[o - g]? = base[o]?) := by
  induction runs generalizing g i with
  | nil =>
    refine ⟨nofun, fun _ => ?_⟩
    rw [patched, List.getElem?_drop]
    congr 1
    omega
  | cons run runs ih =>
    obtain ⟨start, more⟩ := run
    obtain ⟨first, apart⟩ := apart
    have last : start + more < base.length := inside _
      (List.mem_append_left _ (List.mem_range'_1.2 ⟨by omega, by omega⟩))
    rw [length_cover_cons] at enough
    have gap : ((base.drop g).take (start - g)).length = start - g := by
      rw [List.length_take, List.length_drop]
      omega
    have run : ((new.drop i).take (more + 1)).length = more + 1 := by
      rw [List.length_take, List.length_drop]
      omega
    rw [patched, cover_cons]
    have later := ih (apart.mono (by omega)) (g := start + more + 1) (i := i + (more + 1)) (by omega)
      (fun a there => inside a (List.mem_append_right _ there)) (by omega)
    -- before the run, in it, or after it
    rcases lt_or_ge o start with before | after
    · have here : (((base.drop g).take (start - g) ++ (new.drop i).take (more + 1)) ++
          patched base new (start + more + 1) (i + (more + 1)) runs)[o - g]? = base[o]? := by
        rw [List.append_assoc, List.getElem?_append_left (by omega),
          List.getElem?_take_of_lt (by omega), List.getElem?_drop]
        congr 1
        omega
      refine ⟨fun k found => ?_, fun _ => here⟩
      have there := List.mem_of_getElem? found
      have := (show Apart start ((start, more) :: runs) from ⟨le_refl _, apart⟩).le_of_mem there
      omega
    rcases le_or_gt o (start + more) with within | past
    · have mem : o ∈ List.range' start (more + 1) := List.mem_range'_1.2 ⟨after, by omega⟩
      refine ⟨fun k found => ?_, fun none => absurd (List.mem_append_left _ mem) none⟩
      have place : k = o - start := by
        rcases lt_or_ge k (more + 1) with inRun | later
        · rw [List.getElem?_append_left (by simpa using inRun),
            List.getElem?_range' (by omega)] at found
          cases found
          omega
        · rw [List.getElem?_append_right (by simpa using later)] at found
          have := apart.le_of_mem (List.mem_of_getElem? found)
          omega
      rw [List.getElem?_append_left (by rw [List.length_append]; omega),
        List.getElem?_append_right (by omega), List.getElem?_take_of_lt (by omega),
        List.getElem?_drop]
      congr 1
      omega
    · have shift : (((base.drop g).take (start - g) ++ (new.drop i).take (more + 1)) ++
          patched base new (start + more + 1) (i + (more + 1)) runs)[o - g]? =
            (patched base new (start + more + 1) (i + (more + 1)) runs)[o - (start + more + 1)]? := by
        rw [List.getElem?_append_right (by rw [List.length_append]; omega), List.length_append]
        congr 1
        omega
      rw [shift]
      have later := later (by omega : start + more + 1 ≤ o)
      refine ⟨fun k found => ?_, fun none => later.2 fun there => none (List.mem_append_right _ there)⟩
      have past : more + 1 ≤ k := by
        by_contra inRun
        rw [List.getElem?_append_left (by simpa using inRun),
          List.getElem?_range' (by omega)] at found
        cases found
        omega
      rw [List.getElem?_append_right (by simpa using past), List.length_range'] at found
      rw [later.1 _ found]
      congr 1
      omega

end

end Runs

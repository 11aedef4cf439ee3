import Mathlib

/-! # Lists of posts

A set of integers as the list of its runs: closed ranges, ascending, with an integer outside the set
between any two.  `insert` closes a range and merges the posts it touches, `gaps` are the runs a range
has left between the posts.  A set has one such list, so two lists with the same integers are equal.
-/
namespace Posts

/-- The integers from `first` to `last`. -/
structure Post where
  first : Int
  last : Int
  deriving DecidableEq, Repr, Inhabited

def Post.Has (p : Post) (c : Int) : Prop := p.first ≤ c ∧ c ≤ p.last

/-- An integer is in one of the posts. -/
def Covers (posts : List Post) (c : Int) : Prop := ∃ p ∈ posts, p.Has c

/-- The posts are runs: none is empty, and an integer lies between any two. -/
structure Separate (posts : List Post) : Prop where
  apart : posts.Pairwise fun p q => p.last + 1 < q.first
  full : ∀ p ∈ posts, p.first ≤ p.last

variable {p q : Post} {posts : List Post} {first last c : Int}

@[simp] theorem covers_nil : ¬ Covers [] c := by
  rintro ⟨_, there, -⟩
  cases there

@[simp] theorem covers_cons : Covers (p :: posts) c ↔ p.Has c ∨ Covers posts c := by
  simp [Covers]

@[simp] theorem covers_append {more : List Post} :
    Covers (posts ++ more) c ↔ Covers posts c ∨ Covers more c := by
  simp [Covers, or_and_right, exists_or]

namespace Separate

theorem nil : Separate [] := ⟨List.Pairwise.nil, fun _ there => by cases there⟩

theorem tail (sep : Separate (p :: posts)) : Separate posts :=
  ⟨(List.pairwise_cons.1 sep.apart).2, fun q there => sep.full q (List.mem_cons_of_mem p there)⟩

theorem head_le (sep : Separate (p :: posts)) : p.first ≤ p.last :=
  sep.full p List.mem_cons_self

theorem after (sep : Separate (p :: posts)) (there : q ∈ posts) : p.last + 1 < q.first :=
  (List.pairwise_cons.1 sep.apart).1 q there

theorem cons (sep : Separate posts) (full : p.first ≤ p.last)
    (before : ∀ q ∈ posts, p.last + 1 < q.first) : Separate (p :: posts) := by
  refine ⟨List.pairwise_cons.2 ⟨before, sep.apart⟩, fun q there => ?_⟩
  rcases List.mem_cons.1 there with rfl | there
  · exact full
  · exact sep.full q there

/-- What the later posts cover lies beyond the first and the integer after it. -/
theorem beyond (sep : Separate (p :: posts)) (covered : Covers posts c) : p.last + 1 < c := by
  obtain ⟨q, there, low, -⟩ := covered
  exact (sep.after there).trans_le low

/-- A first post that starts lower, or ends lower, leaves the posts runs. -/
theorem shape (sep : Separate (p :: posts)) (full : q.first ≤ q.last) (low : q.last ≤ p.last) :
    Separate (q :: posts) :=
  sep.tail.cons full fun r there => by
    have := sep.after there
    omega

/-- A set has one list of posts. -/
theorem ext {P Q : List Post} (sepP : Separate P) (sepQ : Separate Q)
    (same : ∀ c, Covers P c ↔ Covers Q c) : P = Q := by
  induction P generalizing Q with
  | nil =>
    cases Q with
    | nil => rfl
    | cons q qs => exact absurd ((same q.first).2 (covers_cons.2 (.inl ⟨le_rfl, sepQ.head_le⟩))) covers_nil
  | cons p ps ih =>
    cases Q with
    | nil => exact absurd ((same p.first).1 (covers_cons.2 (.inl ⟨le_rfl, sepP.head_le⟩))) covers_nil
    | cons q qs =>
      -- the first integer of either list is the least they cover
      have lowest : ∀ {a b : Post} {as bs : List Post}, Separate (a :: as) → Separate (b :: bs) →
          (∀ c, Covers (a :: as) c → Covers (b :: bs) c) → b.first ≤ a.first := by
        intro a b as bs sepA sepB within
        rcases covers_cons.1 (within a.first (covers_cons.2 (.inl ⟨le_rfl, sepA.head_le⟩))) with
          here | later
        · exact here.1
        · have := sepB.beyond later
          have := sepB.head_le
          omega
      -- the integer after a post is in none
      have shortest : ∀ {a b : Post} {as bs : List Post}, Separate (a :: as) → Separate (b :: bs) →
          (∀ c, Covers (b :: bs) c → Covers (a :: as) c) → a.first = b.first → b.last ≤ a.last := by
        intro a b as bs sepA sepB within start
        by_contra longer
        have inside : b.Has (a.last + 1) := by
          have := sepA.head_le
          constructor <;> omega
        rcases covers_cons.1 (within _ (covers_cons.2 (.inl inside))) with here | later
        · have := here.2
          omega
        · have := sepA.beyond later
          omega
      have start : p.first = q.first :=
        le_antisymm (lowest sepQ sepP fun c => (same c).2) (lowest sepP sepQ fun c => (same c).1)
      have stop : p.last = q.last :=
        le_antisymm (shortest sepQ sepP (fun c => (same c).1) start.symm)
          (shortest sepP sepQ (fun c => (same c).2) start)
      obtain rfl : p = q := by
        cases p
        cases q
        simp_all
      refine congrArg (p :: ·) (ih sepP.tail sepQ.tail fun c => ?_)
      constructor
      · intro covered
        have far := sepP.beyond covered
        rcases covers_cons.1 ((same c).1 (covers_cons.2 (.inr covered))) with here | later
        · have := here.2
          omega
        · exact later
      · intro covered
        have far := sepQ.beyond covered
        rcases covers_cons.1 ((same c).2 (covers_cons.2 (.inr covered))) with here | later
        · have := here.2
          omega
        · exact later

end Separate

/-- The posts that are the runs of a set. -/
structure Runs (S : Int → Prop) (posts : List Post) : Prop where
  separate : Separate posts
  covers : ∀ c, Covers posts c ↔ S c

theorem Runs.unique {S : Int → Prop} {P Q : List Post} (runsP : Runs S P) (runsQ : Runs S Q) :
    P = Q :=
  runsP.separate.ext runsQ.separate fun c => (runsP.covers c).trans (runsQ.covers c).symm

open Classical in
/-- The runs of a set that has finitely many. -/
noncomputable def runsOf (S : Int → Prop) : List Post :=
  if some : ∃ posts, Runs S posts then some.choose else []

theorem Runs.runsOf_eq {S : Int → Prop} (runs : Runs S posts) : runsOf S = posts := by
  have some : ∃ posts, Runs S posts := ⟨posts, runs⟩
  rw [runsOf, dif_pos some]
  exact some.choose_spec.unique runs

/-! ## What a range has left -/

/-- The runs of a range outside the posts. -/
def gaps (first last : Int) : List Post → List Post
  | [] => [⟨first, last⟩]
  | p :: ps =>
    if p.last < first then gaps first last ps
    else if last < p.first then [⟨first, last⟩]
    else (if first < p.first then [⟨first, p.first - 1⟩] else []) ++
      if p.last < last then gaps (p.last + 1) last ps else []

theorem first_le_gaps (sep : Separate posts) (le : first ≤ last) :
    ∀ g ∈ gaps first last posts, first ≤ g.first := by
  induction posts generalizing first with
  | nil => simp [gaps]
  | cons p ps ih =>
    intro g there
    rw [gaps] at there
    split_ifs at there with skip beyond start longer longer
    · exact ih sep.tail le g there
    · rw [List.mem_singleton.1 there]
    · rcases List.mem_append.1 there with here | later
      · rw [List.mem_singleton.1 here]
      · have := ih sep.tail (by omega : p.last + 1 ≤ last) g later
        omega
    · rw [List.append_nil] at there
      rw [List.mem_singleton.1 there]
    · have := ih sep.tail (by omega : p.last + 1 ≤ last) g there
      omega
    · cases there

theorem covers_gaps (sep : Separate posts) (le : first ≤ last) :
    Covers (gaps first last posts) c ↔ (first ≤ c ∧ c ≤ last) ∧ ¬ Covers posts c := by
  induction posts generalizing first with
  | nil => simp [gaps, Post.Has]
  | cons p ps ih =>
    have full := sep.head_le
    have outside : c ≤ p.last + 1 → ¬ Covers ps c := fun low covered => by
      have := sep.beyond covered
      omega
    rw [gaps, covers_cons, not_or]
    split_ifs with skip beyond start longer longer
    · rw [ih sep.tail le]
      refine and_congr_right fun inside => (and_iff_right ?_).symm
      rintro ⟨-, high⟩
      omega
    · rw [covers_cons, or_iff_left covers_nil, Post.Has]
      constructor
      · intro inside
        refine ⟨inside, fun here => ?_, outside ?_⟩
        · have := here.1
          dsimp only at inside
          omega
        · dsimp only at inside
          omega
      · exact fun both => both.1
    · rw [covers_append, ih sep.tail (by omega), covers_cons, or_iff_left covers_nil, Post.Has,
        Post.Has]
      dsimp only
      by_cases low : c ≤ p.last + 1
      · have := outside low
        simp only [this, not_false_eq_true, and_true]
        omega
      · simp only [show ¬ (first ≤ c ∧ c ≤ p.first - 1) by omega, false_or,
          show ¬ (p.first ≤ c ∧ c ≤ p.last) by omega, not_false_eq_true, true_and]
        refine and_congr_left fun _ => ?_
        omega
    · rw [List.append_nil, covers_cons, or_iff_left covers_nil, Post.Has, Post.Has]
      dsimp only
      constructor
      · intro inside
        exact ⟨by omega, by omega, outside (by omega)⟩
      · rintro ⟨inside, here, -⟩
        omega
    · rw [List.nil_append, ih sep.tail (by omega), Post.Has]
      by_cases low : c ≤ p.last + 1
      · have := outside low
        simp only [this, not_false_eq_true, and_true]
        omega
      · simp only [show ¬ (p.first ≤ c ∧ c ≤ p.last) by omega, not_false_eq_true, true_and]
        refine and_congr_left fun _ => ?_
        omega
    · rw [List.append_nil, Post.Has]
      simp only [covers_nil, false_iff]
      rintro ⟨inside, here, -⟩
      omega

theorem separate_gaps (sep : Separate posts) (le : first ≤ last) :
    Separate (gaps first last posts) := by
  induction posts generalizing first with
  | nil => exact Separate.nil.cons le fun _ there => by cases there
  | cons p ps ih =>
    have full := sep.head_le
    rw [gaps]
    split_ifs with skip beyond start longer longer
    · exact ih sep.tail le
    · exact Separate.nil.cons le fun _ there => by cases there
    · refine (ih sep.tail (by omega)).cons (by dsimp only; omega) fun g there => ?_
      have := first_le_gaps sep.tail (by omega : p.last + 1 ≤ last) g there
      dsimp only
      omega
    · exact Separate.nil.cons (by dsimp only; omega) fun _ there => by cases there
    · exact ih sep.tail (by omega)
    · exact Separate.nil

theorem runs_gaps (sep : Separate posts) (le : first ≤ last) :
    Runs (fun c => (first ≤ c ∧ c ≤ last) ∧ ¬ Covers posts c) (gaps first last posts) :=
  ⟨separate_gaps sep le, fun _ => covers_gaps sep le⟩

/-! ## Closing a range -/

/-- A post that grows up to `last`, over the posts it reaches. -/
def absorb (last : Int) (p : Post) : List Post → List Post
  | [] => [⟨p.first, last⟩]
  | q :: qs =>
    if q.first - 1 ≤ last then
      if last ≤ q.last then ⟨p.first, q.last⟩ :: qs else absorb last ⟨p.first, q.last⟩ qs
    else ⟨p.first, last⟩ :: q :: qs

/-- The posts with a range closed. -/
def insert (first last : Int) : List Post → List Post
  | [] => [⟨first, last⟩]
  | p :: ps =>
    if p.last < first - 1 then p :: insert first last ps
    else if last < p.first - 1 then ⟨first, last⟩ :: p :: ps
    else if last ≤ p.last then ⟨min first p.first, p.last⟩ :: ps
    else absorb last ⟨min first p.first, p.last⟩ ps

theorem absorb_spec (sep : Separate (p :: posts)) (longer : p.last < last) :
    Separate (absorb last p posts) ∧
      (∀ c, Covers (absorb last p posts) c ↔ (p.first ≤ c ∧ c ≤ last) ∨ Covers posts c) ∧
      ∀ q ∈ absorb last p posts, p.first ≤ q.first := by
  have full := sep.head_le
  induction posts generalizing p with
  | nil =>
    refine ⟨Separate.nil.cons (by dsimp only; omega) (fun _ there => by cases there), fun c => ?_, ?_⟩
    · simp [absorb, Post.Has]
    · simp [absorb]
  | cons q qs ih =>
    have gap := sep.after (List.mem_cons_self (a := q) (l := qs))
    have fullq := sep.tail.head_le
    rw [absorb]
    split_ifs with touches within
    · refine ⟨sep.tail.shape (by dsimp only; omega) le_rfl, fun c => ?_, fun r there => ?_⟩
      · rw [covers_cons, covers_cons, ← or_assoc]
        refine or_congr_left ?_
        simp only [Post.Has]
        omega
      · rcases List.mem_cons.1 there with rfl | there
        · exact le_rfl
        · have := sep.tail.after there
          omega
    · have merged : Separate (⟨p.first, q.last⟩ :: qs) := sep.tail.shape (by dsimp only; omega) le_rfl
      obtain ⟨runs, covers, low⟩ := ih merged (by dsimp only; omega) merged.head_le
      refine ⟨runs, fun c => ?_, low⟩
      rw [covers, covers_cons, ← or_assoc]
      refine or_congr_left ?_
      simp only [Post.Has]
      omega
    · refine ⟨sep.tail.cons (by dsimp only; omega) fun r there => ?_, fun c => ?_, fun r there => ?_⟩
      · rcases List.mem_cons.1 there with rfl | there
        · dsimp only
          omega
        · have := sep.tail.after there
          dsimp only
          omega
      · rw [covers_cons]
        rfl
      · rcases List.mem_cons.1 there with rfl | there
        · exact le_rfl
        · have := sep.after there
          omega

theorem insert_spec (sep : Separate posts) (le : first ≤ last) :
    Separate (insert first last posts) ∧
      (∀ c, Covers (insert first last posts) c ↔ (first ≤ c ∧ c ≤ last) ∨ Covers posts c) ∧
      ∀ bound, bound ≤ first → (∀ q ∈ posts, bound ≤ q.first) →
        ∀ q ∈ insert first last posts, bound ≤ q.first := by
  induction posts with
  | nil =>
    refine ⟨Separate.nil.cons le (fun _ there => by cases there), fun c => ?_, ?_⟩
    · simp [insert, Post.Has]
    · simp [insert]
  | cons p ps ih =>
    have full := sep.head_le
    obtain ⟨runs, covers, low⟩ := ih sep.tail
    rw [insert]
    split_ifs with under above within
    · refine ⟨runs.cons full fun q there => ?_, fun c => ?_, fun bound start bounded q there => ?_⟩
      · have := low (p.last + 2) (by omega) (fun r there => by
          have := sep.after there
          omega) q there
        omega
      · rw [covers_cons, covers_cons, covers, or_left_comm]
      · rcases List.mem_cons.1 there with rfl | there
        · exact bounded q List.mem_cons_self
        · exact low bound start (fun r there => bounded r (List.mem_cons_of_mem p there)) q there
    · refine ⟨sep.cons le fun q there => ?_, fun c => ?_, fun bound start bounded q there => ?_⟩
      · rcases List.mem_cons.1 there with rfl | there
        · dsimp only
          omega
        · have := sep.after there
          dsimp only
          omega
      · rw [covers_cons]
        rfl
      · rcases List.mem_cons.1 there with rfl | there
        · exact start
        · exact bounded q there
    · refine ⟨sep.shape (by dsimp only; omega) le_rfl, fun c => ?_, fun bound start bounded q there => ?_⟩
      · rw [covers_cons, covers_cons, ← or_assoc]
        refine or_congr_left ?_
        simp only [Post.Has]
        omega
      · rcases List.mem_cons.1 there with rfl | there
        · exact le_min start (bounded p List.mem_cons_self)
        · exact bounded q (List.mem_cons_of_mem p there)
    · have wide : Separate (⟨min first p.first, p.last⟩ :: ps) :=
        sep.shape (by dsimp only; omega) le_rfl
      obtain ⟨runs, covers, low⟩ := absorb_spec wide (by omega : p.last < last)
      refine ⟨runs, fun c => ?_, fun bound start bounded q there => ?_⟩
      · rw [covers, covers_cons, ← or_assoc]
        refine or_congr_left ?_
        simp only [Post.Has]
        omega
      · exact (le_min start (bounded p List.mem_cons_self)).trans (low q there)

theorem covers_insert (sep : Separate posts) (le : first ≤ last) :
    Covers (insert first last posts) c ↔ (first ≤ c ∧ c ≤ last) ∨ Covers posts c :=
  (insert_spec sep le).2.1 c

theorem separate_insert (sep : Separate posts) (le : first ≤ last) :
    Separate (insert first last posts) := (insert_spec sep le).1

theorem gaps_append {below : List Post} (under : ∀ p ∈ below, p.last < first) :
    gaps first last (below ++ posts) = gaps first last posts := by
  induction below with
  | nil => rfl
  | cons p ps ih =>
    rw [List.cons_append, gaps, if_pos (under p List.mem_cons_self),
      ih fun q there => under q (List.mem_cons_of_mem p there)]

theorem insert_append {below : List Post} (under : ∀ p ∈ below, p.last < first - 1) :
    insert first last (below ++ posts) = below ++ insert first last posts := by
  induction below with
  | nil => rfl
  | cons p ps ih =>
    rw [List.cons_append, insert, if_pos (under p List.mem_cons_self),
      ih fun q there => under q (List.mem_cons_of_mem p there), List.cons_append]

/-! ## Looking a range up -/

/-- The first post that ends no lower than `last` contains the range exactly when the posts cover the
whole of it. -/
theorem contains_iff (sep : Separate posts) (le : first ≤ last) :
    (∃ p, posts.find? (fun p => last ≤ p.last) = some p ∧ p.first ≤ first) ↔
      ∀ c, first ≤ c → c ≤ last → Covers posts c := by
  induction posts with
  | nil =>
    constructor
    · rintro ⟨p, found, -⟩
      cases found
    · exact fun all => absurd (all first le_rfl le) covers_nil
  | cons p ps ih =>
    by_cases here : last ≤ p.last
    · rw [List.find?_cons_of_pos (by simpa using here)]
      constructor
      · rintro ⟨q, same, low⟩ c lower upper
        obtain rfl := Option.some.inj same
        exact covers_cons.2 (.inl ⟨low.trans lower, upper.trans here⟩)
      · intro all
        refine ⟨p, rfl, ?_⟩
        rcases covers_cons.1 (all first le_rfl le) with here | later
        · exact here.1
        · have := sep.beyond later
          omega
    · rw [List.find?_cons_of_neg (by simpa using here), ih sep.tail]
      constructor
      · exact fun all c lower upper => covers_cons.2 (.inr (all c lower upper))
      · intro all c lower upper
        -- a post that ends inside the range leaves the next integer open
        by_cases low : c ≤ p.last
        · rcases covers_cons.1 (all (p.last + 1) (by omega) (by omega)) with inside | later
          · have := inside.2
            omega
          · have := sep.beyond later
            omega
        · rcases covers_cons.1 (all c lower upper) with inside | later
          · exact absurd inside.2 low
          · exact later

end Posts

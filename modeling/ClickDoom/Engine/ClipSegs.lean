import ClickDoom.Base.Posts

/-! # The clip list

`r_bsp.c`: `R_ClearClipSegs`, `R_ClipSolidWallSegment`, `R_ClipPassWallSegment` and the search of
`R_CheckBBox`.  `solidsegs` is the array with whatever stands in it, `newend` an index into it; the
calls of `R_StoreWallRange` are returned.  Columns are far inside an `int`, so nothing wraps.
-/
namespace ClickDoom.Engine

/-- `cliprange_t`. -/
abbrev Cliprange := Posts.Post

/-- `MAXSEGS`. -/
def maxsegs : Nat := 32

structure ClipSegs where
  solidsegs : List Cliprange
  newend : Nat
  deriving DecidableEq, Repr

namespace ClipSegs

def entry (c : ClipSegs) (i : Nat) : Cliprange := c.solidsegs.getD i default

/-- `R_ClearClipSegs`. -/
def clear (c : ClipSegs) (viewwidth : Int) : ClipSegs :=
  ⟨(c.solidsegs.set 0 ⟨-0x7fffffff, -1⟩).set 1 ⟨viewwidth, 0x7fffffff⟩, 2⟩

/-- Where the first range stands that ends at `last` or beyond. -/
def search (c : ClipSegs) (last : Int) : Nat := c.solidsegs.findIdx fun r => !decide (r.last < last)

/-- Moves the `n` ranges from `start` on up by one, the last of them first. -/
def shift (start : Nat) : Nat → List Cliprange → List Cliprange
  | 0, segs => segs
  | n + 1, segs => shift start n (segs.set (start + n + 1) (segs.getD (start + n) default))

/-- The fragments before the ranges that `last` reaches, how many ranges those are, and whether `last`
lies inside the last of them. -/
def reach (last : Int) (next : Cliprange) : List Cliprange → List Cliprange × Nat × Bool
  | [] => ([], 0, false)
  | q :: qs =>
    if q.first - 1 ≤ last then
      if last ≤ q.last then ([⟨next.last + 1, q.first - 1⟩], 1, true)
      else
        let further := reach last q qs
        (⟨next.last + 1, q.first - 1⟩ :: further.1, further.2.1 + 1, further.2.2)
    else ([], 0, false)

/-- `crunch`: brings `n` ranges from beyond `next` down to beyond `start`. -/
def crunch : Nat → Nat → Nat → List Cliprange → List Cliprange
  | 0, _, _, segs => segs
  | n + 1, start, next, segs =>
    crunch n (start + 1) (next + 1) (segs.set (start + 1) (segs.getD (next + 1) default))

/-- `R_ClipSolidWallSegment`, with nothing where the array has no room for another range. -/
def clipSolidWallSegment (first last : Int) (c : ClipSegs) : Option (List Cliprange × ClipSegs) :=
  let start := c.search (first - 1)
  let post := c.entry start
  if first < post.first ∧ last < post.first - 1 then
    if c.newend < maxsegs then
      some ([⟨first, last⟩],
        ⟨(shift start (c.newend - start) c.solidsegs).set start ⟨first, last⟩, c.newend + 1⟩)
    else none
  else
    let above := if first < post.first then [⟨first, post.first - 1⟩] else []
    let low := if first < post.first then first else post.first
    if last ≤ post.last then
      some (above, { c with solidsegs := c.solidsegs.set start ⟨low, post.last⟩ })
    else
      let (between, steps, inside) := reach last post (c.solidsegs.drop (start + 1))
      let next := start + steps
      let stop := (c.entry next).last
      let after := if inside then [] else [⟨stop + 1, last⟩]
      let segs := c.solidsegs.set start ⟨low, if inside then stop else last⟩
      if steps = 0 then some (above ++ after, { c with solidsegs := segs })
      else
        let n := c.newend - next
        some (above ++ between ++ after, ⟨crunch n start next segs, start + n + 1⟩)

/-- `R_ClipPassWallSegment`. -/
def clipPassWallSegment (first last : Int) (c : ClipSegs) : List Cliprange :=
  let start := c.search (first - 1)
  let post := c.entry start
  if first < post.first ∧ last < post.first - 1 then [⟨first, last⟩]
  else
    let above := if first < post.first then [⟨first, post.first - 1⟩] else []
    if last ≤ post.last then above
    else
      let (between, steps, inside) := reach last post (c.solidsegs.drop (start + 1))
      above ++ between ++ if inside then [] else [⟨(c.entry (start + steps)).last + 1, last⟩]

/-- Whether one range contains the columns `sx1` to `sx2`, as `R_CheckBBox` looks. -/
def contains (sx1 sx2 : Int) (c : ClipSegs) : Bool :=
  let start := c.entry (c.search sx2)
  start.first ≤ sx1 ∧ sx2 ≤ start.last

/-! ## What the array holds -/

/-- The array begins with posts that close what is left and right of the view and the columns
`closed`; ranges left over from earlier follow. -/
structure Holds (viewwidth : Int) (c : ClipSegs) (closed : Int → Prop) (posts : List Cliprange) :
    Prop where
  begins : ∃ stale, c.solidsegs = posts ++ stale
  length : c.solidsegs.length = maxsegs
  counted : posts.length ≤ c.newend
  room : c.newend ≤ maxsegs
  separate : Posts.Separate posts
  covers : ∀ x, Posts.Covers posts x ↔
    (-0x7fffffff ≤ x ∧ x ≤ -1) ∨ (viewwidth ≤ x ∧ x ≤ 0x7fffffff) ∨
      (0 ≤ x ∧ x < viewwidth ∧ closed x)

theorem holds_clear {viewwidth : Int} (wide : 0 < viewwidth) (narrow : viewwidth ≤ 0x7fffffff)
    {c : ClipSegs} (length : c.solidsegs.length = maxsegs) :
    Holds viewwidth (c.clear viewwidth) (fun _ => False)
      [⟨-0x7fffffff, -1⟩, ⟨viewwidth, 0x7fffffff⟩] := by
  obtain ⟨segs, newend⟩ := c
  obtain _ | ⟨a, _ | ⟨b, stale⟩⟩ := segs
  · cases length
  · cases length
  refine ⟨⟨stale, rfl⟩, length, le_rfl, show 2 ≤ maxsegs by decide, ?_, fun x => ?_⟩
  · refine (Posts.Separate.nil.cons narrow (fun _ there => by cases there)).cons (by decide) ?_
    intro q there
    rw [List.mem_singleton.1 there]
    dsimp only
    omega
  · simp [Posts.Post.Has]

theorem Holds.congr {viewwidth : Int} {c : ClipSegs} {closed closed' : Int → Prop}
    {posts : List Cliprange} (holds : Holds viewwidth c closed posts)
    (same : ∀ x, 0 ≤ x → x < viewwidth → (closed x ↔ closed' x)) : Holds viewwidth c closed' posts := by
  refine { holds with covers := fun x => (holds.covers x).trans ?_ }
  refine or_congr_right (or_congr_right ?_)
  exact and_congr_right fun low => and_congr_right fun high => same x low high

theorem Holds.covers_inside {viewwidth : Int} {c : ClipSegs} {closed : Int → Prop}
    {posts : List Cliprange} (holds : Holds viewwidth c closed posts) {x : Int} (low : 0 ≤ x)
    (high : x < viewwidth) : Posts.Covers posts x ↔ closed x := by
  rw [holds.covers]
  constructor
  · rintro (left | right | inside)
    · omega
    · omega
    · exact inside.2.2
  · exact fun shut => .inr (.inr ⟨low, high, shut⟩)

/-! ## Searching -/

theorem findIdx_append_of_not {α : Type} {p : α → Bool} {below : List α} {a : α} {above : List α}
    (none : ∀ b ∈ below, p b = false) (some : p a = true) :
    (below ++ a :: above).findIdx p = below.length := by
  rw [List.findIdx_append, List.findIdx_eq_length_of_false none, if_neg (Nat.lt_irrefl _),
    List.findIdx_cons, some]
  simp

section
variable {viewwidth : Int} {c : ClipSegs} {closed : Int → Prop} {posts : List Cliprange}

/-- The search ends in the posts, before the ranges left over. -/
theorem Holds.search (holds : Holds viewwidth c closed posts) (narrow : viewwidth ≤ 0x7fffffff)
    {last : Int} (inside : last < viewwidth) :
    ∃ below post above, posts = below ++ post :: above ∧ (∀ p ∈ below, p.last < last) ∧
      last ≤ post.last ∧ c.search last = below.length ∧ c.entry below.length = post := by
  obtain ⟨stale, begins⟩ := holds.begins
  -- the post that closes what is right of the view is high enough
  obtain ⟨top, there, -, high⟩ := (holds.covers 0x7fffffff).2 (.inr (.inl ⟨narrow, le_rfl⟩))
  obtain ⟨post, found⟩ : ∃ post, posts.find? (fun p => !decide (p.last < last)) = some post :=
    Option.isSome_iff_exists.1 (List.find?_isSome.2 ⟨top, there, by simp; omega⟩)
  obtain ⟨reaches, below, above, rfl, under⟩ := List.find?_eq_some_iff_append.1 found
  have under : ∀ p ∈ below, (!decide (p.last < last)) = false := by simpa using under
  have search : c.search last = below.length := by
    rw [ClipSegs.search, begins, List.append_assoc, List.cons_append,
      findIdx_append_of_not under reaches]
  refine ⟨below, post, above, rfl, by simpa using under, by simpa using reaches, search, ?_⟩
  rw [ClipSegs.entry, begins, List.append_assoc, List.getD_append_right _ _ _ _ le_rfl]
  simp

end

/-- The fragments, and the post that grows over the ranges reached, whatever follows the posts. -/
theorem reach_spec {last : Int} {post : Cliprange} {above stale : List Cliprange}
    (sep : Posts.Separate (post :: above)) (longer : post.last < last)
    (ends : ∃ q ∈ above, last ≤ q.last) :
    let r := reach last post (above ++ stale)
    r.1.length = r.2.1 ∧ r.2.1 ≤ above.length ∧
    Posts.gaps (post.last + 1) last above = r.1 ++ (if r.2.2 then []
      else [⟨((post :: above).getD r.2.1 default).last + 1, last⟩]) ∧
    ∀ first, Posts.absorb last ⟨first, post.last⟩ above = ⟨first, if r.2.2 then
      ((post :: above).getD r.2.1 default).last else last⟩ :: above.drop r.2.1 := by
  induction above generalizing post with
  | nil =>
    obtain ⟨q, there, -⟩ := ends
    cases there
  | cons q qs ih =>
    have gap := sep.after (List.mem_cons_self (a := q) (l := qs))
    have full := sep.tail.head_le
    rw [List.cons_append, reach, Posts.gaps, if_neg (by omega : ¬ q.last < post.last + 1)]
    simp only [Posts.absorb]
    by_cases reached : q.first - 1 ≤ last
    case neg =>
      -- the next range lies further on
      rw [if_neg reached, if_pos (by omega)]
      simp [reached]
    simp only [if_pos reached]
    by_cases within : last ≤ q.last
    · simp only [if_pos within]
      refine ⟨by simp, by simp, ?_, by simp⟩
      by_cases touches : last < q.first
      · rw [if_pos touches, show q.first - 1 = last by omega]
        simp
      · rw [if_neg touches, if_pos (by omega), if_neg (by omega)]
        simp
    · simp only [if_neg within]
      rw [if_neg (by omega), if_pos (by omega), if_pos (by omega)]
      have ends : ∃ r ∈ qs, last ≤ r.last := by
        obtain ⟨r, there, high⟩ := ends
        rcases List.mem_cons.1 there with rfl | there
        · exact absurd high within
        · exact ⟨r, there, high⟩
      obtain ⟨count, few, gaps, absorb⟩ := ih sep.tail (by omega) ends
      refine ⟨by simpa using count, by simpa using few, by simp [gaps], fun first => ?_⟩
      rw [absorb first]
      simp

/-! ## Moving ranges -/

theorem shift_spec {below mid rest : List Cliprange} (y : Cliprange) :
    ∃ z, shift below.length mid.length (below ++ mid ++ y :: rest) = below ++ z :: mid ++ rest := by
  induction mid using List.reverseRecOn generalizing y rest with
  | nil => exact ⟨y, by simp [shift]⟩
  | append_singleton mid w ih =>
    obtain ⟨z, same⟩ := @ih (w :: rest) w
    refine ⟨z, ?_⟩
    have read : (below ++ (mid ++ [w]) ++ y :: rest).getD (below.length + mid.length) default = w := by
      rw [List.getD_eq_getElem?_getD, ← List.append_assoc, List.append_assoc _ [w],
        List.getElem?_append_right (by simp)]
      simp
    have written : (below ++ (mid ++ [w]) ++ y :: rest).set (below.length + mid.length + 1) w =
        below ++ mid ++ w :: w :: rest := by
      rw [List.set_append_right _ _ (by simp [Nat.add_assoc])]
      simp [Nat.add_assoc]
    rw [List.length_append, List.length_singleton, shift, read, written, same]
    simp

theorem length_shift (start : Nat) : ∀ n segs, (shift start n segs).length = segs.length
  | 0, _ => rfl
  | n + 1, segs => by rw [shift, length_shift start n, List.length_set]

theorem length_crunch : ∀ n start next segs, (crunch n start next segs).length = segs.length
  | 0, _, _, _ => rfl
  | n + 1, start, next, segs => by rw [crunch, length_crunch n, List.length_set]

theorem take_crunch : ∀ n start next segs,
    (crunch n start next segs).take (start + 1) = segs.take (start + 1)
  | 0, _, _, _ => rfl
  | n + 1, start, next, segs => by
    have further := congrArg (List.take (start + 1)) (take_crunch n (start + 1) (next + 1)
      (segs.set (start + 1) (segs.getD (next + 1) default)))
    rw [List.take_take, List.take_take, Nat.min_eq_left (by omega)] at further
    rw [crunch, further, List.take_set_of_le (by omega)]

/-- The ranges kept stand after `start`, in place of those that are gone. -/
theorem crunch_spec {below gone keep rest : List Cliprange} {x : Cliprange} {n : Nat}
    (some : gone ≠ []) (enough : keep.length ≤ n) :
    ∃ stale, crunch n below.length (below.length + gone.length) (below ++ x :: gone ++ keep ++ rest) =
      below ++ x :: keep ++ stale := by
  induction keep generalizing below gone x n with
  | nil =>
    have kept := take_crunch n below.length (below.length + gone.length)
      (below ++ x :: gone ++ [] ++ rest)
    refine ⟨(crunch n below.length (below.length + gone.length)
      (below ++ x :: gone ++ [] ++ rest)).drop (below.length + 1), ?_⟩
    conv_lhs => rw [← List.take_append_drop (below.length + 1)
      (crunch n below.length (below.length + gone.length) (below ++ x :: gone ++ [] ++ rest))]
    rw [kept]
    congr 1
    simp [List.take_append]
  | cons k keep ih =>
    obtain ⟨g, gone, rfl⟩ := List.exists_cons_of_ne_nil some
    obtain ⟨n, rfl⟩ := Nat.exists_eq_add_of_le' (Nat.one_le_of_lt enough)
    obtain ⟨stale, same⟩ := @ih (below ++ [x]) (gone ++ [k]) k n (by simp) (by simpa using enough)
    refine ⟨stale, ?_⟩
    have read : (below ++ x :: (g :: gone) ++ k :: keep ++ rest).getD
        (below.length + (g :: gone).length + 1) default = k := by
      rw [List.getD_eq_getElem?_getD, List.append_assoc, List.getElem?_append_right (by simp; omega)]
      simp
    have written : (below ++ x :: (g :: gone) ++ k :: keep ++ rest).set (below.length + 1) k =
        below ++ [x] ++ k :: (gone ++ [k]) ++ keep ++ rest := by
      rw [List.append_assoc, List.append_assoc, List.set_append_right _ _ (by omega)]
      simp
    rw [crunch, read, written]
    have places : below.length + (g :: gone).length + 1 =
        (below ++ [x]).length + (gone ++ [k]).length := by
      simp
      omega
    rw [places, show below.length + 1 = (below ++ [x]).length by simp, same]
    simp

/-! ## One call -/

section
variable {viewwidth : Int} {c c' : ClipSegs} {closed : Int → Prop} {posts : List Cliprange}
  {first last : Int}

/-- Where the search for a range lands, and what is left to do from there. -/
structure Lands (c : ClipSegs) (first last : Int) (posts below : List Cliprange)
    (post : Cliprange) (above stale : List Cliprange) : Prop where
  whole : posts = below ++ post :: above
  segs : c.solidsegs = below ++ post :: (above ++ stale)
  search : c.search (first - 1) = below.length
  entry : c.entry below.length = post
  reaches : first - 1 ≤ post.last
  sep : Posts.Separate (post :: above)
  ends : last ≤ post.last ∨ ∃ q ∈ above, last ≤ q.last
  gaps : Posts.gaps first last posts = Posts.gaps first last (post :: above)
  insert : Posts.insert first last posts = below ++ Posts.insert first last (post :: above)

theorem Holds.lands (holds : Holds viewwidth c closed posts) (narrow : viewwidth ≤ 0x7fffffff)
    (le : first ≤ last) (inside : last < viewwidth) :
    ∃ below post above stale, Lands c first last posts below post above stale := by
  obtain ⟨stale, begins⟩ := holds.begins
  obtain ⟨below, post, above, rfl, under, reaches, search, entry⟩ :=
    holds.search narrow (by omega : first - 1 < viewwidth)
  obtain ⟨-, apart, -⟩ := List.pairwise_append.1 holds.separate.apart
  refine ⟨below, post, above, stale, rfl, by simpa using begins, search, entry, reaches,
    ⟨apart, fun q there => holds.separate.full q (List.mem_append_right _ there)⟩, ?_,
    Posts.gaps_append fun p there => by have := under p there; omega, Posts.insert_append under⟩
  obtain ⟨top, there, -, high⟩ := (holds.covers 0x7fffffff).2 (.inr (.inl ⟨narrow, le_rfl⟩))
  rcases List.mem_append.1 there with there | there
  · have := under top there
    omega
  · rcases List.mem_cons.1 there with rfl | there
    · exact .inl (by omega)
    · exact .inr ⟨top, there, by omega⟩

/-- What a range leaves open from the post on where it lands, split at that post. -/
theorem gaps_cons {post : Cliprange} {above : List Cliprange} (reaches : first - 1 ≤ post.last)
    (le : first ≤ last) (near : ¬ (first < post.first ∧ last < post.first - 1))
    (full : post.first ≤ post.last) :
    Posts.gaps first last (post :: above) =
      (if first < post.first then [⟨first, post.first - 1⟩] else []) ++
        if last ≤ post.last then [] else Posts.gaps (post.last + 1) last above := by
  rw [Posts.gaps]
  by_cases skip : post.last < first
  · rw [if_pos skip, if_neg (by omega), if_neg (by omega), show post.last + 1 = first by omega]
    rfl
  · rw [if_neg skip]
    by_cases touches : last < post.first
    · rw [if_pos touches, if_pos (by omega), if_pos (by omega), show post.first - 1 = last by omega]
      rfl
    · rw [if_neg touches]
      by_cases longer : last ≤ post.last
      · rw [if_pos longer, if_neg (show ¬ post.last < last by omega)]
      · rw [if_neg longer, if_pos (show post.last < last by omega)]

theorem entry_add {below above stale : List Cliprange} {post : Cliprange} {steps : Nat}
    (segs : c.solidsegs = below ++ post :: (above ++ stale)) (few : steps ≤ above.length) :
    c.entry (below.length + steps) = (post :: above).getD steps default := by
  rw [entry, segs, List.getD_eq_getElem?_getD, List.getElem?_append_right (by omega),
    Nat.add_sub_cancel_left, ← List.cons_append, List.getElem?_append_left (by simpa using by omega),
    List.getD_eq_getElem?_getD]

/-- The posts with a range closed, in an array that begins with them. -/
theorem Holds.insert (holds : Holds viewwidth c closed posts) (nonneg : 0 ≤ first) (le : first ≤ last)
    (inside : last < viewwidth)
    (begins : ∃ stale, c'.solidsegs = Posts.insert first last posts ++ stale)
    (length : c'.solidsegs.length = maxsegs)
    (counted : (Posts.insert first last posts).length ≤ c'.newend) (room : c'.newend ≤ maxsegs) :
    Holds viewwidth c' (fun x => closed x ∨ (first ≤ x ∧ x ≤ last)) (Posts.insert first last posts) := by
  refine ⟨begins, length, counted, room, Posts.separate_insert holds.separate le, fun x => ?_⟩
  rw [Posts.covers_insert holds.separate le, holds.covers]
  by_cases here : first ≤ x ∧ x ≤ last
  · simp only [here, true_or, or_true, and_true, true_iff]
    omega
  · simp only [here, false_or, or_false]

/-- A window hands on what of its columns is open. -/
theorem clipPassWallSegment_eq (holds : Holds viewwidth c closed posts)
    (narrow : viewwidth ≤ 0x7fffffff) (le : first ≤ last) (inside : last < viewwidth) :
    clipPassWallSegment first last c = Posts.gaps first last posts := by
  obtain ⟨below, post, above, stale, rfl, segs, search, entry, reaches, sep, ends, gaps, -⟩ :=
    holds.lands narrow le inside
  have full := sep.head_le
  rw [gaps, clipPassWallSegment, search]
  simp only [entry]
  by_cases near : first < post.first ∧ last < post.first - 1
  · rw [if_pos near, Posts.gaps, if_neg (by omega), if_pos (by omega)]
  rw [if_neg near, gaps_cons reaches le near full]
  by_cases longer : last ≤ post.last
  · rw [if_pos longer, if_pos longer, List.append_nil]
  have ends : ∃ q ∈ above, last ≤ q.last := ends.resolve_left longer
  obtain ⟨-, few, gaps, -⟩ := @reach_spec last post above stale sep (by omega) ends
  have further : c.solidsegs.drop (below.length + 1) = above ++ stale := by
    rw [segs, ← List.drop_drop, List.drop_left]
    rfl
  rw [if_neg longer, if_neg longer, gaps, further, entry_add segs few, List.append_assoc]

section
variable {below above stale : List Cliprange} {post : Cliprange}

/-- A range that touches no post is a post of its own, before the one it lands on. -/
theorem Holds.insert_own (holds : Holds viewwidth c closed posts)
    (lands : Lands c first last posts below post above stale) (nonneg : 0 ≤ first)
    (le : first ≤ last) (inside : last < viewwidth)
    (near : first < post.first ∧ last < post.first - 1) (free : c.newend < maxsegs) :
    Holds viewwidth
      ⟨(shift below.length (c.newend - below.length) c.solidsegs).set below.length ⟨first, last⟩,
        c.newend + 1⟩
      (fun x => closed x ∨ (first ≤ x ∧ x ≤ last)) (Posts.insert first last posts) := by
  obtain ⟨rfl, segs, -, -, reaches, sep, -, -, insert⟩ := lands
  have full := sep.head_le
  have total : below.length + (above.length + 1) + stale.length = maxsegs := by
    rw [← holds.length, segs]
    simp
    omega
  have counted : below.length + (above.length + 1) ≤ c.newend := by simpa using holds.counted
  have grown : Posts.insert first last (post :: above) = ⟨first, last⟩ :: post :: above := by
    rw [Posts.insert, if_neg (by omega), if_pos near.2]
  -- the ranges from the post on to `newend` move up one place
  obtain ⟨mid, y, rest, moved, count⟩ : ∃ mid y rest, post :: (above ++ stale) = mid ++ y :: rest ∧
      mid.length = c.newend - below.length := by
    have low : c.newend - below.length < (post :: (above ++ stale)).length := by
      simp
      omega
    exact ⟨_, _, _, (List.take_append_drop (c.newend - below.length) _).symm.trans
      (congrArg _ (List.drop_eq_getElem_cons low)), List.length_take_of_le low.le⟩
  obtain ⟨z, shifted⟩ := @shift_spec below mid rest y
  have segs' : (shift below.length (c.newend - below.length) c.solidsegs).set below.length
      ⟨first, last⟩ = below ++ ⟨first, last⟩ :: mid ++ rest := by
    rw [segs, moved, ← List.append_assoc, ← count, shifted]
    simp
  obtain ⟨more, rfl⟩ : post :: above <+: mid := by
    have whole : post :: above <+: post :: (above ++ stale) := ⟨stale, rfl⟩
    refine List.prefix_of_prefix_length_le whole ?_ ?_
    · exact moved ▸ List.prefix_append mid _
    · simp
      omega
  refine holds.insert nonneg le inside ⟨more ++ rest, ?_⟩ ?_ ?_ free
  · rw [insert, grown]
    dsimp only
    rw [segs']
    simp
  · simp [length_shift, holds.length]
  · rw [insert, grown]
    simp
    omega

/-- A range that ends before the next post grows the one it lands on. -/
theorem Holds.insert_at (holds : Holds viewwidth c closed posts)
    (lands : Lands c first last posts below post above stale) (nonneg : 0 ≤ first)
    (le : first ≤ last) (inside : last < viewwidth) {x : Cliprange}
    (grown : Posts.insert first last (post :: above) = x :: above) :
    Holds viewwidth { c with solidsegs := c.solidsegs.set below.length x }
      (fun x => closed x ∨ (first ≤ x ∧ x ≤ last)) (Posts.insert first last posts) := by
  obtain ⟨rfl, segs, -, -, -, -, -, -, insert⟩ := lands
  refine holds.insert nonneg le inside ⟨stale, ?_⟩ ?_ ?_ holds.room
  · rw [insert, grown, segs]
    simp
  · rw [← holds.length]
    exact List.length_set
  · rw [insert, grown]
    simpa using holds.counted

/-- A range that reaches further takes up the posts it covers, and the array closes over them. -/
theorem Holds.insert_over (holds : Holds viewwidth c closed posts)
    (lands : Lands c first last posts below post above stale) (nonneg : 0 ≤ first)
    (le : first ≤ last) (inside : last < viewwidth) {x : Cliprange} {steps : Nat}
    (some : steps ≠ 0) (few : steps ≤ above.length)
    (grown : Posts.insert first last (post :: above) = x :: above.drop steps) :
    Holds viewwidth
      ⟨crunch (c.newend - (below.length + steps)) below.length (below.length + steps)
        (c.solidsegs.set below.length x), below.length + (c.newend - (below.length + steps)) + 1⟩
      (fun x => closed x ∨ (first ≤ x ∧ x ≤ last)) (Posts.insert first last posts) := by
  obtain ⟨rfl, segs, -, -, -, -, -, -, insert⟩ := lands
  have counted : below.length + (above.length + 1) ≤ c.newend := by simpa using holds.counted
  have room := holds.room
  have taken : (above.take steps).length = steps := List.length_take_of_le few
  have written : c.solidsegs.set below.length x = below ++ x :: (above ++ stale) := by
    rw [segs]
    simp
  -- the first `steps` posts above are gone, and the rest come down beside `x`
  obtain ⟨stale', crunched⟩ := @crunch_spec below (above.take steps) (above.drop steps) stale x
    (c.newend - (below.length + steps))
    (List.ne_nil_of_length_pos (taken.symm ▸ Nat.pos_of_ne_zero some))
    (by rw [List.length_drop]; omega)
  refine holds.insert nonneg le inside ⟨stale', ?_⟩ ?_ ?_ ?_
  · rw [insert, grown]
    dsimp only
    rw [taken, List.append_assoc _ (above.drop steps), List.append_assoc below, List.cons_append,
      ← List.append_assoc (above.take steps), List.take_append_drop] at crunched
    rw [written, crunched, List.append_assoc]
  · rw [← holds.length]
    dsimp only
    rw [length_crunch, List.length_set]
  · rw [insert, grown]
    simp
    omega
  · dsimp only
    omega

end

/-- A wall hands on what of its columns is open, and closes them. -/
theorem clipSolidWallSegment_eq (holds : Holds viewwidth c closed posts)
    (narrow : viewwidth ≤ 0x7fffffff) (nonneg : 0 ≤ first) (le : first ≤ last)
    (inside : last < viewwidth) {calls : List Cliprange}
    (clipped : clipSolidWallSegment first last c = some (calls, c')) :
    calls = Posts.gaps first last posts ∧
      Holds viewwidth c' (fun x => closed x ∨ (first ≤ x ∧ x ≤ last))
        (Posts.insert first last posts) := by
  obtain ⟨below, post, above, stale, lands⟩ := holds.lands narrow le inside
  have reaches := lands.reaches
  have full := lands.sep.head_le
  rw [clipSolidWallSegment, lands.search] at clipped
  simp only [lands.entry] at clipped
  by_cases near : first < post.first ∧ last < post.first - 1
  · rw [if_pos near] at clipped
    split at clipped
    case isFalse => cases clipped
    case isTrue free =>
    obtain ⟨rfl, rfl⟩ := Prod.mk.inj (Option.some.inj clipped)
    exact ⟨by rw [lands.gaps, Posts.gaps, if_neg (by omega), if_pos (by omega)],
      holds.insert_own lands nonneg le inside near free⟩
  rw [if_neg near] at clipped
  have grown : Posts.insert first last (post :: above) =
      if last ≤ post.last then ⟨min first post.first, post.last⟩ :: above
      else Posts.absorb last ⟨min first post.first, post.last⟩ above := by
    rw [Posts.insert, if_neg (by omega), if_neg (by omega)]
  have low : (if first < post.first then first else post.first) = min first post.first := by
    rw [min_def]
    split_ifs <;> omega
  rw [lands.gaps, gaps_cons reaches le near full]
  rw [low] at clipped
  split at clipped
  case isTrue longer =>
    -- the range ends in the post it lands on
    obtain ⟨rfl, rfl⟩ := Prod.mk.inj (Option.some.inj clipped)
    rw [if_pos longer] at grown ⊢
    exact ⟨by rw [List.append_nil], holds.insert_at lands nonneg le inside grown⟩
  case isFalse longer =>
  rw [if_neg longer] at grown ⊢
  have ends : ∃ q ∈ above, last ≤ q.last := lands.ends.resolve_left longer
  obtain ⟨count, few, fragments, absorbed⟩ := @reach_spec last post above stale lands.sep (by omega) ends
  have further : c.solidsegs.drop (below.length + 1) = above ++ stale := by
    rw [lands.segs, ← List.drop_drop, List.drop_left]
    rfl
  rw [absorbed, ← entry_add lands.segs few] at grown
  rw [← entry_add lands.segs few] at fragments
  rw [further] at clipped
  generalize reach last post (above ++ stale) = r at count few fragments grown clipped
  obtain ⟨between, steps, within⟩ := r
  dsimp only at count few fragments grown clipped
  rw [fragments]
  split at clipped
  case isTrue none =>
    -- only the post it lands on grows
    obtain ⟨rfl, rfl⟩ := Prod.mk.inj (Option.some.inj clipped)
    subst none
    exact ⟨by rw [List.eq_nil_of_length_eq_zero count, List.nil_append],
      holds.insert_at lands nonneg le inside grown⟩
  case isFalse some =>
    obtain ⟨rfl, rfl⟩ := Prod.mk.inj (Option.some.inj clipped)
    exact ⟨List.append_assoc _ _ _, holds.insert_over lands nonneg le inside some few grown⟩

/-- `R_CheckBBox` finds its columns closed exactly when each of them is. -/
theorem contains_eq (holds : Holds viewwidth c closed posts) (narrow : viewwidth ≤ 0x7fffffff)
    (nonneg : 0 ≤ first) (le : first ≤ last) (inside : last < viewwidth) :
    contains first last c = true ↔ ∀ x, first ≤ x → x ≤ last → closed x := by
  obtain ⟨below, post, above, rfl, under, reaches, search, entry⟩ := holds.search narrow inside
  have found : (below ++ post :: above).find? (fun p => decide (last ≤ p.last)) = some post := by
    refine List.find?_eq_some_iff_append.2 ⟨by simpa using reaches, below, above, rfl, fun p there => ?_⟩
    have := under p there
    simp
    omega
  have covered : (∀ x, first ≤ x → x ≤ last → closed x) ↔
      ∀ x, first ≤ x → x ≤ last → Posts.Covers (below ++ post :: above) x := by
    refine forall_congr' fun x => forall_congr' fun low => forall_congr' fun high => ?_
    exact (holds.covers_inside (nonneg.trans low) (high.trans_lt inside)).symm
  rw [covered, ← Posts.contains_iff holds.separate le, found, contains, search]
  simp [entry, reaches]

end

/-! ## Runs of calls -/

/-- A seg that the walk clips, and whether it is solid. -/
structure Call where
  solid : Bool
  first : Int
  last : Int
  deriving DecidableEq, Repr

def Call.Covers (call : Call) (x : Int) : Prop := call.first ≤ x ∧ x ≤ call.last

/-- A call gets the ranges of `R_StoreWallRange`, and the list it leaves. -/
def Call.clip (call : Call) (c : ClipSegs) : Option (List Cliprange × ClipSegs) :=
  if call.solid then clipSolidWallSegment call.first call.last c
  else some (clipPassWallSegment call.first call.last c, c)

/-- The ranges of each call in turn, and the list after the last. -/
def clips : List Call → ClipSegs → Option (List (List Cliprange) × ClipSegs)
  | [], c => some ([], c)
  | call :: calls, c => do
    let (ranges, c) ← call.clip c
    let (more, c) ← clips calls c
    some (ranges :: more, c)

/-- One of the calls was solid and covers the column. -/
def Shut (calls : List Call) (x : Int) : Prop := ∃ call ∈ calls, call.solid ∧ call.Covers x

/-- A column of the view is in a call's ranges exactly when the call covers it and nothing before. -/
def Shows (closed : Int → Prop) (call : Call) (x : Int) : Prop := call.Covers x ∧ ¬ closed x

section
variable {viewwidth : Int} {c c' : ClipSegs} {closed : Int → Prop} {posts : List Cliprange}
  {call : Call}

theorem clip_spec (holds : Holds viewwidth c closed posts) (narrow : viewwidth ≤ 0x7fffffff)
    (nonneg : 0 ≤ call.first) (le : call.first ≤ call.last) (inside : call.last < viewwidth)
    {ranges : List Cliprange} (ran : call.clip c = some (ranges, c')) :
    Posts.Runs (Shows closed call) ranges ∧
      ∃ posts', Holds viewwidth c' (fun x => closed x ∨ (call.solid ∧ call.Covers x)) posts' := by
  have open_ : Posts.Runs (Shows closed call) (Posts.gaps call.first call.last posts) := by
    have runs := Posts.runs_gaps holds.separate le
    refine ⟨runs.separate, fun x => (runs.covers x).trans (and_congr_right fun within => ?_)⟩
    rw [holds.covers_inside (by omega) (by omega)]
  rw [Call.clip] at ran
  split_ifs at ran with solid
  · obtain ⟨rfl, held⟩ := clipSolidWallSegment_eq holds narrow nonneg le inside ran
    exact ⟨open_, _, held.congr fun x _ _ => by simp [solid, Call.Covers]⟩
  · obtain ⟨rfl, rfl⟩ := Prod.mk.inj (Option.some.inj ran)
    rw [clipPassWallSegment_eq holds narrow le inside]
    exact ⟨open_, _, holds.congr fun x _ _ => by simp [solid]⟩

/-- A call takes one entry of the array at the most. -/
theorem clip_some (holds : Holds viewwidth c closed posts) (narrow : viewwidth ≤ 0x7fffffff)
    (le : call.first ≤ call.last) (inside : call.last < viewwidth)
    (free : call.solid → c.newend < maxsegs) :
    ∃ ranges c', call.clip c = some (ranges, c') ∧
      c'.newend ≤ c.newend + if call.solid then 1 else 0 := by
  by_cases solid : call.solid = true
  swap
  · exact ⟨_, c, by rw [Call.clip, if_neg solid], Nat.le_add_right _ _⟩
  obtain ⟨below, post, above, stale, rfl, -, search, entry, -⟩ := holds.lands narrow le inside
  have counted : below.length + (above.length + 1) ≤ c.newend := by simpa using holds.counted
  rw [Call.clip, if_pos solid, if_pos solid, clipSolidWallSegment, search]
  simp only [entry, if_pos (free solid)]
  by_cases near : call.first < post.first ∧ call.last < post.first - 1
  · exact ⟨_, _, if_pos near, le_rfl⟩
  rw [if_neg near]
  by_cases longer : call.last ≤ post.last
  · exact ⟨_, _, if_pos longer, Nat.le_succ _⟩
  rw [if_neg longer]
  by_cases none : (reach call.last post (c.solidsegs.drop (below.length + 1))).2.1 = 0
  · exact ⟨_, _, if_pos none, Nat.le_succ _⟩
  · refine ⟨_, _, if_neg none, ?_⟩
    dsimp only
    omega

/-- Whatever the calls, each gets the runs of the columns it covers and no solid call before it does,
and the list finds closed what they close; thirty solid calls fit into it. -/
theorem clips_spec (holds : Holds viewwidth c closed posts) (narrow : viewwidth ≤ 0x7fffffff)
    {calls : List Call} (inView : ∀ call ∈ calls,
      0 ≤ call.first ∧ call.first ≤ call.last ∧ call.last < viewwidth) :
    (c.newend + (calls.filter (·.solid)).length ≤ maxsegs → (clips calls c).isSome) ∧
    ∀ outs c', clips calls c = some (outs, c') → outs.length = calls.length ∧
      (∀ k call ranges, calls[k]? = some call → outs[k]? = some ranges →
        Posts.Runs (Shows (fun x => closed x ∨ Shut (calls.take k) x) call) ranges) ∧
      ∃ posts', Holds viewwidth c' (fun x => closed x ∨ Shut calls x) posts' := by
  induction calls generalizing c closed posts with
  | nil =>
    refine ⟨fun _ => rfl, fun outs c' ran => ?_⟩
    obtain ⟨rfl, rfl⟩ := Prod.mk.inj (Option.some.inj ran)
    refine ⟨rfl, fun k call ranges there => ?_, posts, holds.congr fun x _ _ => ?_⟩
    · rw [List.getElem?_nil] at there
      cases there
    · simp [Shut]
  | cons call calls ih =>
    obtain ⟨⟨nonneg, le, inside⟩, inView⟩ := List.forall_mem_cons.1 inView
    have shut : ∀ calls x, (closed x ∨ Shut (call :: calls) x) ↔
        ((closed x ∨ (call.solid ∧ call.Covers x)) ∨ Shut calls x) := fun calls x => by
      simp [Shut, or_assoc]
    refine ⟨fun fits => ?_, fun outs c' ran => ?_⟩
    · rw [List.filter_cons] at fits
      obtain ⟨ranges, c₁, ran, grown⟩ := clip_some holds narrow le inside fun solid => by
        rw [if_pos solid, List.length_cons] at fits
        omega
      obtain ⟨-, posts', held⟩ := clip_spec holds narrow nonneg le inside ran
      have room : c₁.newend + (calls.filter (·.solid)).length ≤ maxsegs := by
        by_cases solid : call.solid = true
        · rw [if_pos solid, List.length_cons] at fits
          rw [if_pos solid] at grown
          omega
        · rw [if_neg solid] at fits grown
          omega
      obtain ⟨result, rest⟩ := Option.isSome_iff_exists.1 ((ih held inView).1 room)
      rw [clips, ran]
      simp [rest]
    · -- the first call, then the rest from the list it leaves
      rw [clips] at ran
      obtain ⟨⟨ranges, c₁⟩, first, ran⟩ := Option.bind_eq_some_iff.1 ran
      obtain ⟨⟨more, c₂⟩, rest, ran⟩ := Option.bind_eq_some_iff.1 ran
      obtain ⟨rfl, rfl⟩ := Prod.mk.inj (Option.some.inj ran)
      obtain ⟨shown, posts', held⟩ := clip_spec holds narrow nonneg le inside first
      obtain ⟨length, each, posts'', held'⟩ := (ih held inView).2 more _ rest
      refine ⟨congrArg (· + 1) length, ?_, posts'', held'.congr fun x _ _ => (shut calls x).symm⟩
      rintro (_ | k) call' ranges' this out
      · cases this
        cases out
        refine ⟨shown.separate, fun x => (shown.covers x).trans ?_⟩
        simp [Shows, Shut]
      · have := each k call' ranges' this out
        refine ⟨this.separate, fun x => (this.covers x).trans ?_⟩
        rw [Shows, Shows, List.take_succ_cons, shut]

/-- From `R_ClearClipSegs` on, a solid call closes its columns for good: every call gets the runs of
what is open of it, `R_CheckBBox` finds closed exactly what is, and thirty solid calls never
overflow. -/
theorem clips_clear {segs : ClipSegs} (length : segs.solidsegs.length = maxsegs) (wide : 0 < viewwidth)
    (narrow : viewwidth ≤ 0x7fffffff) {calls : List Call} (inView : ∀ call ∈ calls,
      0 ≤ call.first ∧ call.first ≤ call.last ∧ call.last < viewwidth) :
    ((calls.filter (·.solid)).length ≤ 30 → (clips calls (segs.clear viewwidth)).isSome) ∧
    ∀ outs c', clips calls (segs.clear viewwidth) = some (outs, c') →
      outs.length = calls.length ∧
      (∀ k call ranges, calls[k]? = some call → outs[k]? = some ranges →
        Posts.Runs (Shows (Shut (calls.take k)) call) ranges) ∧
      ∀ sx1 sx2, 0 ≤ sx1 → sx1 ≤ sx2 → sx2 < viewwidth →
        (contains sx1 sx2 c' = true ↔ ∀ x, sx1 ≤ x → x ≤ sx2 → Shut calls x) := by
  have fresh := holds_clear wide narrow length
  obtain ⟨fits, runs⟩ := clips_spec fresh narrow inView
  refine ⟨fun few => fits ?_, fun outs c' ran => ?_⟩
  · rw [clear, maxsegs]
    dsimp only
    omega
  · obtain ⟨length, each, posts', held⟩ := runs outs c' ran
    refine ⟨length, fun k call ranges this out => ?_, fun sx1 sx2 nonneg le inside => ?_⟩
    · simpa using each k call ranges this out
    · simpa using contains_eq held narrow nonneg le inside

/-- Two walls that touch, a window over both and beyond, and a wall over all of them. -/
theorem clips_clear_walls :
    Posts.Runs (Shows (Shut [⟨true, 10, 19⟩, ⟨true, 30, 49⟩, ⟨false, 5, 59⟩]) ⟨true, 0, 59⟩)
      [⟨0, 9⟩, ⟨20, 29⟩, ⟨50, 59⟩] := by
  have ran : clips [⟨true, 10, 19⟩, ⟨true, 30, 49⟩, ⟨false, 5, 59⟩, ⟨true, 0, 59⟩]
      (clear ⟨List.replicate maxsegs ⟨0, 0⟩, 0⟩ 320) =
        some ([[⟨10, 19⟩], [⟨30, 49⟩], [⟨5, 9⟩, ⟨20, 29⟩, ⟨50, 59⟩],
          [⟨0, 9⟩, ⟨20, 29⟩, ⟨50, 59⟩]], ⟨⟨-0x7fffffff, 59⟩ :: ⟨320, 0x7fffffff⟩ :: ⟨0, 0⟩ ::
            ⟨320, 0x7fffffff⟩ :: List.replicate 28 ⟨0, 0⟩, 3⟩) := by decide +kernel
  have held := clips_clear (rfl : (ClipSegs.mk (List.replicate maxsegs ⟨0, 0⟩) 0).solidsegs.length =
    maxsegs) (by decide : (0 : Int) < 320) (by decide)
    (by decide : ∀ call ∈ [Call.mk true 10 19, ⟨true, 30, 49⟩, ⟨false, 5, 59⟩, ⟨true, 0, 59⟩],
      0 ≤ call.first ∧ call.first ≤ call.last ∧ call.last < 320)
  exact (held.2 _ _ ran).2.1 3 _ _ rfl rfl

end

end ClipSegs
end ClickDoom.Engine

import ClickDoom.Base.Text

/-! # Renaming a binding in an expression

`rename` and `count` of `native/src/sql/bind.rs`, and `rename` and `references` of
`native/src/sql/sim/mod.rs`, which are the same code.  Counting looks at the
characters around an occurrence in the whole text.  Renaming looks at what is
left of the text, so it does not see that an occurrence follows another one
directly.
-/
namespace ClickDoom.Native
open Text

/-- A character of an identifier. -/
def ident (c : Char) : Bool := c.isAlphanum || c == '_'

def Identifier (name : List Char) : Prop := name ≠ [] ∧ ∀ c ∈ name, ident c = true

/-- Whether an identifier character stands at a place. -/
def identAt (expr : List Char) (place : Nat) : Bool := (expr.drop place).head?.any ident

/-- Whether the occurrence at `place` has no identifier character on either side. -/
def wholeAt (expr binding : List Char) (place : Nat) : Bool :=
  let before := (expr.take place).getLast?
  !before.any ident && !identAt expr (place + binding.length)

/-- The places the counts count. -/
def wholeWords (expr binding : List Char) : List Nat :=
  (matchIndices binding expr).filter (wholeAt expr binding)

/-- The loop of `rename`, for at most `turns` turns: `rest` is what is left of the
text, `out` what was written. -/
def renameFrom (name new : List Char) : Nat → List Char → List Char → List Char
  | 0, rest, out => out ++ rest
  | turns + 1, rest, out =>
    match find name rest with
    | none => out ++ rest
    | some place =>
      let before := (rest.take place).getLast?
      let after := (rest.drop (place + name.length)).head?
      renameFrom name new turns (rest.drop (place + name.length))
        (out ++ rest.take place ++ (if before.any ident || after.any ident then name else new))

namespace Bind

def count (expr binding : List Char) : Nat := (wholeWords expr binding).length

/-- Every turn takes an occurrence off the text, so a text of `n` characters ends
the loop within `n` turns. -/
def rename (expr name new : List Char) : List Char := renameFrom name new expr.length expr []

end Bind

namespace Sim

def references (expr binding : List Char) : Nat := (wholeWords expr binding).length

def rename (expr name new : List Char) : List Char := renameFrom name new expr.length expr []

end Sim

/-! ## Both along the pieces between the occurrences -/

/-- The text the pieces were cut from. -/
def glue (name : List Char) : List (List Char) → List Char
  | [] => []
  | [g] => g
  | g :: gs => g ++ (name ++ glue name gs)

/-- The pieces with `new` between them where marked, and the name elsewhere. -/
def weave (name new : List Char) : List (List Char) → List Bool → List Char
  | [], _ => []
  | g :: _, [] => g
  | g :: gs, mark :: marks => g ++ ((if mark then new else name) ++ weave name new gs marks)

/-- Which occurrences are taken for whole words.  `ctx` is the text before the
first piece; `carry` says whether an occurrence is seen from the one after it. -/
def marks (name : List Char) (carry : Bool) : List Char → List (List Char) → List Bool
  | ctx, g :: g' :: gs =>
    (!(ctx ++ g).getLast?.any ident && !(glue name (g' :: gs)).head?.any ident) ::
      marks name carry (if carry then name else []) (g' :: gs)
  | _, _ => []

section
variable {name new : List Char} {text : List Char} {gs : List (List Char)}

theorem glue_of_cut (h : Cut name text gs) : glue name gs = text ∧ gs ≠ [] := by
  induction h with
  | last _ => exact ⟨rfl, by simp⟩
  | @next g rest gs _ _ ih =>
    obtain ⟨hglue, hne⟩ := ih
    obtain ⟨g', gs', rfl⟩ := List.exists_cons_of_ne_nil hne
    exact ⟨by rw [glue, hglue]; simp, by simp⟩

/-- The marks of a cut with an occurrence. -/
theorem marks_next {carry : Bool} {ctx g rest : List Char} (hcut : Cut name rest gs) :
    marks name carry ctx (g :: gs) =
      (!(ctx ++ g).getLast?.any ident && !rest.head?.any ident) ::
        marks name carry (if carry then name else []) gs := by
  obtain ⟨hglue, hne⟩ := glue_of_cut hcut
  obtain ⟨g', gs', rfl⟩ := List.exists_cons_of_ne_nil hne
  rw [marks, hglue]

/-- What the loop writes. -/
theorem renameFrom_cut (h : Cut name text gs) (turns : Nat) (hturns : gs.length ≤ turns + 1)
    (out : List Char) :
    renameFrom name new turns text out = out ++ weave name new gs (marks name false [] gs) := by
  induction h generalizing turns out with
  | @last g hfind =>
    cases turns with
    | zero => rfl
    | succ turns =>
      rw [renameFrom, hfind]
      rfl
  | @next g rest gs hfind hcut ih =>
    have hne : gs ≠ [] := (glue_of_cut hcut).2
    have hpos : 0 < gs.length := List.length_pos_of_ne_nil hne
    obtain ⟨turns, rfl⟩ : ∃ n, turns = n + 1 := ⟨turns - 1, by simp at hturns; omega⟩
    have hdrop : (g ++ (name ++ rest)).drop (g.length + name.length) = rest := by
      rw [← List.append_assoc, ← List.length_append, List.drop_left]
    rw [renameFrom, hfind]
    dsimp only
    rw [hdrop, List.take_left, ih turns (by simp at hturns; omega), marks_next hcut, weave,
      List.nil_append, List.append_assoc, List.append_assoc]
    congr 3
    cases g.getLast?.any ident <;> cases rest.head?.any ident <;> rfl

theorem le_of_mem_matchesFrom {pat text : List Char} {skip pos i : Nat}
    (h : i ∈ matchesFrom pat text skip pos) : pos ≤ i := by
  induction text generalizing skip pos with
  | nil => cases h
  | cons c cs ih =>
    cases skip with
    | succ skip => exact Nat.le_of_succ_le (ih h)
    | zero =>
      rw [matchesFrom] at h
      split_ifs at h
      · rcases List.mem_cons.mp h with rfl | h
        · exact le_rfl
        · exact Nat.le_of_succ_le (ih h)
      · exact Nat.le_of_succ_le (ih h)

/-- What the text before an occurrence ends with, as far as the marks look. -/
def Ends (name ctx pre : List Char) : Prop := ctx = [] ∧ pre = [] ∨ ctx = name ∧ name <:+ pre

theorem Ends.getLast?_eq {ctx pre : List Char} (h : Ends name ctx pre) (hname : name ≠ [])
    (g : List Char) : (pre ++ g).getLast? = (ctx ++ g).getLast? := by
  rcases h with ⟨rfl, rfl⟩ | ⟨rfl, ⟨front, rfl⟩⟩
  · rfl
  · rw [List.append_assoc, List.getLast?_append_of_ne_nil _ (by simp [hname])]

/-- The splice at the places the counts count. -/
theorem splice_cut (hname : name ≠ []) (h : Cut name text gs) (places : List Nat)
    (pre ctx : List Char) (hends : Ends name ctx pre)
    (hplaces : ∀ i, pre.length ≤ i → (i ∈ places ↔
      i ∈ matchesFrom name text 0 pre.length ∧ wholeAt (pre ++ text) name i = true)) :
    splice places name.length new text 0 pre.length = weave name new gs (marks name true ctx gs) := by
  induction h generalizing pre ctx with
  | @last g hfind =>
    have hcopy : splice places name.length new (g ++ []) 0 pre.length =
        g ++ splice places name.length new [] 0 (pre.length + g.length) :=
      splice_of_gap g [] pre.length fun i hi _ hmem => by
        have := ((hplaces i hi).mp hmem).1
        rw [matchesFrom_of_find_none hfind] at this
        cases this
    simpa [splice, weave, marks] using hcopy
  | @next g rest gs hfind hcut ih =>
    have hmatches := matchesFrom_of_find hname hfind pre.length
    have hrest : ∀ i, i ∈ matchesFrom name rest 0 (pre.length + g.length + name.length) →
        pre.length + g.length + name.length ≤ i := fun i hi => le_of_mem_matchesFrom hi
    have hpos : 0 < name.length := List.length_pos_of_ne_nil hname
    -- The occurrence is a place exactly when it stands apart.
    have hwhole : wholeAt (pre ++ (g ++ (name ++ rest))) name (pre.length + g.length) =
        (!(ctx ++ g).getLast?.any ident && !rest.head?.any ident) := by
      have htake : (pre ++ (g ++ (name ++ rest))).take (pre.length + g.length) = pre ++ g := by
        rw [← List.append_assoc, ← List.length_append, List.take_left]
      have hdrop : (pre ++ (g ++ (name ++ rest))).drop (pre.length + g.length + name.length) =
          rest := by
        rw [← List.append_assoc, ← List.append_assoc, ← List.length_append, ← List.length_append,
          List.drop_left]
      rw [wholeAt, identAt, htake, hdrop, hends.getLast?_eq hname]
    have hmem : pre.length + g.length ∈ places ↔
        (!(ctx ++ g).getLast?.any ident && !rest.head?.any ident) = true := by
      rw [hplaces _ (by omega), hmatches, hwhole]
      simp
    rw [splice_of_gap g (name ++ rest) pre.length fun i hi hlt hin => by
      have := ((hplaces i hi).mp hin).1
      rw [hmatches] at this
      rcases List.mem_cons.mp this with rfl | hin'
      · omega
      · have := hrest i hin'
        omega]
    have hnext : splice places name.length new rest 0 (pre.length + g.length + name.length) =
        weave name new gs (marks name true name gs) := by
      have := ih (pre ++ g ++ name) name (.inr ⟨rfl, List.suffix_append _ _⟩) fun i hi => by
        rw [hplaces i (by simp at hi; omega), hmatches, List.mem_cons]
        have hne : i ≠ pre.length + g.length := by simp at hi; omega
        simp [hne, Nat.add_assoc]
      simpa [Nat.add_assoc] using this
    rw [marks_next hcut, weave, if_pos rfl, ← hnext]
    congr 1
    by_cases hmark : pre.length + g.length ∈ places
    · rw [splice_of_mem hname rest _ hmark, if_pos (hmem.mp hmark)]
    · rw [if_neg (mt hmem.mpr hmark), splice_of_gap name rest _ fun i hi hlt hin => by
        rcases Nat.eq_or_lt_of_le hi with rfl | hgt
        · exact hmark hin
        · have := ((hplaces i (by omega)).mp hin).1
          rw [hmatches] at this
          rcases List.mem_cons.mp this with rfl | hin'
          · omega
          · have := hrest i hin'
            omega]

/-! ## Where the two differ -/

/-- No occurrence stands directly after another one and ends a word. -/
def NoneRunOn (name : List Char) (before : List Nat) (matches' : List Nat) (expr : List Char) : Prop :=
  ∀ i ∈ before, i + name.length ∈ matches' → identAt expr (i + name.length + name.length) = true

theorem length_marks (carry carry' : Bool) (ctx ctx' : List Char) (gs : List (List Char)) :
    (marks name carry ctx gs).length = (marks name carry' ctx' gs).length := by
  induction gs generalizing ctx ctx' with
  | nil => rfl
  | cons g gs ih =>
    cases gs with
    | nil => rfl
    | cons g' gs => simp only [marks, List.length_cons, ih (if carry then name else [])
        (if carry' then name else [])]

/-- One mark between each two pieces. -/
theorem length_eq_marks (name : List Char) (carry : Bool) (ctx : List Char) (hne : gs ≠ []) :
    gs.length = (marks name carry ctx gs).length + 1 := by
  induction gs generalizing ctx with
  | nil => exact absurd rfl hne
  | cons g gs ih =>
    cases gs with
    | nil => rfl
    | cons g' gs =>
      have htail := ih (if carry then name else []) (by simp)
      rw [marks, List.length_cons, htail, List.length_cons]

/-- An occurrence the counts count is taken by the loop too. -/
theorem marks_le {ctx : List Char} (hctx : ctx = [] ∨ ctx = name) (gs : List (List Char)) :
    List.Forall₂ (fun whole taken => whole = true → taken = true) (marks name true ctx gs)
      (marks name false [] gs) := by
  induction gs generalizing ctx with
  | nil => exact .nil
  | cons g gs ih =>
    cases gs with
    | nil => exact .nil
    | cons g' gs =>
      refine .cons (fun h => ?_) (ih (.inr rfl))
      rw [Bool.and_eq_true] at h ⊢
      refine ⟨?_, h.2⟩
      rcases List.eq_nil_or_concat' g with rfl | ⟨init, last, rfl⟩
      · rfl
      · have := h.1
        rwa [List.getLast?_append_of_ne_nil ctx (by simp)] at this

theorem noneRunOn_cons {expr : List Char} {i first : Nat} {rest : List Nat}
    (hi : i + name.length ≤ first) (hrest : ∀ j ∈ rest, first + name.length ≤ j)
    (hpos : 0 < name.length) :
    NoneRunOn name (i :: first :: rest) (first :: rest) expr ↔
      (i + name.length = first → identAt expr (first + name.length) = true) ∧
        NoneRunOn name (first :: rest) rest expr := by
  have hlater : ∀ j, j ∈ first :: rest → (j + name.length ∈ first :: rest ↔ j + name.length ∈ rest) := by
    intro j hj
    have hle : first ≤ j := by
      rcases List.mem_cons.mp hj with rfl | hj
      · exact le_rfl
      · have := hrest j hj
        omega
    rw [List.mem_cons, or_iff_right (by omega)]
  have hfirst : i + name.length ∈ first :: rest ↔ i + name.length = first := by
    rw [List.mem_cons, or_iff_left]
    intro hmem
    have := hrest _ hmem
    omega
  constructor
  · intro h
    refine ⟨fun heq => ?_, fun j hj hmem => h j (List.mem_cons_of_mem _ hj) ((hlater j hj).mpr hmem)⟩
    have := h i List.mem_cons_self (hfirst.mpr heq)
    rwa [heq] at this
  · rintro ⟨hhead, htail⟩ j hj hmem
    rcases List.mem_cons.mp hj with rfl | hj
    · rw [hfirst.mp hmem]
      exact hhead (hfirst.mp hmem)
    · exact htail j hj ((hlater j hj).mp hmem)

/-- The first occurrence after another one: the loop and the counts disagree when
nothing stands between the two and the second ends a word. -/
theorem mark_eq_iff (hname : Identifier name) (g rest : List Char) :
    ((!([] ++ g).getLast?.any ident && !rest.head?.any ident) =
      (!(name ++ g).getLast?.any ident && !rest.head?.any ident)) ↔
      (g = [] → rest.head?.any ident = true) := by
  rcases List.eq_nil_or_concat' g with rfl | ⟨init, last, rfl⟩
  · have hlast : name.getLast?.any ident = true := by
      rw [List.getLast?_eq_some_getLast hname.1]
      exact hname.2 _ (List.getLast_mem _)
    simp [hlast]
  · rw [List.getLast?_append_of_ne_nil name (by simp)]
    simp

theorem marks_eq_iff_next (hname : Identifier name) (h : Cut name text gs) (front : List Char) :
    marks name false [] gs = marks name true name gs ↔
      NoneRunOn name (front.length :: matchesFrom name text 0 (front.length + name.length))
        (matchesFrom name text 0 (front.length + name.length)) (front ++ (name ++ text)) := by
  have hpos : 0 < name.length := List.length_pos_of_ne_nil hname.1
  induction h generalizing front with
  | @last g hfind =>
    rw [matchesFrom_of_find_none hfind]
    simp [marks, NoneRunOn]
  | @next g rest gs hfind hcut ih =>
    rw [marks_next hcut, marks_next hcut, matchesFrom_of_find hname.1 hfind, List.cons.injEq,
      mark_eq_iff hname, noneRunOn_cons (by omega) (fun j hj => le_of_mem_matchesFrom hj) hpos]
    have hexpr : front ++ (name ++ (g ++ (name ++ rest))) =
        (front ++ name ++ g) ++ (name ++ rest) := by simp
    have hnext := ih (front ++ name ++ g)
    rw [List.length_append, List.length_append, ← hexpr] at hnext
    have hdrop : (front ++ (name ++ (g ++ (name ++ rest)))).drop
        (front.length + name.length + g.length + name.length) = rest := by
      rw [hexpr, ← List.append_assoc, show front.length + name.length + g.length + name.length =
        (front ++ name ++ g ++ name).length by simp [Nat.add_assoc], List.drop_left]
    refine and_congr ⟨fun h heq => ?_, fun h hg => ?_⟩ hnext
    · have hg : g = [] := List.eq_nil_of_length_eq_zero (by omega)
      rw [identAt, hdrop]
      exact h hg
    · have := h (by rw [hg]; rfl)
      rwa [identAt, hdrop] at this

/-- The loop and the counts take the same occurrences when none that ends a word
stands directly after another. -/
theorem marks_eq_iff (hname : Identifier name) (h : Cut name text gs) :
    marks name false [] gs = marks name true [] gs ↔
      NoneRunOn name (matchIndices name text) (matchIndices name text) text := by
  have hpos : 0 < name.length := List.length_pos_of_ne_nil hname.1
  cases h with
  | last hfind =>
    rw [matchIndices, matchesFrom_of_find_none hfind]
    simp [marks, NoneRunOn]
  | @next g rest gs hfind hcut =>
    rw [marks_next hcut, marks_next hcut, matchIndices, matchesFrom_of_find hname.1 hfind,
      List.cons.injEq, Nat.zero_add]
    have hnext := marks_eq_iff_next hname hcut g
    rw [if_neg (by simp), if_pos rfl, and_iff_right rfl, hnext]
    refine ⟨fun h i hi hmem => ?_, fun h i hi hmem => ?_⟩
    · refine h i hi ((List.mem_cons.mp hmem).resolve_left fun heq => ?_)
      rcases List.mem_cons.mp hi with rfl | hi
      · omega
      · have := le_of_mem_matchesFrom hi
        omega
    · exact h i hi (List.mem_cons_of_mem _ hmem)

/-! ## Different marks, different texts -/

theorem length_weave (name new : List Char) {ms : List Bool} (hlen : gs.length = ms.length + 1) :
    (weave name new gs ms).length + name.length * ms.count true =
      (weave name name gs ms).length + new.length * ms.count true := by
  induction gs generalizing ms with
  | nil => simp at hlen
  | cons g gs ih =>
    cases ms with
    | nil => simp [weave]
    | cons mark ms =>
      have hms : gs.length = ms.length + 1 := by simpa using hlen
      have := ih hms
      cases mark <;> simp [weave, Nat.mul_add] at this ⊢ <;> omega

theorem weave_self (ms ms' : List Bool) (hlen : ms.length = ms'.length) :
    weave name name gs ms = weave name name gs ms' := by
  induction gs generalizing ms ms' with
  | nil => rfl
  | cons g gs ih =>
    rcases ms with _ | ⟨mark, ms⟩ <;> rcases ms' with _ | ⟨mark', ms'⟩
    · rfl
    · cases hlen
    · cases hlen
    · simp only [weave, ite_self, ih ms ms' (by simpa using hlen)]

theorem count_lt_of_forall₂ {ms ms' : List Bool}
    (h : List.Forall₂ (fun a b => a = true → b = true) ms ms') (hne : ms ≠ ms') :
    ms.count true < ms'.count true := by
  induction h with
  | nil => exact absurd rfl hne
  | @cons a b ms ms' hab htail ih =>
    have hle : ms.count true ≤ ms'.count true := by
      by_cases heq : ms = ms'
      · rw [heq]
      · exact (ih heq).le
    cases a <;> cases b
    · have := ih fun heq => hne (by rw [heq])
      simpa using this
    · simp
      omega
    · cases hab rfl
    · have := ih fun heq => hne (by rw [heq])
      simpa using this

/-- Marking more occurrences changes the text, unless the name is replaced by
itself: a longer or shorter replacement changes the length, and one of the same
length shows at the first occurrence marked on one side only. -/
theorem weave_injective {ms ms' : List Bool} (hlen : gs.length = ms.length + 1)
    (hle : List.Forall₂ (fun a b => a = true → b = true) ms ms')
    (h : weave name new gs ms' = weave name new gs ms) : new = name ∨ ms' = ms := by
  by_cases hms : ms = ms'
  · exact .inr hms.symm
  left
  have hlen' : ms.length = ms'.length := hle.length_eq
  have hsize : new.length = name.length := by
    have h1 := length_weave name new hlen
    have h2 := length_weave name new (hlen' ▸ hlen : gs.length = ms'.length + 1)
    rw [h, weave_self ms' ms hlen'.symm] at h2
    have hlt := count_lt_of_forall₂ hle hms
    nlinarith
  clear hlen'
  induction gs generalizing ms ms' with
  | nil => simp at hlen
  | cons g gs ih =>
    cases hle with
    | nil => exact absurd rfl hms
    | @cons a b ms ms' hab htail =>
      simp only [weave, List.append_cancel_left_eq] at h
      by_cases hmark : a = b
      · subst hmark
        refine ih (by simpa using hlen) htail (List.append_cancel_left h) fun heq => hms ?_
        rw [heq]
      · cases a <;> cases b
        · exact absurd rfl hmark
        · exact (List.append_inj h hsize).1
        · cases hab rfl
        · exact absurd rfl hmark

end

/-! ## Renaming is whole-word -/

/-- The loop writes the splice at the places counted, apart from one kind of text. -/
theorem renameFrom_eq_splice_iff (expr name new : List Char) (hname : Identifier name) :
    renameFrom name new expr.length expr [] =
        splice (wholeWords expr name) name.length new expr 0 0 ↔
      new = name ∨ NoneRunOn name (matchIndices name expr) (matchIndices name expr) expr := by
  obtain ⟨gs, hcut, hgs⟩ := exists_cut hname.1 expr
  have hrename : renameFrom name new expr.length expr [] = weave name new gs (marks name false [] gs) :=
    renameFrom_cut hcut _ hgs []
  have hsplice : splice (wholeWords expr name) name.length new expr 0 0 =
      weave name new gs (marks name true [] gs) :=
    splice_cut hname.1 hcut (wholeWords expr name) [] [] (.inl ⟨rfl, rfl⟩) fun i _ => by
      rw [wholeWords, List.mem_filter]
      rfl
  have hmarks := marks_eq_iff hname hcut
  have hle : List.Forall₂ (fun whole taken => whole = true → taken = true) (marks name true [] gs)
      (marks name false [] gs) := marks_le (.inl rfl) gs
  have hlen := length_eq_marks name true [] (glue_of_cut hcut).2
  rw [hrename, hsplice]
  constructor
  · intro h
    rcases weave_injective hlen hle h with hnew | heq
    · exact .inl hnew
    · exact .inr (hmarks.mp heq)
  · rintro (rfl | h)
    · exact weave_self _ _ (length_marks _ _ _ _ _)
    · rw [hmarks.mpr h]

/-- **When renaming is whole-word.**  Both renames replace exactly the occurrences
both counts count and copy every other character, and so leave a text alone where
nothing is counted, if and only if the name is replaced by itself or no occurrence
that ends a word stands directly after another occurrence. -/
theorem rename_wholeWord_iff (expr name new : List Char) (hname : Identifier name) :
    (Bind.rename expr name new = splice (wholeWords expr name) name.length new expr 0 0 ∧
      Sim.rename expr name new = splice (wholeWords expr name) name.length new expr 0 0 ∧
      (Bind.count expr name = 0 → Bind.rename expr name new = expr) ∧
      (Sim.references expr name = 0 → Sim.rename expr name new = expr)) ↔
      new = name ∨ ∀ i ∈ matchIndices name expr, i + name.length ∈ matchIndices name expr →
        identAt expr (i + name.length + name.length) = true := by
  have hiff := renameFrom_eq_splice_iff expr name new hname
  constructor
  · rintro ⟨h, -⟩
    exact hiff.mp h
  · intro h
    have heq := hiff.mpr h
    have hzero : (wholeWords expr name).length = 0 →
        renameFrom name new expr.length expr [] = expr := by
      intro hcount
      rw [heq, List.length_eq_zero_iff.mp hcount, splice_nil]
    exact ⟨heq, heq, hzero, hzero⟩

theorem identifier_a : Identifier ['a'] := by
  refine ⟨by decide, fun c hc => ?_⟩
  rw [List.mem_singleton.mp hc]
  decide

theorem rename_wholeWord_sum :
    Bind.rename "a + ab + a_b".toList ['a'] "b0.1".toList = "b0.1 + ab + a_b".toList := by
  have h := (rename_wholeWord_iff "a + ab + a_b".toList ['a'] "b0.1".toList identifier_a).mpr
    (.inr (by decide +kernel))
  exact h.1.trans (by decide +kernel)

/-- `aa` holds no whole word `a`, and its second character is renamed. -/
theorem second_occurrence_renamed :
    Identifier ['a'] ∧ Bind.count ['a', 'a'] ['a'] = 0 ∧ Sim.references ['a', 'a'] ['a'] = 0 ∧
      Bind.rename ['a', 'a'] ['a'] ['x'] = ['a', 'x'] ∧
      Sim.rename ['a', 'a'] ['a'] ['x'] = ['a', 'x'] := by
  refine ⟨identifier_a, ?_, ?_, ?_, ?_⟩ <;> decide +kernel

end ClickDoom.Native

import Mathlib

/-! # Definitions settled in passes

A rule gives a name a value once the names it reads have one.  Rules are evaluated in passes, in
the order they stand in, each as soon as it can be; a name given two different values loses them
and gives no value any more.  Passes go on while one of them evaluates a rule.

`settles_iff` says when every order of the rules leaves one consistent table: a rule that reads
only names with a value, or with two, has to be for such a name itself, and so has every name with
a value from the start.  `Drawn` describes the tables that runs in some order go through.
-/
namespace Settling
variable {N V : Type}

/-- A rule has a value exactly where it is live and the names it reads have one, and the value
depends on those alone. -/
structure Rule (N V : Type) where
  name : N
  live : Bool
  reads : List N
  value : (N → Option V) → Option V
  isSome_value : ∀ table, (value table).isSome ↔ live ∧ ∀ n ∈ reads, (table n).isSome
  value_congr : ∀ table table', (∀ n ∈ reads, table n = table' n) → value table = value table'

/-- What is known so far. -/
@[ext] structure State (N V : Type) where
  values : N → Option V
  ambiguous : N → Bool

variable [DecidableEq N] [DecidableEq V]

/-- Gives a name a value. -/
def State.define (state : State N V) (name : N) (value : V) : State N V :=
  if state.ambiguous name then state
  else if (state.values name).any (· ≠ value) then
    ⟨Function.update state.values name none, Function.update state.ambiguous name true⟩
  else ⟨Function.update state.values name (some value), state.ambiguous⟩

/-- One pass, and the rules it leaves. -/
def pass : State N V → List (Rule N V) → State N V × List (Rule N V)
  | state, [] => (state, [])
  | state, rule :: rest =>
    match rule.value state.values with
    | some value => pass (state.define rule.name value) rest
    | none => ((pass state rest).1, rule :: (pass state rest).2)

/-- Passes while one of them evaluates a rule. -/
def settle : Nat → State N V → List (Rule N V) → State N V
  | 0, state, _ => state
  | passes + 1, state, rules =>
    let after := pass state rules
    if after.2.length = rules.length then after.1 else settle passes after.1 after.2

/-! ## One definition -/

/-- A name has been given a value. -/
def State.Touched (state : State N V) (name : N) : Prop :=
  (state.values name).isSome ∨ state.ambiguous name

theorem touched_define (state : State N V) (name : N) (value : V) :
    (state.define name value).Touched name := by
  rw [State.define]
  split
  · rename_i two
    exact Or.inr two
  · split
    · exact Or.inr (Function.update_self _ _ _)
    · exact Or.inl (by simp)

theorem values_define_of_ne {state : State N V} {name other : N} (ne : other ≠ name) (value : V) :
    (state.define name value).values other = state.values other := by
  rw [State.define]
  split
  · rfl
  · split <;> exact Function.update_of_ne ne _ _

theorem ambiguous_define_of_ne {state : State N V} {name other : N} (ne : other ≠ name)
    (value : V) : (state.define name value).ambiguous other = state.ambiguous other := by
  rw [State.define]
  split
  · rfl
  · split
    · exact Function.update_of_ne ne _ _
    · rfl

theorem State.Touched.define {state : State N V} {other : N} (touched : state.Touched other)
    (name : N) (value : V) : (state.define name value).Touched other := by
  by_cases same : other = name
  · rw [same]
    exact touched_define state name value
  · rw [State.Touched, values_define_of_ne same, ambiguous_define_of_ne same]
    exact touched

/-- What a definition can leave in its own name. -/
theorem values_define_self {state : State N V} {name : N} {value found : V}
    (h : (state.define name value).values name = some found)
    (lost : state.ambiguous name → state.values name = none) : found = value := by
  rw [State.define] at h
  split at h
  · rename_i two
    rw [lost two] at h
    cases h
  · split at h
    · simp at h
    · simpa using h.symm

theorem define_self (state : State N V) (name : N) (value : V) :
    (state.define name value).ambiguous name ∨ (state.define name value).values name = some value := by
  rw [State.define]
  split
  · rename_i two
    exact Or.inl two
  · split
    · exact Or.inl (Function.update_self _ _ _)
    · exact Or.inr (Function.update_self _ _ _)

/-- A value a name has stays, or the name becomes ambiguous. -/
theorem define_stays {state : State N V} {name other : N} {value held : V}
    (h : state.ambiguous other ∨ state.values other = some held) :
    (state.define name value).ambiguous other ∨
      (state.define name value).values other = some held := by
  by_cases same : other = name
  · subst same
    rw [State.define]
    split
    · rename_i two
      exact Or.inl two
    · rename_i one
      have holds := h.resolve_left one
      split
      · exact Or.inl (Function.update_self _ _ _)
      · rename_i equal
        simp only [holds, Option.any_some, decide_eq_true_eq, ne_eq, not_not] at equal
        exact Or.inr ((Function.update_self _ _ _).trans (congrArg some equal.symm))
  · rwa [values_define_of_ne same, ambiguous_define_of_ne same]

/-- Where a definition makes its name ambiguous, the name was ambiguous or had another value. -/
theorem ambiguous_define_self {state : State N V} {name : N} {value : V}
    (h : (state.define name value).ambiguous name) :
    state.ambiguous name ∨ ∃ held, state.values name = some held ∧ held ≠ value := by
  rw [State.define] at h
  split at h
  · exact Or.inl h
  · split at h
    · rename_i other
      cases holds : state.values name with
      | none => simp [holds] at other
      | some held =>
        simp only [holds, Option.any_some, decide_eq_true_eq] at other
        exact Or.inr ⟨held, rfl, other⟩
    · exact Or.inl h

/-- An ambiguous name has no value. -/
theorem lost_define {state : State N V} (lost : ∀ name, state.ambiguous name → state.values name = none)
    (name : N) (value : V) (other : N) (h : (state.define name value).ambiguous other) :
    (state.define name value).values other = none := by
  by_cases same : other = name
  · subst same
    rw [State.define] at h ⊢
    split at h
    · rename_i two
      rw [if_pos two]
      exact lost other two
    · rename_i one
      split at h
      · rename_i differs
        rw [if_neg one, if_pos differs]
        exact Function.update_self _ _ _
      · exact absurd h one
  · rw [values_define_of_ne same]
    rw [ambiguous_define_of_ne same] at h
    exact lost other h

/-! ## Passes -/

theorem length_pass_le (state : State N V) (rules : List (Rule N V)) :
    (pass state rules).2.length ≤ rules.length := by
  induction rules generalizing state with
  | nil => exact le_refl _
  | cons rule rest ih =>
    rw [pass]
    split
    · exact (ih _).trans (Nat.le_succ _)
    · exact Nat.succ_le_succ (ih _)

/-- A pass that evaluates nothing changes nothing, and none of its rules has a value. -/
theorem pass_quiet {state : State N V} {rules : List (Rule N V)}
    (quiet : (pass state rules).2.length = rules.length) :
    pass state rules = (state, rules) ∧ ∀ rule ∈ rules, rule.value state.values = none := by
  induction rules with
  | nil => exact ⟨rfl, nofun⟩
  | cons rule rest ih =>
    rw [pass] at quiet ⊢
    split at quiet
    · have := length_pass_le (state.define rule.name ‹V›) rest
      simp only [List.length_cons] at quiet
      omega
    · rename_i none
      obtain ⟨same, later⟩ := ih (Nat.succ.inj quiet)
      rw [same]
      exact ⟨rfl, List.forall_mem_cons.2 ⟨none, later⟩⟩

theorem pass_append (state : State N V) (front back : List (Rule N V)) :
    pass state (front ++ back) =
      ((pass (pass state front).1 back).1, (pass state front).2 ++ (pass (pass state front).1 back).2) := by
  induction front generalizing state with
  | nil => rfl
  | cons rule rest ih =>
    rw [List.cons_append, pass, pass]
    split
    · exact ih _
    · rw [ih]
      rfl

/-- What holds of the state and of every rule evaluated, all along a run. -/
structure Invariant (rules : List (Rule N V)) (Inv : State N V → Prop)
    (Done : State N V → Rule N V → Prop) : Prop where
  keeps : ∀ state rule value, Inv state → rule ∈ rules → rule.value state.values = some value →
    Inv (state.define rule.name value)
  stays : ∀ state rule value other, Inv state → rule ∈ rules →
    rule.value state.values = some value → Done state other →
      Done (state.define rule.name value) other
  does : ∀ state rule value, Inv state → rule ∈ rules → rule.value state.values = some value →
    Done (state.define rule.name value) rule

variable {rules : List (Rule N V)} {Inv : State N V → Prop} {Done : State N V → Rule N V → Prop}

theorem Invariant.pass (h : Invariant rules Inv Done) {state : State N V}
    {pending : List (Rule N V)} (inside : pending ⊆ rules) (inv : Inv state) :
    Inv (pass state pending).1 ∧ (Settling.pass state pending).2 ⊆ pending ∧
      (∀ rule ∈ pending, rule ∈ (Settling.pass state pending).2 ∨
        Done (Settling.pass state pending).1 rule) ∧
      ∀ rule, Done state rule → Done (Settling.pass state pending).1 rule := by
  induction pending generalizing state with
  | nil => exact ⟨inv, List.Subset.refl _, nofun, fun _ => id⟩
  | cons rule rest ih =>
    have here := inside List.mem_cons_self
    have later : rest ⊆ rules := fun _ there => inside (List.mem_cons_of_mem _ there)
    rw [Settling.pass]
    cases found : rule.value state.values with
    | some value =>
      obtain ⟨inv', sub, done, stays⟩ := ih later (h.keeps state rule value inv here found)
      refine ⟨inv', fun _ there => List.mem_cons_of_mem _ (sub there), ?_, ?_⟩
      · exact List.forall_mem_cons.2 ⟨Or.inr (stays _ (h.does state rule value inv here found)), done⟩
      · exact fun other before => stays _ (h.stays state rule value other inv here found before)
    | none =>
      obtain ⟨inv', sub, done, stays⟩ := ih later inv
      refine ⟨inv', List.cons_subset_cons _ sub, ?_, stays⟩
      refine List.forall_mem_cons.2 ⟨Or.inl List.mem_cons_self, fun other there => ?_⟩
      exact (done other there).imp_left (List.mem_cons_of_mem _)

/-- At the end of a run every rule has been evaluated or has no value. -/
theorem Invariant.settle (h : Invariant rules Inv Done) {passes : Nat} {state : State N V}
    {pending : List (Rule N V)} (inside : pending ⊆ rules) (enough : pending.length ≤ passes)
    (inv : Inv state) :
    Inv (settle passes state pending) ∧
      (∀ rule ∈ pending, rule.value (Settling.settle passes state pending).values = none ∨
        Done (Settling.settle passes state pending) rule) ∧
      ∀ rule, Done state rule → Done (Settling.settle passes state pending) rule := by
  induction passes generalizing state pending with
  | zero =>
    rw [List.length_eq_zero_iff.1 (Nat.le_zero.1 enough)]
    exact ⟨inv, nofun, fun _ => id⟩
  | succ passes ih =>
    rw [Settling.settle]
    split
    · rename_i quiet
      obtain ⟨same, none⟩ := pass_quiet quiet
      rw [same]
      exact ⟨inv, fun rule there => Or.inl (none rule there), fun _ => id⟩
    · rename_i progress
      obtain ⟨inv', sub, done, stays⟩ := h.pass inside inv
      have shorter := length_pass_le state pending
      obtain ⟨inv'', done', stays'⟩ := ih (fun _ there => inside (sub there)) (by omega) inv'
      refine ⟨inv'', fun rule there => ?_, fun rule before => stays' _ (stays _ before)⟩
      rcases done rule there with waits | before
      · exact done' rule waits
      · exact Or.inr (stays' rule before)

/-! ## The table the rules are about -/

section
variable (given : N → Option V) (rules : List (Rule N V))

/-- The state before any rule is evaluated. -/
def start : State N V := ⟨given, fun _ => false⟩

/-- A table gives a name a value: from the start, or by one of its rules. -/
def Gives (table : N → Option V) (name : N) (value : V) : Prop :=
  given name = some value ∨ ∃ rule ∈ rules, rule.name = name ∧ rule.value table = some value

/-- Everything that defines a name gives it this value. -/
def Agrees (table : N → Option V) (name : N) (value : V) : Prop :=
  Gives given rules table name value ∧ (∀ other, given name = some other → other = value) ∧
    ∀ rule ∈ rules, rule.name = name → rule.value table = some value

/-- A name is given two different values. -/
def Forked (table : N → Option V) (name : N) : Prop :=
  ∃ value other, value ≠ other ∧ Gives given rules table name value ∧
    Gives given rules table name other

/-- A name has its value exactly where all its definitions give it, and is ambiguous exactly where
two of them differ. -/
structure Consistent (state : State N V) : Prop where
  values : ∀ name value, state.values name = some value ↔
    Agrees given rules state.values name value
  ambiguous : ∀ name, state.ambiguous name ↔ Forked given rules state.values name

/-- A name that is given a value at some time. -/
def Known (table : N → Option V) (name : N) : Prop :=
  (table name).isSome ∨ Forked given rules table name

/-- The table in which every name has the value its definitions agree on, where a rule that reads
known names only is for a known name. -/
structure Steady (table : N → Option V) : Prop where
  agrees : ∀ name value, table name = some value ↔ Agrees given rules table name value
  preset : ∀ name, (given name).isSome → Known given rules table name
  whole : ∀ rule ∈ rules, rule.live → (∀ name ∈ rule.reads, Known given rules table name) →
    Known given rules table rule.name

/-- No name is defined through itself. -/
def Acyclic : Prop := ∃ rank : N → Nat, ∀ rule ∈ rules, ∀ name ∈ rule.reads, rank name < rank rule.name

end

section
variable {given : N → Option V} {table : N → Option V}

omit [DecidableEq N] [DecidableEq V] in
theorem Agrees.not_forked {name : N} {value : V} (h : Agrees given rules table name value) :
    ¬Forked given rules table name := by
  have only : ∀ other, Gives given rules table name other → other = value := by
    rintro other (from' | ⟨rule, there, named, gives⟩)
    · exact h.2.1 other from'
    · rw [h.2.2 rule there named] at gives
      exact (Option.some.inj gives).symm
  rintro ⟨a, b, differ, first, second⟩
  exact differ ((only a first).trans (only b second).symm)

/-- What a run keeps in a steady table. -/
structure Sound (given : N → Option V) (rules : List (Rule N V)) (table : N → Option V)
    (state : State N V) : Prop where
  known : ∀ name value, state.values name = some value →
    Known given rules table name ∧ ∀ other, table name = some other → value = other
  forked : ∀ name, state.ambiguous name → Forked given rules table name
  lost : ∀ name, state.ambiguous name → state.values name = none
  held : ∀ name value, given name = some value →
    state.ambiguous name ∨ state.values name = some value

/-- An evaluated rule with a value in the table has left it, or its name is ambiguous. -/
def Left (table : N → Option V) (state : State N V) (rule : Rule N V) : Prop :=
  ∀ value, rule.value table = some value →
    state.ambiguous rule.name ∨ state.values rule.name = some value

omit [DecidableEq N] [DecidableEq V] in
/-- A rule whose names have their values in the table has its value there. -/
theorem Sound.value_eq {state : State N V} (sound : Sound given rules table state)
    {rule : Rule N V} {value found : V} (has : rule.value table = some value)
    (now : rule.value state.values = some found) : found = value := by
  have inTable := ((rule.isSome_value table).1 (by rw [has]; rfl)).2
  have inState := ((rule.isSome_value state.values).1 (by rw [now]; rfl)).2
  have same : ∀ name ∈ rule.reads, state.values name = table name := by
    intro name there
    obtain ⟨a, known⟩ := Option.isSome_iff_exists.1 (inTable name there)
    obtain ⟨b, held⟩ := Option.isSome_iff_exists.1 (inState name there)
    rw [known, held, (sound.known name b held).2 a known]
  rw [rule.value_congr _ _ same, has] at now
  exact (Option.some.inj now).symm

omit [DecidableEq N] [DecidableEq V] in
/-- A rule evaluated for a name with a value in the table gives it that value. -/
theorem Steady.value_eq (steady : Steady given rules table) {state : State N V}
    (sound : Sound given rules table state) {rule : Rule N V} (there : rule ∈ rules) {found value : V}
    (now : rule.value state.values = some found) (has : table rule.name = some value) :
    found = value := by
  exact sound.value_eq (((steady.agrees _ _).1 has).2.2 rule there rfl) now

omit [DecidableEq N] [DecidableEq V] in
/-- A rule is only evaluated for a name that is known in the table. -/
theorem Steady.known (steady : Steady given rules table) {state : State N V}
    (sound : Sound given rules table state) {rule : Rule N V} (there : rule ∈ rules) {found : V}
    (now : rule.value state.values = some found) : Known given rules table rule.name := by
  obtain ⟨live, reads⟩ := (rule.isSome_value _).1 (by rw [now]; rfl)
  refine steady.whole rule there live fun name read => ?_
  obtain ⟨held, holds⟩ := Option.isSome_iff_exists.1 (reads name read)
  exact (sound.known name held holds).1

theorem Steady.invariant (steady : Steady given rules table) :
    Invariant rules (Sound given rules table) (Left table) where
  keeps := by
    intro state rule value sound there now
    have known := steady.known sound there now
    refine ⟨fun name held holds => ?_, fun name two => ?_, lost_define sound.lost _ _,
      fun name held first => define_stays (sound.held name held first)⟩
    · by_cases same : name = rule.name
      · subst same
        rw [values_define_self holds (sound.lost _)]
        exact ⟨known, fun other has => steady.value_eq sound there now has⟩
      · rw [values_define_of_ne same] at holds
        exact sound.known name held holds
    · by_cases same : name = rule.name
      · subst same
        rcases ambiguous_define_self two with before | ⟨held, holds, differs⟩
        · exact sound.forked _ before
        · refine known.resolve_left fun has => differs ?_
          obtain ⟨other, has⟩ := Option.isSome_iff_exists.1 has
          rw [(sound.known _ held holds).2 other has, steady.value_eq sound there now has]
      · rw [ambiguous_define_of_ne same] at two
        exact sound.forked name two
  stays := by
    intro state rule value other sound there now left held gives
    exact define_stays (left held gives)
  does := by
    intro state rule value sound there now held gives
    rw [← sound.value_eq gives now]
    exact define_self state rule.name value

omit [DecidableEq N] [DecidableEq V] in
theorem Steady.sound_start (steady : Steady given rules table) :
    Sound given rules table (start given) where
  known name value holds := by
    refine ⟨steady.preset name (by rw [show given name = some value from holds]; rfl), ?_⟩
    intro other has
    exact ((steady.agrees name other).1 has).2.1 value holds
  forked := nofun
  lost := nofun
  held _ _ first := Or.inr first

/-- The end of a run: every rule has been evaluated or has no value. -/
structure Ended (rules : List (Rule N V)) (table : N → Option V) (state : State N V) : Prop where
  done : ∀ rule ∈ rules, rule.value state.values = none ∨ Left table state rule

omit [DecidableEq N] [DecidableEq V] in
/-- A value of the table is there at the end, once those below it are. -/
theorem holds_of_gives {state : State N V} (sound : Sound given rules table state)
    (ended : Ended rules table state) {name : N} {value : V}
    (gives : Gives given rules table name value)
    (below : ∀ rule ∈ rules, rule.name = name → ∀ other ∈ rule.reads, ∀ held,
      table other = some held → state.values other = some held) :
    state.ambiguous name ∨ state.values name = some value := by
  rcases gives with first | ⟨rule, there, rfl, has⟩
  · exact sound.held name value first
  · have reads := ((rule.isSome_value table).1 (by rw [has]; rfl)).2
    have same : ∀ other ∈ rule.reads, state.values other = table other := by
      intro other read
      obtain ⟨held, holds⟩ := Option.isSome_iff_exists.1 (reads other read)
      rw [holds, below rule there rfl other read held holds]
    refine (ended.done rule there).elim (fun none => ?_) (fun left => left value has)
    rw [rule.value_congr _ _ same, has] at none
    cases none

omit [DecidableEq N] [DecidableEq V] in
/-- Every value of the table is there at the end. -/
theorem Steady.values_of_ended (steady : Steady given rules table) (acyclic : Acyclic rules)
    {state : State N V} (sound : Sound given rules table state) (ended : Ended rules table state)
    {name : N} {value : V} (has : table name = some value) : state.values name = some value := by
  obtain ⟨rank, lower⟩ := acyclic
  -- by the rank of the name: what its definitions read is there already
  induction height : rank name using Nat.strong_induction_on generalizing name value with
  | _ height' ih =>
    have agrees := (steady.agrees name value).1 has
    refine (holds_of_gives sound ended agrees.1 ?_).resolve_left fun two =>
      agrees.not_forked (sound.forked name two)
    intro rule there named other read held holds
    refine ih (rank other) ?_ holds rfl
    rw [← height, ← named]
    exact lower rule there other read

/-- Every run of steady rules ends in their table. -/
theorem Steady.settle_eq (steady : Steady given rules table) (acyclic : Acyclic rules)
    {order : List (Rule N V)} (perm : order.Perm rules) :
    (settle order.length (start given) order).values = table ∧
      ∀ name, (settle order.length (start given) order).ambiguous name ↔
        Forked given rules table name := by
  obtain ⟨sound, done, -⟩ :=
    steady.invariant.settle perm.subset (le_refl _) steady.sound_start
  generalize settle order.length (start given) order = state at *
  have ended : Ended rules table state := ⟨fun rule there => done rule (perm.mem_iff.2 there)⟩
  have values {name : N} {value : V} (has : table name = some value) :
      state.values name = some value := steady.values_of_ended acyclic sound ended has
  have two : ∀ name, Forked given rules table name → state.ambiguous name := by
    rintro name ⟨a, b, differ, first, second⟩
    have there {value : V} (gives : Gives given rules table name value) :=
      holds_of_gives sound ended gives fun _ _ _ _ _ _ holds => values holds
    rcases there first with two | one
    · exact two
    · refine (there second).resolve_right fun other => differ ?_
      rw [one] at other
      exact Option.some.inj other
  refine ⟨funext fun name => ?_, fun name => ⟨sound.forked name, two name⟩⟩
  cases has : table name with
  | some value => exact values has
  | none =>
    rw [Option.eq_none_iff_forall_ne_some]
    intro value holds
    rcases (sound.known name value holds).1 with some | forked
    · rw [has] at some
      cases some
    · rw [sound.lost name (two name forked)] at holds
      cases holds

/-! ## An order that reads every known name -/

theorem touched_invariant (rules : List (Rule N V)) (name : N) :
    Invariant rules (fun state => state.Touched name) fun _ _ => True where
  keeps _ rule value touched _ _ := touched.define rule.name value
  stays _ _ _ _ _ _ _ _ := trivial
  does _ _ _ _ _ _ := trivial

/-- A name that is touched early in the first pass is touched at the end. -/
theorem touched_settle {passes : Nat} {state : State N V} {front back : List (Rule N V)} {name : N}
    (touched : (pass state front).1.Touched name)
    (enough : (front ++ back).length ≤ passes + 1) :
    (settle (passes + 1) state (front ++ back)).Touched name := by
  have inv := touched_invariant (front ++ back) name
  have after : (pass state (front ++ back)).1.Touched name := by
    rw [pass_append]
    exact (inv.pass (List.subset_append_right _ _) touched).1
  rw [settle]
  split
  · exact after
  · have shorter := length_pass_le state (front ++ back)
    have sub : (pass state (front ++ back)).2 ⊆ front ++ back := by
      have all : Invariant (front ++ back) (fun _ => True) fun _ _ => True :=
        ⟨fun _ _ _ _ _ _ => trivial, fun _ _ _ _ _ _ _ _ => trivial, fun _ _ _ _ _ _ => trivial⟩
      exact (all.pass (List.Subset.refl _) trivial).2.1
    exact (inv.settle sub (by omega) after).1

/-- The state after rules have filled their names from a table. -/
def filled (given want : N → Option V) (rules : List (Rule N V)) : State N V :=
  ⟨fun name => if name ∈ rules.map Rule.name then want name else given name, fun _ => false⟩

omit [DecidableEq V] in
theorem start_eq_filled (given want : N → Option V) : start given = filled given want [] := by
  simp [start, filled]

theorem define_filled {want : N → Option V} {done : List (Rule N V)} {rule : Rule N V} {value : V}
    (wanted : want rule.name = some value)
    (first : ∀ other, given rule.name = some other → other = value) :
    (filled given want done).define rule.name value = filled given want (done ++ [rule]) := by
  have holds : ∀ other, (filled given want done).values rule.name = some other → other = value := by
    intro other held
    simp only [filled] at held
    split at held
    · rw [wanted] at held
      exact (Option.some.inj held).symm
    · exact first other held
  have same : ((filled given want done).values rule.name).any (· ≠ value) = false := by
    cases held : (filled given want done).values rule.name with
    | none => rfl
    | some other => simp [holds other held]
  rw [State.define, if_neg (by simp [filled]), if_neg (by rw [same]; exact Bool.false_ne_true)]
  ext1
  · funext name
    by_cases self : name = rule.name
    · subst self
      simp [filled, wanted]
    · simp [filled, self]
  · rfl

/-- Rules that find what they want in turn are all evaluated. -/
theorem pass_filled {want : N → Option V} {done list : List (Rule N V)}
    (first : ∀ rule ∈ list, ∀ other, given rule.name = some other → want rule.name = some other)
    (finds : ∀ front rule back, list = front ++ rule :: back →
      ∃ value, want rule.name = some value ∧
        rule.value (filled given want (done ++ front)).values = some value) :
    pass (filled given want done) list = (filled given want (done ++ list), []) := by
  induction list generalizing done with
  | nil => rw [List.append_nil, pass]
  | cons rule rest ih =>
    obtain ⟨value, wanted, found⟩ := finds [] rule rest rfl
    rw [List.append_nil] at found
    have same : ∀ other, given rule.name = some other → other = value := by
      intro other held
      have := first rule List.mem_cons_self other held
      rw [wanted] at this
      exact (Option.some.inj this).symm
    rw [pass, found]
    dsimp only
    rw [define_filled wanted same, ih]
    · rw [List.append_assoc, List.singleton_append]
    · exact fun rule' there => first rule' (List.mem_cons_of_mem _ there)
    · intro front rule' back split
      rw [List.append_assoc, List.singleton_append]
      exact finds (rule :: front) rule' back (by rw [split]; rfl)

open Classical in
/-- A rule that gives a forked name one of its values. -/
noncomputable def pickFor (rules : List (Rule N V)) (table : N → Option V) (name : N) :
    Option (Rule N V) :=
  if h : ∃ rule ∈ rules, rule.name = name ∧ (rule.value table).isSome then some h.choose else none

omit [DecidableEq V] in
theorem pickFor_spec {name : N} {rule : Rule N V} (found : pickFor rules table name = some rule) :
    rule ∈ rules ∧ rule.name = name ∧ (rule.value table).isSome := by
  rw [pickFor] at found
  split at found
  · rename_i h
    cases found
    exact h.choose_spec
  · cases found

omit [DecidableEq V] in
theorem pickFor_isSome {name : N} (forked : Forked given rules table name) (none : given name = none) :
    ∃ rule, pickFor rules table name = some rule := by
  obtain ⟨a, -, -, gives, -⟩ := forked
  have exists' : ∃ rule ∈ rules, rule.name = name ∧ (rule.value table).isSome := by
    rcases gives with first | ⟨rule, there, named, value⟩
    · rw [none] at first
      cases first
    · exact ⟨rule, there, named, by rw [value]; rfl⟩
  rw [pickFor, dif_pos exists']
  exact ⟨_, rfl⟩

/-- The table, and one of its values for every forked name. -/
noncomputable def wanted (rules : List (Rule N V)) (table : N → Option V) (name : N) : Option V :=
  (table name).or ((pickFor rules table name).bind fun rule => rule.value table)

omit [DecidableEq V] in
theorem wanted_of_table {name : N} {value : V} (has : table name = some value) :
    wanted rules table name = some value := by
  rw [wanted, has]
  rfl

omit [DecidableEq V] in
/-- Once the names of the table are filled, a rule finds there what it reads in the table. -/
theorem values_filled {done : List (Rule N V)}
    (agrees : ∀ name value, table name = some value ↔ Agrees given rules table name value)
    {name : N} {value : V} (has : table name = some value)
    (before : ∀ rule ∈ rules, rule.name = name → rule ∈ done) :
    (filled given (wanted rules table) done).values name = some value := by
  simp only [filled]
  split
  · exact wanted_of_table has
  · rename_i missing
    rcases ((agrees name value).1 has).1 with first | ⟨rule, there, named, -⟩
    · exact first
    · exact absurd (List.mem_map.2 ⟨rule, before rule there named, named⟩) missing

omit [DecidableEq V] in
theorem first_wanted (agrees : ∀ name value, table name = some value ↔ Agrees given rules table name value)
    {name : N} {value other : V} (has : table name = some value) (first : given name = some other) :
    wanted rules table name = some other := by
  rw [wanted_of_table has, ((agrees name value).1 has).2.1 other first]

section
variable (agrees : ∀ name value, table name = some value ↔ Agrees given rules table name value)
include agrees

/-- The rules of the names of the table, sorted by rank, are evaluated in one pass. -/
theorem pass_sorted {rank : N → Nat}
    (lower : ∀ rule ∈ rules, ∀ name ∈ rule.reads, rank name < rank rule.name)
    {sorted : List (Rule N V)} (mem : ∀ rule, rule ∈ sorted ↔ rule ∈ rules ∧ (table rule.name).isSome)
    (ordered : sorted.Pairwise fun a b => rank a.name ≤ rank b.name) :
    pass (filled given (wanted rules table) []) sorted =
      (filled given (wanted rules table) sorted, []) := by
  refine pass_filled ?_ ?_
  · intro rule there other first
    obtain ⟨value, has⟩ := Option.isSome_iff_exists.1 ((mem rule).1 there).2
    exact first_wanted agrees has first
  · intro front rule back split
    obtain ⟨there, some⟩ := (mem rule).1 (by rw [split]; exact List.mem_append_right _ List.mem_cons_self)
    obtain ⟨value, has⟩ := Option.isSome_iff_exists.1 some
    have gives := ((agrees rule.name value).1 has).2.2 rule there rfl
    refine ⟨value, wanted_of_table has, ?_⟩
    rw [List.nil_append, ← gives]
    refine rule.value_congr _ _ fun name read => ?_
    obtain ⟨held, holds⟩ := Option.isSome_iff_exists.1
      (((rule.isSome_value table).1 (by rw [gives]; rfl)).2 name read)
    rw [holds]
    refine values_filled agrees holds fun other isRule named => ?_
    -- a rule of a name that is read has a lower rank, so it stands before
    have inSorted : other ∈ front ++ rule :: back := by
      rw [← split]
      exact (mem other).2 ⟨isRule, by rw [named, holds]; rfl⟩
    refine (List.mem_append.1 inSorted).resolve_right fun later => ?_
    have less := lower rule there name read
    rw [← named] at less
    rcases List.mem_cons.1 later with rfl | after
    · exact lt_irrefl _ less
    · rw [split] at ordered
      have := (List.pairwise_cons.1 (List.pairwise_append.1 ordered).2.1).1 other after
      omega

/-- After them one rule for each forked name is evaluated. -/
theorem pass_picks {done picks : List (Rule N V)}
    (before : ∀ rule ∈ rules, (table rule.name).isSome → rule ∈ done)
    (picked : ∀ rule ∈ picks, pickFor rules table rule.name = some rule ∧
      table rule.name = none ∧ given rule.name = none) :
    pass (filled given (wanted rules table) done) picks =
      (filled given (wanted rules table) (done ++ picks), []) := by
  refine pass_filled ?_ ?_
  · intro rule there other first
    rw [(picked rule there).2.2] at first
    cases first
  · intro front rule back split
    obtain ⟨pick, none, -⟩ := picked rule (by rw [split]; exact List.mem_append_right _ List.mem_cons_self)
    obtain ⟨-, -, some⟩ := pickFor_spec pick
    obtain ⟨value, gives⟩ := Option.isSome_iff_exists.1 some
    refine ⟨value, ?_, ?_⟩
    · rw [wanted, none, pick]
      exact gives
    · rw [← gives]
      refine rule.value_congr _ _ fun name read => ?_
      obtain ⟨held, holds⟩ := Option.isSome_iff_exists.1 (((rule.isSome_value table).1 some).2 name read)
      rw [holds]
      refine values_filled agrees holds fun other isRule named => ?_
      exact List.mem_append_left _ (before other isRule (by rw [named, holds]; rfl))

open Classical in
/-- Some order evaluates a rule as soon as the names it reads are known. -/
theorem exists_touching (acyclic : Acyclic rules) {rule : Rule N V} (there : rule ∈ rules)
    (live : rule.live) (known : ∀ name ∈ rule.reads, Known given rules table name)
    (absent : table rule.name = none) :
    ∃ order, order.Perm rules ∧ (settle order.length (start given) order).Touched rule.name := by
  obtain ⟨rank, lower⟩ := acyclic
  let sorted := (rules.filter fun rule => (table rule.name).isSome).insertionSort
    fun a b => rank a.name ≤ rank b.name
  let others := rules.filter fun rule => !(table rule.name).isSome
  let names := (rule.reads.filter fun name => table name = none ∧ given name = none).dedup
  let picks := names.filterMap (pickFor rules table)
  have total : Std.Total fun a b : Rule N V => rank a.name ≤ rank b.name := ⟨fun a b => le_total _ _⟩
  have trans : IsTrans (Rule N V) fun a b => rank a.name ≤ rank b.name := ⟨fun _ _ _ => le_trans⟩
  have permSorted : sorted.Perm (rules.filter fun rule => (table rule.name).isSome) :=
    List.perm_insertionSort _ _
  have memSorted : ∀ rule, rule ∈ sorted ↔ rule ∈ rules ∧ (table rule.name).isSome := fun rule => by
    rw [permSorted.mem_iff, List.mem_filter]
  have picked : ∀ rule ∈ picks, pickFor rules table rule.name = some rule ∧
      table rule.name = none ∧ given rule.name = none := by
    intro pick inPicks
    obtain ⟨name, inNames, found⟩ := List.mem_filterMap.1 inPicks
    have named := (pickFor_spec found).2.1
    obtain ⟨-, free⟩ := List.mem_filter.1 (List.mem_dedup.1 inNames)
    rw [named]
    exact ⟨found, by simpa using free⟩
  have read : ∀ pick ∈ picks, pick.name ∈ rule.reads := by
    intro pick inPicks
    obtain ⟨name, inNames, found⟩ := List.mem_filterMap.1 inPicks
    rw [(pickFor_spec found).2.1]
    exact (List.mem_filter.1 (List.mem_dedup.1 inNames)).1
  have distinct : (picks ++ [rule]).Nodup := by
    refine List.nodup_append.2 ⟨?_, List.nodup_singleton _, ?_⟩
    · refine (List.nodup_dedup _).filterMap fun name name' pick found found' => ?_
      rw [← (pickFor_spec found).2.1, ← (pickFor_spec found').2.1]
    · intro pick inPicks other self same
      rw [List.mem_singleton.1 self] at same
      subst same
      exact lt_irrefl _ (lower pick there pick.name (read pick inPicks))
  have inside : picks ++ [rule] ⊆ others := by
    intro other inList
    rcases List.mem_append.1 inList with inPicks | self
    · obtain ⟨pick, none, -⟩ := picked other inPicks
      exact List.mem_filter.2 ⟨(pickFor_spec pick).1, by rw [none]; rfl⟩
    · rw [List.mem_singleton.1 self]
      exact List.mem_filter.2 ⟨there, by rw [absent]; rfl⟩
  obtain ⟨rest, permOthers⟩ : ∃ rest, others.Perm (picks ++ [rule] ++ rest) := by
    obtain ⟨list, perm, sub⟩ := distinct.subperm inside
    obtain ⟨rest, split⟩ := sub.exists_perm_append
    exact ⟨rest, split.trans (perm.append_right rest)⟩
  refine ⟨sorted ++ (picks ++ [rule]) ++ rest, ?_, ?_⟩
  · rw [List.append_assoc]
    refine (permSorted.append permOthers.symm).trans ?_
    exact List.filter_append_perm _ rules
  · have touched : (pass (start given) (sorted ++ (picks ++ [rule]))).1.Touched rule.name := by
      rw [start_eq_filled given (wanted rules table), pass_append,
        pass_sorted agrees lower memSorted (List.pairwise_insertionSort _ _)]
      dsimp only
      rw [pass_append, pass_picks agrees (fun other isRule some => (memSorted other).2 ⟨isRule, some⟩)
        picked]
      dsimp only
      have found : (rule.value (filled given (wanted rules table) (sorted ++ picks)).values).isSome := by
        refine (rule.isSome_value _).2 ⟨live, fun name reads => ?_⟩
        cases has : table name with
        | some value =>
          rw [values_filled agrees has fun other isRule named =>
            List.mem_append_left _ ((memSorted other).2 ⟨isRule, by rw [named, has]; rfl⟩)]
          rfl
        | none =>
          have forked : Forked given rules table name :=
            (known name reads).resolve_left (by rw [has]; exact Bool.false_ne_true)
          simp only [filled]
          split
          · rename_i inList
            obtain ⟨other, inList, named⟩ := List.mem_map.1 inList
            rcases List.mem_append.1 inList with inSorted | inPicks
            · have some := ((memSorted other).1 inSorted).2
              rw [named, has] at some
              cases some
            · obtain ⟨pick, -, -⟩ := picked other inPicks
              rw [named] at pick
              rw [wanted, has, pick]
              exact (pickFor_spec pick).2.2
          · rename_i notInList
            by_contra free
            have free : given name = none := by simpa using free
            obtain ⟨pick, found⟩ := pickFor_isSome forked free
            refine notInList (List.mem_map.2 ⟨pick, ?_, (pickFor_spec found).2.1⟩)
            refine List.mem_append_right _ (List.mem_filterMap.2 ⟨name, ?_, found⟩)
            exact List.mem_dedup.2 (List.mem_filter.2 ⟨reads, by simp [has, free]⟩)
      obtain ⟨value, found⟩ := Option.isSome_iff_exists.1 found
      rw [pass, found]
      exact touched_define _ rule.name value
    have long : (sorted ++ (picks ++ [rule]) ++ rest).length =
        (sorted ++ picks ++ rest).length + 1 := by
      simp only [List.length_append, List.length_singleton]
      omega
    rw [long]
    exact touched_settle touched long.le

end

/-- Every order of the rules ends in one and the same consistent state exactly where the rules are
steady in some table. -/
theorem settles_iff (given : N → Option V) (rules : List (Rule N V)) (acyclic : Acyclic rules) :
    (∀ order, order.Perm rules →
      Consistent given rules (settle order.length (start given) order) ∧
      settle order.length (start given) order = settle rules.length (start given) rules) ↔
      ∃ table, Steady given rules table := by
  constructor
  · intro same
    have consistent := (same rules (List.Perm.refl _)).1
    have known {name : N} (touched : (settle rules.length (start given) rules).Touched name) :
        Known given rules (settle rules.length (start given) rules).values name :=
      touched.imp_right (consistent.ambiguous name).1
    refine ⟨(settle rules.length (start given) rules).values, consistent.values, ?_, ?_⟩
    · intro name first
      refine known ((touched_invariant rules name).settle (List.Subset.refl _) (le_refl _) ?_).1
      exact Or.inl first
    · intro rule there live reads
      by_cases absent : (settle rules.length (start given) rules).values rule.name = none
      · obtain ⟨order, perm, touched⟩ :=
          exists_touching consistent.values acyclic there live reads absent
        rw [(same order perm).2] at touched
        exact known touched
      · exact Or.inl (Option.isSome_iff_ne_none.2 absent)
  · rintro ⟨table, steady⟩ order perm
    have ends {order : List (Rule N V)} (perm : order.Perm rules) := steady.settle_eq acyclic perm
    constructor
    · obtain ⟨values, ambiguous⟩ := ends perm
      refine ⟨?_, ?_⟩
      · rw [values]
        exact steady.agrees
      · rw [values]
        exact ambiguous
    · obtain ⟨values, ambiguous⟩ := ends perm
      obtain ⟨values', ambiguous'⟩ := ends (List.Perm.refl rules)
      ext1
      · rw [values, values']
      · funext name
        exact Bool.eq_iff_iff.2 ((ambiguous name).trans (ambiguous' name).symm)

end

/-! ## Tables on the way -/

/-- A table with the given values in which any other value is one its name's rules give there. -/
structure Drawn (given : N → Option V) (rules : List (Rule N V)) (table : N → Option V) : Prop where
  preset : ∀ name value, given name = some value → table name = some value
  gives : ∀ name value, table name = some value → Gives given rules table name value

section
variable {given : N → Option V} {table : N → Option V}

omit [DecidableEq N] [DecidableEq V] in
/-- A rule keeps its value when more names get one. -/
theorem Rule.value_of_le (rule : Rule N V) {table table' : N → Option V}
    (le : ∀ name value, table name = some value → table' name = some value) {value : V}
    (found : rule.value table = some value) : rule.value table' = some value := by
  have reads := ((rule.isSome_value table).1 (by rw [found]; rfl)).2
  rw [← found]
  refine rule.value_congr _ _ fun name read => ?_
  obtain ⟨held, holds⟩ := Option.isSome_iff_exists.1 (reads name read)
  rw [holds, le name held holds]

/-- The first value each name has been given makes a drawn table, and no name has another value. -/
def Traced (given : N → Option V) (rules : List (Rule N V)) (state : State N V) : Prop :=
  ∃ table, Drawn given rules table ∧
    (∀ name value, state.values name = some value → table name = some value) ∧
    ∀ name, (table name).isSome → state.Touched name

omit [DecidableEq N] [DecidableEq V] in
theorem traced_start (given : N → Option V) (rules : List (Rule N V)) :
    Traced given rules (start given) :=
  ⟨given, ⟨fun _ _ => id, fun _ _ => .inl⟩, fun _ _ => id, fun _ => .inl⟩

/-- A value a definition leaves in a name that had been touched was there before. -/
theorem values_define_of_touched {state : State N V} {name : N} (touched : state.Touched name)
    {value held : V} (holds : (state.define name value).values name = some held) :
    state.values name = some held := by
  rw [State.define] at holds
  split at holds
  · exact holds
  · rename_i one
    obtain ⟨first, before⟩ := Option.isSome_iff_exists.1 (touched.resolve_right one)
    split at holds
    · simp at holds
    · rename_i equal
      simp only [before, Option.any_some, decide_eq_true_eq, ne_eq, not_not] at equal
      have kept : Function.update state.values name (some value) name = some held := holds
      rw [Function.update_self] at kept
      rw [before, equal, kept]

theorem traced_invariant (given : N → Option V) (rules : List (Rule N V)) :
    Invariant rules (Traced given rules) fun _ _ => True where
  keeps := by
    rintro state rule value ⟨table, drawn, below, touched⟩ there now
    have gives := rule.value_of_le below now
    by_cases before : state.Touched rule.name
    · -- the name has its first value already
      refine ⟨table, drawn, fun name held holds => ?_, fun name some => (touched name some).define _ _⟩
      by_cases same : name = rule.name
      · subst same
        exact below _ _ (values_define_of_touched before holds)
      · rw [values_define_of_ne same] at holds
        exact below name held holds
    · have new : table rule.name = none := by
        rw [← Option.not_isSome_iff_eq_none]
        exact fun some => before (touched _ some)
      have le : ∀ name held, table name = some held →
          Function.update table rule.name (some value) name = some held := by
        intro name held holds
        have other : name ≠ rule.name := by
          rintro rfl
          rw [new] at holds
          cases holds
        rw [Function.update_of_ne other, holds]
      refine ⟨Function.update table rule.name (some value), ⟨fun name held first => ?_,
        fun name held holds => ?_⟩, fun name held holds => ?_, fun name some => ?_⟩
      · exact le name held (drawn.preset name held first)
      · by_cases same : name = rule.name
        · subst same
          rw [Function.update_self] at holds
          cases holds
          exact .inr ⟨rule, there, rfl, rule.value_of_le le gives⟩
        · rw [Function.update_of_ne same] at holds
          refine (drawn.gives name held holds).imp_right ?_
          rintro ⟨other, isRule, named, found⟩
          exact ⟨other, isRule, named, other.value_of_le le found⟩
      · by_cases same : name = rule.name
        · subst same
          rw [Function.update_self]
          refine congrArg _ (values_define_self holds fun two => ?_).symm
          exact absurd (.inr two) before
        · rw [values_define_of_ne same] at holds
          exact le name held (below name held holds)
      · by_cases same : name = rule.name
        · subst same
          exact touched_define state rule.name value
        · rw [Function.update_of_ne same] at some
          exact (touched name some).define _ _
  stays _ _ _ _ _ _ _ _ := trivial
  does _ _ _ _ _ _ := trivial

/-- Rules that give the values of a table, those of lower rank first, for every name that has no value
from the start. -/
structure Picked (given : N → Option V) (rules : List (Rule N V)) (rank : N → Nat)
    (table : N → Option V) (picks : List (Rule N V)) : Prop where
  rules : ∀ rule ∈ picks, rule ∈ rules
  gives : ∀ rule ∈ picks, rule.value table = table rule.name ∧ (table rule.name).isSome
  ordered : (picks.map Rule.name).Pairwise fun a b => rank a ≤ rank b
  complete : ∀ name, (table name).isSome → given name = none → name ∈ picks.map Rule.name

omit [DecidableEq V] in
open Classical in
/-- A drawn table has such rules, one for each name. -/
theorem Drawn.exists_picked (drawn : Drawn given rules table) (rank : N → Nat) :
    ∃ picks, picks.Nodup ∧ Picked given rules rank table picks := by
  have choice : ∀ name : { name // (table name).isSome ∧ given name = none },
      ∃ rule ∈ rules, rule.name = name ∧ rule.value table = table name := by
    rintro ⟨name, some, none⟩
    obtain ⟨value, has⟩ := Option.isSome_iff_exists.1 some
    rcases drawn.gives name value has with first | ⟨rule, there, named, gives⟩
    · rw [none] at first
      cases first
    · exact ⟨rule, there, named, by rw [gives, has]⟩
  choose pick isRule named gives using choice
  have mem : ∀ name, name ∈ ((rules.map Rule.name).dedup.filter fun name =>
      (table name).isSome ∧ given name = none).insertionSort (fun a b => rank a ≤ rank b) ↔
        (table name).isSome ∧ given name = none := by
    intro name
    rw [List.mem_insertionSort, List.mem_filter, List.mem_dedup, decide_eq_true_iff]
    refine ⟨And.right, fun held => ⟨List.mem_map.2 ?_, held⟩⟩
    exact ⟨pick ⟨name, held⟩, isRule _, named _⟩
  have ordered := List.pairwise_insertionSort (fun a b => rank a ≤ rank b)
    ((rules.map Rule.name).dedup.filter fun name => (table name).isSome ∧ given name = none)
  have distinct := ((List.perm_insertionSort (fun a b => rank a ≤ rank b) _).nodup_iff).2
    ((List.nodup_dedup (rules.map Rule.name)).filter fun name =>
      (table name).isSome ∧ given name = none)
  generalize ((rules.map Rule.name).dedup.filter fun name =>
    (table name).isSome ∧ given name = none).insertionSort (fun a b => rank a ≤ rank b) = names at *
  have mapped : ((names.attachWith _ fun name => (mem name).1).map pick).map Rule.name = names := by
    rw [List.map_map, show Rule.name ∘ pick = Subtype.val from funext named,
      List.attachWith_map_subtype_val]
  refine ⟨_, List.Nodup.of_map Rule.name (by rw [mapped]; exact distinct), ?_, ?_, ?_, ?_⟩
  · intro rule there
    obtain ⟨name, -, rfl⟩ := List.mem_map.1 there
    exact isRule name
  · intro rule there
    obtain ⟨name, -, rfl⟩ := List.mem_map.1 there
    exact ⟨by rw [gives, named], by rw [named]; exact name.2.1⟩
  · rw [mapped]
    exact ordered
  · intro name some none
    rw [mapped]
    exact (mem name).2 ⟨some, none⟩

section
variable {rank : N → Nat} {picks : List (Rule N V)}

omit [DecidableEq V] in
/-- Each of them finds what it reads once those before it have been evaluated. -/
theorem Picked.finds (picked : Picked given rules rank table picks) (drawn : Drawn given rules table)
    (lower : ∀ rule ∈ rules, ∀ name ∈ rule.reads, rank name < rank rule.name)
    {front back : List (Rule N V)} {rule : Rule N V} (split : picks = front ++ rule :: back) :
    ∃ value, table rule.name = some value ∧
      rule.value (filled given table front).values = some value := by
  have here : rule ∈ picks := by
    rw [split]
    exact List.mem_append_right _ List.mem_cons_self
  obtain ⟨same, some⟩ := picked.gives rule here
  obtain ⟨value, has⟩ := Option.isSome_iff_exists.1 some
  refine ⟨value, has, ?_⟩
  rw [← has, ← same]
  refine rule.value_congr _ _ fun name read => ?_
  obtain ⟨held, holds⟩ := Option.isSome_iff_exists.1
    (((rule.isSome_value table).1 (by rw [same, has]; rfl)).2 name read)
  simp only [filled]
  split
  · rfl
  · rename_i missing
    cases start : given name with
    | some other => exact (drawn.preset name other start).symm
    | none =>
      -- a name that is read has a lower rank, so its rule stands before
      refine absurd ?_ missing
      have less := lower rule (picked.rules rule here) name read
      have member := picked.complete name (by rw [holds]; rfl) start
      have ordered := picked.ordered
      rw [split, List.map_append, List.map_cons] at member ordered
      refine (List.mem_append.1 member).resolve_right fun later => ?_
      rcases List.mem_cons.1 later with rfl | after
      · exact lt_irrefl _ less
      · have := (List.pairwise_cons.1 (List.pairwise_append.1 ordered).2.1).1 name after
        omega

theorem Picked.pass_front (picked : Picked given rules rank table picks)
    (drawn : Drawn given rules table)
    (lower : ∀ rule ∈ rules, ∀ name ∈ rule.reads, rank name < rank rule.name)
    {front back : List (Rule N V)} (split : picks = front ++ back) :
    pass (start given) front = (filled given table front, []) := by
  rw [start_eq_filled given table, pass_filled, List.nil_append]
  · exact fun rule _ other held => drawn.preset _ other held
  · intro before rule after cut
    rw [List.nil_append]
    exact picked.finds drawn lower (split.trans (by rw [cut, List.append_assoc]; rfl))

omit [DecidableEq V] in
/-- Together they fill the table. -/
theorem Picked.filled_eq (picked : Picked given rules rank table picks)
    (drawn : Drawn given rules table) : filled given table picks = ⟨table, fun _ => false⟩ := by
  refine State.ext (funext fun name => ?_) rfl
  simp only [filled]
  split
  · rfl
  · rename_i missing
    cases start : given name with
    | some other => exact (drawn.preset name other start).symm
    | none =>
      refine (Option.not_isSome_iff_eq_none.1 fun some => ?_).symm
      exact missing (picked.complete name some start)

end

/-- Some rules, each evaluated when its turn comes, leave just the values of a drawn table. -/
theorem Drawn.exists_picks (drawn : Drawn given rules table) (acyclic : Acyclic rules) :
    ∃ picks rest, (picks ++ rest).Perm rules ∧
      pass (start given) picks = (⟨table, fun _ => false⟩, []) ∧
      ∀ front rule back, picks = front ++ rule :: back →
        (∀ name value, (pass (start given) front).1.values name = some value →
          table name = some value) ∧
        (rule.value (pass (start given) front).1.values).isSome := by
  obtain ⟨rank, lower⟩ := acyclic
  obtain ⟨picks, distinct, picked⟩ := drawn.exists_picked rank
  obtain ⟨rest, perm⟩ : ∃ rest, rules.Perm (picks ++ rest) := by
    obtain ⟨list, perm, sub⟩ := distinct.subperm picked.rules
    obtain ⟨rest, split⟩ := sub.exists_perm_append
    exact ⟨rest, split.trans (perm.append_right rest)⟩
  refine ⟨picks, rest, perm.symm, ?_, fun front rule back split => ?_⟩
  · rw [picked.pass_front drawn lower (List.append_nil picks).symm, picked.filled_eq drawn]
  · obtain ⟨value, -, evaluated⟩ := picked.finds drawn lower split
    rw [picked.pass_front drawn lower split]
    refine ⟨fun name held holds => ?_, by rw [evaluated]; rfl⟩
    simp only [filled] at holds
    split at holds
    · exact holds
    · exact drawn.preset name held holds

end

end Settling

import ClickDoom.Csource.Expr

/-! # The constants the table initializers name

`native/src/csource/symbols.rs`: enumerator lists and object-like `#define`s, collected first and
evaluated in passes.  A definition is a rule of `Settling`, its tree read once.  A rule's value
wraps where a sum or a minus does not fit in 64 bits, and there the definition itself panics.
-/
namespace ClickDoom.Csource
open Native (isWhitespace trim)

/-- A definition waiting on the names it mentions. -/
inductive Pending
  | define (file body : List Char)
  | value (file : List Char) (toks : List Tok)
  | after (before : List Char)
  | zero
  deriving DecidableEq, Repr

abbrev Definition := List Char × Pending

def null : List Char := ['N', 'U', 'L', 'L']

/-- The values before any header is read: only `NULL`. -/
def given (name : List Char) : Option Int64 := if name = null then some 0 else none

/-- `Symbols::new`. -/
def new : Table := ⟨given, fun _ => false⟩

/-! ## Collecting -/

/-- `absorb_define`. -/
def absorbDefine (file body : List Char) : List Definition :=
  if ['d', 'e', 'f', 'i', 'n', 'e', ' '].isPrefixOf body then
    let rest := (body.drop 7).dropWhile isWhitespace
    let name := rest.takeWhile identChar
    let tail := rest.drop name.length
    if name = [] ∨ tail.head? = some '(' ∨ trim tail = [] then []
    else [(name, .define file (trim tail))]
  else []

/-- `skip_to_separator`: what stands before the next `,` or `}` outside brackets, and the rest. -/
def skipToSeparator : Int → List Tok → List Tok × List Tok
  | _, [] => ([], [])
  | depth, tok :: rest =>
    let next (depth : Int) :=
      let (taken, left) := skipToSeparator depth rest
      (tok :: taken, left)
    match tok.token with
    | .punct ['('] => next (depth + 1)
    | .punct ['['] => next (depth + 1)
    | .punct ['{'] => next (depth + 1)
    | .punct [')'] => next (depth - 1)
    | .punct [']'] => next (depth - 1)
    | .punct ['}'] => if depth = 0 then ([], tok :: rest) else next (depth - 1)
    | .punct [','] => if depth = 0 then ([], tok :: rest) else next depth
    | _ => next depth

/-- The enumerators of a list, after its brace. -/
def enumerators (file : List Char) :
    Nat → Option (List Char) → List Tok → List Definition × List Tok
  | 0, _, toks => ([], toks)
  | fuel + 1, previous, toks =>
    match toks with
    | [] => ([], [])
    | ⟨.ident name, _⟩ :: rest =>
      let (definition, rest) : Pending × List Tok :=
        match rest with
        | ⟨.punct ['='], _⟩ :: rest =>
          let (value, rest) := skipToSeparator 0 rest
          (.value file value, rest)
        | _ => (match previous with | some before => .after before | none => .zero, rest)
      let rest :=
        match rest with
        | ⟨.punct [','], _⟩ :: rest => rest
        | _ => rest
      let (later, rest) := enumerators file fuel (some name) rest
      ((name, definition) :: later, rest)
    | _ :: rest => ([], rest)

/-- `absorb_enum`, on the tokens after `enum`. -/
def absorbEnum (file : List Char) (toks : List Tok) : List Definition × List Tok :=
  let toks :=
    match toks with
    | ⟨.ident _, _⟩ :: rest => rest
    | _ => toks
  match toks with
  | ⟨.punct ['{'], _⟩ :: rest => enumerators file rest.length none rest
  | _ => ([], toks)

/-- `absorb`. -/
def absorb (file : List Char) : Nat → List Tok → List Definition
  | 0, _ => []
  | fuel + 1, toks =>
    match toks with
    | [] => []
    | ⟨.directive body, _⟩ :: rest => absorbDefine file body ++ absorb file fuel rest
    | ⟨.ident ['e', 'n', 'u', 'm'], _⟩ :: rest =>
      let (definitions, rest) := absorbEnum file rest
      definitions ++ absorb file fuel rest
    | _ :: rest => absorb file fuel rest

/-! ## Resolving -/

/-- `evaluate`.  The sum of a debug build panics past the largest integer. -/
def evaluate (table : Table) : Pending → Panics CError (Option Int64)
  | .zero => .ok (some 0)
  | .after before =>
    match table.values before with
    | none => .ok none
    | some value => if value = Int64.maxValue then .error .panic else .ok (some (value + 1))
  | .value file toks => Panics.attempt (eval file toks table)
  | .define file body => do
    let toks ← lex file body
    Panics.attempt (eval file toks table)

/-- `define`. -/
def define (table : Table) (name : List Char) (value : Int64) : Table :=
  if table.ambiguous name then table
  else
    match table.values name with
    | some first =>
      if first ≠ value then
        ⟨Function.update table.values name none, Function.update table.ambiguous name true⟩
      else ⟨Function.update table.values name (some value), table.ambiguous⟩
    | none => ⟨Function.update table.values name (some value), table.ambiguous⟩

/-- One pass: the table, what is deferred and how many definitions were resolved. -/
def resolvePass : Table → List Definition → Panics CError (Table × List Definition × Nat)
  | table, [] => .ok (table, [], 0)
  | table, (name, definition) :: rest => do
    let value ← evaluate table definition
    match value with
    | some value =>
      let (table, deferred, resolved) ← resolvePass (define table name value) rest
      return (table, deferred, resolved + 1)
    | none =>
      let (table, deferred, resolved) ← resolvePass table rest
      return (table, (name, definition) :: deferred, resolved)

/-- The passes of `resolve`. -/
def resolveFrom : Nat → Table → List Definition → Panics CError Table
  | 0, table, _ => .ok table
  | fuel + 1, table, pending =>
    if pending = [] then .ok table
    else do
      let (table, deferred, resolved) ← resolvePass table pending
      if resolved = 0 then return table
      else resolveFrom fuel table deferred

/-- `resolve`, of the definitions collected. -/
def resolve (pending : List Definition) : Panics CError Table :=
  resolveFrom pending.length new pending

/-! ## Definitions as rules -/

/-- The body of the definition is text the lexer reads. -/
def Pending.Lexes : Pending → Prop
  | .define file body => ∃ toks, lex file body = .ok toks
  | _ => True

/-- What a definition is read as, where it is an expression. -/
def Pending.tree? : Pending → Option Tree
  | .zero => some (.int 0)
  | .after before => some (.binary .add (.symbol before) (.int 1))
  | .value file toks => treeOf file toks
  | .define file body => (lex file body).toOption.bind (treeOf file)

/-- A definition as a rule: live where it is an expression, reading the names in it. -/
def ruleOf (definition : Definition) : Settling.Rule (List Char) Int64 where
  name := definition.1
  live := definition.2.tree?.isSome
  reads := (definition.2.tree?.map Tree.names).getD []
  value values := definition.2.tree?.bind fun tree => tree.wrapped values
  isSome_value values := by
    cases definition.2.tree? with
    | none => simp
    | some tree => simpa using tree.isSome_wrapped
  value_congr values values' same := by
    cases read : definition.2.tree? with
    | none => rfl
    | some tree =>
      rw [read] at same
      exact Tree.wrapped_congr same

/-- A sum or a minus of the definition does not fit in 64 bits, by the values of its names. -/
def Pending.Overflows (values : List Char → Option Int64) : Pending → Prop
  | .zero => False
  | .after before => values before = some Int64.maxValue
  | .value file toks => eval file toks ⟨values, fun _ => false⟩ = .error .panic
  | .define file body =>
    ∃ toks, lex file body = .ok toks ∧ eval file toks ⟨values, fun _ => false⟩ = .error .panic

section
variable {table table' : Table}
  (le : ∀ name value, table.values name = some value → table'.values name = some value)
include le

/-- More names with a value leave a panic a panic, and a value that value. -/
theorem eval_panic_of_le {file : List Char} {toks : List Tok}
    (panics : eval file toks table = .error .panic) : eval file toks table' = .error .panic := by
  rcases eval_of_le file toks le with same | ⟨e, fails⟩
  · rw [same, panics]
  · rw [panics] at fails
    cases fails

theorem attempt_of_le {file : List Char} {toks : List Tok} {value : Int64}
    (found : (Panics.attempt (eval file toks table) : Panics CError _) = .ok (some value)) :
    (Panics.attempt (eval file toks table') : Panics CError _) = .ok (some value) := by
  rcases eval_of_le file toks le with same | ⟨e, fails⟩
  · rw [same, found]
  · rw [fails] at found
    cases found

theorem Pending.Overflows.of_le {pending : Pending} (overflows : pending.Overflows table.values) :
    pending.Overflows table'.values := by
  have same : ∀ name value, (⟨table.values, fun _ => false⟩ : Table).values name = some value →
      (⟨table'.values, fun _ => false⟩ : Table).values name = some value := le
  cases pending with
  | zero => exact overflows
  | after before => exact le _ _ overflows
  | value file toks => exact eval_panic_of_le same overflows
  | define file body =>
    obtain ⟨toks, read, panics⟩ := overflows
    exact ⟨toks, read, eval_panic_of_le same panics⟩

theorem evaluate_of_le {pending : Pending} {value : Int64}
    (found : evaluate table pending = .ok (some value)) :
    evaluate table' pending = .ok (some value) := by
  cases pending with
  | zero => exact found
  | after before =>
    rw [evaluate] at found ⊢
    cases known : table.values before with
    | none =>
      rw [known] at found
      cases found
    | some held =>
      rw [known] at found
      rw [le before held known]
      exact found
  | value file toks => exact attempt_of_le le found
  | define file body =>
    rw [evaluate] at found ⊢
    obtain ⟨toks, read, found⟩ := Panics.bind_ok found
    rw [read]
    exact attempt_of_le le found

end

theorem evaluate_overflow {table : Table} {pending : Pending}
    (overflows : pending.Overflows table.values) : evaluate table pending = .error .panic := by
  -- which names are ambiguous is only in the error
  have here : ∀ {file : List Char} {toks : List Tok},
      eval file toks ⟨table.values, fun _ => false⟩ = .error .panic →
        (Panics.attempt (eval file toks table) : Panics CError (Option Int64)) = .error .panic := by
    intro file toks panics
    have same : ∀ name value, (⟨table.values, fun _ => false⟩ : Table).values name = some value →
        table.values name = some value := fun _ _ => id
    exact Panics.attempt_panic.2 (eval_panic_of_le same panics)
  cases pending with
  | zero => exact overflows.elim
  | after before =>
    have known : table.values before = some Int64.maxValue := overflows
    rw [evaluate, known]
    exact if_pos rfl
  | value file toks => exact here overflows
  | define file body =>
    obtain ⟨toks, read, panics⟩ := overflows
    rw [evaluate, read, Panics.ok_bind]
    exact here panics

/-- A definition whose body lexes and that does not overflow has the value of its rule. -/
theorem evaluate_eq (table : Table) (name : List Char) {pending : Pending}
    (lexes : pending.Lexes) (fits : ¬pending.Overflows table.values) :
    evaluate table pending = .ok ((ruleOf (name, pending)).value table.values) := by
  have here : ∀ {file : List Char} {toks : List Tok},
      eval file toks ⟨table.values, fun _ => false⟩ ≠ .error .panic →
        (Panics.attempt (eval file toks table) : Panics CError (Option Int64)) =
          .ok ((treeOf file toks).bind fun tree => tree.wrapped table.values) := by
    intro file toks quiet
    have same : ∀ name value, table.values name = some value →
        (⟨table.values, fun _ => false⟩ : Table).values name = some value := fun _ _ => id
    have safe : eval file toks table ≠ .error .panic := fun panics =>
      quiet (eval_panic_of_le same panics)
    rw [Panics.attempt_eq safe, (eval_or_panic file toks table).resolve_right safe]
  cases pending with
  | zero => rfl
  | after before =>
    rw [evaluate, ruleOf]
    cases known : table.values before with
    | none => simp [Pending.tree?, Tree.wrapped, Tree.valueBy, known]
    | some value =>
      have small : value ≠ Int64.maxValue := by
        rintro rfl
        exact fits known
      simp [Pending.tree?, Tree.wrapped, Tree.valueBy, known, small, apply]
  | value file toks => exact here fits
  | define file body =>
    obtain ⟨toks, read⟩ := lexes
    have same : (Pending.define file body).tree? = treeOf file toks := by
      rw [Pending.tree?.eq_def]
      dsimp only
      rw [read]
      rfl
    rw [evaluate, read, Panics.ok_bind, here fun panics => fits ⟨toks, read, panics⟩]
    change _ = Except.ok ((Pending.define file body).tree?.bind fun tree =>
      tree.wrapped table.values)
    rw [same]

/-- An evaluation that returns is that of a body that lexes and does not overflow. -/
theorem evaluate_ok {table : Table} {pending : Pending} {value : Option Int64}
    (ends : evaluate table pending = .ok value) :
    pending.Lexes ∧ ¬pending.Overflows table.values := by
  refine ⟨?_, fun overflows => ?_⟩
  · cases pending with
    | define file body =>
      rw [evaluate] at ends
      obtain ⟨toks, read, -⟩ := Panics.bind_ok ends
      exact ⟨toks, read⟩
    | _ => exact trivial
  · rw [evaluate_overflow overflows] at ends
    cases ends

theorem define_eq (table : Table) (name : List Char) (value : Int64) :
    define table name value = table.define name value := by
  rw [define, Settling.State.define]
  split
  · rfl
  · cases table.values name with
    | none => rfl
    | some first => simp

/-- The state of a pass when it comes to a definition. -/
def stateAt (table : Table) (front : List Definition) : Table :=
  (Settling.pass table (front.map ruleOf)).1

/-- A pass that returns is a pass over the rules, and every definition was evaluated. -/
theorem resolvePass_ok {pending deferred : List Definition} {table after : Table} {resolved : Nat}
    (ends : resolvePass table pending = .ok (after, deferred, resolved)) :
    after = (Settling.pass table (pending.map ruleOf)).1 ∧
      deferred.map ruleOf = (Settling.pass table (pending.map ruleOf)).2 ∧
      deferred.length + resolved = pending.length ∧ deferred ⊆ pending ∧
      ∀ front definition back, pending = front ++ definition :: back →
        evaluate (stateAt table front) definition.2 =
          .ok ((ruleOf definition).value (stateAt table front).values) := by
  induction pending generalizing table after deferred resolved with
  | nil =>
    cases ends
    refine ⟨rfl, rfl, rfl, List.Subset.refl _, fun front definition back split => ?_⟩
    exact absurd split.symm (by simp)
  | cons first rest ih =>
    obtain ⟨name, pending⟩ := first
    rw [resolvePass] at ends
    obtain ⟨value, evaluated, ends⟩ := Panics.bind_ok ends
    obtain ⟨lexes, fits⟩ := evaluate_ok evaluated
    have here := evaluate_eq table name lexes fits
    obtain rfl : value = (ruleOf (name, pending)).value table.values :=
      Except.ok.inj (evaluated.symm.trans here)
    rw [List.map_cons, Settling.pass]
    cases found : (ruleOf (name, pending)).value table.values with
    | some value =>
      rw [found] at ends
      obtain ⟨⟨after, deferred, resolved⟩, first, last⟩ := Panics.bind_ok ends
      cases last
      rw [define_eq] at first
      obtain ⟨same, left, count, sub, each⟩ := ih first
      refine ⟨same, left, by rw [List.length_cons, ← count]; rfl,
        fun _ h => List.mem_cons_of_mem _ (sub h), fun front definition back split => ?_⟩
      rcases List.cons_eq_append_iff.1 split with ⟨rfl, same⟩ | ⟨front', rfl, split'⟩
      · obtain ⟨rfl, -⟩ := List.cons.inj same
        exact here
      · have state : stateAt table ((name, pending) :: front') =
            stateAt (table.define name value) front' := by
          rw [stateAt, List.map_cons, Settling.pass, found]
          rfl
        rw [state]
        exact each front' definition back split'
    | none =>
      rw [found] at ends
      obtain ⟨⟨after, deferred, resolved⟩, first, last⟩ := Panics.bind_ok ends
      cases last
      obtain ⟨same, left, count, sub, each⟩ := ih first
      refine ⟨same, by rw [List.map_cons, left], ?_, List.cons_subset_cons _ sub,
        fun front definition back split => ?_⟩
      · rw [List.length_cons, List.length_cons, ← count]
        omega
      · rcases List.cons_eq_append_iff.1 split with ⟨rfl, same⟩ | ⟨front', rfl, split'⟩
        · obtain ⟨rfl, -⟩ := List.cons.inj same
          exact here
        · have state : stateAt table ((name, pending) :: front') = stateAt table front' := by
            rw [stateAt, List.map_cons, Settling.pass, found]
            rfl
          rw [state]
          exact each front' definition back split'

theorem resolveFrom_ok {fuel : Nat} {pending : List Definition} {table after : Table}
    (ends : resolveFrom fuel table pending = .ok after) :
    after = Settling.settle fuel table (pending.map ruleOf) := by
  induction fuel generalizing table pending with
  | zero => exact (Except.ok.inj ends).symm
  | succ fuel ih =>
    rw [resolveFrom] at ends
    rw [Settling.settle]
    by_cases empty : pending = []
    · subst empty
      exact (Except.ok.inj ends).symm
    · rw [if_neg empty] at ends
      obtain ⟨⟨after', deferred, resolved⟩, passed, ends⟩ := Panics.bind_ok ends
      obtain ⟨rfl, same, count, -, -⟩ := resolvePass_ok passed
      have length := congrArg List.length same
      rw [List.length_map] at length
      rw [← length, List.length_map]
      dsimp only at ends
      by_cases quiet : resolved = 0
      · rw [if_pos quiet] at ends
        rw [if_pos (by omega)]
        exact (Except.ok.inj ends).symm
      · rw [if_neg quiet] at ends
        rw [if_neg (by omega), ← same]
        exact ih ends

/-- `resolve`, where it returns, settles the rules of the definitions. -/
theorem resolve_ok {pending : List Definition} {table : Table} (ends : resolve pending = .ok table) :
    table = Settling.settle (pending.map ruleOf).length (Settling.start given)
      (pending.map ruleOf) := by
  rw [List.length_map]
  exact resolveFrom_ok ends

/-- And there its first pass has evaluated every definition. -/
theorem resolve_evaluates {pending front back : List Definition} {definition : Definition}
    {table : Table} (ends : resolve pending = .ok table)
    (split : pending = front ++ definition :: back) :
    evaluate (stateAt (Settling.start given) front) definition.2 =
      .ok ((ruleOf definition).value (stateAt (Settling.start given) front).values) := by
  have some : pending ≠ [] := by
    rw [split]
    simp
  obtain ⟨fuel, length⟩ : ∃ fuel, pending.length = fuel + 1 :=
    Nat.exists_eq_succ_of_ne_zero fun none => some (List.length_eq_zero_iff.1 none)
  rw [resolve, length, resolveFrom, if_neg some] at ends
  obtain ⟨⟨after, deferred, resolved⟩, passed, -⟩ := Panics.bind_ok ends
  exact (resolvePass_ok passed).2.2.2.2 front definition back split

section
variable {definitions : List Definition} {Inv : Table → Prop}
  (inv : Settling.Invariant (definitions.map ruleOf) Inv fun _ _ => True)
  (lexes : ∀ definition ∈ definitions, definition.2.Lexes)
  (fits : ∀ table, Inv table → ∀ definition ∈ definitions, ¬definition.2.Overflows table.values)
include inv lexes fits

/-- A pass returns where no definition overflows on the tables it goes through. -/
theorem resolvePass_returns {pending : List Definition} (sub : pending ⊆ definitions) {table : Table}
    (holds : Inv table) : ∃ result, resolvePass table pending = .ok result := by
  induction pending generalizing table with
  | nil => exact ⟨_, rfl⟩
  | cons first rest ih =>
    obtain ⟨name, pending⟩ := first
    have there : (name, pending) ∈ definitions := sub List.mem_cons_self
    have later : rest ⊆ definitions := fun _ h => sub (List.mem_cons_of_mem _ h)
    rw [resolvePass, evaluate_eq table name (lexes _ there) (fits _ holds _ there), Panics.ok_bind]
    cases found : (ruleOf (name, pending)).value table.values with
    | some value =>
      have kept := inv.keeps table (ruleOf (name, pending)) value holds
        (List.mem_map_of_mem there) found
      obtain ⟨result, ends⟩ := ih later kept
      dsimp only
      rw [define_eq]
      change ∃ result, (resolvePass (table.define name value) rest >>= _) = _
      rw [show resolvePass (table.define name value) rest = .ok result from ends]
      exact ⟨_, rfl⟩
    | none =>
      obtain ⟨result, ends⟩ := ih later holds
      dsimp only
      rw [ends]
      exact ⟨_, rfl⟩

theorem resolveFrom_returns {fuel : Nat} {pending : List Definition} (sub : pending ⊆ definitions)
    {table : Table} (holds : Inv table) :
    ∃ after, resolveFrom fuel table pending = .ok after := by
  induction fuel generalizing table pending with
  | zero => exact ⟨_, rfl⟩
  | succ fuel ih =>
    rw [resolveFrom]
    split
    · exact ⟨_, rfl⟩
    · obtain ⟨⟨after, deferred, resolved⟩, passed⟩ := resolvePass_returns inv lexes fits sub holds
      obtain ⟨rfl, -, -, left, -⟩ := resolvePass_ok passed
      have kept := (inv.pass (List.map_subset ruleOf sub) holds).1
      rw [passed, Panics.ok_bind]
      dsimp only
      split
      · exact ⟨_, rfl⟩
      · exact ih (fun _ h => sub (left h)) kept

end

/-! ## Any order of the definitions -/

/-- An order of the images comes from an order of the list. -/
theorem exists_perm_of_map {α β : Type} {f : α → β} {list : List α} {image : List β}
    (perm : (list.map f).Perm image) : ∃ order : List α, order.Perm list ∧ order.map f = image := by
  induction list generalizing image with
  | nil => exact ⟨[], List.Perm.refl _, (List.nil_perm.1 perm).symm⟩
  | cons a list ih =>
    obtain ⟨front, back, rfl⟩ := List.append_of_mem (perm.subset List.mem_cons_self)
    obtain ⟨order, same, mapped⟩ := ih ((perm.trans List.perm_middle).cons_inv)
    obtain ⟨first, second, rfl, rfl, rfl⟩ := List.map_eq_append_iff.1 mapped
    refine ⟨first ++ a :: second, List.perm_middle.trans (same.cons a), ?_⟩
    rw [List.map_append, List.map_cons]

/-- No name is defined through itself. -/
def Acyclic (definitions : List Definition) : Prop :=
  Settling.Acyclic (definitions.map ruleOf)

/-- Where every order of the definitions returns, none overflows on a drawn table: the order that comes
to that table and then to the definition would panic. -/
theorem fits_of_returns {definitions : List Definition} (acyclic : Acyclic definitions)
    (returns : ∀ order, order.Perm definitions → ∃ table, resolve order = .ok table)
    {values : List Char → Option Int64}
    (drawn : Settling.Drawn given (definitions.map ruleOf) values) {definition : Definition}
    (there : definition ∈ definitions) : ¬definition.2.Overflows values := by
  intro overflows
  obtain ⟨picks, rest, perm, filled, each⟩ := drawn.exists_picks acyclic
  obtain ⟨order, same, mapped⟩ := exists_perm_of_map perm.symm
  obtain ⟨front, back, rfl, rfl, -⟩ := List.map_eq_append_iff.1 mapped
  have state : stateAt (Settling.start given) front = ⟨values, fun _ => false⟩ := by
    rw [stateAt, filled]
  rcases List.mem_append.1 (same.mem_iff.2 there) with early | late
  · -- evaluated on the way to the table, and with the same value on it
    obtain ⟨before, after, rfl⟩ := List.append_of_mem early
    obtain ⟨below, some⟩ := each (before.map ruleOf) (ruleOf definition) (after.map ruleOf)
      (by rw [List.map_append, List.map_cons])
    obtain ⟨value, found⟩ := Option.isSome_iff_exists.1 some
    obtain ⟨table, ends⟩ := returns _ same
    have split : before ++ definition :: after ++ back =
        before ++ definition :: (after ++ back) := by
      rw [List.append_assoc]
      rfl
    have evaluated := resolve_evaluates ends split
    rw [show (ruleOf definition).value (stateAt (Settling.start given) before).values =
      Option.some value from found] at evaluated
    have there' : evaluate ⟨values, fun _ => false⟩ definition.2 = .ok (Option.some value) :=
      evaluate_of_le below evaluated
    exact (evaluate_ok there').2 overflows
  · obtain ⟨before, after, rfl⟩ := List.append_of_mem late
    obtain ⟨table, ends⟩ := returns (front ++ definition :: (before ++ after))
      ((List.perm_middle.symm.append_left front).trans same)
    have evaluated := resolve_evaluates ends rfl
    rw [state] at evaluated
    exact (evaluate_ok evaluated).2 overflows

/-- Every order of the definitions gives the same table, where a name has a value exactly if all its
definitions evaluate to it there and is ambiguous exactly if two of them differ; this is so exactly
where the definitions are steady and none of them overflows on a table some order goes through. -/
theorem resolve_iff (definitions : List Definition) (acyclic : Acyclic definitions) :
    (∀ order, order.Perm definitions → ∃ table, resolve order = .ok table ∧
      Settling.Consistent given (definitions.map ruleOf) table ∧
      resolve order = resolve definitions) ↔
      (∀ definition ∈ definitions, definition.2.Lexes) ∧
        (∃ table, Settling.Steady given (definitions.map ruleOf) table) ∧
        ∀ values, Settling.Drawn given (definitions.map ruleOf) values →
          ∀ definition ∈ definitions, ¬definition.2.Overflows values := by
  constructor
  · intro all
    have returns : ∀ order, order.Perm definitions → ∃ table, resolve order = .ok table :=
      fun order perm => (all order perm).imp fun _ ends => ends.1
    obtain ⟨first, ends⟩ := returns definitions (List.Perm.refl _)
    refine ⟨fun definition there => ?_, (Settling.settles_iff given _ acyclic).1 ?_,
      fun values drawn definition there => fits_of_returns acyclic returns drawn there⟩
    · obtain ⟨front, back, split⟩ := List.append_of_mem there
      exact (evaluate_ok (resolve_evaluates ends split)).1
    · intro image perm
      obtain ⟨order, same, rfl⟩ := exists_perm_of_map perm.symm
      obtain ⟨table, ends', consistent, equal⟩ := all order same
      rw [ends, ends'] at equal
      obtain rfl := Except.ok.inj equal
      rw [← resolve_ok ends', ← resolve_ok ends]
      exact ⟨consistent, rfl⟩
  · rintro ⟨lexes, steady, fits⟩
    have quiet : ∀ table : Table, Settling.Traced given (definitions.map ruleOf) table →
        ∀ definition ∈ definitions, ¬definition.2.Overflows table.values := by
      rintro table ⟨values, drawn, below, -⟩ definition there overflows
      refine fits values drawn definition there ?_
      have drawnTable : definition.2.Overflows (⟨values, fun _ => false⟩ : Table).values :=
        overflows.of_le below
      exact drawnTable
    have returns : ∀ order, order.Perm definitions → ∃ table, resolve order = .ok table := by
      intro order perm
      exact resolveFrom_returns (Settling.traced_invariant given _) lexes quiet perm.subset
        (Settling.traced_start given _)
    intro order perm
    obtain ⟨table, ends⟩ := returns order perm
    obtain ⟨first, ends'⟩ := returns definitions (List.Perm.refl _)
    have settles :=
      (Settling.settles_iff given _ acyclic).2 steady (order.map ruleOf) (perm.map ruleOf)
    rw [← resolve_ok ends, ← resolve_ok ends'] at settles
    refine ⟨table, ends, settles.1, ?_⟩
    rw [ends, ends', settles.2]

/-! ## A name that becomes ambiguous late -/

/-- `#define A 1`, `#define B A` and `#define A 2`. -/
def lateSecond : List Definition :=
  [(['A'], .define [] ['1']), (['B'], .define [] ['A']), (['A'], .define [] ['2'])]

/-- The same three with both definitions of `A` first. -/
def earlySecond : List Definition :=
  [(['A'], .define [] ['1']), (['A'], .define [] ['2']), (['B'], .define [] ['A'])]

theorem acyclic_lateSecond : Acyclic lateSecond := by
  refine ⟨fun name => if name = ['B'] then 1 else 0, ?_⟩
  decide +kernel

/-- `B` keeps the value of an ambiguous name, and loses it in another order. -/
theorem lateSecond_guesses : earlySecond.Perm lateSecond ∧
    (resolve lateSecond).toOption.map (fun table => (table.values ['B'], table.ambiguous ['A'])) =
      some (some 1, true) ∧
    (resolve earlySecond).toOption.map (fun table => (table.values ['B'], table.ambiguous ['A'])) =
      some (none, true) := by
  refine ⟨(List.Perm.swap _ _ []).cons _, ?_, ?_⟩ <;> decide +kernel

/-- `enum { X = 0x7fffffffffffffff, Y }`: one more than `X` does not fit. -/
example : resolve [(['X'], .value [] [⟨.int Int64.maxValue, 1⟩]), (['Y'], .after ['X'])] =
    .error .panic := by
  rfl

theorem lateSecond_iff : (∀ order, order.Perm lateSecond → ∃ table, resolve order = .ok table ∧
      Settling.Consistent given (lateSecond.map ruleOf) table ∧
      resolve order = resolve lateSecond) ↔
    (∀ definition ∈ lateSecond, definition.2.Lexes) ∧
      (∃ table, Settling.Steady given (lateSecond.map ruleOf) table) ∧
      ∀ values, Settling.Drawn given (lateSecond.map ruleOf) values →
        ∀ definition ∈ lateSecond, ¬definition.2.Overflows values :=
  resolve_iff lateSecond acyclic_lateSecond

end ClickDoom.Csource

import ClickDoom.Base.Settling
import ClickDoom.Csource.Lex

/-! # Integer constant expressions

`native/src/csource/expr.rs`: a precedence climber over tokens.  The reader is written over what it
makes of literals, names and operators, so that one definition gives the values `eval` computes and
the trees they are the values of; `eval_eq` puts the two together.

The reader calls itself on what is left of the tokens.  Its depth is bounded by a count that `eval`
chooses, and `parse_enough` shows that the count is never used up.
-/
namespace ClickDoom.Csource

/-! ## Operators -/

inductive UnaryOp
  | neg | plus | not | lnot
  deriving DecidableEq, Repr

inductive BinaryOp
  | or | xor | and | shl | shr | add | sub | mul | div | rem
  deriving DecidableEq, Repr

def BinaryOp.text : BinaryOp → List Char
  | .or => ['|']
  | .xor => ['^']
  | .and => ['&']
  | .shl => ['<', '<']
  | .shr => ['>', '>']
  | .add => ['+']
  | .sub => ['-']
  | .mul => ['*']
  | .div => ['/']
  | .rem => ['%']

def UnaryOp.text : UnaryOp → List Char
  | .neg => ['-']
  | .plus => ['+']
  | .not => ['~']
  | .lnot => ['!']

/-- Binding power of each binary operator, lowest first. -/
def precedence : List (List BinaryOp) :=
  [[.or], [.xor], [.and], [.shl, .shr], [.add, .sub], [.mul, .div, .rem]]

/-- The punctuation at the cursor, and what is after it. -/
def punctAt : List Tok → Option (List Char × List Tok)
  | ⟨.punct text, _⟩ :: rest => some (text, rest)
  | _ => none

/-- An operator of a level at the cursor. -/
def operatorAt (level : Nat) (toks : List Tok) : Option (BinaryOp × List Tok) := do
  let (text, rest) ← punctAt toks
  let op ← (precedence.getD level []).find? fun op => op.text = text
  return (op, rest)

/-- A unary operator at the cursor. -/
def unaryAt (toks : List Tok) : Option (UnaryOp × List Tok) := do
  let (text, rest) ← punctAt toks
  let op ← [UnaryOp.neg, .plus, .not, .lnot].find? fun op => op.text = text
  return (op, rest)

/-- `apply`: wrapping arithmetic, a quotient that does not exist read as zero. -/
def apply (op : BinaryOp) (left right : Int64) : Int64 :=
  match op with
  | .or => left ||| right
  | .xor => left ^^^ right
  | .and => left &&& right
  | .shl => left <<< right
  | .shr => left >>> right
  | .add => left + right
  | .sub => left - right
  | .mul => left * right
  | .div => if right = 0 ∨ left = Int64.minValue ∧ right = -1 then 0 else left / right
  | .rem => if right = 0 ∨ left = Int64.minValue ∧ right = -1 then 0 else left % right

/-- `unary`: the minus of a debug build panics at the least integer, whose negative does not
fit. -/
def applyUnary (op : UnaryOp) (value : Int64) : Panics CError Int64 :=
  match op with
  | .neg => if value = Int64.minValue then .error .panic else .ok (-value)
  | .plus => .ok value
  | .not => .ok (~~~value)
  | .lnot => .ok (if value = 0 then 1 else 0)

/-- The value that wraps. -/
def wrapUnary (op : UnaryOp) (value : Int64) : Int64 :=
  match op with
  | .neg => -value
  | .plus => value
  | .not => ~~~value
  | .lnot => if value = 0 then 1 else 0

/-! ## The reader -/

/-- What a reader makes of the parts of an expression. -/
structure Reader (α : Type) where
  int : Int64 → α
  ident : List Char → Nat → Panics CError α
  unary : UnaryOp → α → Panics CError α
  binary : BinaryOp → α → α → α

/-- The calls of `Parser`: `binary` at a level, its loop with the value so far, `unary` and
`primary`. -/
inductive Call (α : Type)
  | binary (level : Nat)
  | more (level : Nat) (left : α)
  | unary
  | primary

section
variable {α : Type} (reader : Reader α) (file : List Char) (lastLine : Nat)

/-- The parenthesis that closes a value. -/
def closing (value : α) : List Tok → Panics CError (α × List Tok)
  | [] => Panics.fail (.expected file lastLine "a closing parenthesis" none)
  | ⟨found, line⟩ :: rest =>
    if found = .punct [')'] then .ok (value, rest)
    else Panics.fail (.expected file line "a closing parenthesis" (some found))

/-- One call of `Parser` on what is left of the tokens, and what it leaves of them. -/
def parse : Nat → Call α → List Tok → Panics CError (α × List Tok)
  | 0, _, _ => .error .panic
  | fuel + 1, .binary level, toks =>
    if level < precedence.length then do
      let (left, rest) ← parse fuel (.binary (level + 1)) toks
      parse fuel (.more level left) rest
    else parse fuel .unary toks
  | fuel + 1, .more level left, toks =>
    match operatorAt level toks with
    | none => .ok (left, toks)
    | some (op, rest) => do
      let (right, rest) ← parse fuel (.binary (level + 1)) rest
      parse fuel (.more level (reader.binary op left right)) rest
  | fuel + 1, .unary, toks =>
    match unaryAt toks with
    | none => parse fuel .primary toks
    | some (op, rest) => do
      let (value, rest) ← parse fuel .unary rest
      let value ← reader.unary op value
      return (value, rest)
  | fuel + 1, .primary, toks =>
    match toks with
    | [] => Panics.fail (.expected file lastLine "a value" none)
    | ⟨.int value, _⟩ :: rest => .ok (reader.int value, rest)
    | ⟨.ident name, line⟩ :: rest => do
      let value ← reader.ident name line
      return (value, rest)
    | ⟨.punct text, line⟩ :: rest =>
      if text = ['('] then do
        let (value, rest) ← parse fuel (.binary 0) rest
        closing file lastLine value rest
      else Panics.fail (.expected file line "a value" (some (.punct text)))
    | ⟨found, line⟩ :: _ => Panics.fail (.expected file line "a value" (some found))

end

/-- The line an expression that ends too early is reported on. -/
def lastLine (toks : List Tok) : Nat := (toks.getLast?.map Tok.line).getD 0

/-- A whole expression: every token has to be consumed. -/
def evalWith {α : Type} (reader : Reader α) (file : List Char) (toks : List Tok) :
    Panics CError α := do
  let (value, rest) ←
    parse reader file (lastLine toks) (9 * toks.length + 10) (.binary 0) toks
  match rest with
  | [] => return value
  | ⟨found, line⟩ :: _ =>
    Panics.fail (.expected file line "the end of the expression" (some found))

/-- What is known of the names: their values, and those with two. -/
abbrev Table := Settling.State (List Char) Int64

/-- A reader of values, by the names of a symbol table. -/
def readerOf (unary : UnaryOp → Int64 → Panics CError Int64) (file : List Char) (symbols : Table) :
    Reader Int64 where
  int value := value
  ident name line :=
    match symbols.values name with
    | some value => .ok value
    | none =>
      if symbols.ambiguous name then Panics.fail (.ambiguous file line name)
      else Panics.fail (.unknownSymbol file line name)
  unary := unary
  binary := apply

/-- The reader of `eval`. -/
def valueReader (file : List Char) (symbols : Table) : Reader Int64 := readerOf applyUnary file symbols

/-- `eval`. -/
def eval (file : List Char) (toks : List Tok) (symbols : Table) : Panics CError Int64 :=
  evalWith (valueReader file symbols) file toks

/-! ## Trees -/

/-- An expression as it is read. -/
inductive Tree
  | int (value : Int64)
  | symbol (name : List Char)
  | unary (op : UnaryOp) (of : Tree)
  | binary (op : BinaryOp) (left right : Tree)
  deriving DecidableEq, Repr

/-- The value of a tree, by the values of its names. -/
def Tree.valueBy (unary : UnaryOp → Int64 → Panics CError Int64) (values : List Char → Option Int64) :
    Tree → Option Int64
  | .int value => some value
  | .symbol name => values name
  | .unary op of => do
    let value ← of.valueBy unary values
    (unary op value).toOption
  | .binary op left right => do
    let left ← left.valueBy unary values
    let right ← right.valueBy unary values
    return apply op left right

/-- The value `eval` finds. -/
def Tree.eval (values : List Char → Option Int64) (tree : Tree) : Option Int64 :=
  tree.valueBy applyUnary values

/-- A minus as it would be without a panic. -/
def wrapping (op : UnaryOp) (value : Int64) : Panics CError Int64 := .ok (wrapUnary op value)

/-- The value of a tree where a minus wraps. -/
def Tree.wrapped (values : List Char → Option Int64) (tree : Tree) : Option Int64 :=
  tree.valueBy wrapping values

/-- The names in a tree. -/
def Tree.names : Tree → List (List Char)
  | .int _ => []
  | .symbol name => [name]
  | .unary _ of => of.names
  | .binary _ left right => left.names ++ right.names

def treeReader : Reader Tree where
  int := .int
  ident name _ := .ok (.symbol name)
  unary op of := .ok (.unary op of)
  binary := .binary

/-- The tree of an expression, where it has one. -/
def treeOf (file : List Char) (toks : List Tok) : Option Tree :=
  (evalWith treeReader file toks).toOption

/-- Where a minus wraps a tree has a value as soon as its names have one. -/
theorem Tree.isSome_wrapped {values : List Char → Option Int64} (tree : Tree) :
    (tree.wrapped values).isSome ↔ ∀ name ∈ tree.names, (values name).isSome := by
  rw [Tree.wrapped]
  induction tree with
  | int value => simp [Tree.valueBy, Tree.names]
  | symbol name => simp [Tree.valueBy, Tree.names]
  | unary op of ih =>
    rw [Tree.names, ← ih, Tree.valueBy]
    cases of.valueBy wrapping values <;> simp [wrapping, Except.toOption]
  | binary op left right ihl ihr =>
    rw [Tree.names, List.forall_mem_append, ← ihl, ← ihr, Tree.valueBy]
    cases left.valueBy wrapping values <;> cases right.valueBy wrapping values <;> simp

theorem Tree.wrapped_congr {values values' : List Char → Option Int64} {tree : Tree}
    (same : ∀ name ∈ tree.names, values name = values' name) :
    tree.wrapped values = tree.wrapped values' := by
  rw [Tree.wrapped, Tree.wrapped]
  induction tree with
  | int value => rfl
  | symbol name => exact same name List.mem_cons_self
  | unary op of ih => rw [Tree.valueBy, Tree.valueBy, ih same]
  | binary op left right ihl ihr =>
    obtain ⟨inLeft, inRight⟩ := List.forall_mem_append.1 same
    rw [Tree.valueBy, Tree.valueBy, ihl inLeft, ihr inRight]

/-! ## Values and trees -/

section
variable {unary : UnaryOp → Int64 → Panics CError Int64} {file : List Char} {symbols : Table}
  {last : Nat}

/-- A tree without a value gives no tree with one. -/
theorem eval_more_none {fuel level : Nat} {left tree : Tree} {toks rest : List Tok}
    (none : left.valueBy unary symbols.values = none)
    (ends : parse treeReader file last fuel (.more level left) toks = .ok (tree, rest)) :
    tree.valueBy unary symbols.values = Option.none := by
  induction fuel generalizing left toks with
  | zero => cases ends
  | succ fuel ih =>
    rw [parse] at ends
    split at ends
    · cases ends
      exact none
    · obtain ⟨⟨right, rest'⟩, -, ends⟩ := Panics.bind_ok ends
      refine ih ?_ ends
      change (do
        let left ← left.valueBy unary symbols.values
        let right ← right.valueBy unary symbols.values
        return apply _ left right) = Option.none
      rw [none]
      rfl

/-- What a call of the value reader stands for, by the call that reads the tree. -/
def Call.Stands (value : Tree → Option Int64) : Call Tree → Call Int64 → Prop
  | .binary level, .binary level' => level = level'
  | .more level left, .more level' found => level = level' ∧ value left = some found
  | .unary, .unary => True
  | .primary, .primary => True
  | _, _ => False

/-- The value of what a call read. -/
def valued (value : Tree → Option Int64) (read : Tree × List Tok) : Option (Int64 × List Tok) :=
  (value read.1).map fun found => (found, read.2)

variable (unary) in
/-- The loop after a tree, where both readers agree on the loop after a value. -/
theorem toOption_more {fuel : Nat} (level : Nat)
    (agree : ∀ left value toks, left.valueBy unary symbols.values = some value →
      (parse (readerOf unary file symbols) file last fuel (.more level value) toks).toOption =
        (parse treeReader file last fuel (.more level left) toks).toOption.bind
          (valued (Tree.valueBy unary symbols.values))) (read : Tree × List Tok) :
    ((valued (Tree.valueBy unary symbols.values) read).bind fun read =>
      (parse (readerOf unary file symbols) file last fuel (.more level read.1) read.2).toOption) =
      (parse treeReader file last fuel (.more level read.1) read.2).toOption.bind
        (valued (Tree.valueBy unary symbols.values)) := by
  obtain ⟨left, toks⟩ := read
  cases value : left.valueBy unary symbols.values with
  | some value' => simpa [valued, value] using agree left value' toks value
  | none =>
    have stuck : (parse treeReader file last fuel (.more level left) toks).toOption.bind
        (valued (Tree.valueBy unary symbols.values)) = none := by
      cases ends : parse treeReader file last fuel (.more level left) toks with
      | error e => rfl
      | ok read =>
        have none := eval_more_none value ends
        simp [Except.toOption, valued, none]
    simp [valued, value, stuck]

theorem toOption_closing {value : Tree → Option Int64} (read : Tree × List Tok) :
    ((valued value read).bind fun read => (closing file last read.1 read.2).toOption) =
      (closing file last read.1 read.2).toOption.bind (valued value) := by
  obtain ⟨tree, rest⟩ := read
  cases rest with
  | nil => cases worth : value tree <;> simp [closing, valued, worth, Except.toOption, Panics.fail]
  | cons tok rest =>
    by_cases closes : tok.token = .punct [')'] <;> cases worth : value tree <;>
      simp [closing, closes, valued, worth, Except.toOption, Panics.fail]

/-- A call reads a value exactly where it reads a tree that has it. -/
theorem toOption_parse (fuel : Nat) (call : Call Tree) (call' : Call Int64)
    (stands : call.Stands (Tree.valueBy unary symbols.values) call') (toks : List Tok) :
    (parse (readerOf unary file symbols) file last fuel call' toks).toOption =
      (parse treeReader file last fuel call toks).toOption.bind
        (valued (Tree.valueBy unary symbols.values)) := by
  induction fuel generalizing call call' toks with
  | zero => rfl
  | succ fuel ih =>
    have more (level : Nat) := toOption_more unary level (fun left value toks same =>
      ih (.more level left) (.more level value) ⟨rfl, same⟩ toks)
    match call, call', stands with
    | .binary level, .binary _, rfl =>
      rw [parse, parse]
      split
      · rw [Panics.toOption_bind, Panics.toOption_bind,
          ih (.binary (level + 1)) (.binary (level + 1)) rfl,
          Option.bind_assoc, Option.bind_assoc]
        exact congrArg _ (funext (more level))
      · exact ih .unary .unary trivial toks
    | .more level left, .more _ value, ⟨rfl, same⟩ =>
      rw [parse, parse]
      cases operatorAt level toks with
      | none => simp [Except.toOption, valued, same]
      | some found =>
        obtain ⟨op, rest⟩ := found
        dsimp only
        rw [Panics.toOption_bind, Panics.toOption_bind,
          ih (.binary (level + 1)) (.binary (level + 1)) rfl,
          Option.bind_assoc, Option.bind_assoc]
        refine congrArg _ (funext fun read => ?_)
        obtain ⟨right, rest⟩ := read
        refine Eq.trans ?_ (more level (.binary op left right, rest))
        cases worth : right.valueBy unary symbols.values <;>
          simp [valued, Tree.valueBy, same, worth, readerOf]
    | .unary, .unary, _ =>
      rw [parse, parse]
      cases unaryAt toks with
      | none => exact ih .primary .primary trivial toks
      | some found =>
        obtain ⟨op, rest⟩ := found
        dsimp only
        rw [Panics.toOption_bind, Panics.toOption_bind, ih .unary .unary trivial,
          Option.bind_assoc, Option.bind_assoc]
        refine congrArg _ (funext fun read => ?_)
        obtain ⟨of, rest⟩ := read
        change ((valued (Tree.valueBy unary symbols.values) (of, rest)).bind fun read =>
          (unary op read.1 >>= fun value => (.ok (value, read.2) : Panics CError _)).toOption) =
            valued (Tree.valueBy unary symbols.values) (.unary op of, rest)
        rw [valued, valued, Tree.valueBy]
        cases worth : of.valueBy unary symbols.values with
        | none => rfl
        | some value =>
          rw [Option.map_some, Option.bind_some, Panics.toOption_bind]
          cases negated : unary op value <;> simp [negated, Except.toOption]
    | .primary, .primary, _ =>
      match toks with
      | [] => rfl
      | ⟨.int value, _⟩ :: rest => rfl
      | ⟨.str _, _⟩ :: _ => rfl
      | ⟨.directive _, _⟩ :: _ => rfl
      | ⟨.ident name, line⟩ :: rest =>
        change ((readerOf unary file symbols).ident name line >>= fun value =>
          (.ok (value, rest) : Panics CError _)).toOption =
            valued (Tree.valueBy unary symbols.values) (.symbol name, rest)
        rw [Panics.toOption_bind]
        cases known : symbols.values name with
        | some value => simp [readerOf, valued, Tree.valueBy, known, Except.toOption]
        | none =>
          cases doubtful : symbols.ambiguous name <;>
            simp [readerOf, valued, Tree.valueBy, known, doubtful, Except.toOption, Panics.fail]
      | ⟨.punct text, line⟩ :: rest =>
        rw [parse, parse]
        split
        · rw [Panics.toOption_bind, Panics.toOption_bind, ih (.binary 0) (.binary 0) rfl,
            Option.bind_assoc, Option.bind_assoc]
          refine congrArg _ (funext fun read => ?_)
          exact toOption_closing read
        · rfl

/-- The value of an expression is that of its tree. -/
theorem toOption_evalWith (toks : List Tok) :
    (evalWith (readerOf unary file symbols) file toks).toOption =
      (treeOf file toks).bind fun tree => tree.valueBy unary symbols.values := by
  rw [treeOf, evalWith, evalWith, Panics.toOption_bind, Panics.toOption_bind,
    toOption_parse _ (.binary 0) (.binary 0) rfl, Option.bind_assoc, Option.bind_assoc]
  refine congrArg _ (funext fun read => ?_)
  obtain ⟨tree, rest⟩ := read
  cases rest with
  | nil =>
    change ((valued (Tree.valueBy unary symbols.values) (tree, [])).bind fun read => _) =
      tree.valueBy unary symbols.values
    cases worth : tree.valueBy unary symbols.values with
    | none => simp [valued, worth]
    | some value =>
      rw [valued, worth]
      rfl
  | cons tok rest =>
    change ((valued (Tree.valueBy unary symbols.values) (tree, tok :: rest)).bind fun read => _) = none
    cases worth : tree.valueBy unary symbols.values with
    | none => simp [valued, worth]
    | some value =>
      rw [valued, worth]
      rfl

theorem eval_eq (toks : List Tok) :
    (eval file toks symbols).toOption =
      (treeOf file toks).bind fun tree => tree.eval symbols.values :=
  toOption_evalWith toks

end

/-! ## Readers that differ in an error -/

section
variable {α : Type} {reader reader' : Reader α} {file : List Char} {last : Nat}

/-- The two computations are the same, unless the first ends in one of these errors. -/
def SameUnless {β : Type} (Ends : Stop CError → Prop) (x x' : Panics CError β) : Prop :=
  x' = x ∨ ∃ e, Ends e ∧ x = .error e

variable {Ends : Stop CError → Prop}

theorem SameUnless.refl {β : Type} (x : Panics CError β) : SameUnless Ends x x := .inl rfl

theorem SameUnless.bind {β γ : Type} {x x' : Panics CError β} {f f' : β → Panics CError γ}
    (first : SameUnless Ends x x') (second : ∀ a, SameUnless Ends (f a) (f' a)) :
    SameUnless Ends (x >>= f) (x' >>= f') := by
  rcases first with rfl | ⟨e, ends, rfl⟩
  · cases x' with
    | error e => exact .inl rfl
    | ok a => exact second a
  · exact .inr ⟨e, ends, rfl⟩

variable (int : reader'.int = reader.int) (binary : reader'.binary = reader.binary)
  (ident : ∀ name line, SameUnless Ends (reader.ident name line) (reader'.ident name line))
  (unary : ∀ op value, SameUnless Ends (reader.unary op value) (reader'.unary op value))
include int binary ident unary

/-- Readers that agree on the parts of an expression agree on the whole. -/
theorem parse_sameUnless (fuel : Nat) (call : Call α) (toks : List Tok) :
    SameUnless Ends (parse reader file last fuel call toks)
      (parse reader' file last fuel call toks) := by
  induction fuel generalizing call toks with
  | zero => exact .refl _
  | succ fuel ih =>
    cases call with
    | binary level =>
      rw [parse, parse]
      split
      · exact (ih _ _).bind fun _ => ih _ _
      · exact ih _ _
    | more level left =>
      rw [parse, parse]
      cases operatorAt level toks with
      | none => exact .refl _
      | some found =>
        refine (ih _ _).bind fun read => ?_
        rw [binary]
        exact ih _ _
    | unary =>
      rw [parse, parse]
      cases unaryAt toks with
      | none => exact ih _ _
      | some found => exact (ih _ _).bind fun read => (unary _ _).bind fun _ => .refl _
    | primary =>
      rcases toks with _ | ⟨⟨token, line⟩, rest⟩
      · exact .refl _
      · cases token with
        | int value =>
          rw [parse, parse, int]
          exact .refl _
        | str text => exact .refl _
        | directive body => exact .refl _
        | ident name => exact (ident name line).bind fun _ => .refl _
        | punct text =>
          rw [parse, parse]
          split
          · exact (ih _ _).bind fun _ => .refl _
          · exact .refl _

theorem evalWith_sameUnless (toks : List Tok) :
    SameUnless Ends (evalWith reader file toks) (evalWith reader' file toks) :=
  (parse_sameUnless int binary ident unary _ _ _).bind fun _ => .refl _

end

/-- A value that wraps is the value, unless `eval` panics. -/
theorem eval_or_panic (file : List Char) (toks : List Tok) (symbols : Table) :
    (eval file toks symbols).toOption =
        (treeOf file toks).bind (fun tree => tree.wrapped symbols.values) ∨
      eval file toks symbols = .error .panic := by
  have same : SameUnless (· = .panic) (evalWith (valueReader file symbols) file toks)
      (evalWith (readerOf wrapping file symbols) file toks) := by
    apply evalWith_sameUnless
    · rfl
    · rfl
    · exact fun _ _ => .refl _
    · intro op value
      cases op with
      | neg =>
        by_cases least : value = Int64.minValue
        · exact .inr ⟨.panic, rfl, if_pos least⟩
        · exact .inl (if_neg least).symm
      | plus => exact .refl _
      | not => exact .refl _
      | lnot => exact .refl _
  rcases same with same | ⟨e, rfl, panics⟩
  · refine .inl ?_
    rw [eval, ← same]
    exact toOption_evalWith toks
  · exact .inr panics

/-- More names with a value change nothing where no name was missing. -/
theorem eval_of_le (file : List Char) (toks : List Tok) {symbols symbols' : Table}
    (le : ∀ name value, symbols.values name = some value → symbols'.values name = some value) :
    eval file toks symbols' = eval file toks symbols ∨
      ∃ e, eval file toks symbols = Panics.fail e := by
  have same : SameUnless (fun e => ∃ error, e = .error error)
      (evalWith (valueReader file symbols) file toks)
      (evalWith (valueReader file symbols') file toks) := by
    apply evalWith_sameUnless
    · rfl
    · rfl
    · intro name line
      cases known : symbols.values name with
      | some value =>
        refine .inl ?_
        simp only [valueReader, readerOf, known, le name value known]
      | none =>
        cases doubtful : symbols.ambiguous name with
        | false =>
          exact .inr ⟨_, ⟨_, rfl⟩, by simp only [valueReader, readerOf, known, doubtful]; rfl⟩
        | true =>
          exact .inr ⟨_, ⟨_, rfl⟩, by simp only [valueReader, readerOf, known, doubtful]; rfl⟩
    · exact fun _ _ => .refl _
  refine same.imp_right ?_
  rintro ⟨e, ⟨error, rfl⟩, fails⟩
  exact ⟨error, fails⟩

/-! ## The depth of the reader -/

section
variable {α : Type} {reader : Reader α} {file : List Char} {last : Nat}

/-- How deep a call may go on so many tokens. -/
def Call.depth (tokens : Nat) : Call α → Nat
  | .binary level => 9 * tokens + 3 + (6 - level)
  | .more _ _ => 9 * tokens + 1
  | .unary => 9 * tokens + 2
  | .primary => 9 * tokens + 1

/-- Whether a call takes a token where it returns. -/
def Call.takes : Call α → Nat
  | .more _ _ => 0
  | _ => 1

theorem length_punctAt {toks rest : List Tok} {text : List Char}
    (found : punctAt toks = some (text, rest)) : toks.length = rest.length + 1 := by
  rw [punctAt.eq_def] at found
  split at found
  · cases found
    rfl
  · cases found

theorem length_operatorAt {level : Nat} {toks rest : List Tok} {op : BinaryOp}
    (found : operatorAt level toks = some (op, rest)) : toks.length = rest.length + 1 := by
  simp only [operatorAt, Option.bind_eq_bind, Option.bind_eq_some_iff] at found
  obtain ⟨⟨text, rest'⟩, at', op', -, same⟩ := found
  cases same
  exact length_punctAt at'

theorem length_unaryAt {toks rest : List Tok} {op : UnaryOp}
    (found : unaryAt toks = some (op, rest)) : toks.length = rest.length + 1 := by
  simp only [unaryAt, Option.bind_eq_bind, Option.bind_eq_some_iff] at found
  obtain ⟨⟨text, rest'⟩, at', op', -, same⟩ := found
  cases same
  exact length_punctAt at'

theorem length_closing {value : α} {toks rest : List Tok} {found : α}
    (ends : closing file last value toks = .ok (found, rest)) : toks.length = rest.length + 1 := by
  rw [closing.eq_def] at ends
  split at ends
  · cases ends
  · split at ends
    · cases ends
      rfl
    · cases ends

theorem safe_closing (value : α) (toks : List Tok) :
    Panics.Safe (closing file last value toks) := by
  rw [closing.eq_def]
  split
  · exact Panics.safe_fail _
  · split
    · exact Panics.safe_ok _
    · exact Panics.safe_fail _

/-- A call leaves fewer tokens than it was given. -/
theorem length_parse {fuel : Nat} {call : Call α} {toks rest : List Tok} {value : α}
    (ends : parse reader file last fuel call toks = .ok (value, rest)) :
    rest.length + call.takes ≤ toks.length := by
  induction fuel generalizing call toks rest value with
  | zero => cases ends
  | succ fuel ih =>
    cases call with
    | binary level =>
      rw [parse] at ends
      split at ends
      · obtain ⟨⟨left, middle⟩, first, second⟩ := Panics.bind_ok ends
        have := ih first
        have := ih second
        simp only [Call.takes] at *
        omega
      · have shorter := ih ends
        exact shorter
    | more level left =>
      rw [parse] at ends
      split at ends
      · cases ends
        exact le_refl _
      · rename_i op middle found
        obtain ⟨⟨right, after⟩, first, second⟩ := Panics.bind_ok ends
        have := ih first
        have := ih second
        have := length_operatorAt found
        simp only [Call.takes] at *
        omega
    | unary =>
      rw [parse] at ends
      split at ends
      · have shorter := ih ends
        exact shorter
      · rename_i op middle found
        obtain ⟨⟨of, after⟩, first, second⟩ := Panics.bind_ok ends
        obtain ⟨value, -, second⟩ := Panics.bind_ok second
        cases second
        have := ih first
        have := length_unaryAt found
        simp only [Call.takes] at *
        omega
    | primary =>
      match toks with
      | [] => cases ends
      | ⟨.int value, _⟩ :: rest =>
        cases ends
        exact le_refl _
      | ⟨.str _, _⟩ :: _ => cases ends
      | ⟨.directive _, _⟩ :: _ => cases ends
      | ⟨.ident name, line⟩ :: rest =>
        rw [parse] at ends
        obtain ⟨value, -, second⟩ := Panics.bind_ok ends
        cases second
        exact le_refl _
      | ⟨.punct text, line⟩ :: rest =>
        rw [parse] at ends
        split at ends
        · obtain ⟨⟨value, middle⟩, first, second⟩ := Panics.bind_ok ends
          have := ih first
          have := length_closing second
          simp only [Call.takes, List.length_cons] at *
          omega
        · cases ends

/-- A call does not go deeper than its tokens allow. -/
theorem parse_enough (never : ∀ name line, Panics.Safe (reader.ident name line))
    (never' : ∀ op value, Panics.Safe (reader.unary op value)) {fuel : Nat}
    {call : Call α} {toks : List Tok} (deep : call.depth toks.length < fuel) :
    Panics.Safe (parse reader file last fuel call toks) := by
  induction fuel generalizing call toks with
  | zero => cases deep
  | succ fuel ih =>
    cases call with
    | binary level =>
      rw [parse]
      split
      · rename_i inside
        simp only [precedence, List.length_cons, List.length_nil] at inside
        refine (ih ?_).bind fun read first => ih ?_
        · simp only [Call.depth] at *
          omega
        · have := length_parse first
          simp only [Call.depth, Call.takes] at *
          omega
      · refine ih ?_
        rename_i outside
        simp only [precedence, List.length_cons, List.length_nil] at outside
        simp only [Call.depth] at *
        omega
    | more level left =>
      rw [parse]
      split
      · exact Panics.safe_ok _
      · rename_i op middle found
        have := length_operatorAt found
        refine (ih ?_).bind fun read first => ih ?_
        · simp only [Call.depth] at *
          omega
        · have := length_parse first
          simp only [Call.depth, Call.takes] at *
          omega
    | unary =>
      rw [parse]
      split
      · refine ih ?_
        simp only [Call.depth] at *
        omega
      · rename_i op middle found
        have := length_unaryAt found
        refine (ih ?_).bind fun read _ => (never' _ _).bind fun _ _ => Panics.safe_ok _
        simp only [Call.depth] at *
        omega
    | primary =>
      match toks with
      | [] => exact Panics.safe_fail _
      | ⟨.int value, _⟩ :: rest => exact Panics.safe_ok _
      | ⟨.str _, _⟩ :: _ => exact Panics.safe_fail _
      | ⟨.directive _, _⟩ :: _ => exact Panics.safe_fail _
      | ⟨.ident name, line⟩ :: rest =>
        rw [parse]
        exact (never name line).bind fun value _ => Panics.safe_ok _
      | ⟨.punct text, line⟩ :: rest =>
        rw [parse]
        split
        · refine (ih ?_).bind fun read _ => ?_
          · simp only [Call.depth, List.length_cons] at *
            omega
          · exact safe_closing read.1 read.2
        · exact Panics.safe_fail _

end

end ClickDoom.Csource

import ClickDoom.Csource.Expr

/-! # The grammar of constant expressions

C's own grammar of the operators the reader knows, as a relation between a tree and the tokens it
is spelled with: each level is a list of operands of the next one, joined from the left, and any
operand may stand in parentheses.  Whatever is spelled that way is read back as its tree.
-/
namespace ClickDoom.Csource

/-- The level of an operator, the lowest binding first. -/
def BinaryOp.level : BinaryOp → Nat
  | .or => 0
  | .xor => 1
  | .and => 2
  | .shl | .shr => 3
  | .add | .sub => 4
  | .mul | .div | .rem => 5

/-- The tokens a tree is spelled with: binary operators on the levels 0 to 5, unary operators on
level 6, and literals, names and parentheses on level 7. -/
inductive Spelling : Nat → Tree → List Token → Prop
  | int (value : Int64) : Spelling 7 (.int value) [.int value]
  | symbol (name : List Char) : Spelling 7 (.symbol name) [.ident name]
  | parens {tree : Tree} {inner : List Token} :
    Spelling 0 tree inner → Spelling 7 tree (.punct ['('] :: inner ++ [.punct [')']])
  | unary {tree : Tree} {operand : List Token} (op : UnaryOp) :
    Spelling 6 tree operand → Spelling 6 (.unary op tree) (.punct op.text :: operand)
  | binary {left right : Tree} {before after : List Token} (op : BinaryOp) :
    Spelling op.level left before → Spelling (op.level + 1) right after →
      Spelling op.level (.binary op left right) (before ++ .punct op.text :: after)
  | lift {level : Nat} {tree : Tree} {tokens : List Token} :
    level < 7 → Spelling (level + 1) tree tokens → Spelling level tree tokens

/-! ## More depth changes nothing -/

section
variable {α : Type} {reader : Reader α} {file : List Char} {last : Nat}

/-- Two parts that agree as far as they run. -/
theorem bind_congr_of_safe {ε β γ : Type} {x x' : Panics ε β} {f f' : β → Panics ε γ}
    (safe : Panics.Safe (x >>= f)) (first : Panics.Safe x → x' = x)
    (second : ∀ a, Panics.Safe (f a) → f' a = f a) : (x' >>= f') = x >>= f := by
  obtain ⟨safeFirst, safeSecond⟩ := Panics.safe_bind_iff.1 safe
  rw [first safeFirst]
  cases x with
  | error e => rfl
  | ok a => exact second a (safeSecond a rfl)

theorem parse_binary (fuel level : Nat) (toks : List Tok) :
    parse reader file last (fuel + 1) (.binary level) toks =
      if level < precedence.length then
        parse reader file last fuel (.binary (level + 1)) toks >>= fun read =>
          parse reader file last fuel (.more level read.1) read.2
      else parse reader file last fuel .unary toks := rfl

theorem parse_more (fuel level : Nat) (left : α) (toks : List Tok) :
    parse reader file last (fuel + 1) (.more level left) toks =
      match operatorAt level toks with
      | none => .ok (left, toks)
      | some (op, rest) =>
        parse reader file last fuel (.binary (level + 1)) rest >>= fun read =>
          parse reader file last fuel (.more level (reader.binary op left read.1)) read.2 := rfl

theorem parse_unary (fuel : Nat) (toks : List Tok) :
    parse reader file last (fuel + 1) .unary toks =
      match unaryAt toks with
      | none => parse reader file last fuel .primary toks
      | some (op, rest) =>
        parse reader file last fuel .unary rest >>= fun read =>
          reader.unary op read.1 >>= fun value => .ok (value, read.2) := rfl

theorem parse_punct (fuel : Nat) (text : List Char) (line : Nat) (rest : List Tok) :
    parse reader file last (fuel + 1) .primary (⟨.punct text, line⟩ :: rest) =
      if text = ['('] then
        parse reader file last fuel (.binary 0) rest >>= fun read =>
          closing file last read.1 read.2
      else Panics.fail (.expected file line "a value" (some (.punct text))) := rfl

theorem parse_succ {fuel : Nat} {call : Call α} {toks : List Tok}
    (safe : Panics.Safe (parse reader file last fuel call toks)) :
    parse reader file last (fuel + 1) call toks = parse reader file last fuel call toks := by
  induction fuel generalizing call toks with
  | zero => exact absurd rfl safe
  | succ fuel ih =>
    cases call with
    | binary level =>
      rw [parse_binary fuel] at safe
      rw [parse_binary (fuel + 1) level toks, parse_binary fuel level toks]
      split at safe
      · rename_i inside
        rw [if_pos inside, if_pos inside]
        exact bind_congr_of_safe safe ih fun _ => ih
      · rename_i outside
        rw [if_neg outside, if_neg outside]
        exact ih safe
    | more level left =>
      rw [parse_more fuel] at safe
      rw [parse_more (fuel + 1) level left toks, parse_more fuel level left toks]
      cases found : operatorAt level toks with
      | none => rfl
      | some read =>
        rw [found] at safe
        exact bind_congr_of_safe safe ih fun _ => ih
    | unary =>
      rw [parse_unary fuel] at safe
      rw [parse_unary (fuel + 1) toks, parse_unary fuel toks]
      cases found : unaryAt toks with
      | none =>
        rw [found] at safe
        exact ih safe
      | some read =>
        rw [found] at safe
        exact bind_congr_of_safe safe ih fun _ _ => rfl
    | primary =>
      match toks with
      | [] => rfl
      | ⟨.int value, _⟩ :: rest => rfl
      | ⟨.str _, _⟩ :: _ => rfl
      | ⟨.directive _, _⟩ :: _ => rfl
      | ⟨.ident name, line⟩ :: rest => rfl
      | ⟨.punct text, line⟩ :: rest =>
        rw [parse_punct fuel] at safe
        rw [parse_punct (fuel + 1) text line rest, parse_punct fuel text line rest]
        split at safe
        · rename_i opens
          rw [if_pos opens, if_pos opens]
          exact bind_congr_of_safe safe ih fun _ _ => rfl
        · rename_i other
          rw [if_neg other, if_neg other]

theorem parse_of_le {fuel more : Nat} (le : fuel ≤ more) {call : Call α} {toks : List Tok}
    (safe : Panics.Safe (parse reader file last fuel call toks)) :
    parse reader file last more call toks = parse reader file last fuel call toks := by
  induction more, le using Nat.le_induction with
  | base => rfl
  | succ more le ih =>
    rw [← ih] at safe ⊢
    exact parse_succ safe

/-! ## Calls that return -/

variable (reader file last) in
/-- A call returns a result, given enough depth. -/
def Reads (call : Call α) (toks : List Tok) (result : α × List Tok) : Prop :=
  ∃ enough, ∀ fuel ≥ enough, parse reader file last fuel call toks = .ok result

/-- A call that returns does so at any depth that is not used up. -/
theorem Reads.parse_eq {call : Call α} {toks : List Tok} {result : α × List Tok}
    (reads : Reads reader file last call toks result) {fuel : Nat}
    (safe : Panics.Safe (parse reader file last fuel call toks)) :
    parse reader file last fuel call toks = .ok result := by
  obtain ⟨enough, returns⟩ := reads
  rw [← parse_of_le (Nat.le_max_left fuel enough) safe]
  exact returns _ (Nat.le_max_right fuel enough)

theorem reads_binary {level : Nat} (inside : level < precedence.length) {toks middle : List Tok}
    {left : α}
    {result : α × List Tok}
    (first : Reads reader file last (.binary (level + 1)) toks (left, middle))
    (second : Reads reader file last (.more level left) middle result) :
    Reads reader file last (.binary level) toks result := by
  obtain ⟨n, first⟩ := first
  obtain ⟨m, second⟩ := second
  refine ⟨n + m + 1, fun fuel enough => ?_⟩
  obtain ⟨fuel, rfl⟩ := Nat.exists_eq_add_of_lt (Nat.lt_of_lt_of_le (Nat.succ_pos (n + m)) enough)
  rw [parse_binary, if_pos inside, first _ (by omega), Panics.ok_bind]
  exact second _ (by omega)

theorem reads_top {toks : List Tok} {result : α × List Tok}
    (operand : Reads reader file last .unary toks result) :
    Reads reader file last (.binary 6) toks result := by
  obtain ⟨n, operand⟩ := operand
  refine ⟨n + 1, fun fuel enough => ?_⟩
  obtain ⟨fuel, rfl⟩ := Nat.exists_eq_add_of_lt (Nat.lt_of_lt_of_le (Nat.succ_pos n) enough)
  rw [parse_binary, if_neg (by decide)]
  exact operand _ (by omega)

theorem reads_more_stop {level : Nat} {left : α} {toks : List Tok}
    (stop : operatorAt level toks = none) :
    Reads reader file last (.more level left) toks (left, toks) := by
  refine ⟨1, fun fuel enough => ?_⟩
  obtain ⟨fuel, rfl⟩ := Nat.exists_eq_add_of_lt enough
  rw [parse_more, stop]

theorem reads_more_step {level : Nat} {left right : α} {op : BinaryOp} {toks rest middle : List Tok}
    {result : α × List Tok} (found : operatorAt level toks = some (op, rest))
    (first : Reads reader file last (.binary (level + 1)) rest (right, middle))
    (second : Reads reader file last (.more level (reader.binary op left right)) middle result) :
    Reads reader file last (.more level left) toks result := by
  obtain ⟨n, first⟩ := first
  obtain ⟨m, second⟩ := second
  refine ⟨n + m + 1, fun fuel enough => ?_⟩
  obtain ⟨fuel, rfl⟩ := Nat.exists_eq_add_of_lt (Nat.lt_of_lt_of_le (Nat.succ_pos (n + m)) enough)
  rw [parse_more, found]
  dsimp only
  rw [first _ (by omega), Panics.ok_bind]
  exact second _ (by omega)

theorem reads_unary {op : UnaryOp} {toks rest middle : List Tok} {value result : α}
    (found : unaryAt toks = some (op, rest))
    (operand : Reads reader file last .unary rest (value, middle))
    (applied : reader.unary op value = .ok result) :
    Reads reader file last .unary toks (result, middle) := by
  obtain ⟨n, operand⟩ := operand
  refine ⟨n + 1, fun fuel enough => ?_⟩
  obtain ⟨fuel, rfl⟩ := Nat.exists_eq_add_of_lt (Nat.lt_of_lt_of_le (Nat.succ_pos n) enough)
  rw [parse_unary, found]
  dsimp only
  rw [operand _ (by omega), Panics.ok_bind, applied, Panics.ok_bind]

theorem reads_unary_primary {toks : List Tok} {result : α × List Tok}
    (none : unaryAt toks = Option.none) (operand : Reads reader file last .primary toks result) :
    Reads reader file last .unary toks result := by
  obtain ⟨n, operand⟩ := operand
  refine ⟨n + 1, fun fuel enough => ?_⟩
  obtain ⟨fuel, rfl⟩ := Nat.exists_eq_add_of_lt (Nat.lt_of_lt_of_le (Nat.succ_pos n) enough)
  rw [parse_unary, none]
  exact operand _ (by omega)

theorem reads_parens {line line' : Nat} {toks rest : List Tok} {value : α}
    (inner : Reads reader file last (.binary 0) toks (value, ⟨.punct [')'], line'⟩ :: rest)) :
    Reads reader file last .primary (⟨.punct ['('], line⟩ :: toks) (value, rest) := by
  obtain ⟨n, inner⟩ := inner
  refine ⟨n + 1, fun fuel enough => ?_⟩
  obtain ⟨fuel, rfl⟩ := Nat.exists_eq_add_of_lt (Nat.lt_of_lt_of_le (Nat.succ_pos n) enough)
  rw [parse_punct, if_pos rfl, inner _ (by omega), Panics.ok_bind]
  simp [closing]

end

/-! ## Reading what is spelled -/

theorem operatorAt_text (level line : Nat) (op : BinaryOp) (rest : List Tok) :
    operatorAt level (⟨.punct op.text, line⟩ :: rest) =
      if level = op.level then some (op, rest) else none := by
  rcases Nat.lt_or_ge level 6 with inside | outside
  · interval_cases level <;> cases op <;> rfl
  · have beyond : precedence.getD level [] = [] := by
      rw [List.getD_eq_default _ _ (by simpa [precedence] using outside)]
    rw [if_neg (by cases op <;> simp only [BinaryOp.level] <;> omega), operatorAt, beyond]
    rfl

theorem operatorAt_other {text : List Char} (other : ∀ op : BinaryOp, op.text ≠ text)
    (level line : Nat) (rest : List Tok) :
    operatorAt level (⟨.punct text, line⟩ :: rest) = none := by
  have none : (precedence.getD level []).find? (fun op => op.text = text) = none :=
    List.find?_eq_none.2 fun op _ => by simpa using other op
  rw [operatorAt, punctAt, Option.bind_eq_bind, Option.bind_some]
  dsimp only
  rw [none]
  rfl

theorem unaryAt_text (line : Nat) (op : UnaryOp) (rest : List Tok) :
    unaryAt (⟨.punct op.text, line⟩ :: rest) = some (op, rest) := by
  cases op <;> rfl

/-- No operator that binds tighter than a level stands here. -/
def Quiet (level : Nat) (rest : List Tok) : Prop :=
  ∀ other, level < other → operatorAt other rest = none

/-- The tokens of a list. -/
def tokens (toks : List Tok) : List Token := toks.map Tok.token

section
variable {file : List Char} {last : Nat}

/-- What reading the spelling of a tree comes to on each level. -/
def ReadsAs (file : List Char) (last level : Nat) (tree : Tree) (toks : List Tok) : Prop :=
  (level < 6 → ∀ rest result, Quiet level rest →
    Reads treeReader file last (.more level tree) rest result →
      Reads treeReader file last (.binary level) (toks ++ rest) result) ∧
  (level = 6 → ∀ rest, Reads treeReader file last .unary (toks ++ rest) (tree, rest)) ∧
  (level = 7 → ∀ rest, Reads treeReader file last .primary (toks ++ rest) (tree, rest) ∧
    unaryAt (toks ++ rest) = none)

theorem quiet_op {op : BinaryOp} (line : Nat) (rest : List Tok) :
    Quiet op.level (⟨.punct op.text, line⟩ :: rest) := by
  intro other above
  rw [operatorAt_text, if_neg (by omega)]

/-- An operand of a level is read to its end, where nothing there binds as tight. -/
theorem reads_operand {level : Nat} {tree : Tree} {toks : List Tok}
    (readsAs : ReadsAs file last level tree toks) (low : level ≤ 6) {rest : List Tok}
    (quiet : ∀ other, level ≤ other → operatorAt other rest = none) :
    Reads treeReader file last (.binary level) (toks ++ rest) (tree, rest) := by
  rcases Nat.lt_or_eq_of_le low with inside | six
  · exact readsAs.1 inside rest _ (fun other above => quiet other above.le)
      (reads_more_stop (quiet level le_rfl))
  · subst six
    exact reads_top (readsAs.2.1 rfl rest)

theorem Spelling.readsAs {level : Nat} {tree : Tree} {spelled : List Token}
    (spelling : Spelling level tree spelled) {toks : List Tok} (same : tokens toks = spelled) :
    ReadsAs file last level tree toks := by
  induction spelling generalizing toks with
  | int value =>
    obtain ⟨⟨token, line⟩, rfl, (rfl : token = _)⟩ := List.map_eq_singleton_iff.1 same
    refine ⟨nofun, nofun, fun _ rest => ⟨⟨1, fun fuel enough => ?_⟩, rfl⟩⟩
    obtain ⟨fuel, rfl⟩ := Nat.exists_eq_add_of_lt enough
    rfl
  | symbol name =>
    obtain ⟨⟨token, line⟩, rfl, (rfl : token = _)⟩ := List.map_eq_singleton_iff.1 same
    refine ⟨nofun, nofun, fun _ rest => ⟨⟨1, fun fuel enough => ?_⟩, rfl⟩⟩
    obtain ⟨fuel, rfl⟩ := Nat.exists_eq_add_of_lt enough
    rfl
  | parens inner ih =>
    obtain ⟨⟨token, line⟩, after, rfl, (rfl : token = _), later⟩ := List.map_eq_cons_iff.1 same
    obtain ⟨middle, last', rfl, inside, close⟩ := List.map_eq_append_iff.1 later
    obtain ⟨⟨token, line'⟩, rfl, (rfl : token = _)⟩ := List.map_eq_singleton_iff.1 close
    refine ⟨nofun, nofun, fun _ rest => ⟨?_, rfl⟩⟩
    rw [List.cons_append, List.append_assoc]
    have stop (level : Nat) : operatorAt level (⟨.punct [')'], line'⟩ :: rest) = none :=
      operatorAt_other (fun op => by cases op <;> decide) level line' rest
    exact reads_parens ((ih inside).1 (by decide) _ _ (fun other _ => stop other)
      (reads_more_stop (stop 0)))
  | unary op operand ih =>
    obtain ⟨⟨token, line⟩, after, rfl, (rfl : token = _), later⟩ := List.map_eq_cons_iff.1 same
    refine ⟨nofun, fun _ rest => ?_, nofun⟩
    exact reads_unary (unaryAt_text line op _) ((ih later).2.1 rfl rest) rfl
  | binary op left right ihl ihr =>
    obtain ⟨before, rest, rfl, first, second⟩ := List.map_eq_append_iff.1 same
    obtain ⟨⟨token, line⟩, after, rfl, (rfl : token = _), later⟩ := List.map_eq_cons_iff.1 second
    have inside : op.level < 6 := by cases op <;> decide
    refine ⟨fun _ rest result quiet reads => ?_, fun h => by omega, fun h => by omega⟩
    rw [List.append_assoc, List.cons_append]
    refine (ihl first).1 inside _ _ (quiet_op line _) ?_
    refine reads_more_step (by rw [operatorAt_text, if_pos rfl]) ?_ reads
    exact reads_operand (ihr later) (Nat.succ_le_of_lt inside) fun other above =>
      quiet other (Nat.lt_of_lt_of_le (Nat.lt_succ_self _) above)
  | @lift level tree spelled low spelling ih =>
    have ih := ih same
    refine ⟨fun inside rest result quiet reads => ?_, fun six rest => ?_, fun seven => by omega⟩
    · exact reads_binary inside (reads_operand ih (Nat.succ_le_of_lt inside) quiet) reads
    · subst six
      obtain ⟨reads, none⟩ := ih.2.2 rfl rest
      exact reads_unary_primary none reads

/-- A spelled tree is read back, all its tokens consumed. -/
theorem treeOf_spelling {tree : Tree} {toks : List Tok} (spelling : Spelling 0 tree (tokens toks)) :
    treeOf file toks = some tree := by
  have reads : Reads treeReader file (lastLine toks) (.binary 0) toks (tree, []) := by
    have all : Reads treeReader file (lastLine toks) (.binary 0) (toks ++ []) (tree, []) :=
      reads_operand (spelling.readsAs rfl) (Nat.zero_le 6) fun _ _ => rfl
    rwa [List.append_nil] at all
  have safe : Panics.Safe
      (parse treeReader file (lastLine toks) (9 * toks.length + 10) (.binary 0) toks) := by
    refine parse_enough (fun _ _ => Panics.safe_ok _) (fun _ _ => Panics.safe_ok _) ?_
    simp only [Call.depth]
    omega
  rw [treeOf, evalWith, reads.parse_eq safe, Panics.ok_bind]
  rfl

/-- `eval` of a spelled tree is the value of the tree. -/
theorem eval_spelling {tree : Tree} {toks : List Tok} (spelling : Spelling 0 tree (tokens toks))
    {symbols : Table} {value : Int64} (known : tree.eval symbols.values = some value) :
    eval file toks symbols = .ok value := by
  have found : (eval file toks symbols).toOption = some value := by
    rw [eval_eq, treeOf_spelling spelling]
    exact known
  cases ends : eval file toks symbols with
  | error e =>
    rw [ends] at found
    cases found
  | ok value' =>
    rw [ends] at found
    cases found
    rfl

end

/-! ## What C makes of a tree -/

/-- C's operators on integers, cut to 64 bits. -/
def cApply (op : BinaryOp) (left right : Int64) : Int64 :=
  match op with
  | .or => left ||| right
  | .xor => left ^^^ right
  | .and => left &&& right
  | .shl => Int64.ofInt (left.toInt * 2 ^ right.toInt.toNat)
  | .shr => Int64.ofInt (left.toInt / 2 ^ right.toInt.toNat)
  | .add => Int64.ofInt (left.toInt + right.toInt)
  | .sub => Int64.ofInt (left.toInt - right.toInt)
  | .mul => Int64.ofInt (left.toInt * right.toInt)
  | .div => Int64.ofInt (left.toInt.tdiv right.toInt)
  | .rem => Int64.ofInt (left.toInt.tmod right.toInt)

def cUnary (op : UnaryOp) (value : Int64) : Int64 :=
  match op with
  | .neg => Int64.ofInt (-value.toInt)
  | .plus => value
  | .not => Int64.ofInt (-value.toInt - 1)
  | .lnot => if value.toInt = 0 then 1 else 0

/-- No division by zero and no shift by 64 or more. -/
def Defined (op : BinaryOp) (right : Int64) : Prop :=
  match op with
  | .shl | .shr => 0 ≤ right.toInt ∧ right.toInt < 64
  | .div | .rem => right ≠ 0
  | _ => True

/-- The minus that does not fit. -/
def Negates (op : UnaryOp) (value : Int64) : Prop := op = .neg ∧ value = Int64.minValue

/-- The one quotient that does not fit. -/
def Overflows (op : BinaryOp) (left right : Int64) : Prop :=
  op = .div ∧ left = Int64.minValue ∧ right = -1

/-- `unary` is C's operator, but for the minus that does not fit. -/
theorem applyUnary_eq {op : UnaryOp} {value : Int64} (fits : ¬Negates op value) :
    applyUnary op value = .ok (cUnary op value) := by
  cases op with
  | neg =>
    rw [applyUnary, if_neg fun least => fits ⟨rfl, least⟩]
    simp [cUnary]
  | plus => rfl
  | not =>
    rw [applyUnary, cUnary]
    refine congrArg Except.ok (Int64.toInt_inj.1 ?_)
    rw [Int64.toInt_not, Int64.toInt_ofInt]
  | lnot =>
    rw [applyUnary, cUnary]
    have zero : value = 0 ↔ value.toInt = 0 := by
      rw [← Int64.toInt_inj]
      rfl
    simp only [zero]

/-- A count below 64 is the count a machine shift takes. -/
theorem toNat_count {right : Int64} (low : 0 ≤ right.toInt) (high : right.toInt < 64) :
    (right.toBitVec.smod 64).toNat = right.toInt.toNat := by
  have same : right.toBitVec.smod 64 = right.toBitVec := by
    apply BitVec.eq_of_toInt_eq
    rw [BitVec.toInt_smod]
    exact Int.fmod_eq_of_lt low high
  rw [same]
  have value : right.toInt = right.toBitVec.toInt := rfl
  rw [value, BitVec.toInt_eq_toNat_cond] at low high ⊢
  split at high <;> omega

theorem shiftLeft_eq {left right : Int64} (low : 0 ≤ right.toInt) (high : right.toInt < 64) :
    left <<< right = Int64.ofInt (left.toInt * 2 ^ right.toInt.toNat) := by
  symm
  rw [Int64.ofInt_eq_iff_bmod_eq_toInt]
  show _ = (left <<< right).toBitVec.toInt
  rw [Int64.toBitVec_shiftLeft, BitVec.shiftLeft_eq', toNat_count low high, BitVec.toInt_shiftLeft,
    Nat.shiftLeft_eq]
  push_cast
  have left_eq : left.toInt = (left.toBitVec.toNat : Int).bmod (2 ^ 64) :=
    BitVec.toInt_eq_toNat_bmod left.toBitVec
  rw [left_eq]
  exact Int.bmod_mul_bmod

theorem shiftRight_eq {left right : Int64} (low : 0 ≤ right.toInt) (high : right.toInt < 64) :
    left >>> right = Int64.ofInt (left.toInt / 2 ^ right.toInt.toNat) := by
  have shifted : (left >>> right).toInt = left.toInt / 2 ^ right.toInt.toNat := by
    show (left >>> right).toBitVec.toInt = _
    rw [Int64.toBitVec_shiftRight, BitVec.toInt_sshiftRight', toNat_count low high,
      Int.shiftRight_eq_div_pow]
    rfl
  rw [← shifted, Int64.ofInt_toInt]

/-- `apply` is C's operator, but for the quotient that does not fit. -/
theorem apply_eq {op : BinaryOp} {left right : Int64} (defined : Defined op right)
    (fits : ¬Overflows op left right) : apply op left right = cApply op left right := by
  cases op with
  | or => rfl
  | xor => rfl
  | and => rfl
  | shl => exact shiftLeft_eq defined.1 defined.2
  | shr => exact shiftRight_eq defined.1 defined.2
  | add => simp [apply, cApply]
  | sub => simp [apply, cApply]
  | mul => simp [apply, cApply]
  | div =>
    rw [apply, cApply, if_neg fun h => h.elim defined fun two => fits ⟨rfl, two⟩]
    apply Int64.toInt_inj.1
    rw [Int64.toInt_div, Int64.toInt_ofInt]
  | rem =>
    rw [apply, cApply]
    split
    case isTrue h =>
      obtain ⟨rfl, rfl⟩ := h.resolve_left defined
      rfl
    case isFalse h => rw [← Int64.toInt_mod, Int64.ofInt_toInt]

instance (right : Int64) : (op : BinaryOp) → Decidable (Defined op right)
  | .shl | .shr => inferInstanceAs (Decidable (0 ≤ right.toInt ∧ right.toInt < 64))
  | .div | .rem => inferInstanceAs (Decidable (right ≠ 0))
  | .or | .xor | .and | .add | .sub | .mul => inferInstanceAs (Decidable True)

/-- The value C gives a tree: none where a name has none, and none where an operator has none. -/
def Tree.cEval (values : List Char → Option Int64) : Tree → Option Int64
  | .int value => some value
  | .symbol name => values name
  | .unary op of => (of.cEval values).map (cUnary op)
  | .binary op left right => do
    let left ← left.cEval values
    let right ← right.cEval values
    if Defined op right then some (cApply op left right) else none

/-- No minus and no quotient of the tree overflows. -/
def Tree.Fits (values : List Char → Option Int64) : Tree → Prop
  | .int _ => True
  | .symbol _ => True
  | .unary op of => of.Fits values ∧ ∀ v, of.cEval values = some v → ¬Negates op v
  | .binary op left right =>
    left.Fits values ∧ right.Fits values ∧
      ∀ l r, left.cEval values = some l → right.cEval values = some r → ¬Overflows op l r

/-- Where no minus and no quotient overflows, the value of a tree is C's. -/
theorem Tree.eval_of_cEval {values : List Char → Option Int64} {tree : Tree} {value : Int64}
    (given : tree.cEval values = some value) (fits : tree.Fits values) :
    tree.eval values = some value := by
  induction tree generalizing value with
  | int _ => exact given
  | symbol _ => exact given
  | unary op of ih =>
    obtain ⟨inner, innerEq, rfl⟩ := Option.map_eq_some_iff.1 given
    have operand : of.valueBy applyUnary values = some inner := ih innerEq fits.1
    rw [Tree.eval, Tree.valueBy, operand]
    change (applyUnary op inner).toOption = _
    rw [applyUnary_eq (fits.2 inner innerEq)]
    rfl
  | binary op left right ihLeft ihRight =>
    obtain ⟨fitsLeft, fitsRight, fitsHere⟩ := fits
    obtain ⟨l, leftEq, given⟩ := Option.bind_eq_some_iff.1 given
    obtain ⟨r, rightEq, given⟩ := Option.bind_eq_some_iff.1 given
    by_cases defined : Defined op r
    case neg =>
      rw [if_neg defined] at given
      cases given
    rw [if_pos defined] at given
    cases given
    have first : left.valueBy applyUnary values = some l := ihLeft leftEq fitsLeft
    have second : right.valueBy applyUnary values = some r := ihRight rightEq fitsRight
    rw [Tree.eval, Tree.valueBy, first, second, ← apply_eq defined (fitsHere l r leftEq rightEq)]
    rfl

end ClickDoom.Csource

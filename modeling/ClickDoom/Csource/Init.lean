import ClickDoom.Csource.Written

/-! # Braced initializers

`native/src/csource/init.rs`.  An initializer is read as a tree of token runs, none of them
evaluated, and an array as its bounds and its initializer.  A cursor into the tokens is what is left
of them; a loop that takes at least one token each time round is given the number of tokens left.
-/
namespace ClickDoom.Csource

/-- `Node`: a run of tokens between separators, or a braced list. -/
inductive Node
  | leaf (line : Nat) (toks : List Tok)
  | list (line : Nat) (items : List Node)

/-- `Array`: a bound is none for a `[]` without one. -/
structure CArray where
  bounds : List (Option Int64)
  root : Node

/-! ## The reader -/

/-- What a token adds to the depth of the parentheses. -/
def nesting (token : Token) : Int :=
  if token = .punct ['('] ∨ token = .punct ['['] then 1
  else if token = .punct [')'] ∨ token = .punct [']'] then -1
  else 0

/-- `leaf_end`: the leaf up to the next `,` or `}` outside parentheses, and what is left. -/
def leafEnd : Int → List Tok → List Tok × List Tok
  | _, [] => ([], [])
  | depth, tok :: rest =>
    if (tok.token = .punct [','] ∨ tok.token = .punct ['}']) ∧ depth = 0 then ([], tok :: rest)
    else
      let (leaf, left) := leafEnd (depth + nesting tok.token) rest
      (tok :: leaf, left)

/-- `read_node`, by a reader of what is inside its brace. -/
def readNodeWith (items : List Tok → List Node × List Tok) : List Tok → Node × List Tok
  | [] => (.leaf 0 [], [])
  | tok :: rest =>
    if tok.token = .punct ['{'] then
      let (nodes, left) := items rest
      (.list tok.line nodes, left)
    else
      let (leaf, left) := leafEnd 0 (tok :: rest)
      (.leaf tok.line leaf, left)

/-- The loop of `read_node`, from past its brace to past the brace that closes it. -/
def readItems : Nat → List Tok → List Node × List Tok
  | 0, toks => ([], toks)
  | _ + 1, [] => ([], [])
  | fuel + 1, tok :: rest =>
    if tok.token = .punct ['}'] then ([], rest)
    else if tok.token = .punct [','] then readItems fuel rest
    else
      let (node, left) := readNodeWith (readItems fuel) (tok :: rest)
      let (nodes, left) := readItems fuel left
      (node :: nodes, left)

/-- `read_node`. -/
def readNode (toks : List Tok) : Node × List Tok := readNodeWith (readItems (toks.length + 1)) toks

section
variable (file : List Char) (symbols : Table)

/-- What stands between two brackets. -/
def boundOf (inside : List Tok) : Panics CError (Option Int64) :=
  if inside = [] then .ok none else some <$> eval file inside symbols

/-- The loop of `read_bounds`. -/
def boundsLoop : Nat → List Tok → Panics CError (List (Option Int64) × List Tok)
  | 0, toks => .ok ([], toks)
  | _ + 1, [] => .ok ([], [])
  | fuel + 1, tok :: rest =>
    if tok.token = .punct ['['] then do
      let inside := rest.takeWhile fun t => t.token ≠ .punct [']']
      let bound ← boundOf file symbols inside
      let (bounds, left) ← boundsLoop fuel (rest.drop (inside.length + 1))
      return (bound :: bounds, left)
    else .ok ([], tok :: rest)

/-- `read_bounds`: none where no bound follows. -/
def readBounds (toks : List Tok) : Panics CError (Option (List (Option Int64) × List Tok)) := do
  let (bounds, left) ← boundsLoop file symbols (toks.length + 1) toks
  return if bounds = [] then none else some (bounds, left)

/-- The array declared by the tokens after a name, if they declare one. -/
def declared (toks : List Tok) : Panics CError (Option CArray) := do
  match ← readBounds file symbols toks with
  | none => return none
  | some (bounds, left) =>
    match left with
    | [] => return none
    | tok :: rest =>
      if tok.token = .punct ['='] then
        match (readNode rest).1 with
        | .list line items => return some ⟨bounds, .list line items⟩
        | .leaf _ _ => return none
      else return none

/-- `find_array`. -/
def findArray (name : List Char) : List Tok → Panics CError CArray
  | [] => Panics.fail (.noArray file name)
  | tok :: rest =>
    if tok.token = .ident name then do
      match ← declared file symbols rest with
      | some array => return array
      | none => findArray name rest
    else findArray name rest

end

/-! ## The loops end by themselves -/

theorem length_leafEnd (depth : Int) (toks : List Tok) :
    (leafEnd depth toks).2.length ≤ toks.length := by
  induction toks generalizing depth with
  | nil => exact Nat.le_refl _
  | cons tok rest ih =>
    rw [leafEnd]
    split
    · exact Nat.le_refl _
    · exact Nat.le_succ_of_le (ih _)

/-- A leaf takes at least the token it starts with, when that is no separator. -/
theorem length_leafEnd_cons {tok : Tok} (rest : List Tok) (comma : tok.token ≠ .punct [','])
    (brace : tok.token ≠ .punct ['}']) : (leafEnd 0 (tok :: rest)).2.length ≤ rest.length := by
  rw [leafEnd, if_neg fun h => h.1.elim comma brace]
  exact length_leafEnd _ _

theorem length_readNodeWith {items : List Tok → List Node × List Tok} {tok : Tok} {rest : List Tok}
    (shorter : (items rest).2.length ≤ rest.length) (comma : tok.token ≠ .punct [','])
    (brace : tok.token ≠ .punct ['}']) :
    (readNodeWith items (tok :: rest)).2.length ≤ rest.length := by
  rw [readNodeWith]
  split
  · exact shorter
  · exact length_leafEnd_cons rest comma brace

theorem length_readItems (fuel : Nat) (toks : List Tok) :
    (readItems fuel toks).2.length ≤ toks.length := by
  induction fuel generalizing toks with
  | zero => exact Nat.le_refl _
  | succ fuel ih =>
    cases toks with
    | nil => exact Nat.le_refl _
    | cons tok rest =>
      rw [readItems]
      split
      case isTrue => exact Nat.le_succ _
      case isFalse brace =>
        split
        case isTrue => exact Nat.le_succ_of_le (ih rest)
        case isFalse comma =>
          exact Nat.le_succ_of_le
            ((ih _).trans (length_readNodeWith (ih rest) comma brace))

/-- More depth than tokens changes nothing. -/
theorem readItems_of_lt {fuel more : Nat} {toks : List Tok} (enough : toks.length < fuel)
    (le : fuel ≤ more) : readItems more toks = readItems fuel toks := by
  induction fuel generalizing more toks with
  | zero => omega
  | succ fuel ih =>
    obtain ⟨more, rfl⟩ : ∃ n, more = n + 1 := ⟨more - 1, by omega⟩
    cases toks with
    | nil => rfl
    | cons tok rest =>
      rw [List.length_cons] at enough
      rw [readItems, readItems]
      split
      case isTrue => rfl
      case isFalse brace =>
        split
        case isTrue => exact ih (by omega) (by omega)
        case isFalse comma =>
          have node : readNodeWith (readItems more) (tok :: rest) =
              readNodeWith (readItems fuel) (tok :: rest) := by
            rw [readNodeWith, readNodeWith, ih (by omega) (by omega)]
          have shorter : (readNodeWith (readItems fuel) (tok :: rest)).2.length ≤ rest.length :=
            length_readNodeWith (length_readItems fuel rest) comma brace
          have items : readItems more (readNodeWith (readItems fuel) (tok :: rest)).2 =
              readItems fuel (readNodeWith (readItems fuel) (tok :: rest)).2 :=
            ih (by omega) (by omega)
          simp only [node, items]

theorem boundsLoop_of_lt (file : List Char) (symbols : Table) {fuel more : Nat} {toks : List Tok}
    (enough : toks.length < fuel) (le : fuel ≤ more) :
    boundsLoop file symbols more toks = boundsLoop file symbols fuel toks := by
  induction fuel generalizing more toks with
  | zero => omega
  | succ fuel ih =>
    obtain ⟨more, rfl⟩ : ∃ n, more = n + 1 := ⟨more - 1, by omega⟩
    cases toks with
    | nil => rfl
    | cons tok rest =>
      rw [List.length_cons] at enough
      rw [boundsLoop, boundsLoop]
      have next : ∀ n, boundsLoop file symbols more (rest.drop n) =
          boundsLoop file symbols fuel (rest.drop n) := fun n => by
        refine ih ?_ (by omega)
        rw [List.length_drop]
        omega
      simp only [next]

/-! ## Initializers as C writes them -/

/-- An initializer: the tokens of a leaf, or the items of a list. -/
inductive Init
  | leaf (spelled : List Token)
  | list (items : List Init)

mutual

/-- An initializer without its lines. -/
def Node.init : Node → Init
  | .leaf _ toks => .leaf (tokens toks)
  | .list _ items => .list (Node.inits items)

def Node.inits : List Node → List Init
  | [] => []
  | node :: nodes => node.init :: Node.inits nodes

end

/-- A leaf is an expression, a name among them, or a string. -/
inductive LeafSpelling : List Token → Prop
  | tree {tree : Tree} {spelled : List Token} : Spelling 0 tree spelled → LeafSpelling spelled
  | text (text : List Char) : LeafSpelling [.str text]

/-- The tokens items are spelled with: a comma between two of them, and perhaps one after the
last. -/
inductive ItemsSpelling : List Init → List Token → Prop
  | nil : ItemsSpelling [] []
  | leaf {spelled : List Token} : LeafSpelling spelled → ItemsSpelling [.leaf spelled] spelled
  | leafCons {spelled more : List Token} {items : List Init} :
    LeafSpelling spelled → ItemsSpelling items more →
      ItemsSpelling (.leaf spelled :: items) (spelled ++ .punct [','] :: more)
  | list {inner : List Init} {spelled : List Token} :
    ItemsSpelling inner spelled →
      ItemsSpelling [.list inner] (.punct ['{'] :: (spelled ++ [.punct ['}']]))
  | listCons {inner items : List Init} {spelled more : List Token} :
    ItemsSpelling inner spelled → ItemsSpelling items more →
      ItemsSpelling (.list inner :: items)
        (.punct ['{'] :: (spelled ++ .punct ['}'] :: .punct [','] :: more))

/-- The tokens bounds are spelled with. -/
inductive BoundsSpelling : List (Option Tree) → List Token → Prop
  | nil : BoundsSpelling [] []
  | none {bounds : List (Option Tree)} {more : List Token} :
    BoundsSpelling bounds more →
      BoundsSpelling (none :: bounds) (.punct ['['] :: .punct [']'] :: more)
  | some {tree : Tree} {bounds : List (Option Tree)} {spelled more : List Token} :
    Spelling 0 tree spelled → BoundsSpelling bounds more →
      BoundsSpelling (some tree :: bounds) (.punct ['['] :: (spelled ++ .punct [']'] :: more))

/-- The value C gives a bound. -/
def cBound (values : List Char → Option Int64) : Option Tree → Option (Option Int64)
  | none => some none
  | some tree => (tree.cEval values).map some

/-! ## Token runs -/

/-- What ends a leaf or a bound, or begins a list or an initializer. -/
def separators : List (List Char) := [[','], ['}'], ['{'], ['='], ['['], [']']]

/-- An expression has none of the separators in it. -/
theorem Spelling.not_separator {level : Nat} {tree : Tree} {spelled : List Token}
    (spelling : Spelling level tree spelled) {text : List Char} (separator : text ∈ separators) :
    .punct text ∉ spelled := by
  induction spelling with
  | int value => simp
  | symbol name => simp
  | parens _ ih =>
    simp only [List.cons_append, List.mem_cons, List.mem_append, Token.punct.injEq,
      List.not_mem_nil, or_false, not_or]
    exact ⟨fun h => absurd separator (by rw [h]; decide), ih,
      fun h => absurd separator (by rw [h]; decide)⟩
  | unary op _ ih =>
    simp only [List.mem_cons, Token.punct.injEq, not_or]
    exact ⟨fun h => absurd separator (by rw [h]; cases op <;> decide), ih⟩
  | binary op _ _ ihLeft ihRight =>
    simp only [List.mem_cons, List.mem_append, Token.punct.injEq, not_or]
    exact ⟨ihLeft, fun h => absurd separator (by rw [h]; cases op <;> decide), ihRight⟩
  | lift _ _ ih => exact ih

theorem Spelling.ne_nil {level : Nat} {tree : Tree} {spelled : List Token}
    (spelling : Spelling level tree spelled) : spelled ≠ [] := by
  induction spelling with
  | lift _ _ ih => exact ih
  | _ => simp

theorem LeafSpelling.not_separator {spelled : List Token} (leaf : LeafSpelling spelled)
    {text : List Char} (separator : text ∈ separators) : .punct text ∉ spelled := by
  cases leaf with
  | tree spelling => exact spelling.not_separator separator
  | text text => simp

theorem LeafSpelling.ne_nil {spelled : List Token} (leaf : LeafSpelling spelled) :
    spelled ≠ [] := by
  cases leaf with
  | tree spelling => exact spelling.ne_nil
  | text text => simp

/-- Tokens that are read as two runs are two runs of tokens. -/
theorem tokens_eq_append {toks : List Tok} {left right : List Token}
    (eq : tokens toks = left ++ right) :
    ∃ before after, toks = before ++ after ∧ tokens before = left ∧ tokens after = right :=
  List.map_eq_append_iff.1 eq

theorem tokens_eq_cons {toks : List Tok} {token : Token} {right : List Token}
    (eq : tokens toks = token :: right) :
    ∃ tok after, toks = tok :: after ∧ tok.token = token ∧ tokens after = right :=
  List.map_eq_cons_iff.1 eq

theorem leafEnd_cons {tok : Tok} (comma : tok.token ≠ .punct [','])
    (brace : tok.token ≠ .punct ['}']) (depth : Int) (rest : List Tok) :
    leafEnd depth (tok :: rest) = (tok :: (leafEnd (depth + nesting tok.token) rest).1,
      (leafEnd (depth + nesting tok.token) rest).2) := by
  rw [leafEnd, if_neg fun h => h.1.elim comma brace]

/-- A token that is neither a separator nor a parenthesis is part of the leaf. -/
theorem leafEnd_flat {tok : Tok} (comma : tok.token ≠ .punct [','])
    (brace : tok.token ≠ .punct ['}']) (flat : nesting tok.token = 0) (depth : Int) (rest : List Tok) :
    leafEnd depth (tok :: rest) = (tok :: (leafEnd depth rest).1, (leafEnd depth rest).2) := by
  rw [leafEnd_cons comma brace, flat, Int.add_zero]

/-- An expression leaves the depth as it was. -/
theorem leafEnd_spelling {level : Nat} {tree : Tree} {spelled : List Token}
    (spelling : Spelling level tree spelled) {toks : List Tok} (eq : tokens toks = spelled)
    (depth : Int) (rest : List Tok) :
    leafEnd depth (toks ++ rest) = (toks ++ (leafEnd depth rest).1, (leafEnd depth rest).2) := by
  induction spelling generalizing toks depth rest with
  | int value =>
    obtain ⟨tok, after, rfl, token, nil⟩ := tokens_eq_cons eq
    obtain rfl := List.map_eq_nil_iff.1 nil
    exact leafEnd_flat (by rw [token]; nofun) (by rw [token]; nofun) (by rw [token]; rfl) depth rest
  | symbol name =>
    obtain ⟨tok, after, rfl, token, nil⟩ := tokens_eq_cons eq
    obtain rfl := List.map_eq_nil_iff.1 nil
    exact leafEnd_flat (by rw [token]; nofun) (by rw [token]; nofun) (by rw [token]; rfl) depth rest
  | parens _ ih =>
    obtain ⟨opening, after, rfl, opens, eq⟩ := tokens_eq_cons eq
    obtain ⟨inner, close, rfl, innerEq, eq⟩ := tokens_eq_append eq
    obtain ⟨closing, after, rfl, closes, nil⟩ := tokens_eq_cons eq
    obtain rfl := List.map_eq_nil_iff.1 nil
    have up : nesting opening.token = 1 := by rw [opens]; rfl
    have down : nesting closing.token = -1 := by rw [closes]; rfl
    rw [List.cons_append, List.append_assoc, leafEnd_cons (by rw [opens]; decide)
      (by rw [opens]; decide), ih innerEq, List.singleton_append, leafEnd_cons
      (by rw [closes]; decide) (by rw [closes]; decide), up, down, Int.add_neg_cancel_right]
    simp
  | unary op _ ih =>
    obtain ⟨tok, after, rfl, token, eq⟩ := tokens_eq_cons eq
    rw [List.cons_append, leafEnd_flat (by rw [token]; cases op <;> decide)
      (by rw [token]; cases op <;> decide) (by rw [token]; cases op <;> rfl), ih eq]
    rfl
  | binary op _ _ ihLeft ihRight =>
    obtain ⟨left, after, rfl, leftEq, eq⟩ := tokens_eq_append eq
    obtain ⟨tok, right, rfl, token, rightEq⟩ := tokens_eq_cons eq
    rw [List.append_assoc, List.cons_append, ihLeft leftEq, leafEnd_flat
      (by rw [token]; cases op <;> decide) (by rw [token]; cases op <;> decide)
      (by rw [token]; cases op <;> rfl), ihRight rightEq]
    simp
  | lift _ _ ih => exact ih eq depth rest

/-- A leaf is read up to the separator after it. -/
theorem leafEnd_leaf {spelled : List Token} (leaf : LeafSpelling spelled) {toks : List Tok}
    (eq : tokens toks = spelled) {tok : Tok}
    (ends : tok.token = .punct [','] ∨ tok.token = .punct ['}']) (rest : List Tok) :
    leafEnd 0 (toks ++ tok :: rest) = (toks, tok :: rest) := by
  have here : leafEnd 0 (tok :: rest) = ([], tok :: rest) := by rw [leafEnd, if_pos ⟨ends, rfl⟩]
  cases leaf with
  | tree spelling => rw [leafEnd_spelling spelling eq, here, List.append_nil]
  | text text =>
    obtain ⟨string, after, rfl, token, nil⟩ := tokens_eq_cons eq
    obtain rfl := List.map_eq_nil_iff.1 nil
    rw [List.singleton_append, leafEnd_flat (by rw [token]; nofun) (by rw [token]; nofun)
      (by rw [token]; rfl), here]

/-! ## The initializer is read back -/

/-- A leaf among items, up to the separator after it. -/
theorem readItems_leaf {spelled : List Token} (leaf : LeafSpelling spelled) {toks : List Tok}
    (eq : tokens toks = spelled) {tok : Tok}
    (ends : tok.token = .punct [','] ∨ tok.token = .punct ['}']) (rest : List Tok) (fuel : Nat) :
    ∃ line, readItems (fuel + 1) (toks ++ tok :: rest) =
      (.leaf line toks :: (readItems fuel (tok :: rest)).1, (readItems fuel (tok :: rest)).2) := by
  have read := leafEnd_leaf leaf eq ends rest
  cases toks with
  | nil => exact absurd eq.symm leaf.ne_nil
  | cons first more =>
    have not : ∀ text ∈ separators, first.token ≠ .punct text := fun text separator same =>
      leaf.not_separator separator (by rw [← eq, ← same]; exact List.mem_cons_self)
    refine ⟨first.line, ?_⟩
    rw [List.cons_append, readItems, if_neg (not _ (by decide)), if_neg (not _ (by decide)),
      readNodeWith, if_neg (not _ (by decide)), ← List.cons_append, read]

/-- A braced list among items. -/
theorem readItems_list {opening : Tok} (opens : opening.token = .punct ['{']) (rest : List Tok)
    (fuel : Nat) :
    readItems (fuel + 1) (opening :: rest) =
      (.list opening.line (readItems fuel rest).1 :: (readItems fuel (readItems fuel rest).2).1,
        (readItems fuel (readItems fuel rest).2).2) := by
  rw [readItems, if_neg (by rw [opens]; decide), if_neg (by rw [opens]; decide), readNodeWith,
    if_pos opens]

theorem readItems_comma {comma : Tok} (isComma : comma.token = .punct [',']) (rest : List Tok)
    (fuel : Nat) : readItems (fuel + 1) (comma :: rest) = readItems fuel rest := by
  rw [readItems, if_neg (by rw [isComma]; decide), if_pos isComma]

theorem readItems_close {close : Tok} (closes : close.token = .punct ['}']) (rest : List Tok)
    (fuel : Nat) : readItems (fuel + 1) (close :: rest) = ([], rest) := by
  rw [readItems, if_pos closes]

/-- Spelled items are read back, up to past the brace that closes them. -/
theorem readItems_spelling {items : List Init} {spelled : List Token}
    (spelling : ItemsSpelling items spelled) {toks : List Tok} (eq : tokens toks = spelled)
    {close : Tok} (closes : close.token = .punct ['}']) (rest : List Tok) {fuel : Nat}
    (enough : toks.length + 1 < fuel) :
    ∃ nodes, readItems fuel (toks ++ close :: rest) = (nodes, rest) ∧
      Node.inits nodes = items := by
  induction spelling generalizing toks close rest fuel with
  | nil =>
    obtain rfl := List.map_eq_nil_iff.1 eq
    obtain ⟨fuel, rfl⟩ : ∃ n, fuel = n + 1 := ⟨fuel - 1, by omega⟩
    exact ⟨[], readItems_close closes rest fuel, rfl⟩
  | leaf leaf =>
    obtain ⟨fuel, rfl⟩ : ∃ n, fuel = n + 2 := ⟨fuel - 2, by omega⟩
    obtain ⟨line, read⟩ := readItems_leaf leaf eq (.inr closes) rest (fuel + 1)
    refine ⟨[.leaf line toks], ?_, by rw [← eq]; rfl⟩
    rw [read, readItems_close closes]
  | leafCons leaf _ ih =>
    obtain ⟨run, after, rfl, runEq, eq⟩ := tokens_eq_append eq
    obtain ⟨comma, after, rfl, isComma, moreEq⟩ := tokens_eq_cons eq
    rw [List.length_append, List.length_cons] at enough
    obtain ⟨fuel, rfl⟩ : ∃ n, fuel = n + 2 := ⟨fuel - 2, by omega⟩
    obtain ⟨nodes, readMore, shape⟩ := ih moreEq closes rest (show _ < fuel by
      have := leaf.ne_nil
      rw [← runEq] at this
      have := List.length_pos_iff.2 fun nil => this (List.map_eq_nil_iff.2 nil)
      omega)
    obtain ⟨line, read⟩ :=
      readItems_leaf leaf runEq (.inl isComma) (after ++ close :: rest) (fuel + 1)
    refine ⟨.leaf line run :: nodes, ?_, ?_⟩
    · rw [List.append_assoc, List.cons_append, read, readItems_comma isComma, readMore]
    · rw [Node.inits, shape, ← runEq]
      rfl
  | list _ ih =>
    obtain ⟨opening, after, rfl, opens, eq⟩ := tokens_eq_cons eq
    obtain ⟨inner, after, rfl, innerEq, eq⟩ := tokens_eq_append eq
    obtain ⟨closing, after, rfl, closing_eq, nil⟩ := tokens_eq_cons eq
    obtain rfl := List.map_eq_nil_iff.1 nil
    rw [List.length_cons, List.length_append, List.length_singleton] at enough
    obtain ⟨fuel, rfl⟩ : ∃ n, fuel = n + 2 := ⟨fuel - 2, by omega⟩
    obtain ⟨nodes, readInner, shape⟩ :=
      ih innerEq closing_eq (close :: rest) (show _ < fuel + 1 by omega)
    refine ⟨[.list opening.line nodes], ?_, ?_⟩
    · rw [List.cons_append, List.append_assoc, List.singleton_append, readItems_list opens,
        readInner, readItems_close closes]
    · rw [Node.inits, Node.init, shape]
      rfl
  | listCons _ _ ihInner ihMore =>
    obtain ⟨opening, after, rfl, opens, eq⟩ := tokens_eq_cons eq
    obtain ⟨inner, after, rfl, innerEq, eq⟩ := tokens_eq_append eq
    obtain ⟨closing, after, rfl, closing_eq, eq⟩ := tokens_eq_cons eq
    obtain ⟨comma, after, rfl, isComma, moreEq⟩ := tokens_eq_cons eq
    rw [List.length_cons, List.length_append, List.length_cons, List.length_cons] at enough
    obtain ⟨fuel, rfl⟩ : ∃ n, fuel = n + 2 := ⟨fuel - 2, by omega⟩
    obtain ⟨nodes, readInner, shape⟩ :=
      ihInner innerEq closing_eq (comma :: (after ++ close :: rest)) (show _ < fuel + 1 by omega)
    obtain ⟨more, readMore, shapeMore⟩ := ihMore moreEq closes rest (show _ < fuel by omega)
    refine ⟨.list opening.line nodes :: more, ?_, ?_⟩
    · rw [List.cons_append, List.append_assoc, List.cons_append, List.cons_append,
        readItems_list opens, readInner, readItems_comma isComma, readMore]
    · rw [Node.inits, Node.init, shape, shapeMore]

theorem readNode_list {items : List Init} {spelled : List Token}
    (spelling : ItemsSpelling items spelled) {toks : List Tok} (eq : tokens toks = spelled)
    {opening close : Tok} (opens : opening.token = .punct ['{'])
    (closes : close.token = .punct ['}']) (rest : List Tok) :
    ∃ nodes, readNode (opening :: (toks ++ close :: rest)) = (.list opening.line nodes, rest) ∧
      Node.inits nodes = items := by
  obtain ⟨nodes, read, shape⟩ := readItems_spelling spelling eq closes rest
    (show _ < (opening :: (toks ++ close :: rest)).length + 1 by simp)
  refine ⟨nodes, ?_, shape⟩
  rw [readNode, readNodeWith, if_pos opens, read]

/-! ## The bounds are read back -/

section
variable {file : List Char} {symbols : Table}

/-- A run of tokens up to the bracket that closes it. -/
theorem takeWhile_bound {spelled : List Token} (inside : .punct [']'] ∉ spelled) {toks : List Tok}
    (eq : tokens toks = spelled) {close : Tok} (closes : close.token = .punct [']'])
    (rest : List Tok) :
    (toks ++ close :: rest).takeWhile (fun t => t.token ≠ .punct [']']) = toks := by
  rw [List.takeWhile_append_of_pos fun tok mem => ?_, List.takeWhile_cons_of_neg (by simp [closes]),
    List.append_nil]
  refine decide_eq_true fun closing => inside ?_
  rw [← eq, ← closing]
  exact List.mem_map_of_mem mem

theorem boundsLoop_stop {toks : List Tok} (ends : (tokens toks).head? ≠ some (.punct ['[']))
    (fuel : Nat) : boundsLoop file symbols (fuel + 1) toks = .ok ([], toks) := by
  cases toks with
  | nil => rfl
  | cons tok rest => rw [boundsLoop, if_neg fun same => ends (congrArg some same)]

/-- One bound, up to past its bracket. -/
theorem boundsLoop_step {inside : List Tok} {opening close : Tok}
    (opens : opening.token = .punct ['[']) (closes : close.token = .punct [']'])
    (flat : .punct [']'] ∉ tokens inside) (rest : List Tok) (fuel : Nat) :
    boundsLoop file symbols (fuel + 1) (opening :: (inside ++ close :: rest)) = (do
      let bound ← boundOf file symbols inside
      let (bounds, left) ← boundsLoop file symbols fuel rest
      return (bound :: bounds, left)) := by
  have past : (inside ++ close :: rest).drop (inside.length + 1) = rest := by
    rw [← List.drop_drop, List.drop_left, List.drop_one, List.tail_cons]
  rw [boundsLoop, if_pos opens, takeWhile_bound flat rfl closes]
  simp only [past]

theorem mapM_cons_some {α β : Type} {f : α → Option β} {item : α} {items : List α} {values : List β}
    (given : (item :: items).mapM f = some values) :
    ∃ value more, f item = some value ∧ items.mapM f = some more ∧ values = value :: more := by
  rw [List.mapM_cons] at given
  obtain ⟨value, here, given⟩ := Option.bind_eq_some_iff.1 given
  obtain ⟨more, after, given⟩ := Option.bind_eq_some_iff.1 given
  cases given
  exact ⟨value, more, here, after, rfl⟩

/-- A bound is read as C gives it, where no minus and no quotient overflows. -/
theorem boundOf_spelling {tree : Tree} {toks : List Tok} (spelling : Spelling 0 tree (tokens toks))
    {value : Option Int64} (given : cBound symbols.values (some tree) = some value)
    (fits : tree.Fits symbols.values) : boundOf file symbols toks = .ok value := by
  obtain ⟨found, foundEq, rfl⟩ := Option.map_eq_some_iff.1 given
  have some_token : toks ≠ [] := fun nil => spelling.ne_nil (by rw [nil]; rfl)
  rw [boundOf, if_neg some_token, eval_spelling spelling (Tree.eval_of_cEval foundEq fits)]
  rfl

/-- Spelled bounds are read as C gives them, where no minus and no quotient overflows. -/
theorem boundsLoop_spelling {bounds : List (Option Tree)} {spelled : List Token}
    (spelling : BoundsSpelling bounds spelled) {values : List (Option Int64)}
    (given : bounds.mapM (cBound symbols.values) = some values)
    (fits : ∀ tree, some tree ∈ bounds → tree.Fits symbols.values) {toks : List Tok}
    (eq : tokens toks = spelled) {rest : List Tok}
    (ends : (tokens rest).head? ≠ some (.punct ['['])) {fuel : Nat} (enough : toks.length < fuel) :
    boundsLoop file symbols fuel (toks ++ rest) = .ok (values, rest) := by
  induction spelling generalizing values toks fuel with
  | nil =>
    obtain rfl := List.map_eq_nil_iff.1 eq
    obtain ⟨fuel, rfl⟩ : ∃ n, fuel = n + 1 := ⟨fuel - 1, by omega⟩
    cases given
    exact boundsLoop_stop ends fuel
  | none _ ih =>
    obtain ⟨opening, after, rfl, opens, eq⟩ := tokens_eq_cons eq
    obtain ⟨closing, after, rfl, closes, moreEq⟩ := tokens_eq_cons eq
    rw [List.length_cons, List.length_cons] at enough
    obtain ⟨fuel, rfl⟩ : ∃ n, fuel = n + 1 := ⟨fuel - 1, by omega⟩
    obtain ⟨value, more, here, moreGiven, rfl⟩ := mapM_cons_some given
    cases here
    have next := ih moreGiven (fun tree mem => fits tree (List.mem_cons_of_mem _ mem)) moreEq
      (show _ < fuel by omega)
    rw [List.cons_append, List.cons_append, ← List.nil_append (closing :: (after ++ rest)),
      boundsLoop_step opens closes List.not_mem_nil, next]
    rfl
  | some bound _ ih =>
    obtain ⟨opening, after, rfl, opens, eq⟩ := tokens_eq_cons eq
    obtain ⟨inside, after, rfl, insideEq, eq⟩ := tokens_eq_append eq
    obtain ⟨closing, after, rfl, closes, moreEq⟩ := tokens_eq_cons eq
    rw [List.length_cons, List.length_append, List.length_cons] at enough
    obtain ⟨fuel, rfl⟩ : ∃ n, fuel = n + 1 := ⟨fuel - 1, by omega⟩
    obtain ⟨value, more, here, moreGiven, rfl⟩ := mapM_cons_some given
    have next := ih moreGiven (fun tree mem => fits tree (List.mem_cons_of_mem _ mem)) moreEq
      (show _ < fuel by omega)
    rw [← insideEq] at bound
    have flat : .punct [']'] ∉ tokens inside := bound.not_separator (by decide)
    rw [List.cons_append, List.append_assoc, List.cons_append, boundsLoop_step opens closes flat,
      boundOf_spelling bound here (fits _ List.mem_cons_self), Panics.ok_bind, next]
    rfl

/-! ## The declaration is found -/

/-- Tokens after a mention of a name that declare no array: perhaps bounds, and then no
initializer. -/
def PassedOver (symbols : Table) (toks : List Token) : Prop :=
  ∃ bounds spelled rest values, toks = spelled ++ rest ∧ BoundsSpelling bounds spelled ∧
    bounds.mapM (cBound symbols.values) = some values ∧
    (∀ tree, some tree ∈ bounds → tree.Fits symbols.values) ∧
    rest.head? ≠ some (.punct ['[']) ∧
    (bounds = [] ∨ ∀ more, rest ≠ .punct ['='] :: .punct ['{'] :: more)

/-- An array declaration somewhere among tokens. -/
structure Declaration where
  before : List Token
  name : List Char
  bounds : List (Option Tree)
  boundTokens : List Token
  items : List Init
  itemTokens : List Token
  after : List Token
  bounded : bounds ≠ []
  bounds_spelled : BoundsSpelling bounds boundTokens
  items_spelled : ItemsSpelling items itemTokens

/-- From the name on. -/
def Declaration.rest (decl : Declaration) : List Token :=
  decl.boundTokens ++
    .punct ['='] :: .punct ['{'] :: (decl.itemTokens ++ .punct ['}'] :: decl.after)

def Declaration.tokens (decl : Declaration) : List Token :=
  decl.before ++ .ident decl.name :: decl.rest

/-- Every mention before the declaration declares no array, with constants for its bounds. -/
def Declaration.First (symbols : Table) (decl : Declaration) : Prop :=
  ∀ left right, decl.before = left ++ .ident decl.name :: right →
    PassedOver symbols (right ++ .ident decl.name :: decl.rest)

theorem readBounds_spelling {bounds : List (Option Tree)} {spelled : List Token}
    (spelling : BoundsSpelling bounds spelled) {values : List (Option Int64)}
    (given : bounds.mapM (cBound symbols.values) = some values)
    (fits : ∀ tree, some tree ∈ bounds → tree.Fits symbols.values) {toks : List Tok}
    (eq : tokens toks = spelled) {rest : List Tok}
    (ends : (tokens rest).head? ≠ some (.punct ['['])) :
    readBounds file symbols (toks ++ rest) =
      .ok (if bounds = [] then none else some (values, rest)) := by
  rw [readBounds, boundsLoop_spelling spelling given fits eq ends
    (show toks.length < _ by rw [List.length_append]; omega), Panics.ok_bind]
  have same : values = [] ↔ bounds = [] := by
    cases bounds with
    | nil =>
      cases given
      exact ⟨fun _ => rfl, fun _ => rfl⟩
    | cons bound bounds =>
      obtain ⟨value, more, -, -, rfl⟩ := mapM_cons_some given
      simp
  show Except.ok (if values = [] then _ else _) = _
  rw [if_congr same rfl rfl]

theorem declared_passedOver {toks : List Tok} (passed : PassedOver symbols (tokens toks)) :
    declared file symbols toks = .ok none := by
  obtain ⟨bounds, spelled, rest, values, eq, spelling, given, fits, ends, other⟩ := passed
  obtain ⟨run, after, rfl, runEq, rfl⟩ := tokens_eq_append eq
  rw [declared, readBounds_spelling spelling given fits runEq ends, Panics.ok_bind]
  by_cases none : bounds = []
  case pos => rw [if_pos none]; rfl
  rw [if_neg none]
  have nobrace := other.resolve_left none
  cases after with
  | nil => rfl
  | cons tok after =>
    show (if tok.token = .punct ['='] then _ else _) = _
    split
    case isFalse => rfl
    case isTrue equals =>
      have leaf : ∃ line toks, (readNode after).1 = .leaf line toks := by
        cases after with
        | nil => exact ⟨0, [], rfl⟩
        | cons first rest =>
          refine ⟨first.line, (leafEnd 0 (first :: rest)).1, ?_⟩
          rw [readNode, readNodeWith, if_neg fun brace => nobrace (tokens rest) ?_]
          rw [tokens, List.map_cons, List.map_cons, equals, brace]
          rfl
      obtain ⟨line, toks, leaf⟩ := leaf
      rw [leaf]
      rfl

theorem declared_declaration {decl : Declaration} {values : List (Option Int64)}
    (given : decl.bounds.mapM (cBound symbols.values) = some values)
    (fits : ∀ tree, some tree ∈ decl.bounds → tree.Fits symbols.values) {toks : List Tok}
    (eq : tokens toks = decl.rest) :
    ∃ array, declared file symbols toks = .ok (some array) ∧ array.bounds = values ∧
      array.root.init = .list decl.items := by
  obtain ⟨run, after, rfl, runEq, eq⟩ := tokens_eq_append eq
  have ends : (tokens after).head? ≠ some (.punct ['[']) := by
    rw [eq, List.head?_cons]
    decide
  obtain ⟨equals, after, rfl, isEquals, eq⟩ := tokens_eq_cons eq
  obtain ⟨opening, after, rfl, opens, eq⟩ := tokens_eq_cons eq
  obtain ⟨inner, after, rfl, innerEq, eq⟩ := tokens_eq_append eq
  obtain ⟨closing, after, rfl, closes, -⟩ := tokens_eq_cons eq
  obtain ⟨nodes, read, shape⟩ := readNode_list decl.items_spelled innerEq opens closes after
  refine ⟨⟨values, .list opening.line nodes⟩, ?_, rfl, ?_⟩
  · rw [declared, readBounds_spelling decl.bounds_spelled given fits runEq ends, Panics.ok_bind,
      if_neg decl.bounded]
    show (if equals.token = .punct ['='] then _ else _) = _
    rw [if_pos isEquals, read]
    rfl
  · rw [Node.init, shape]

/-- Mentions that declare no array are passed over, up to one that does. -/
theorem findArray_of_passedOver {name : List Char} {tok : Tok} {after : List Tok} {array : CArray}
    (isName : tok.token = .ident name) (found : declared file symbols after = .ok (some array))
    {before : List Tok} (passed : ∀ left right, tokens before = left ++ .ident name :: right →
      PassedOver symbols (right ++ .ident name :: tokens after)) :
    findArray file symbols name (before ++ tok :: after) = .ok array := by
  induction before with
  | nil =>
    rw [List.nil_append, findArray, if_pos isName, found]
    rfl
  | cons head before ih =>
    have later := ih fun left right split =>
      passed (head.token :: left) right (by rw [List.cons_append, ← split]; rfl)
    rw [List.cons_append, findArray]
    split
    case isFalse => exact later
    case isTrue mention =>
      have here := passed [] (tokens before) (by rw [List.nil_append, ← mention]; rfl)
      have skipped : PassedOver symbols (tokens (before ++ tok :: after)) := by
        rw [tokens, List.map_append, List.map_cons, isName]
        exact here
      rw [declared_passedOver skipped, Panics.ok_bind]
      exact later

/-- The first declaration of a name is found, and read back. -/
theorem findArray_declaration {decl : Declaration} {values : List (Option Int64)}
    (given : decl.bounds.mapM (cBound symbols.values) = some values)
    (fits : ∀ tree, some tree ∈ decl.bounds → tree.Fits symbols.values)
    (first : decl.First symbols) {toks : List Tok} (eq : tokens toks = decl.tokens) :
    ∃ array, findArray file symbols decl.name toks = .ok array ∧ array.bounds = values ∧
      array.root.init = .list decl.items := by
  obtain ⟨before, after, rfl, beforeEq, eq⟩ := tokens_eq_append eq
  obtain ⟨tok, after, rfl, isName, restEq⟩ := tokens_eq_cons eq
  obtain ⟨array, found, bounds, shape⟩ := declared_declaration given fits restEq
  refine ⟨array, findArray_of_passedOver isName found ?_, bounds, shape⟩
  rw [beforeEq, restEq]
  exact first

end

/-! ## Reading what the compiler reads -/

/-- An expression is read as the value C gives it, and an array as its bounds and its initializer,
where no literal is octal and past seven or decimal and past 63 bits, no minus and no quotient
overflows, strings and comments are plain, and no subscript before the declaration is a variable. -/
theorem reads_as_c (file : List Char) (symbols : Table) :
    (∀ source : Source, source.Valid → source.Plain →
      ∃ toks, lex file source.text = .ok toks ∧ tokens toks = source.tokens ∧
        ∀ tree value, Spelling 0 tree source.tokens → tree.cEval symbols.values = some value →
          tree.Fits symbols.values → eval file toks symbols = .ok value) ∧
    ∀ (decl : Declaration) (values : List (Option Int64)) (toks : List Tok),
      tokens toks = decl.tokens → decl.bounds.mapM (cBound symbols.values) = some values →
      (∀ tree, some tree ∈ decl.bounds → tree.Fits symbols.values) → decl.First symbols →
      ∃ array, findArray file symbols decl.name toks = .ok array ∧ array.bounds = values ∧
        array.root.init = .list decl.items := by
  refine ⟨fun source valid plain => ?_, fun decl values toks eq given fits first =>
    findArray_declaration given fits first eq⟩
  obtain ⟨toks, lexed, eq⟩ := lex_source file valid plain
  refine ⟨toks, lexed, eq, fun tree value spelling given fits => ?_⟩
  rw [← eq] at spelling
  exact eval_spelling spelling (Tree.eval_of_cEval given fits)

/-- No names. -/
def bare : Table := ⟨fun _ => none, fun _ => false⟩

theorem Spelling.ground {tree : Tree} {spelled : List Token} (spelling : Spelling 7 tree spelled) :
    Spelling 0 tree spelled := by
  have down : ∀ level ≤ 7, Spelling (7 - level) tree spelled := by
    intro level le
    induction level with
    | zero => exact spelling
    | succ level ih => exact .lift (by omega) (by
        have above := ih (by omega)
        rwa [show 7 - (level + 1) + 1 = 7 - level by omega])
  exact down 7 (Nat.le_refl 7)

/-- `010`. -/
def octalTen : Source := ⟨[([], .int ['0', '1', '0'])], [], none⟩

/-- C reads eight, and the reader ten. -/
theorem octalTen_read : octalTen.Valid ∧ Spelling 0 (.int 8) octalTen.tokens ∧
    (Tree.int 8).cEval bare.values = some 8 ∧
    (do eval [] (← lex [] octalTen.text) bare) = .ok 10 := by
  refine ⟨⟨⟨nofun, ⟨⟨'0', ['1', '0'], rfl, rfl⟩, rfl, by decide +kernel⟩, nofun, trivial⟩, nofun,
    nofun⟩, ?_, rfl, by decide +kernel⟩
  have token : octalTen.tokens = [.int 8] := by decide +kernel
  rw [token]
  exact (Spelling.int 8).ground

/-- `-7 / 2`, with a blank and a comment in it. -/
def negativeHalf : Source :=
  ⟨[([], .punct ['-']), ([], .int ['7']), ([.space ' '], .punct ['/']),
    ([.space ' ', .block [' ']], .int ['2'])], [], none⟩

theorem negativeHalf_tree : Spelling 0 (.binary .div (.unary .neg (.int 7)) (.int 2))
    negativeHalf.tokens := by
  have token : negativeHalf.tokens = [.punct ['-'], .int 7] ++ .punct ['/'] :: [.int 2] := by
    decide +kernel
  have level : Spelling 5 (.binary .div (.unary .neg (.int 7)) (.int 2)) negativeHalf.tokens := by
    rw [token]
    exact .binary .div (.lift (by decide) (.unary .neg (.lift (by decide) (.int 7))))
      (.lift (by decide) (.int 2))
  exact .lift (by decide) (.lift (by decide) (.lift (by decide) (.lift (by decide)
    (.lift (by decide) level))))

/-- `int a[2] = {1, {"x"}, };` -/
def nestedArray : Declaration where
  before := [.ident ['i', 'n', 't']]
  name := ['a']
  bounds := [some (.int 2)]
  boundTokens := [.punct ['['], .int 2, .punct [']']]
  items := [.leaf [.int 1], .list [.leaf [.str ['x']]]]
  itemTokens := [.int 1, .punct [','], .punct ['{'], .str ['x'], .punct ['}'], .punct [',']]
  after := [.punct [';']]
  bounded := nofun
  bounds_spelled := .some (Spelling.int 2).ground .nil
  items_spelled := .leafCons (.tree (Spelling.int 1).ground)
    (.listCons (.leaf (.text ['x'])) .nil)

theorem nestedArray_first : nestedArray.First bare := by
  intro left right split
  have mention : Token.ident nestedArray.name ∈ nestedArray.before := by
    rw [split]
    exact List.mem_append_right _ List.mem_cons_self
  exact absurd mention (by decide)

/-- Both are read as C reads them. -/
theorem negativeHalf_nestedArray_read :
    (∃ toks, lex [] negativeHalf.text = .ok toks ∧ eval [] toks bare = .ok (-3)) ∧
    ∃ array, findArray [] bare ['a'] (nestedArray.tokens.map fun token => ⟨token, 1⟩) = .ok array ∧
      array.bounds = [some 2] ∧
      array.root.init = .list [.leaf [.int 1], .list [.leaf [.str ['x']]]] := by
  have read := reads_as_c [] bare
  constructor
  · have valid : negativeHalf.Valid := by
      refine ⟨⟨nofun, .inr ⟨'-', rfl, ?_⟩, ⟨?_, nofun⟩, nofun, ⟨⟨'7', [], rfl, rfl⟩, rfl, ?_⟩, ?_,
        ?_, .inr ⟨'/', rfl, ?_⟩, ⟨?_, ?_⟩, ?_, ⟨⟨'2', [], rfl, rfl⟩, rfl, ?_⟩, nofun, trivial⟩, nofun,
        nofun⟩
      · exact ⟨by decide, rfl, rfl, by decide⟩
      · decide +kernel
      · decide +kernel
      · intro c head
        cases head
        rfl
      · rw [List.forall_mem_singleton]
        exact rfl
      · exact ⟨by decide, rfl, rfl, by decide⟩
      · decide +kernel
      · decide +kernel
      · rw [List.forall_mem_cons, List.forall_mem_singleton]
        exact ⟨rfl, show _ = some 1 by decide +kernel⟩
      · decide +kernel
    have plain : negativeHalf.Plain := by
      refine ⟨?_, nofun, nofun⟩
      have seven : octalValue ['7'] = none ∧ decimalValue ['7'] = some 7 := by decide +kernel
      have two : octalValue ['2'] = none ∧ decimalValue ['2'] = some 2 := by decide +kernel
      simp [negativeHalf, Blank.Plain, Word.Plain, seven, two]
    have fits : (Tree.binary .div (.unary .neg (.int 7)) (.int 2)).Fits bare.values := by
      refine ⟨⟨trivial, fun v seven least => ?_⟩, trivial, fun l r _ right overflow => ?_⟩
      · cases seven
        exact absurd least.2 (by decide)
      · cases right
        exact absurd overflow.2.2 (by decide)
    obtain ⟨toks, lexed, -, value⟩ := read.1 negativeHalf valid plain
    exact ⟨toks, lexed, value _ _ negativeHalf_tree (by decide) fits⟩
  · refine read.2 nestedArray [some 2] _ (by decide) (by decide) ?_ nestedArray_first
    intro tree mem
    obtain rfl : tree = .int 2 := Option.some.inj (List.mem_singleton.1 mem)
    trivial

end ClickDoom.Csource

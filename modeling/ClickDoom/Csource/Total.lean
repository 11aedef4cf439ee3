import ClickDoom.Csource.Written

/-! # What the lexer does with every text

A text is read as lexemes: white space, comments and tokens.  The lexer steps over a byte at a time
in a string, in a character literal and at punctuation, so a character of more bytes is cut apart
there, and nowhere else.  A text without such a character is read or refused, and the lines of its
tokens count the newlines before them, as far as 32 bits go.
-/
namespace ClickDoom.Csource
open Native (isWhitespace trim)

/-! ## Lexemes -/

/-- A character of one byte. -/
def Ascii (c : Char) : Prop := c.toNat < 128

instance (c : Char) : Decidable (Ascii c) := inferInstanceAs (Decidable (_ < _))

/-- A run of characters of one kind ends here. -/
def Stops (p : Char → Bool) (rest : List Char) : Prop := ∀ c, rest.head? = some c → p c = false

/-- A directive after its `#`: the text, its lines joined, and what comes after it. -/
inductive Joined : List Char → List Char → List Char → Prop
  | last {line rest : List Char} : '\n' ∉ line → line.getLast? ≠ some '\\' → Stops (· ≠ '\n') rest →
    Joined line line rest
  | next {line text body rest : List Char} : '\n' ∉ line → Joined text body rest →
    Joined (line ++ '\\' :: '\n' :: text) (line ++ ' ' :: body) rest
  | cut {line : List Char} : '\n' ∉ line → Joined (line ++ ['\\']) (line ++ [' ']) []

/-- The inside of a string literal, and the text it stands for. -/
inductive Quoted : List Char → List Char → Prop
  | nil : Quoted [] []
  | plain {c : Char} {body text : List Char} : Ascii c → c ≠ '"' → c ≠ '\\' → Quoted body text →
    Quoted (c :: body) (c :: text)
  | escape {c : Char} {body text : List Char} : Ascii c → Quoted body text →
    Quoted ('\\' :: c :: body) (unescape c :: text)

/-- A character that starts no token but punctuation. -/
def Mark (c : Char) : Prop :=
  isWhitespace c = false ∧ c ≠ '#' ∧ c ≠ '"' ∧ c ≠ '\'' ∧ c.isDigit = false ∧ c ≠ '_' ∧
    c.isAlpha = false

instance (c : Char) : Decidable (Mark c) := inferInstanceAs (Decidable (_ ∧ _))

/-- A lexeme in front of a text, with the token it is. -/
inductive Lexeme : List Char → Option Token → List Char → Prop
  | space {run rest : List Char} : run ≠ [] → (∀ c ∈ run, isWhitespace c) →
    Stops isWhitespace rest → Lexeme run none rest
  | line {body rest : List Char} : '\n' ∉ body → Stops (· ≠ '\n') rest →
    Lexeme ('/' :: '/' :: body) none rest
  | block {body rest : List Char} :
    Text.find ['*', '/'] (body ++ (['*', '/'] ++ rest)) = some body.length →
    Lexeme ('/' :: '*' :: (body ++ ['*', '/'])) none rest
  | directive {text body rest : List Char} : Joined text body rest →
    Lexeme ('#' :: text) (some (.directive (trim body))) rest
  | string {body text rest : List Char} : Quoted body text →
    Lexeme ('"' :: (body ++ ['"'])) (some (.str text)) rest
  | char {c : Char} {rest : List Char} : Ascii c → c ≠ '\\' →
    Lexeme ['\'', c, '\''] (some (.int (Int64.ofNat c.toNat))) rest
  | escape {c : Char} {rest : List Char} : Ascii c →
    Lexeme ['\'', '\\', c, '\''] (some (.int (Int64.ofNat (unescape c).toNat))) rest
  | number {c : Char} {text rest : List Char} {value : Int64} : c.isDigit →
    (∀ d ∈ c :: text, d.isAlphanum) → Stops Char.isAlphanum rest →
    numberValue (c :: text) = some value → Lexeme (c :: text) (some (.int value)) rest
  | ident {c : Char} {name rest : List Char} : c = '_' ∨ c.isAlpha → (∀ d ∈ c :: name, identChar d) →
    Stops identChar rest → Lexeme (c :: name) (some (.ident (c :: name))) rest
  | digraph {text rest : List Char} : text ∈ digraphs → Lexeme text (some (.punct text)) rest
  | mark {c : Char} {rest : List Char} : Ascii c → Mark c →
    (∀ digraph ∈ digraphs, ¬digraph.isPrefixOf (c :: rest)) → ¬['/', '/'].isPrefixOf (c :: rest) →
    ¬['/', '*'].isPrefixOf (c :: rest) → Lexeme [c] (some (.punct [c])) rest

/-- A text as lexemes in front of a rest. -/
inductive Splits : List Char → List (List Char × Option Token) → List Char → Prop
  | nil {rest : List Char} : Splits rest [] rest
  | cons {run text rest : List Char} {token : Option Token}
    {lexemes : List (List Char × Option Token)} : Lexeme run token text →
    Splits text lexemes rest → Splits (run ++ text) ((run, token) :: lexemes) rest

/-- The tokens of lexemes, each with its line: the first lexeme starts on the line given, and every
newline starts another. -/
def located : Nat → List (List Char × Option Token) → List Tok
  | _, [] => []
  | line, (run, token) :: lexemes =>
    (token.map fun token => ⟨token, line⟩).toList ++ located (line + run.count '\n') lexemes

/-- A character of more than one byte stands where the lexer steps over one byte. -/
inductive Cutting : List Char → Prop
  | mark {c : Char} {rest : List Char} : ¬Ascii c → isWhitespace c = false → Cutting (c :: rest)
  | string {body text rest : List Char} {c : Char} : Quoted body text → ¬Ascii c →
    Cutting ('"' :: (body ++ c :: rest))
  | stringEscape {body text rest : List Char} {c : Char} : Quoted body text → ¬Ascii c →
    Cutting ('"' :: (body ++ '\\' :: c :: rest))
  | char {c : Char} {rest : List Char} : ¬Ascii c → Cutting ('\'' :: c :: rest)
  | escape {c : Char} {rest : List Char} : ¬Ascii c → Cutting ('\'' :: '\\' :: c :: rest)

/-- After some lexemes a character is cut apart. -/
def Cuts (text : List Char) : Prop := ∃ lexemes rest, Splits text lexemes rest ∧ Cutting rest

/-! ## Stepping over a run -/

/-- The line after a run. -/
def lineAfter (line : Nat) (run : List Char) : Nat := (line + run.count '\n') % 2 ^ 32

theorem lineAfter_append (line : Nat) (run more : List Char) :
    lineAfter line (run ++ more) = lineAfter (lineAfter line run) more := by
  simp only [lineAfter, List.count_append, Nat.mod_add_mod, Nat.add_assoc]

theorem lineAfter_cons (line : Nat) (c : Char) (run : List Char) :
    lineAfter line (c :: run) = lineAfter (lineAfter line [c]) run :=
  lineAfter_append line [c] run

theorem lineAfter_lt (line : Nat) (run : List Char) : lineAfter line run < 2 ^ 32 :=
  Nat.mod_lt _ (by decide)

theorem lineAfter_none {line : Nat} (narrow : line < 2 ^ 32) : lineAfter line [] = line :=
  Nat.mod_eq_of_lt narrow

theorem bump_length {n : Nat} {run : List Char} (long : run.length = n) (rest : List Char)
    (line : Nat) : (Lexer.mk (run ++ rest) line).bump n = ⟨rest, lineAfter line run⟩ := by
  rw [← long]
  exact bump_run run rest line

theorem bump_one (c : Char) (rest : List Char) (line : Nat) :
    (Lexer.mk (c :: rest) line).bump 1 = ⟨rest, lineAfter line [c]⟩ := bump_run [c] rest line

theorem bumpByte_ascii {c : Char} (small : Ascii c) (rest : List Char) (line : Nat) :
    (Lexer.mk (c :: rest) line).bumpByte = .ok ⟨rest, lineAfter line [c]⟩ :=
  bumpByte_cons small rest line

theorem bumpByte_cut {c : Char} (big : ¬Ascii c) (rest : List Char) (line : Nat) :
    (Lexer.mk (c :: rest) line).bumpByte = .error .panic := if_neg big

theorem takeWhile_stops {p : Char → Bool} {run rest : List Char} (all : ∀ c ∈ run, p c)
    (stops : Stops p rest) : (run ++ rest).takeWhile p = run := takeWhile_run all stops

/-- A text is a run of characters of one kind and a rest that does not go on with them. -/
theorem exists_run (p : Char → Bool) (text : List Char) :
    ∃ run rest, text = run ++ rest ∧ (∀ c ∈ run, p c) ∧ Stops p rest := by
  refine ⟨text.takeWhile p, text.dropWhile p, List.takeWhile_append_dropWhile.symm,
    fun c there => List.mem_takeWhile_imp there, fun c first => ?_⟩
  have := List.head?_dropWhile_not p text
  rw [first] at this
  simpa using this

theorem stops_newline {rest : List Char} (stops : Stops (· ≠ '\n') rest) :
    rest = [] ∨ ∃ more, rest = '\n' :: more := by
  cases rest with
  | nil => exact .inl rfl
  | cons c rest =>
    have newline : c = '\n' := by simpa using stops c rfl
    exact .inr ⟨rest, by rw [newline]⟩

/-! ## White space and comments -/

section
variable (file : List Char)

theorem skipTrivia_lexeme {run rest : List Char} (lexeme : Lexeme run none rest)
    (fuel line : Nat) :
    skipTrivia file (fuel + 1) ⟨run ++ rest, line⟩ =
      skipTrivia file fuel ⟨rest, lineAfter line run⟩ := by
  cases lexeme with
  | space some white stops =>
    rw [skipTrivia]
    simp only [takeWhile_stops white stops]
    rw [if_pos (List.length_pos_of_ne_nil some), bump_length rfl]
  | @line body _ open' stops =>
    have taken : ('/' :: '/' :: body ++ rest).takeWhile (· ≠ '\n') = '/' :: '/' :: body := by
      refine takeWhile_stops (fun c there => ?_) stops
      rcases List.mem_cons.1 there with rfl | there
      · decide
      rcases List.mem_cons.1 there with rfl | there
      · decide
      exact decide_eq_true fun same => open' (same ▸ there)
    rw [skipTrivia, if_neg (by simp [isWhitespace]), if_pos (by rfl)]
    dsimp only
    rw [taken, bump_length rfl]
  | @block body _ ends =>
    have long : ('/' :: '*' :: (body ++ ['*', '/'])).length = body.length + 4 := by simp
    rw [skipTrivia, if_neg (by simp [isWhitespace]), if_neg (by simp), if_pos (by rfl)]
    dsimp only
    have inside : Text.find ['*', '/'] (('/' :: '*' :: (body ++ ['*', '/']) ++ rest).drop 2) =
        some body.length := by
      rw [← ends]
      simp
    rw [inside]
    dsimp only
    rw [bump_length long]

/-- What a text starts with: nothing to skip, a blank, or a comment that does not end. -/
theorem blank_cases (text : List Char) :
    Firm text ∨ (∃ run rest, text = run ++ rest ∧ run ≠ [] ∧ Lexeme run none rest) ∨
      ∀ fuel line, skipTrivia file (fuel + 1) ⟨text, line⟩ =
        Panics.fail (.unterminated file line "comment") := by
  obtain ⟨run, rest, rfl, white, stops⟩ := exists_run isWhitespace text
  by_cases none : run = []
  case neg => exact .inr (.inl ⟨run, rest, rfl, none, .space none white stops⟩)
  subst none
  rw [List.nil_append]
  by_cases comment : ['/', '/'].isPrefixOf rest
  case pos =>
    obtain ⟨more, rfl⟩ := List.isPrefixOf_iff_prefix.1 comment
    obtain ⟨body, after, rfl, inside, ends⟩ := exists_run (· ≠ '\n') more
    exact .inr (.inl ⟨'/' :: '/' :: body, after, rfl, List.cons_ne_nil _ _,
      .line (fun there => by simpa using inside _ there) ends⟩)
  by_cases block : ['/', '*'].isPrefixOf rest
  case neg => exact .inl ⟨stops, comment, block⟩
  obtain ⟨more, rfl⟩ := List.isPrefixOf_iff_prefix.1 block
  cases found : Text.find ['*', '/'] more with
  | none =>
    refine .inr (.inr fun fuel line => ?_)
    rw [skipTrivia, if_neg (by simp [isWhitespace]), if_neg (by simp), if_pos (by rfl)]
    have inside : Text.find ['*', '/'] ((['/', '*'] ++ more).drop 2) = none := found
    dsimp only
    rw [inside]
  | some n =>
    obtain ⟨body, after, rfl, rfl⟩ := Text.eq_append_of_find found
    exact .inr (.inl ⟨'/' :: '*' :: (body ++ ['*', '/']), after, by simp, List.cons_ne_nil _ _,
      .block found⟩)

/-- The loop does not run out of rounds. -/
theorem skipTrivia_fuel {text : List Char} {fuel more : Nat} (enough : text.length ≤ fuel)
    (enough' : text.length ≤ more) (line : Nat) :
    skipTrivia file fuel ⟨text, line⟩ = skipTrivia file more ⟨text, line⟩ := by
  induction long : text.length using Nat.strong_induction_on generalizing text fuel more line with
  | _ n ih =>
    rcases blank_cases file text with firm | ⟨run, rest, rfl, some, lexeme⟩ | open'
    · rw [skipTrivia_firm firm, skipTrivia_firm firm]
    · have positive := List.length_pos_of_ne_nil some
      rw [List.length_append] at enough enough' long
      obtain ⟨fuel, rfl⟩ := Nat.exists_eq_add_of_le' (by omega : 1 ≤ fuel)
      obtain ⟨more, rfl⟩ := Nat.exists_eq_add_of_le' (by omega : 1 ≤ more)
      rw [skipTrivia_lexeme file lexeme, skipTrivia_lexeme file lexeme]
      exact ih rest.length (by omega) (by omega) (by omega) _ rfl
    · cases text with
      | nil => rw [skipTrivia_firm firm_nil, skipTrivia_firm firm_nil]
      | cons c text =>
        rw [List.length_cons] at enough enough'
        obtain ⟨fuel, rfl⟩ := Nat.exists_eq_add_of_le' (by omega : 1 ≤ fuel)
        obtain ⟨more, rfl⟩ := Nat.exists_eq_add_of_le' (by omega : 1 ≤ more)
        rw [open', open']

/-! ## Tokens -/

theorem getLast?_backslash (line : List Char) : (line ++ ['\\']).getLast? = some '\\' := by simp

theorem all_open {line : List Char} (open' : '\n' ∉ line) :
    ∀ c ∈ line, decide (c ≠ '\n') = true :=
  fun _ there => decide_eq_true fun same => open' (same ▸ there)

/-- A directive's text, its lines joined. -/
theorem directiveBody_joined {text body rest : List Char} (joined : Joined text body rest)
    {fuel : Nat} (enough : text.length < fuel) {line : Nat} (narrow : line < 2 ^ 32)
    (before : List Char) :
    directiveBody fuel ⟨text ++ rest, line⟩ before =
      (before ++ body, ⟨rest, lineAfter line text⟩) := by
  induction joined generalizing fuel line before with
  | @last run rest open' plain stops =>
    obtain ⟨fuel, rfl⟩ := Nat.exists_eq_add_of_le' (by omega : 1 ≤ fuel)
    rw [directiveBody]
    by_cases ends : run ++ rest = []
    · obtain ⟨rfl, rfl⟩ := List.append_eq_nil_iff.1 ends
      dsimp only
      rw [if_pos ends, List.append_nil, lineAfter_none narrow, List.append_nil]
    · rw [if_neg ends]
      simp only [takeWhile_stops (all_open open') stops]
      rw [if_neg plain, bump_length rfl]
  | @next run text body rest open' joined ih =>
    rw [List.length_append, List.length_cons, List.length_cons] at enough
    obtain ⟨fuel, rfl⟩ := Nat.exists_eq_add_of_le' (by omega : 1 ≤ fuel)
    have all := all_open (by simp [open'] : '\n' ∉ run ++ ['\\'])
    have shape : run ++ '\\' :: '\n' :: text ++ rest =
        run ++ ['\\'] ++ '\n' :: (text ++ rest) := by simp
    have whole : run ++ '\\' :: '\n' :: text = run ++ ['\\'] ++ (['\n'] ++ text) := by simp
    rw [directiveBody, if_neg (by simp), shape]
    simp only [takeWhile_stops all (by simp [Stops] : Stops (· ≠ '\n') ('\n' :: (text ++ rest)))]
    rw [if_pos (getLast?_backslash run), bump_length rfl, bump_one, List.dropLast_concat,
      ih (by omega) (lineAfter_lt _ _), ← lineAfter_append, ← lineAfter_append, ← whole]
    simp
  | @cut run open' =>
    obtain ⟨fuel, rfl⟩ := Nat.exists_eq_add_of_le' (by omega : 1 ≤ fuel)
    have all := all_open (by simp [open'] : '\n' ∉ run ++ ['\\'])
    have ended : ∀ line, Lexer.bump ⟨[], lineAfter line (run ++ ['\\'])⟩ 1 =
        ⟨[], lineAfter line (run ++ ['\\'])⟩ := fun line =>
      congrArg (Lexer.mk []) (lineAfter_none (lineAfter_lt line _))
    rw [directiveBody, if_neg (by simp)]
    simp only [takeWhile_stops all (nofun : Stops (· ≠ '\n') [])]
    rw [if_pos (getLast?_backslash run), bump_length rfl, ended, List.dropLast_concat,
      List.append_assoc]
    cases fuel with
    | zero => rfl
    | succ fuel => rw [directiveBody, if_pos rfl]

/-- Every directive has its text. -/
theorem exists_joined (text : List Char) :
    ∃ inside body rest, text = inside ++ rest ∧ Joined inside body rest := by
  induction long : text.length using Nat.strong_induction_on generalizing text with
  | _ n ih =>
    obtain ⟨run, rest, rfl, all, stops⟩ := exists_run (· ≠ '\n') text
    have open' : '\n' ∉ run := fun there => by simpa using all _ there
    by_cases continued : run.getLast? = some '\\'
    case neg => exact ⟨run, run, rest, rfl, .last open' continued stops⟩
    obtain ⟨start, rfl⟩ : ∃ start, run = start ++ ['\\'] :=
      ⟨run.dropLast, (List.dropLast_append_getLast? _ continued).symm⟩
    have startOpen : '\n' ∉ start := fun there => open' (List.mem_append_left _ there)
    rcases stops_newline stops with rfl | ⟨more, rfl⟩
    · exact ⟨start ++ ['\\'], start ++ [' '], [], rfl, .cut startOpen⟩
    · obtain ⟨inside, body, rest, rfl, joined⟩ := ih more.length
        (by rw [← long]; simp only [List.length_append, List.length_cons]; omega) more rfl
      exact ⟨start ++ '\\' :: '\n' :: inside, start ++ ' ' :: body, rest, by simp,
        .next startOpen joined⟩

/-- The loop of a string literal, past the inside of one. -/
theorem stringBody_quoted {body text : List Char} (quoted : Quoted body text) {fuel : Nat}
    (enough : body.length < fuel) (rest : List Char) {line : Nat} (narrow : line < 2 ^ 32)
    (out : List Char) :
    ∃ more, stringBody file fuel ⟨body ++ rest, line⟩ out =
      stringBody file (more + 1) ⟨rest, lineAfter line body⟩ (out ++ text) := by
  induction quoted generalizing fuel line out with
  | nil =>
    obtain ⟨fuel, rfl⟩ := Nat.exists_eq_add_of_le' (by omega : 1 ≤ fuel)
    exact ⟨fuel, by rw [lineAfter_none narrow, List.append_nil, List.nil_append]⟩
  | @plain c body text small quote slash _ ih =>
    rw [List.length_cons] at enough
    obtain ⟨fuel, rfl⟩ := Nat.exists_eq_add_of_le' (by omega : 1 ≤ fuel)
    obtain ⟨more, ends⟩ := ih (by omega : body.length < fuel) (lineAfter_lt line [c]) (out ++ [c])
    refine ⟨more, ?_⟩
    rw [List.cons_append, stringBody]
    dsimp only
    rw [if_neg quote, if_neg slash, bumpByte_ascii small, Panics.ok_bind, ends, ← lineAfter_cons,
      List.append_assoc]
    rfl
  | @escape c body text small _ ih =>
    rw [List.length_cons, List.length_cons] at enough
    obtain ⟨fuel, rfl⟩ := Nat.exists_eq_add_of_le' (by omega : 1 ≤ fuel)
    obtain ⟨more, ends⟩ := ih (by omega : body.length < fuel)
      (lineAfter_lt (lineAfter line ['\\']) [c]) (out ++ [unescape c])
    refine ⟨more, ?_⟩
    rw [List.cons_append, List.cons_append]
    refine (stringBody_escape small (body ++ rest) fuel line out).trans (ends.trans ?_)
    rw [← lineAfter_cons, ← lineAfter_cons, List.append_assoc]
    rfl

/-- Where the inside of a string literal ends. -/
theorem exists_quoted (text : List Char) :
    ∃ body inside rest, text = body ++ rest ∧ Quoted body inside ∧
      (rest = [] ∨ rest = ['\\'] ∨ (∃ more, rest = '"' :: more) ∨
        (∃ c more, rest = c :: more ∧ ¬Ascii c) ∨ ∃ c more, rest = '\\' :: c :: more ∧ ¬Ascii c) := by
  induction long : text.length using Nat.strong_induction_on generalizing text with
  | _ n ih =>
    match text with
    | [] => exact ⟨[], [], [], rfl, .nil, .inl rfl⟩
    | c :: text =>
      by_cases small : Ascii c
      case neg => exact ⟨[], [], _, rfl, .nil, .inr (.inr (.inr (.inl ⟨c, text, rfl, small⟩)))⟩
      by_cases quote : c = '"'
      case pos => exact ⟨[], [], _, rfl, .nil, .inr (.inr (.inl ⟨text, by rw [quote]⟩))⟩
      by_cases slash : c = '\\'
      case neg =>
        obtain ⟨body, inside, rest, rfl, quoted, ends⟩ :=
          ih text.length (by rw [← long]; simp) text rfl
        exact ⟨c :: body, c :: inside, rest, rfl, .plain small quote slash quoted, ends⟩
      subst slash
      match text with
      | [] => exact ⟨[], [], _, rfl, .nil, .inr (.inl rfl)⟩
      | c :: text =>
        by_cases small : Ascii c
        case neg =>
          exact ⟨[], [], _, rfl, .nil, .inr (.inr (.inr (.inr ⟨c, text, rfl, small⟩)))⟩
        obtain ⟨body, inside, rest, rfl, quoted, ends⟩ :=
          ih text.length (by rw [← long]; simp) text rfl
        exact ⟨'\\' :: c :: body, unescape c :: inside, rest, rfl, .escape small quoted, ends⟩

/-- A string literal is read as far as its inside goes. -/
theorem string_quoted {body text : List Char} (quoted : Quoted body text) (rest : List Char)
    (line : Nat) :
    ∃ more, string file ⟨'"' :: (body ++ rest), line⟩ =
      stringBody file (more + 1) ⟨rest, lineAfter line ('"' :: body)⟩ text := by
  obtain ⟨more, ends⟩ := stringBody_quoted file quoted
    (by simp only [List.length_cons, List.length_append]; omega :
      body.length < ('"' :: (body ++ rest)).length + 1) rest (lineAfter_lt line ['"']) []
  refine ⟨more, ?_⟩
  rw [string, bump_one, lineAfter_cons line '"' body]
  exact ends

/-- A character literal ends after its character. -/
def closeTick (value : Char) (lexer : Lexer) : Panics CError (Token × Lexer) := do
  let lexer ← lexer.bumpByte
  if lexer.rest.head? = some '\'' then .ok (.int (Int64.ofNat value.toNat), lexer.bump 1)
  else Panics.fail (.unterminated file lexer.line "character")

theorem charLiteral_plain {c : Char} (slash : c ≠ '\\') (rest : List Char) (line : Nat) :
    charLiteral file ⟨'\'' :: c :: rest, line⟩ =
      closeTick file c ⟨c :: rest, lineAfter line ['\'']⟩ := by
  rw [charLiteral, bump_one]
  dsimp only
  rw [if_neg slash]
  rfl

theorem charLiteral_escape (c : Char) (rest : List Char) (line : Nat) :
    charLiteral file ⟨'\'' :: '\\' :: c :: rest, line⟩ =
      closeTick file (unescape c) ⟨c :: rest, lineAfter (lineAfter line ['\'']) ['\\']⟩ := by
  rw [charLiteral, bump_one]
  dsimp only
  rw [if_pos rfl, bump_one]
  rfl

theorem closeTick_ascii {c : Char} (small : Ascii c) (value : Char) (rest : List Char) (line : Nat) :
    closeTick file value ⟨c :: '\'' :: rest, line⟩ =
      .ok (.int (Int64.ofNat value.toNat), ⟨rest, lineAfter (lineAfter line [c]) ['\'']⟩) := by
  rw [closeTick, bumpByte_ascii small, Panics.ok_bind]
  exact (if_pos rfl).trans (congrArg (fun after => Except.ok (Token.int _, after)) (bump_one _ _ _))

theorem closeTick_open {c : Char} (small : Ascii c) (value : Char) {rest : List Char}
    (open' : rest.head? ≠ some '\'') (line : Nat) :
    ∃ e, closeTick file value ⟨c :: rest, line⟩ = Panics.fail e := by
  rw [closeTick, bumpByte_ascii small, Panics.ok_bind]
  exact ⟨_, if_neg open'⟩

theorem closeTick_cut {c : Char} (big : ¬Ascii c) (value : Char) (rest : List Char) (line : Nat) :
    closeTick file value ⟨c :: rest, line⟩ = .error .panic := by
  rw [closeTick, bumpByte_cut big]
  rfl

theorem firm_cons {c : Char} {rest : List Char} (black : isWhitespace c = false) (slash : c ≠ '/') :
    Firm (c :: rest) := by
  refine ⟨fun d first => ?_, ?_, ?_⟩
  · cases first
    exact black
  · simp [Ne.symm slash]
  · simp [Ne.symm slash]

/-- Where a punctuator starts, the token is one. -/
theorem nextToken_mark {c : Char} (mark : Mark c) (lexer : Lexer) :
    nextToken file lexer c = punct lexer := by
  obtain ⟨-, hash, quote, tick, digit, score, alpha⟩ := mark
  rw [nextToken, if_neg hash, if_neg quote, if_neg tick, if_neg (by simp [digit]),
    if_neg (by simp [score, alpha])]

/-- The lexer reads a token in front of a text. -/
theorem nextToken_lexeme {run rest : List Char} {token : Token}
    (lexeme : Lexeme run (some token) rest) (line : Nat) :
    ∃ c tail, run ++ rest = c :: tail ∧ Firm (run ++ rest) ∧
      nextToken file ⟨run ++ rest, line⟩ c = .ok (token, ⟨rest, lineAfter line run⟩) := by
  cases lexeme with
  | @directive text body _ joined =>
    refine ⟨'#', text ++ rest, rfl, firm_cons (by decide) (by decide), ?_⟩
    have ends := directiveBody_joined joined
      (by simp only [List.length_cons, List.length_append]; omega :
        text.length < ('#' :: (text ++ rest)).length + 1) (lineAfter_lt line ['#']) []
    rw [nextToken, if_pos rfl, directive, List.cons_append, bump_one]
    dsimp only
    rw [ends, lineAfter_cons line '#' text]
    rfl
  | @string body text _ quoted =>
    refine ⟨'"', body ++ ['"'] ++ rest, rfl, firm_cons (by decide) (by decide), ?_⟩
    obtain ⟨more, ends⟩ := string_quoted file quoted ('"' :: rest) line
    have shape : '"' :: (body ++ ['"']) ++ rest = '"' :: (body ++ '"' :: rest) := by simp
    have whole : '"' :: (body ++ ['"']) = '"' :: body ++ ['"'] := rfl
    rw [nextToken, if_neg (by decide), if_pos rfl, shape, ends, stringBody]
    dsimp only
    rw [if_pos rfl, bump_one, whole, lineAfter_append]
  | @char c _ small slash =>
    refine ⟨'\'', [c, '\''] ++ rest, rfl, firm_cons (by decide) (by decide), ?_⟩
    rw [nextToken, if_neg (by decide), if_neg (by decide), if_pos rfl]
    refine (charLiteral_plain file slash ('\'' :: rest) line).trans ?_
    rw [closeTick_ascii file small, lineAfter_cons line '\'' [c, '\''],
      lineAfter_cons _ c ['\'']]
  | @escape c _ small =>
    refine ⟨'\'', ['\\', c, '\''] ++ rest, rfl, firm_cons (by decide) (by decide), ?_⟩
    rw [nextToken, if_neg (by decide), if_neg (by decide), if_pos rfl]
    refine (charLiteral_escape file c ('\'' :: rest) line).trans ?_
    rw [closeTick_ascii file small, lineAfter_cons line '\'' ['\\', c, '\''],
      lineAfter_cons _ '\\' [c, '\''], lineAfter_cons _ c ['\'']]
  | @number c text _ value digit all stops reads =>
    obtain ⟨hash, quote, tick⟩ := of_digit digit
    have letter : identChar c := by simp [identChar, Char.isAlphanum, digit]
    refine ⟨c, text ++ rest, rfl, firm_cons (of_identChar letter).1 (of_identChar letter).2, ?_⟩
    rw [nextToken, if_neg hash, if_neg quote, if_neg tick, if_pos digit, number]
    simp only [takeWhile_stops all stops, reads]
    rw [bump_length rfl]
  | @ident c name _ first all stops =>
    obtain ⟨hash, quote, tick, digit⟩ := of_letter first
    have letter : (c = '_' || c.isAlpha) = true := by simpa using first
    have here := of_identChar (all c List.mem_cons_self)
    refine ⟨c, name ++ rest, rfl, firm_cons here.1 here.2, ?_⟩
    rw [nextToken, if_neg hash, if_neg quote, if_neg tick, if_neg (by simp [digit]), if_pos letter,
      ident]
    simp only [takeWhile_stops all stops]
    rw [bump_length rfl]
  | @digraph run _ known =>
    have long : run.length = 2 := by
      revert run
      decide
    have found : digraphs.any (·.isPrefixOf (run ++ rest)) = true :=
      List.any_eq_true.2 ⟨run, known, List.isPrefixOf_iff_prefix.2 (List.prefix_append _ _)⟩
    have taken : (run ++ rest).take run.length = run := List.take_left
    rw [long] at taken
    have reads : punct ⟨run ++ rest, line⟩ = .ok (.punct run, ⟨rest, lineAfter line run⟩) := by
      rw [punct, if_pos found, taken, bump_length long]
    have first : ∃ c tail, run = c :: tail ∧ Mark c ∧ c ≠ '/' := by
      simp only [digraphs, List.mem_cons, List.not_mem_nil, or_false] at known
      rcases known with rfl | rfl | rfl | rfl | rfl | rfl | rfl | rfl <;>
        exact ⟨_, _, rfl, by decide, by decide⟩
    obtain ⟨c, tail, rfl, mark, slash⟩ := first
    exact ⟨c, tail ++ rest, rfl, firm_cons mark.1 slash, (nextToken_mark file mark _).trans reads⟩
  | @mark c _ small mark single comment block =>
    refine ⟨c, rest, rfl, ⟨?_, comment, block⟩, ?_⟩
    · intro d first
      cases first
      exact mark.1
    · have none : ¬digraphs.any (·.isPrefixOf (c :: rest)) = true := by
        rw [List.any_eq_true]
        rintro ⟨digraph, known, found⟩
        exact single digraph known found
      rw [nextToken_mark file mark]
      change punct ⟨c :: rest, line⟩ = _
      rw [punct, if_neg none, bumpByte_ascii small, Panics.ok_bind]
      rfl

theorem mark_of_big {c : Char} (big : ¬Ascii c) (black : isWhitespace c = false) : Mark c := by
  have other : identChar c = false := by
    by_contra letter
    exact big (small_identChar (by simpa using letter))
  simp only [identChar, Char.isAlphanum, Bool.or_eq_false_iff, beq_eq_false_iff_ne] at other
  refine ⟨black, ?_, ?_, ?_, other.2.2, other.1, other.2.1⟩ <;>
  · rintro rfl
    exact big (by decide)

/-- A character is cut apart. -/
theorem nextToken_cutting {text : List Char} (cutting : Cutting text) (line : Nat) :
    ∃ c tail, text = c :: tail ∧ Firm text ∧ nextToken file ⟨text, line⟩ c = .error .panic := by
  cases cutting with
  | @mark c rest big black =>
    have slash : c ≠ '/' := by
      rintro rfl
      exact big (by decide)
    refine ⟨c, rest, rfl, firm_cons black slash, ?_⟩
    have none : ¬digraphs.any (·.isPrefixOf (c :: rest)) = true := by
      rw [List.any_eq_true]
      rintro ⟨digraph, known, found⟩
      obtain ⟨more, same⟩ := List.isPrefixOf_iff_prefix.1 found
      have small : ∀ digraph ∈ digraphs, digraph ≠ [] ∧ ∀ d ∈ digraph, Ascii d := by
        simp [digraphs, Ascii]
      obtain ⟨some, ascii⟩ := small digraph known
      obtain ⟨d, ds, rfl⟩ := List.exists_cons_of_ne_nil some
      cases same
      exact big (ascii c List.mem_cons_self)
    rw [nextToken_mark file (mark_of_big big black), punct, if_neg none]
    change (Lexer.mk (c :: rest) line).bumpByte >>= _ = _
    rw [bumpByte_cut big]
    rfl
  | @string body text rest c quoted big =>
    refine ⟨'"', body ++ c :: rest, rfl, firm_cons (by decide) (by decide), ?_⟩
    obtain ⟨more, ends⟩ := string_quoted file quoted (c :: rest) line
    have quote : c ≠ '"' := by
      rintro rfl
      exact big (by decide)
    have slash : c ≠ '\\' := by
      rintro rfl
      exact big (by decide)
    rw [nextToken, if_neg (by decide), if_pos rfl, ends, stringBody]
    dsimp only
    rw [if_neg quote, if_neg slash, bumpByte_cut big]
    rfl
  | @stringEscape body text rest c quoted big =>
    refine ⟨'"', body ++ '\\' :: c :: rest, rfl, firm_cons (by decide) (by decide), ?_⟩
    obtain ⟨more, ends⟩ := string_quoted file quoted ('\\' :: c :: rest) line
    rw [nextToken, if_neg (by decide), if_pos rfl, ends, stringBody]
    dsimp only
    rw [if_neg (by decide), if_pos rfl, bump_one]
    dsimp only
    rw [bumpByte_cut big]
    rfl
  | @char c rest big =>
    refine ⟨'\'', c :: rest, rfl, firm_cons (by decide) (by decide), ?_⟩
    have slash : c ≠ '\\' := by
      rintro rfl
      exact big (by decide)
    rw [nextToken, if_neg (by decide), if_neg (by decide), if_pos rfl,
      charLiteral_plain file slash, closeTick_cut file big]
  | @escape c rest big =>
    refine ⟨'\'', '\\' :: c :: rest, rfl, firm_cons (by decide) (by decide), ?_⟩
    rw [nextToken, if_neg (by decide), if_neg (by decide), if_pos rfl, charLiteral_escape,
      closeTick_cut file big]

/-- What a text starts with where there is nothing to skip: a token, a character that is cut apart,
or an error. -/
def Starts (c : Char) (tail : List Char) : Prop :=
  (∃ run token rest, c :: tail = run ++ rest ∧ run ≠ [] ∧ Lexeme run (some token) rest) ∨
    Cutting (c :: tail) ∨ ∀ line, ∃ e, nextToken file ⟨c :: tail, line⟩ c = Panics.fail e

theorem starts_string (tail : List Char) : Starts file '"' tail := by
  obtain ⟨body, inside, rest, rfl, quoted, ends⟩ := exists_quoted tail
  rcases ends with rfl | rfl | ⟨more, rfl⟩ | ⟨c, more, rfl, big⟩ | ⟨c, more, rfl, big⟩
  · refine .inr (.inr fun line => ?_)
    obtain ⟨fuel, ends⟩ := string_quoted file quoted [] line
    rw [nextToken, if_neg (by decide), if_pos rfl, ends, stringBody]
    exact ⟨_, rfl⟩
  · refine .inr (.inr fun line => ?_)
    obtain ⟨fuel, ends⟩ := string_quoted file quoted ['\\'] line
    rw [nextToken, if_neg (by decide), if_pos rfl, ends, stringBody]
    exact ⟨_, rfl⟩
  · exact .inl ⟨'"' :: (body ++ ['"']), _, more, by simp, List.cons_ne_nil _ _, .string quoted⟩
  · exact .inr (.inl (.string quoted big))
  · exact .inr (.inl (.stringEscape quoted big))

theorem starts_char (tail : List Char) : Starts file '\'' tail := by
  have here : ∀ lexer, nextToken file lexer '\'' = charLiteral file lexer := fun lexer => by
    rw [nextToken, if_neg (by decide), if_neg (by decide), if_pos rfl]
  cases tail with
  | nil =>
    refine .inr (.inr fun line => ?_)
    rw [here]
    exact ⟨_, rfl⟩
  | cons c tail =>
    by_cases slash : c = '\\'
    case neg =>
      by_cases small : Ascii c
      case neg => exact .inr (.inl (.char small))
      by_cases closed : tail.head? = some '\''
      · obtain ⟨rest, rfl⟩ : ∃ rest, tail = '\'' :: rest := List.head?_eq_some_iff.1 closed
        exact .inl ⟨['\'', c, '\''], _, rest, rfl, List.cons_ne_nil _ _, .char small slash⟩
      · refine .inr (.inr fun line => ?_)
        rw [here, charLiteral_plain file slash]
        exact closeTick_open file small c closed _
    subst slash
    cases tail with
    | nil =>
      refine .inr (.inr fun line => ?_)
      rw [here]
      exact ⟨_, rfl⟩
    | cons c tail =>
      by_cases small : Ascii c
      case neg => exact .inr (.inl (.escape small))
      by_cases closed : tail.head? = some '\''
      · obtain ⟨rest, rfl⟩ : ∃ rest, tail = '\'' :: rest := List.head?_eq_some_iff.1 closed
        exact .inl ⟨['\'', '\\', c, '\''], _, rest, rfl, List.cons_ne_nil _ _, .escape small⟩
      · refine .inr (.inr fun line => ?_)
        rw [here, charLiteral_escape]
        exact closeTick_open file small _ closed _

theorem starts_number {c : Char} (digit : c.isDigit) (tail : List Char) : Starts file c tail := by
  obtain ⟨text, rest, rfl, all, stops⟩ := exists_run Char.isAlphanum tail
  have all : ∀ d ∈ c :: text, d.isAlphanum :=
    List.forall_mem_cons.2 ⟨by simp [Char.isAlphanum, digit], all⟩
  cases reads : numberValue (c :: text) with
  | some value =>
    exact .inl ⟨c :: text, _, rest, rfl, List.cons_ne_nil _ _, .number digit all stops reads⟩
  | none =>
    obtain ⟨hash, quote, tick⟩ := of_digit digit
    refine .inr (.inr fun line => ?_)
    have taken := takeWhile_stops all stops
    rw [List.cons_append] at taken
    rw [nextToken, if_neg hash, if_neg quote, if_neg tick, if_pos digit, number]
    simp only [taken, reads]
    exact ⟨_, rfl⟩

theorem starts_of_firm {c : Char} {tail : List Char} (firm : Firm (c :: tail)) :
    Starts file c tail := by
  by_cases hash : c = '#'
  · subst hash
    obtain ⟨text, body, rest, rfl, joined⟩ := exists_joined tail
    exact .inl ⟨'#' :: text, _, rest, rfl, List.cons_ne_nil _ _, .directive joined⟩
  by_cases quote : c = '"'
  · subst quote
    exact starts_string file tail
  by_cases tick : c = '\''
  · subst tick
    exact starts_char file tail
  by_cases digit : c.isDigit
  · exact starts_number file digit tail
  by_cases letter : c = '_' ∨ c.isAlpha
  · obtain ⟨name, rest, rfl, all, stops⟩ := exists_run identChar tail
    have first : identChar c := by
      rcases letter with rfl | alpha
      · decide
      · simp [identChar, Char.isAlphanum, alpha]
    exact .inl ⟨c :: name, _, rest, rfl, List.cons_ne_nil _ _,
      .ident letter (List.forall_mem_cons.2 ⟨first, all⟩) stops⟩
  obtain ⟨white, comment, block⟩ := firm
  rw [not_or] at letter
  have black : isWhitespace c = false := white c rfl
  have mark : Mark c :=
    ⟨black, hash, quote, tick, by simpa using digit, letter.1, by simpa using letter.2⟩
  by_cases small : Ascii c
  case neg => exact .inr (.inl (.mark small black))
  by_cases double : ∃ digraph ∈ digraphs, digraph.isPrefixOf (c :: tail)
  · obtain ⟨digraph, known, found⟩ := double
    obtain ⟨rest, same⟩ := List.isPrefixOf_iff_prefix.1 found
    refine .inl ⟨digraph, _, rest, same.symm, ?_, .digraph known⟩
    rintro rfl
    revert known
    decide
  · refine .inl ⟨[c], _, tail, rfl, List.cons_ne_nil _ _, .mark small mark ?_ comment block⟩
    exact fun digraph known found => double ⟨digraph, known, found⟩

/-! ## Runs -/

/-- A blank in front of a text. -/
theorem run_blank {blank rest : List Char} (lexeme : Lexeme blank none rest) (some : blank ≠ [])
    (fuel line : Nat) :
    run file fuel ⟨blank ++ rest, line⟩ = run file fuel ⟨rest, lineAfter line blank⟩ := by
  cases fuel with
  | zero => rfl
  | succ fuel =>
    have positive := List.length_pos_of_ne_nil some
    obtain ⟨rounds, long⟩ := Nat.exists_eq_add_of_le' (by
      rw [List.length_append]
      omega : 1 ≤ (blank ++ rest).length)
    rw [run, run]
    dsimp only
    rw [long, skipTrivia_lexeme file lexeme, skipTrivia_fuel file (by
      rw [List.length_append] at long
      omega : rest.length ≤ rounds) (le_refl _)]

/-- A token in front of a text. -/
theorem run_token {text rest : List Char} {token : Token} (lexeme : Lexeme text (some token) rest)
    (fuel line : Nat) :
    run file (fuel + 1) ⟨text ++ rest, line⟩ =
      (run file fuel ⟨rest, lineAfter line text⟩).map (⟨token, line⟩ :: ·) := by
  obtain ⟨c, tail, shape, firm, reads⟩ := nextToken_lexeme file lexeme line
  rw [shape] at reads firm ⊢
  rw [run]
  dsimp only
  rw [skipTrivia_firm firm, Panics.ok_bind]
  dsimp only
  rw [reads, Panics.ok_bind]
  dsimp only
  cases run file fuel ⟨rest, lineAfter line text⟩ <;> rfl

theorem run_nil (fuel line : Nat) : run file fuel ⟨[], line⟩ = .ok [] := by
  cases fuel with
  | zero => rfl
  | succ fuel => rfl

theorem run_cutting {text : List Char} (cutting : Cutting text) (fuel line : Nat) :
    run file (fuel + 1) ⟨text, line⟩ = .error .panic := by
  obtain ⟨c, tail, rfl, firm, reads⟩ := nextToken_cutting file cutting line
  rw [run]
  dsimp only
  rw [skipTrivia_firm firm, Panics.ok_bind]
  dsimp only
  rw [reads]
  rfl

theorem lexeme_ne_nil {text rest : List Char} {token : Option Token}
    (lexeme : Lexeme text token rest) : text ≠ [] := by
  cases lexeme with
  | space some => exact some
  | digraph known =>
    rintro rfl
    revert known
    decide
  | _ => exact List.cons_ne_nil _ _

/-- The line of a token as 32 bits have it. -/
def narrowed (tok : Tok) : Tok := { tok with line := tok.line % 2 ^ 32 }

/-- The lexer reads lexemes in front of a text, and counts their newlines in 32 bits. -/
theorem run_splits {text rest : List Char} {lexemes : List (List Char × Option Token)}
    (splits : Splits text lexemes rest) {fuel : Nat} (enough : text.length < fuel) (line : Nat) :
    ∃ more after, rest.length ≤ more ∧ run file fuel ⟨text, line % 2 ^ 32⟩ =
      (run file (more + 1) ⟨rest, after⟩).map ((located line lexemes).map narrowed ++ ·) := by
  induction splits generalizing fuel line with
  | @nil rest =>
    obtain ⟨fuel, rfl⟩ := Nat.exists_eq_add_of_le' (by omega : 1 ≤ fuel)
    refine ⟨fuel, line % 2 ^ 32, by omega, ?_⟩
    cases run file (fuel + 1) ⟨rest, line % 2 ^ 32⟩ <;> rfl
  | @cons front text rest token lexemes lexeme splits ih =>
    have some := lexeme_ne_nil lexeme
    have positive := List.length_pos_of_ne_nil some
    rw [List.length_append] at enough
    have counted : lineAfter (line % 2 ^ 32) front = (line + front.count '\n') % 2 ^ 32 :=
      Nat.mod_add_mod _ _ _
    cases token with
    | none =>
      obtain ⟨more, after, left, ends⟩ :=
        ih (by omega : text.length < fuel) (line + front.count '\n')
      exact ⟨more, after, left, by rw [run_blank file lexeme some, counted, ends]; rfl⟩
    | some token =>
      obtain ⟨fuel, rfl⟩ := Nat.exists_eq_add_of_le' (by omega : 1 ≤ fuel)
      obtain ⟨more, after, left, ends⟩ :=
        ih (by omega : text.length < fuel) (line + front.count '\n')
      refine ⟨more, after, left, ?_⟩
      rw [run_token file lexeme, counted, ends]
      cases run file (more + 1) ⟨rest, after⟩ <;> rfl

/-- A text is lexemes to its end, or a character of it is cut apart, or it is refused. -/
theorem text_cases (text : List Char) :
    (∃ lexemes, Splits text lexemes []) ∨ Cuts text ∨
      ∀ line, ∃ e, ∀ fuel, text.length < fuel → run file fuel ⟨text, line⟩ = Panics.fail e := by
  induction long : text.length using Nat.strong_induction_on generalizing text with
  | _ n ih =>
    match text with
    | [] => exact .inl ⟨[], .nil⟩
    | c :: tail =>
      -- a lexeme in front leaves the question to the rest
      have later : ∀ {front rest : List Char} {token : Option Token}, c :: tail = front ++ rest →
          Lexeme front token rest → (∃ lexemes, Splits (c :: tail) lexemes []) ∨ Cuts (c :: tail) ∨
            ∀ line, ∃ e, ∀ fuel, n < fuel → run file fuel ⟨c :: tail, line⟩ = Panics.fail e := by
        intro front rest token shape lexeme
        have some := lexeme_ne_nil lexeme
        have positive := List.length_pos_of_ne_nil some
        have shorter : rest.length < n := by
          rw [← long, shape, List.length_append]
          omega
        rw [shape]
        rcases ih rest.length shorter rest rfl with ⟨lexemes, splits⟩ | ⟨lexemes, left, splits, cut⟩ |
          fails
        · exact .inl ⟨_, .cons lexeme splits⟩
        · exact .inr (.inl ⟨_, left, .cons lexeme splits, cut⟩)
        · refine .inr (.inr fun line => ?_)
          obtain ⟨e, fails⟩ := fails (lineAfter line front)
          refine ⟨e, fun fuel enough => ?_⟩
          cases token with
          | none => exact (run_blank file lexeme some fuel line).trans (fails fuel (by omega))
          | some token =>
            obtain ⟨fuel, rfl⟩ := Nat.exists_eq_add_of_le' (by omega : 1 ≤ fuel)
            rw [run_token file lexeme, fails fuel (by omega)]
            rfl
      rcases blank_cases file (c :: tail) with firm | ⟨front, rest, shape, -, lexeme⟩ | open'
      · rcases starts_of_firm file firm with ⟨front, token, rest, shape, -, lexeme⟩ | cutting | fails
        · exact later shape lexeme
        · exact .inr (.inl ⟨[], _, .nil, cutting⟩)
        · refine .inr (.inr fun line => ?_)
          obtain ⟨e, fails⟩ := fails line
          refine ⟨e, fun fuel enough => ?_⟩
          obtain ⟨fuel, rfl⟩ := Nat.exists_eq_add_of_le' (by omega : 1 ≤ fuel)
          rw [run]
          dsimp only
          rw [skipTrivia_firm firm, Panics.ok_bind]
          dsimp only
          rw [fails]
          rfl
      · exact later shape lexeme
      · refine .inr (.inr fun line => ⟨.unterminated file line "comment", fun fuel enough => ?_⟩)
        obtain ⟨fuel, rfl⟩ := Nat.exists_eq_add_of_le' (by omega : 1 ≤ fuel)
        rw [run]
        dsimp only
        rw [List.length_cons, open']
        rfl

/-! ## Every text -/

/-- White space and comments are skipped as far as they go. -/
theorem skipTrivia_ok {text : List Char} {line : Nat} {skipped : Lexer}
    (skips : skipTrivia file text.length ⟨text, line⟩ = .ok skipped) :
    Firm skipped.rest ∧ skipped.rest.length ≤ text.length := by
  induction long : text.length using Nat.strong_induction_on generalizing text line with
  | _ n ih =>
    rcases blank_cases file text with firm | ⟨front, rest, rfl, some, lexeme⟩ | open'
    · rw [skipTrivia_firm firm] at skips
      cases skips
      exact ⟨firm, le_of_eq long⟩
    · have positive := List.length_pos_of_ne_nil some
      rw [List.length_append] at skips long
      obtain ⟨rounds, few⟩ := Nat.exists_eq_add_of_le'
        (by omega : 1 ≤ front.length + rest.length)
      rw [few, skipTrivia_lexeme file lexeme,
        skipTrivia_fuel file (by omega : rest.length ≤ rounds) (le_refl _)] at skips
      obtain ⟨firm, shorter⟩ := ih rest.length (by omega) skips rfl
      exact ⟨firm, by omega⟩
    · cases text with
      | nil =>
        cases skips
        exact ⟨firm_nil, Nat.zero_le _⟩
      | cons c text =>
        rw [List.length_cons, open'] at skips
        cases skips

/-- The lexer is total on a text: it ends with tokens or an error, no slice is off a character
boundary, each round of its loop takes something, and the tokens' lines count the newlines before
them. -/
structure Total (text : List Char) : Prop where
  whole : lex file text ≠ .error .panic
  ends : ∀ fuel, text.length < fuel → run file fuel ⟨text, 1⟩ = lex file text
  takes : ∀ {start skipped next : Lexer} {c : Char} {tail : List Char} {token : Token},
    skipTrivia file start.rest.length start = .ok skipped → skipped.rest = c :: tail →
    nextToken file skipped c = .ok (token, next) → next.rest.length < start.rest.length
  lines : ∀ toks, lex file text = .ok toks → (∃ lexemes, Splits text lexemes []) ∧
    ∀ lexemes, Splits text lexemes [] → toks = located 1 lexemes

/-- One round of the loop takes something. -/
theorem nextToken_takes {start skipped next : Lexer} {c : Char} {tail : List Char} {token : Token}
    (skips : skipTrivia file start.rest.length start = .ok skipped) (here : skipped.rest = c :: tail)
    (reads : nextToken file skipped c = .ok (token, next)) :
    next.rest.length < start.rest.length := by
  obtain ⟨firm, shorter⟩ := skipTrivia_ok file skips
  obtain ⟨text, line⟩ := skipped
  cases (here : text = c :: tail)
  refine lt_of_lt_of_le ?_ shorter
  rcases starts_of_firm file firm with ⟨front, token', rest, shape, some, lexeme⟩ | cutting | fails
  · obtain ⟨d, more, shape', -, same⟩ := nextToken_lexeme file lexeme line
    rw [← shape] at shape' same
    cases shape'
    rw [reads] at same
    cases same
    have long := congrArg List.length shape
    have positive := List.length_pos_of_ne_nil some
    rw [List.length_append] at long
    dsimp only
    omega
  · obtain ⟨d, more, shape, -, panics⟩ := nextToken_cutting file cutting line
    cases shape
    rw [panics] at reads
    cases reads
  · obtain ⟨e, fails⟩ := fails line
    rw [fails] at reads
    cases reads

/-- A text of lexemes has their tokens, with the lines in 32 bits. -/
theorem lex_splits {text : List Char} {lexemes : List (List Char × Option Token)}
    (splits : Splits text lexemes []) {fuel : Nat} (enough : text.length < fuel) :
    run file fuel ⟨text, 1⟩ = .ok ((located 1 lexemes).map narrowed) := by
  obtain ⟨more, after, -, ends⟩ := run_splits file splits enough 1
  rw [run_nil] at ends
  refine ends.trans ?_
  rw [Except.map, List.append_nil]

theorem lex_cuts {text : List Char} (cuts : Cuts text) {fuel : Nat} (enough : text.length < fuel) :
    run file fuel ⟨text, 1⟩ = .error .panic := by
  obtain ⟨lexemes, rest, splits, cutting⟩ := cuts
  obtain ⟨more, after, -, ends⟩ := run_splits file splits enough 1
  rw [run_cutting file cutting] at ends
  exact ends

/-- The loop ends by itself. -/
theorem run_ends (text : List Char) {fuel : Nat} (enough : text.length < fuel) :
    run file fuel ⟨text, 1⟩ = lex file text := by
  rw [lex]
  rcases text_cases file text with ⟨lexemes, splits⟩ | cuts | fails
  · rw [lex_splits file splits enough, lex_splits file splits (Nat.lt_succ_self _)]
  · rw [lex_cuts file cuts enough, lex_cuts file cuts (Nat.lt_succ_self _)]
  · obtain ⟨e, fails⟩ := fails 1
    rw [fails fuel enough, fails _ (Nat.lt_succ_self _)]

/-- The lexer is total on exactly the texts in which no character is cut apart and no token stands
after so many newlines that a line number has more than 32 bits. -/
theorem lex_total_iff (text : List Char) : Total file text ↔ ¬Cuts text ∧
    ∀ lexemes, Splits text lexemes [] → ∀ tok ∈ located 1 lexemes, tok.line < 2 ^ 32 := by
  constructor
  · intro total
    refine ⟨fun cuts => total.whole (lex_cuts file cuts (Nat.lt_succ_self _)),
      fun lexemes splits tok there => ?_⟩
    have same := (total.lines _ (lex_splits file splits (Nat.lt_succ_self _))).2 lexemes splits
    have narrow : narrowed tok = tok :=
      List.map_inj_left.1 (same.trans (List.map_id _).symm) tok there
    rw [← congrArg Tok.line narrow]
    exact Nat.mod_lt _ (by decide)
  · rintro ⟨whole, narrow⟩
    refine ⟨fun panics => ?_, fun fuel enough => run_ends file text enough,
      nextToken_takes file, fun toks reads => ?_⟩
    · rcases text_cases file text with ⟨lexemes, splits⟩ | cuts | fails
      · rw [lex, lex_splits file splits (Nat.lt_succ_self _)] at panics
        cases panics
      · exact whole cuts
      · obtain ⟨e, fails⟩ := fails 1
        rw [lex, fails _ (Nat.lt_succ_self _)] at panics
        cases panics
    · have here : ∀ lexemes, Splits text lexemes [] → toks = located 1 lexemes := by
        intro lexemes splits
        rw [lex, lex_splits file splits (Nat.lt_succ_self _)] at reads
        cases reads
        refine (List.map_congr_left fun tok there => ?_).trans (List.map_id _)
        exact congrArg (Tok.mk tok.token) (Nat.mod_eq_of_lt (narrow lexemes splits tok there))
      refine ⟨?_, here⟩
      rcases text_cases file text with splits | cuts | fails
      · exact splits
      · exact (whole cuts).elim
      · obtain ⟨e, fails⟩ := fails 1
        rw [lex, fails _ (Nat.lt_succ_self _)] at reads
        cases reads

end

/-- A string literal with a character of two bytes. -/
theorem lex_cut : lex [] ['"', 'é', '"'] = .error .panic := by decide +kernel

end ClickDoom.Csource

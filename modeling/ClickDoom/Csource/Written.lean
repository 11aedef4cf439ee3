import ClickDoom.Csource.Grammar

/-! # C spellings of tokens

A text is words with blanks between them: white space and comments.  What each word means is said
here as C has it, a literal that begins with `0` in base eight and the escapes of a string among it.
`Plain` are the spellings that the lexer reads that way.
-/
namespace ClickDoom.Csource
open Native (isWhitespace)

/-! ## Blanks -/

/-- White space or a comment. -/
inductive Blank
  | space (c : Char)
  | line (body : List Char)
  | block (body : List Char)
  deriving DecidableEq, Repr

def Blank.text : Blank → List Char
  | .space c => [c]
  | .line body => '/' :: '/' :: (body ++ ['\n'])
  | .block body => '/' :: '*' :: (body ++ ['*', '/'])

/-- A newline of a line comment is one that a backslash continues. -/
def continued : List Char → Bool
  | [] => true
  | ['\\'] => false
  | '\\' :: '\n' :: rest => continued rest
  | '\n' :: _ => false
  | _ :: rest => continued rest

/-- A line comment ends at a newline that nothing continues, a block comment at the first `*/`. -/
def Blank.Valid : Blank → Prop
  | .space c => isWhitespace c
  | .line body => continued body
  | .block body => Text.find ['*', '/'] (body ++ ['*', '/']) = some body.length

/-- The lexer does not know of continued comments. -/
def Blank.Plain : Blank → Prop
  | .line body => '\n' ∉ body
  | _ => True

def blankText (blanks : List Blank) : List Char := blanks.flatMap Blank.text

/-! ## Words -/

/-- A part of a string literal: a character, a simple escape or a numeric one. -/
inductive Piece
  | plain (c : Char)
  | simple (c : Char)
  | octal (digits : List Char)
  | hex (digits : List Char)
  deriving DecidableEq, Repr

def Piece.text : Piece → List Char
  | .plain c => [c]
  | .simple c => ['\\', c]
  | .octal digits => '\\' :: digits
  | .hex digits => '\\' :: 'x' :: digits

/-- The characters that C's simple escapes stand for. -/
def simpleEscape (c : Char) : Option Char :=
  if c = 'n' then some '\n'
  else if c = 't' then some '\t'
  else if c = 'r' then some '\r'
  else if c = 'a' then some '\x07'
  else if c = 'b' then some '\x08'
  else if c = 'f' then some '\x0c'
  else if c = 'v' then some '\x0b'
  else if c = '\\' ∨ c = '"' ∨ c = '\'' ∨ c = '?' then some c
  else none

/-- The character a piece stands for. -/
def Piece.char : Piece → Char
  | .plain c => c
  | .simple c => (simpleEscape c).getD c
  | .octal digits => Char.ofNat ((Digits.readDigits 8 512 digits 0).getD 0)
  | .hex digits => Char.ofNat ((Digits.readDigits 16 (2 ^ 21) digits 0).getD 0)

/-- A numeric escape goes on as long as digits do. -/
def Piece.Valid (next : List Char) : Piece → Prop
  | .plain c => c ≠ '"' ∧ c ≠ '\\' ∧ c ≠ '\n'
  | .simple c => (simpleEscape c).isSome
  | .octal digits => digits ≠ [] ∧ (digits.length = 3 ∨ digits.length < 3 ∧
      ∀ c, next.head? = some c → Digits.toDigit 8 c = none) ∧
      (Digits.readDigits 8 512 digits 0).isSome
  | .hex digits => digits ≠ [] ∧ (∀ c, next.head? = some c → Digits.toDigit 16 c = none) ∧
      (Digits.readDigits 16 (2 ^ 21) digits 0).isSome

/-- The pieces the lexer reads as C does: characters of one byte, and of the escapes those for the
quotes, the backslash, the question mark, `\n`, `\r`, `\t` and `\0`. -/
def Piece.Plain : Piece → Prop
  | .plain c => c.toNat < 128
  | .simple c => c ≠ 'a' ∧ c ≠ 'b' ∧ c ≠ 'f' ∧ c ≠ 'v'
  | .octal digits => digits = ['0']
  | .hex _ => False

def pieceText (pieces : List Piece) : List Char := pieces.flatMap Piece.text

/-- The value of an integer literal in C, where it has one of 64 bits. -/
def literalValue (text : List Char) : Option Int64 :=
  let digits := text.rdropWhile suffixChar
  if ['0', 'x'].isPrefixOf digits || ['0', 'X'].isPrefixOf digits then
    (Digits.fromStrRadix 16 (2 ^ 64) (digits.drop 2)).map Int64.ofNat
  else if ['0'].isPrefixOf digits then
    (Digits.fromStrRadix 8 (2 ^ 64) digits).map Int64.ofNat
  else (Digits.fromStrRadix 10 (2 ^ 64) digits).map Int64.ofNat

/-- The value of a literal that begins with `0` and is in base eight. -/
def octalValue (text : List Char) : Option Nat :=
  let digits := text.rdropWhile suffixChar
  if ['0', 'x'].isPrefixOf digits || ['0', 'X'].isPrefixOf digits then none
  else if ['0'].isPrefixOf digits then Digits.fromStrRadix 8 (2 ^ 64) digits
  else none

/-- The value of a literal in base ten. -/
def decimalValue (text : List Char) : Option Nat :=
  let digits := text.rdropWhile suffixChar
  if ['0', 'x'].isPrefixOf digits || ['0', 'X'].isPrefixOf digits then none
  else if ['0'].isPrefixOf digits then none
  else Digits.fromStrRadix 10 (2 ^ 64) digits

/-- A word of the source. -/
inductive Word
  | ident (name : List Char)
  | int (text : List Char)
  | str (pieces : List Piece)
  | punct (text : List Char)
  deriving DecidableEq, Repr

def Word.text : Word → List Char
  | .ident name => name
  | .int text => text
  | .str pieces => '"' :: (pieceText pieces ++ ['"'])
  | .punct text => text

/-- What a word means in C. -/
def Word.token : Word → Token
  | .ident name => .ident name
  | .int text => .int ((literalValue text).getD 0)
  | .str pieces => .str (pieces.map Piece.char)
  | .punct text => .punct text

/-- A character that is a punctuation by itself. -/
def punctChar (c : Char) : Prop :=
  c.toNat < 128 ∧ isWhitespace c = false ∧ identChar c = false ∧ c ≠ '#' ∧ c ≠ '"' ∧ c ≠ '\''

/-- The pieces of a string are valid, each with what comes after it. -/
def piecesValid : List Piece → Prop
  | [] => True
  | piece :: rest => piece.Valid (pieceText rest ++ ['"']) ∧ piecesValid rest

/-- A word as C writes it. -/
def Word.Valid : Word → Prop
  | .ident name => ∃ c rest, name = c :: rest ∧ (c = '_' ∨ c.isAlpha) ∧ rest.all identChar
  | .int text => (∃ c rest, text = c :: rest ∧ c.isDigit) ∧ text.all Char.isAlphanum ∧
      (literalValue text).isSome
  | .str pieces => piecesValid pieces
  | .punct text => text ∈ digraphs ∨ ∃ c, text = [c] ∧ punctChar c

/-- A word the lexer reads as C does: no octal literal of eight or more, no decimal literal past 63
bits, and only the escapes the lexer knows. -/
def Word.Plain : Word → Prop
  | .int text => (∀ value, octalValue text = some value → value < 8) ∧
      ∀ value, decimalValue text = some value → value < 2 ^ 63
  | .str pieces => ∀ piece ∈ pieces, piece.Plain
  | _ => True

/-- A word does not run into what comes next. -/
def Word.Apart (next : List Char) : Word → Prop
  | .ident _ => ∀ c, next.head? = some c → identChar c = false
  | .int _ => ∀ c, next.head? = some c → identChar c = false
  | .str _ => True
  | .punct text => (text.length = 1 → ∀ digraph ∈ digraphs, ¬digraph.isPrefixOf (text ++ next)) ∧
      (text = ['/'] → next.head? ≠ some '/' ∧ next.head? ≠ some '*')

/-! ## Texts -/

/-- Words with the blanks before each, and what comes after the last: blanks, and at the end of the
text perhaps a comment without its newline. -/
structure Source where
  words : List (List Blank × Word)
  blanks : List Blank
  comment : Option (List Char)

/-- What comes after the last word. -/
def Source.tail (source : Source) : List Char :=
  blankText source.blanks ++ (source.comment.map fun body => '/' :: '/' :: body).getD []

def wordsText (tail : List Char) : List (List Blank × Word) → List Char
  | [] => tail
  | (blanks, word) :: rest => blankText blanks ++ (word.text ++ wordsText tail rest)

def Source.text (source : Source) : List Char := wordsText source.tail source.words

/-- The tokens of a text, as C has them. -/
def Source.tokens (source : Source) : List Token := source.words.map fun word => word.2.token

def wordsValid (tail : List Char) : List (List Blank × Word) → Prop
  | [] => True
  | (blanks, word) :: rest => (∀ blank ∈ blanks, blank.Valid) ∧ word.Valid ∧
      word.Apart (wordsText tail rest) ∧ wordsValid tail rest

/-- A text as C writes it. -/
structure Source.Valid (source : Source) : Prop where
  words : wordsValid source.tail source.words
  blanks : ∀ blank ∈ source.blanks, blank.Valid
  comment : ∀ body, source.comment = some body → continued body

/-- A text the lexer reads as C does. -/
structure Source.Plain (source : Source) : Prop where
  words : ∀ word ∈ source.words, (∀ blank ∈ word.1, blank.Plain) ∧ word.2.Plain
  blanks : ∀ blank ∈ source.blanks, blank.Plain
  comment : ∀ body, source.comment = some body → '\n' ∉ body

/-! ## Literals -/

theorem toDigit_ten {c : Char} {d : Nat} (digit : Digits.toDigit 8 c = some d) :
    Digits.toDigit 10 c = some d ∧ d < 8 := by
  rw [Digits.toDigit] at digit ⊢
  obtain ⟨found, small⟩ := Option.filter_eq_some_iff.1 digit
  have small : d < 8 := by simpa using small
  exact ⟨Option.filter_eq_some_iff.2 ⟨found, by simp; omega⟩, small⟩

/-- A number below eight in base eight has one digit that counts, so base ten reads the same. -/
theorem readDigits_ten {text : List Char} {n : Nat}
    (read : Digits.readDigits 8 (2 ^ 64) text 0 = some n) (small : n < 8) :
    Digits.readDigits 10 (2 ^ 63) text 0 = some n := by
  induction text using List.reverseRecOn generalizing n with
  | nil => exact read
  | append_singleton front c ih =>
    rw [Digits.readDigits_append] at read ⊢
    obtain ⟨high, first, second⟩ := Option.bind_eq_some_iff.1 read
    obtain ⟨d, digit, rfl⟩ := Digits.readDigits_single_eq_some second
    obtain ⟨digit, -⟩ := toDigit_ten digit
    have none : high = 0 := by omega
    subst none
    rw [ih first (by omega), Option.bind_some, Digits.readDigits_single digit (by omega)]

/-- A number that fits in 63 bits is read by the lexer's parser as well. -/
theorem fromStrRadix_signed {digits : List Char} {n : Nat}
    (read : Digits.fromStrRadix 10 (2 ^ 64) digits = some n) (small : n < 2 ^ 63) :
    Digits.fromStrRadix 10 (2 ^ 63) digits = some n := by
  rw [Digits.fromStrRadix.eq_def] at read ⊢
  split at read
  · cases read
  · cases read
  · cases read
  · exact Digits.readDigits_of_lt (by decide) read small
  · exact Digits.readDigits_of_lt (by decide) read small

/-- A literal that is octal below eight, or decimal below 2^63, or hexadecimal, is read as C reads
it. -/
theorem numberValue_eq {text : List Char} (plain : (Word.int text).Plain)
    (valid : (literalValue text).isSome) : numberValue text = literalValue text := by
  obtain ⟨octal, decimal⟩ := plain
  rw [octalValue] at octal
  rw [decimalValue] at decimal
  rw [literalValue] at valid ⊢
  rw [numberValue]
  split
  · rfl
  · rename_i notHex
    rw [if_neg notHex] at valid octal decimal
    split
    · rename_i zero
      rw [if_pos zero] at valid octal
      rw [Option.isSome_map] at valid
      obtain ⟨value, read⟩ := Option.isSome_iff_exists.1 valid
      have small := octal value read
      obtain ⟨rest, starts⟩ := List.isPrefixOf_iff_prefix.1 zero
      rw [← starts, List.singleton_append] at read ⊢
      rw [Digits.fromStrRadix_of_digit (by decide) (by decide)] at read ⊢
      rw [Digits.fromStrRadix_of_digit (by decide) (by decide), read, readDigits_ten read small]
    · rename_i notOctal
      rw [if_neg notOctal] at valid decimal
      rw [Option.isSome_map] at valid
      obtain ⟨value, read⟩ := Option.isSome_iff_exists.1 valid
      rw [read, fromStrRadix_signed read (decimal value read)]

/-! ## Skipping blanks -/

/-- Nothing to skip: no white space and no comment starts here. -/
def Firm (rest : List Char) : Prop :=
  (∀ c, rest.head? = some c → isWhitespace c = false) ∧ ¬['/', '/'].isPrefixOf rest ∧
    ¬['/', '*'].isPrefixOf rest

theorem firm_nil : Firm [] :=
  ⟨fun _ none => (Option.some_ne_none _ none.symm).elim, by decide, by decide⟩

variable {file : List Char}

theorem skipTrivia_firm {rest : List Char} (firm : Firm rest) (fuel line : Nat) :
    skipTrivia file fuel ⟨rest, line⟩ = .ok ⟨rest, line⟩ := by
  cases fuel with
  | zero => rfl
  | succ fuel =>
    obtain ⟨space, comment, block⟩ := firm
    have none : (rest.takeWhile isWhitespace).length = 0 := by
      cases rest with
      | nil => rfl
      | cons c rest => simp [space c rfl]
    rw [skipTrivia]
    simp only [none]
    rw [if_neg (lt_irrefl 0), if_neg comment, if_neg block]

theorem drop_takeWhile {α : Type} (p : α → Bool) (list : List α) :
    list.drop (list.takeWhile p).length = list.dropWhile p := by
  induction list with
  | nil => rfl
  | cons a list ih =>
    by_cases holds : p a = true
    · rw [List.takeWhile_cons_of_pos holds, List.dropWhile_cons_of_pos holds, ← ih]
      rfl
    · rw [List.takeWhile_cons_of_neg holds, List.dropWhile_cons_of_neg holds]
      rfl

/-- The white space at the front of a text is some of its first blanks. -/
theorem dropWhile_blanks (blanks : List Blank) (valid : ∀ blank ∈ blanks, blank.Valid)
    {rest : List Char} (black : ∀ c, rest.head? = some c → isWhitespace c = false) :
    ∃ later, later <:+ blanks ∧
      (blankText blanks ++ rest).dropWhile isWhitespace = blankText later ++ rest := by
  induction blanks with
  | nil =>
    refine ⟨[], List.suffix_refl _, ?_⟩
    cases rest with
    | nil => rfl
    | cons c rest => exact List.dropWhile_cons_of_neg (by simp [black c rfl])
  | cons blank blanks ih =>
    cases blank with
    | space c =>
      obtain ⟨later, suffix, drops⟩ :=
        ih fun blank there => valid blank (List.mem_cons_of_mem _ there)
      refine ⟨later, suffix.trans (List.suffix_cons _ _), ?_⟩
      have white : isWhitespace c := valid _ List.mem_cons_self
      rw [← drops]
      exact List.dropWhile_cons_of_pos white
    | line body => exact ⟨_, List.suffix_refl _, List.dropWhile_cons_of_neg (by decide)⟩
    | block body => exact ⟨_, List.suffix_refl _, List.dropWhile_cons_of_neg (by decide)⟩

/-- The lexer skips blanks and goes on to what comes after them. -/
theorem skipTrivia_blanks (file : List Char) (fuel : Nat) (blanks : List Blank)
    (valid : ∀ blank ∈ blanks, blank.Valid) (plain : ∀ blank ∈ blanks, blank.Plain)
    {rest left : List Char} (black : ∀ c, rest.head? = some c → isWhitespace c = false)
    (ends : ∀ fuel line, rest.length ≤ fuel →
      ∃ line', skipTrivia file fuel ⟨rest, line⟩ = .ok ⟨left, line'⟩)
    (enough : (blankText blanks ++ rest).length ≤ fuel) (line : Nat) :
    ∃ line', skipTrivia file fuel ⟨blankText blanks ++ rest, line⟩ = .ok ⟨left, line'⟩ := by
  induction fuel generalizing blanks line with
  | zero =>
    have none := List.append_eq_nil_iff.1 (List.length_eq_zero_iff.1 (Nat.le_zero.1 enough))
    rw [none.1]
    exact ends 0 line (by rw [none.2]; exact le_refl 0)
  | succ fuel ih =>
    cases blanks with
    | nil => exact ends _ line enough
    | cons blank blanks =>
      have validLater : ∀ blank ∈ blanks, blank.Valid := fun blank there =>
        valid blank (List.mem_cons_of_mem _ there)
      have plainLater : ∀ blank ∈ blanks, blank.Plain := fun blank there =>
        plain blank (List.mem_cons_of_mem _ there)
      cases blank with
      | space c =>
        have white : isWhitespace c := valid _ List.mem_cons_self
        obtain ⟨later, suffix, drops⟩ := dropWhile_blanks (.space c :: blanks) valid black
        obtain ⟨n, taken⟩ : ∃ n, ((blankText (.space c :: blanks) ++ rest).takeWhile
            isWhitespace).length = n + 1 := by
          refine ⟨((blankText blanks ++ rest).takeWhile isWhitespace).length, ?_⟩
          exact congrArg List.length (List.takeWhile_cons_of_pos white)
        have after := drop_takeWhile isWhitespace (blankText (.space c :: blanks) ++ rest)
        rw [drops, taken] at after
        have shorter : (blankText later ++ rest).length ≤ fuel := by
          rw [← after, List.length_drop]
          omega
        rw [skipTrivia]
        simp only [taken]
        rw [if_pos (Nat.succ_pos n), Lexer.bump]
        dsimp only
        rw [after]
        exact ih later (fun blank there => valid blank (suffix.subset there))
          (fun blank there => plain blank (suffix.subset there)) shorter _
      | line body =>
        have open' : '\n' ∉ body := plain _ List.mem_cons_self
        have text : blankText (.line body :: blanks) ++ rest =
            ('/' :: '/' :: body) ++ (blankText (.space '\n' :: blanks) ++ rest) := by
          simp [blankText, Blank.text]
        have taken : (blankText (.line body :: blanks) ++ rest).takeWhile (· ≠ '\n') =
            '/' :: '/' :: body := by
          rw [text, List.takeWhile_append_of_pos]
          · simp [blankText, Blank.text]
          · intro c there
            simp only [List.mem_cons] at there
            rcases there with rfl | rfl | there
            · decide
            · decide
            · simpa using fun same : c = '\n' => open' (same ▸ there)
        obtain ⟨line', skips⟩ := ih (.space '\n' :: blanks)
          (List.forall_mem_cons.2 ⟨(by decide : isWhitespace '\n' = true), validLater⟩)
          (List.forall_mem_cons.2 ⟨trivial, plainLater⟩)
          (by simp only [blankText, List.flatMap_cons, Blank.text, List.length_append,
                List.length_cons] at enough ⊢
              omega)
          ((line + ('/' :: '/' :: body).count '\n') % 2 ^ 32)
        refine ⟨line', ?_⟩
        rw [skipTrivia, if_neg (by simp [blankText, Blank.text, isWhitespace]),
          if_pos (by rw [text]; rfl)]
        dsimp only
        rw [taken, Lexer.bump]
        dsimp only
        rw [text, List.drop_left, List.take_left]
        exact skips
      | block body =>
        have ends := Text.find_append (valid _ List.mem_cons_self : Text.find _ _ = _)
          (blankText blanks ++ rest)
        have text : blankText (.block body :: blanks) ++ rest =
            '/' :: '*' :: (body ++ ['*', '/'] ++ (blankText blanks ++ rest)) := by
          simp [blankText, Blank.text]
        have after : (blankText (.block body :: blanks) ++ rest).drop (body.length + 4) =
            blankText blanks ++ rest := by
          rw [text]
          have long : body.length + 4 = (body ++ ['*', '/']).length + 2 := by simp
          rw [long]
          exact List.drop_left
        obtain ⟨line', skips⟩ := ih blanks validLater plainLater
          (by simp only [blankText, List.flatMap_cons, Blank.text, List.length_append,
                List.length_cons] at enough ⊢
              omega)
          ((line + ((blankText (.block body :: blanks) ++ rest).take (body.length + 4)).count '\n') %
            2 ^ 32)
        refine ⟨line', ?_⟩
        rw [skipTrivia, if_neg (by rw [text]; simp [isWhitespace]), if_neg (by rw [text]; simp),
          if_pos (by rw [text]; rfl)]
        have found : Text.find ['*', '/'] ((blankText (.block body :: blanks) ++ rest).drop 2) =
            some body.length := by
          rw [text]
          exact ends
        dsimp only
        rw [found]
        dsimp only
        rw [Lexer.bump]
        dsimp only
        rw [after]
        exact skips

/-! ## Reading words -/

/-- A run of characters of one kind ends where the kind does. -/
theorem takeWhile_run {p : Char → Bool} {run next : List Char} (all : ∀ c ∈ run, p c)
    (stop : ∀ c, next.head? = some c → p c = false) : (run ++ next).takeWhile p = run := by
  rw [List.takeWhile_append_of_pos all]
  cases next with
  | nil => exact List.append_nil _
  | cons c next =>
    rw [List.takeWhile_cons_of_neg (by simp [stop c rfl]), List.append_nil]

theorem bump_run (run next : List Char) (line : Nat) :
    (Lexer.mk (run ++ next) line).bump run.length = ⟨next, (line + run.count '\n') % 2 ^ 32⟩ := by
  rw [Lexer.bump]
  simp

theorem number_word (file : List Char) {text next : List Char} {value : Int64}
    (all : ∀ c ∈ text, c.isAlphanum) (stop : ∀ c, next.head? = some c → identChar c = false)
    (reads : numberValue text = some value) (line : Nat) :
    ∃ line', number file ⟨text ++ next, line⟩ = .ok (.int value, ⟨next, line'⟩) := by
  have taken : (text ++ next).takeWhile Char.isAlphanum = text := by
    refine takeWhile_run all fun c first => ?_
    have := stop c first
    simp only [identChar, Bool.or_eq_false_iff] at this
    exact this.2
  refine ⟨(line + text.count '\n') % 2 ^ 32, ?_⟩
  rw [number]
  simp only [taken, reads]
  rw [bump_run]

theorem ident_word {name next : List Char} (all : ∀ c ∈ name, identChar c)
    (stop : ∀ c, next.head? = some c → identChar c = false) (line : Nat) :
    ident ⟨name ++ next, line⟩ = (.ident name, ⟨next, (line + name.count '\n') % 2 ^ 32⟩) := by
  rw [ident]
  simp only [takeWhile_run all stop]
  rw [bump_run]

theorem punct_digraph {text : List Char} (known : text ∈ digraphs) (next : List Char) (line : Nat) :
    ∃ line', punct ⟨text ++ next, line⟩ = .ok (.punct text, ⟨next, line'⟩) := by
  have long : text.length = 2 := by
    revert text
    decide
  have found : digraphs.any (·.isPrefixOf (text ++ next)) = true :=
    List.any_eq_true.2 ⟨text, known, List.isPrefixOf_iff_prefix.2 (List.prefix_append _ _)⟩
  have bumped := bump_run text next line
  have taken : (text ++ next).take text.length = text := List.take_left
  rw [long] at bumped taken
  refine ⟨(line + text.count '\n') % 2 ^ 32, ?_⟩
  rw [punct, if_pos found, bumped, taken]

theorem punct_single {c : Char} {next : List Char} (small : c.toNat < 128)
    (single : ∀ digraph ∈ digraphs, ¬digraph.isPrefixOf ([c] ++ next)) (line : Nat) :
    ∃ line', punct ⟨[c] ++ next, line⟩ = .ok (.punct [c], ⟨next, line'⟩) := by
  have none : ¬digraphs.any (·.isPrefixOf ([c] ++ next)) = true := by
    rw [List.any_eq_true]
    rintro ⟨digraph, known, found⟩
    exact single digraph known found
  refine ⟨(line + [c].count '\n') % 2 ^ 32, ?_⟩
  rw [punct, if_neg none, Lexer.bumpByte]
  simp only [List.singleton_append, if_pos small, Panics.ok_bind]
  exact congrArg (fun after => Except.ok (Token.punct [c], after)) (bump_run [c] next line)

theorem bumpByte_cons {c : Char} (small : c.toNat < 128) (next : List Char) (line : Nat) :
    (Lexer.mk (c :: next) line).bumpByte = .ok ⟨next, (line + [c].count '\n') % 2 ^ 32⟩ := by
  rw [Lexer.bumpByte]
  dsimp only
  rw [if_pos small]
  exact congrArg Except.ok (bump_run [c] next line)

/-- The escapes the lexer knows, as C has them. -/
theorem unescape_simple {c : Char} (valid : (simpleEscape c).isSome)
    (plain : (Piece.simple c).Plain) :
    unescape c = (Piece.simple c).char ∧ c.toNat < 128 := by
  obtain ⟨a, b, f, v⟩ := plain
  rw [Piece.char]
  rw [simpleEscape] at valid ⊢
  simp only [if_neg a, if_neg b, if_neg f, if_neg v] at valid ⊢
  by_cases n : c = 'n'
  · subst n
    decide
  by_cases t : c = 't'
  · subst t
    decide
  by_cases r : c = 'r'
  · subst r
    decide
  rw [if_neg n, if_neg t, if_neg r] at valid ⊢
  split at valid
  · rename_i self
    rcases self with rfl | rfl | rfl | rfl <;> decide
  · cases valid

/-- A backslash and the character after it. -/
theorem stringBody_escape {c : Char} (small : c.toNat < 128) (next : List Char) (fuel line : Nat)
    (out : List Char) :
    stringBody file (fuel + 1) ⟨'\\' :: c :: next, line⟩ out =
      stringBody file fuel ⟨next, ((line + ['\\'].count '\n') % 2 ^ 32 + [c].count '\n') % 2 ^ 32⟩
        (out ++ [unescape c]) := by
  have first := bump_run ['\\'] (c :: next) line
  simp only [List.length_singleton, List.singleton_append] at first
  rw [stringBody]
  dsimp only
  rw [if_neg (by decide), if_pos rfl, first]
  dsimp only
  rw [bumpByte_cons small, Panics.ok_bind]

/-- One piece of a string. -/
theorem stringBody_piece {piece : Piece} {after : List Char} (valid : piece.Valid after)
    (plain : piece.Plain) (next : List Char) (fuel line : Nat) (out : List Char) :
    ∃ line', stringBody file (fuel + 1) ⟨piece.text ++ next, line⟩ out =
      stringBody file fuel ⟨next, line'⟩ (out ++ [piece.char]) := by
  cases piece with
  | plain c =>
    obtain ⟨quote, slash, -⟩ := valid
    refine ⟨(line + [c].count '\n') % 2 ^ 32, ?_⟩
    rw [stringBody]
    simp only [Piece.text, List.singleton_append]
    rw [if_neg quote, if_neg slash, bumpByte_cons plain, Panics.ok_bind]
    rfl
  | simple c =>
    obtain ⟨same, small⟩ := unescape_simple valid plain
    rw [← same]
    exact ⟨_, stringBody_escape small next fuel line out⟩
  | octal digits =>
    have zero : digits = ['0'] := plain
    subst zero
    exact ⟨_, stringBody_escape (by decide) next fuel line out⟩
  | hex digits => exact plain.elim

theorem stringBody_pieces (file : List Char) {pieces : List Piece} (valid : piecesValid pieces)
    (plain : ∀ piece ∈ pieces, piece.Plain) (fuel : Nat) (enough : pieces.length < fuel)
    (next : List Char) (line : Nat) (out : List Char) :
    ∃ line', stringBody file fuel ⟨pieceText pieces ++ '"' :: next, line⟩ out =
      .ok (.str (out ++ pieces.map Piece.char), ⟨next, line'⟩) := by
  induction pieces generalizing fuel line out with
  | nil =>
    obtain ⟨fuel, rfl⟩ := Nat.exists_eq_add_of_lt enough
    refine ⟨(line + ['"'].count '\n') % 2 ^ 32, ?_⟩
    rw [stringBody, List.map_nil, List.append_nil]
    simp only [pieceText, List.flatMap_nil, List.nil_append]
    rw [if_pos trivial]
    exact congrArg (fun after => Except.ok (Token.str out, after)) (bump_run ['"'] next line)
  | cons piece pieces ih =>
    obtain ⟨fuel, rfl⟩ := Nat.exists_eq_add_of_lt enough
    obtain ⟨here, valid⟩ := valid
    obtain ⟨plainHere, plain⟩ := List.forall_mem_cons.1 plain
    have text : pieceText (piece :: pieces) ++ '"' :: next =
        piece.text ++ (pieceText pieces ++ '"' :: next) := by
      rw [pieceText, List.flatMap_cons, ← pieceText, List.append_assoc]
    obtain ⟨middle, reads⟩ := stringBody_piece here plainHere (pieceText pieces ++ '"' :: next)
      ((piece :: pieces).length + fuel) line out
    obtain ⟨line', later⟩ := ih valid plain ((piece :: pieces).length + fuel)
      (by simp only [List.length_cons]; omega) middle (out ++ [piece.char])
    refine ⟨line', ?_⟩
    rw [text, reads, later, List.map_cons, List.append_assoc, List.singleton_append]

theorem length_pieces (pieces : List Piece) (valid : piecesValid pieces) :
    pieces.length ≤ (pieceText pieces).length := by
  induction pieces with
  | nil => exact le_refl _
  | cons piece pieces ih =>
    have later := ih valid.2
    have here : 1 ≤ piece.text.length := by
      cases piece <;> simp [Piece.text]
    rw [pieceText, List.flatMap_cons, ← pieceText, List.length_append, List.length_cons]
    omega

theorem of_letter {c : Char} (letter : c = '_' ∨ c.isAlpha) :
    c ≠ '#' ∧ c ≠ '"' ∧ c ≠ '\'' ∧ c.isDigit = false := by
  refine ⟨?_, ?_, ?_, ?_⟩
  · rintro rfl
    revert letter
    decide
  · rintro rfl
    revert letter
    decide
  · rintro rfl
    revert letter
    decide
  · rcases letter with rfl | alpha
    · decide
    · simp only [Char.isAlpha, Char.isUpper, Char.isLower, Char.isDigit, Bool.or_eq_true,
        Bool.and_eq_true, decide_eq_true_eq, Bool.and_eq_false_iff, decide_eq_false_iff_not,
        ge_iff_le, UInt32.le_iff_toNat_le, not_le] at alpha ⊢
      have marks : 'A'.val.toNat = 65 ∧ 'a'.val.toNat = 97 ∧ '9'.val.toNat = 57 := by decide
      omega

theorem of_digit {c : Char} (digit : c.isDigit) : c ≠ '#' ∧ c ≠ '"' ∧ c ≠ '\'' := by
  refine ⟨?_, ?_, ?_⟩ <;>
  · rintro rfl
    revert digit
    decide

/-- A word is read as what it means. -/
theorem nextToken_word (file : List Char) {word : Word} (valid : word.Valid) (plain : word.Plain)
    {next : List Char}
    (apart : word.Apart next) (line : Nat) :
    ∃ c rest line', word.text = c :: rest ∧
      nextToken file ⟨word.text ++ next, line⟩ c = .ok (word.token, ⟨next, line'⟩) := by
  cases word with
  | ident name =>
    obtain ⟨c, rest, rfl, first, others⟩ := valid
    have letter : (c = '_' || c.isAlpha) = true := by simpa using first
    have all : ∀ d ∈ c :: rest, identChar d := by
      refine List.forall_mem_cons.2 ⟨?_, by simpa using others⟩
      rcases first with rfl | alpha
      · decide
      · simp [identChar, Char.isAlphanum, alpha]
    obtain ⟨hash, quote, tick, digit⟩ := of_letter first
    refine ⟨c, rest, (line + (c :: rest).count '\n') % 2 ^ 32, rfl, ?_⟩
    rw [nextToken, if_neg hash, if_neg quote, if_neg tick, if_neg (by simp [digit]), if_pos letter]
    exact congrArg Except.ok (ident_word all apart line)
  | int text =>
    obtain ⟨⟨c, rest, rfl, digit⟩, all, value⟩ := valid
    obtain ⟨hash, quote, tick⟩ := of_digit digit
    obtain ⟨found, reads⟩ := Option.isSome_iff_exists.1 value
    have reads' := (numberValue_eq plain value).trans reads
    obtain ⟨line', ends⟩ := number_word file (List.all_eq_true.1 all) apart reads' line
    refine ⟨c, rest, line', rfl, ?_⟩
    rw [nextToken, if_neg hash, if_neg quote, if_neg tick, if_pos digit, Word.token, reads]
    exact ends
  | str pieces =>
    obtain ⟨line', ends⟩ := stringBody_pieces file valid plain
      (('"' :: (pieceText pieces ++ ['"']) ++ next).length + 1)
      (by have := length_pieces pieces valid
          simp only [List.cons_append, List.length_cons, List.length_append]
          omega) next ((line + ['"'].count '\n') % 2 ^ 32) []
    refine ⟨'"', pieceText pieces ++ ['"'], line', rfl, ?_⟩
    rw [nextToken, if_neg (by decide), if_pos rfl, string]
    have first := bump_run ['"'] (pieceText pieces ++ '"' :: next) line
    have text : '"' :: (pieceText pieces ++ ['"']) ++ next =
        ['"'] ++ (pieceText pieces ++ '"' :: next) := by simp
    change stringBody file (('"' :: (pieceText pieces ++ ['"']) ++ next).length + 1)
      ((Lexer.mk ('"' :: (pieceText pieces ++ ['"']) ++ next) line).bump 1) [] = _
    refine Eq.trans (congrArg (fun after => stringBody file _ after []) ?_) ends
    rw [text]
    exact first
  | punct text =>
    rcases valid with known | ⟨c, rfl, small, white, ident, hash, quote, tick⟩
    · obtain ⟨line', ends⟩ := punct_digraph known next line
      have first : ∃ c rest, text = c :: rest ∧ nextToken file ⟨text ++ next, line⟩ c =
          punct ⟨text ++ next, line⟩ := by
        simp only [digraphs, List.mem_cons, List.not_mem_nil, or_false] at known
        rcases known with rfl | rfl | rfl | rfl | rfl | rfl | rfl | rfl <;> exact ⟨_, _, rfl, rfl⟩
      obtain ⟨c, rest, starts, same⟩ := first
      exact ⟨c, rest, line', starts, same.trans ends⟩
    · obtain ⟨line', ends⟩ := punct_single small (apart.1 rfl) line
      simp only [identChar, Char.isAlphanum, Bool.or_eq_false_iff] at ident
      refine ⟨c, [], line', rfl, ?_⟩
      rw [nextToken, if_neg hash, if_neg quote, if_neg tick, if_neg (by simp [ident]),
        if_neg (by simpa using ⟨by simpa using ident.1, ident.2.1⟩)]
      exact ends

/-! ## Reading a text -/

/-- The characters of identifiers and numbers have one byte. -/
theorem small_identChar {c : Char} (letter : identChar c) : c.toNat < 128 := by
  simp only [identChar, Char.isAlphanum, Char.isAlpha, Char.isUpper, Char.isLower, Char.isDigit,
    Bool.or_eq_true, Bool.and_eq_true, decide_eq_true_eq, beq_iff_eq, ge_iff_le,
    UInt32.le_iff_toNat_le] at letter
  have marks : 'Z'.val.toNat = 90 ∧ 'z'.val.toNat = 122 ∧ '9'.val.toNat = 57 := by decide
  rcases letter with rfl | letter
  · decide
  · change c.val.toNat < 128
    omega

theorem of_identChar {c : Char} (letter : identChar c) : isWhitespace c = false ∧ c ≠ '/' := by
  have table : ∀ n < 128, identChar (Char.ofNat n) = true →
      isWhitespace (Char.ofNat n) = false ∧ Char.ofNat n ≠ '/' := by decide +kernel
  have here := table c.toNat (small_identChar letter)
  rw [Char.ofNat_toNat] at here
  exact here letter

theorem firm_word {word : Word} (valid : word.Valid) {next : List Char} (apart : word.Apart next) :
    Firm (word.text ++ next) := by
  -- only a word that starts with a slash could open a comment
  have firm : ∀ c rest, word.text = c :: rest → isWhitespace c = false → c ≠ '/' →
      Firm (word.text ++ next) := by
    intro c rest starts white slash
    rw [starts]
    refine ⟨fun d first => ?_, ?_, ?_⟩
    · cases first
      exact white
    · simp [Ne.symm slash]
    · simp [Ne.symm slash]
  cases word with
  | ident name =>
    obtain ⟨c, rest, rfl, first, -⟩ := valid
    have letter : identChar c := by
      rcases first with rfl | alpha
      · decide
      · simp [identChar, Char.isAlphanum, alpha]
    exact firm c rest rfl (of_identChar letter).1 (of_identChar letter).2
  | int text =>
    obtain ⟨⟨c, rest, rfl, digit⟩, -, -⟩ := valid
    have letter : identChar c := by simp [identChar, Char.isAlphanum, digit]
    exact firm c rest rfl (of_identChar letter).1 (of_identChar letter).2
  | str pieces => exact firm '"' _ rfl (by decide) (by decide)
  | punct text =>
    rcases valid with known | ⟨c, rfl, small, white, -⟩
    · have first : ∃ c rest, text = c :: rest ∧ isWhitespace c = false ∧ c ≠ '/' := by
        simp only [digraphs, List.mem_cons, List.not_mem_nil, or_false] at known
        rcases known with rfl | rfl | rfl | rfl | rfl | rfl | rfl | rfl <;>
          exact ⟨_, _, rfl, by decide, by decide⟩
      obtain ⟨c, rest, starts, white, slash⟩ := first
      exact firm c rest starts white slash
    · by_cases slash : c = '/'
      · subst slash
        obtain ⟨one, two⟩ := apart.2 rfl
        refine ⟨fun d first => ?_, ?_, ?_⟩
        · cases first
          decide
        · cases next with
          | nil => decide
          | cons d next =>
            have differs : ¬ '/' = d := fun same => one (by rw [← same]; rfl)
            simp [Word.text, differs]
        · cases next with
          | nil => decide
          | cons d next =>
            have differs : ¬ '*' = d := fun same => two (by rw [← same]; rfl)
            simp [Word.text, differs]
      · exact firm c [] rfl white slash

theorem run_step {fuel line line' : Nat} {text rest : List Char} {c : Char} {token : Token}
    {next : Lexer} {toks : List Tok}
    (skips : skipTrivia file text.length ⟨text, line⟩ = .ok ⟨c :: rest, line'⟩)
    (reads : nextToken file ⟨c :: rest, line'⟩ c = .ok (token, next))
    (later : run file fuel next = .ok toks) :
    run file (fuel + 1) ⟨text, line⟩ = .ok (⟨token, line'⟩ :: toks) := by
  rw [run]
  dsimp only
  rw [skips, Panics.ok_bind]
  dsimp only
  rw [reads, Panics.ok_bind]
  dsimp only
  rw [later]
  rfl

/-- The tokens of words, as the lexer reads them. -/
theorem run_words (file : List Char) {tail : List Char}
    (tailEnds : ∀ line, ∃ line', skipTrivia file tail.length ⟨tail, line⟩ = .ok ⟨[], line'⟩)
    {words : List (List Blank × Word)} (valid : wordsValid tail words)
    (plain : ∀ word ∈ words, (∀ blank ∈ word.1, blank.Plain) ∧ word.2.Plain) {fuel : Nat}
    (enough : words.length < fuel) (line : Nat) :
    ∃ toks, run file fuel ⟨wordsText tail words, line⟩ = .ok toks ∧
      tokens toks = words.map fun word => word.2.token := by
  induction words generalizing fuel line with
  | nil =>
    obtain ⟨fuel, rfl⟩ := Nat.exists_eq_add_of_lt enough
    obtain ⟨line', ends⟩ := tailEnds line
    refine ⟨[], ?_, rfl⟩
    rw [run]
    simp only [wordsText, ends, Panics.ok_bind]
  | cons word words ih =>
    obtain ⟨blanks, word⟩ := word
    obtain ⟨fuel, rfl⟩ := Nat.exists_eq_add_of_lt enough
    obtain ⟨validBlanks, validWord, apart, valid⟩ := valid
    obtain ⟨⟨plainBlanks, plainWord⟩, plain⟩ := List.forall_mem_cons.1 plain
    obtain ⟨line', skips⟩ :=
      skipTrivia_blanks file (wordsText tail ((blanks, word) :: words)).length
      blanks validBlanks plainBlanks (firm_word validWord apart).1
      (fun fuel line _ => ⟨line, skipTrivia_firm (firm_word validWord apart) fuel line⟩)
      (by rw [wordsText]) line
    obtain ⟨c, rest, line'', starts, reads⟩ := nextToken_word file validWord plainWord apart line'
    obtain ⟨toks, later, same⟩ := ih valid plain
      (by rw [List.length_cons]; omega : words.length < ((blanks, word) :: words).length + fuel) line''
    refine ⟨⟨word.token, line'⟩ :: toks, ?_, ?_⟩
    · rw [starts] at reads
      refine run_step (skips.trans ?_) reads later
      rw [starts]
      rfl
    · rw [tokens, List.map_cons, ← tokens, same]
      rfl

/-- What comes after the last word is skipped to the end. -/
theorem skipTrivia_tail (file : List Char) {source : Source} (valid : source.Valid)
    (plain : source.Plain) (line : Nat) :
    ∃ line', skipTrivia file source.tail.length ⟨source.tail, line⟩ = .ok ⟨[], line'⟩ := by
  refine skipTrivia_blanks file _ source.blanks valid.blanks plain.blanks ?_ ?_ (le_refl _) line
  · intro c first
    cases comment : source.comment with
    | none => simp [comment] at first
    | some body =>
      simp only [comment, Option.map_some, Option.getD_some, List.head?_cons,
        Option.some.injEq] at first
      rw [← first]
      decide
  · intro fuel line enough
    cases comment : source.comment with
    | none => exact ⟨line, skipTrivia_firm firm_nil fuel line⟩
    | some body =>
      have open' := plain.comment body comment
      have all : ('/' :: '/' :: body).takeWhile (· ≠ '\n') = '/' :: '/' :: body := by
        refine List.takeWhile_eq_self_iff.2 fun c there => ?_
        simp only [List.mem_cons] at there
        rcases there with rfl | rfl | there
        · decide
        · decide
        · simpa using fun same : c = '\n' => open' (same ▸ there)
      cases fuel with
      | zero => simp [comment] at enough
      | succ fuel =>
        refine ⟨(line + ('/' :: '/' :: body).count '\n') % 2 ^ 32, ?_⟩
        simp only [Option.map_some, Option.getD_some]
        rw [skipTrivia, if_neg (by simp [isWhitespace]), if_pos (by rfl)]
        dsimp only
        rw [all, Lexer.bump]
        simp only [List.drop_length, List.take_length]
        exact skipTrivia_firm firm_nil fuel _

theorem length_words {tail : List Char} {words : List (List Blank × Word)}
    (valid : wordsValid tail words) : words.length ≤ (wordsText tail words).length := by
  induction words with
  | nil => exact Nat.zero_le _
  | cons word words ih =>
    obtain ⟨blanks, word⟩ := word
    obtain ⟨-, validWord, apart, valid⟩ := valid
    have later := ih valid
    have here : 1 ≤ word.text.length := by
      cases word with
      | ident name =>
        obtain ⟨c, rest, rfl, -⟩ := validWord
        simp [Word.text]
      | int text =>
        obtain ⟨⟨c, rest, rfl, -⟩, -⟩ := validWord
        simp [Word.text]
      | str pieces => simp [Word.text]
      | punct text =>
        rcases validWord with known | ⟨c, rfl, -⟩
        · have long : ∀ digraph ∈ digraphs, 1 ≤ digraph.length := by decide
          exact long text known
        · simp [Word.text]
    rw [wordsText, List.length_append, List.length_append, List.length_cons]
    omega

/-- A plain text is read as the tokens C gives it. -/
theorem lex_source (file : List Char) {source : Source} (valid : source.Valid)
    (plain : source.Plain) :
    ∃ toks, lex file source.text = .ok toks ∧ tokens toks = source.tokens :=
  run_words file (skipTrivia_tail file valid plain) valid.words plain.words
    (Nat.lt_succ_of_le (length_words valid.words)) 1

end ClickDoom.Csource

import ClickDoom.Base.Digits
import ClickDoom.Base.Panics
import ClickDoom.Base.Text
import ClickDoom.Native.RowBinary

/-! # A lexer for the engine's constant tables

`native/src/csource/lex.rs`.  A text is a list of characters; cutting a character of more than one
byte apart is a panic, as a string slice off a character boundary is.  A loop that takes at least
one character each time round is given the length of what is left.
-/
namespace ClickDoom.Csource
open Native (isWhitespace trim)

/-- `Token`. -/
inductive Token
  | ident (name : List Char)
  | int (value : Int64)
  | str (text : List Char)
  | punct (text : List Char)
  | directive (text : List Char)
  deriving DecidableEq, Repr

/-- A token and the line it came from. -/
structure Tok where
  token : Token
  line : Nat
  deriving DecidableEq, Repr

/-- What stops a read.  An expression that ends too early has found nothing. -/
inductive CError
  | unterminated (file : List Char) (line : Nat) (what : String)
  | badNumber (file : List Char) (line : Nat) (text : List Char)
  | unknownSymbol (file : List Char) (line : Nat) (name : List Char)
  | expected (file : List Char) (line : Nat) (want : String) (found : Option Token)
  | ambiguous (file : List Char) (line : Nat) (name : List Char)
  | noArray (file name : List Char)
  deriving DecidableEq, Repr

/-- What is left of the text, and the line it starts on. -/
structure Lexer where
  rest : List Char
  line : Nat
  deriving DecidableEq, Repr

namespace Lexer

/-- Advances over characters, counting the newlines in them.  A line has 32 bits and wraps, as in a
release build; a debug build panics at the newline that would take it past them. -/
def bump (lexer : Lexer) (n : Nat) : Lexer :=
  ⟨lexer.rest.drop n, (lexer.line + (lexer.rest.take n).count '\n') % 2 ^ 32⟩

/-- Advances over one byte. -/
def bumpByte (lexer : Lexer) : Panics CError Lexer :=
  match lexer.rest with
  | [] => .error .panic
  | c :: _ => if c.toNat < 128 then .ok (lexer.bump 1) else .error .panic

end Lexer

/-- A character of an identifier. -/
def identChar (c : Char) : Bool := c == '_' || c.isAlphanum

/-- `unescape`, of a byte. -/
def unescape (b : Char) : Char :=
  if b = '0' then '\x00'
  else if b = 'n' then '\n'
  else if b = 't' then '\t'
  else if b = 'r' then '\r'
  else b

section
variable (file : List Char)

/-- `skip_trivia`: white space and comments. -/
def skipTrivia : Nat → Lexer → Panics CError Lexer
  | 0, lexer => .ok lexer
  | fuel + 1, lexer =>
    let spaces := (lexer.rest.takeWhile isWhitespace).length
    if spaces > 0 then skipTrivia fuel (lexer.bump spaces)
    else if ['/', '/'].isPrefixOf lexer.rest then
      skipTrivia fuel (lexer.bump (lexer.rest.takeWhile (· ≠ '\n')).length)
    else if ['/', '*'].isPrefixOf lexer.rest then
      match Text.find ['*', '/'] (lexer.rest.drop 2) with
      | none => Panics.fail (.unterminated file lexer.line "comment")
      | some n => skipTrivia fuel (lexer.bump (n + 4))
    else .ok lexer

/-- The lines of a directive, joined across backslash continuations. -/
def directiveBody : Nat → Lexer → List Char → List Char × Lexer
  | 0, lexer, body => (body, lexer)
  | fuel + 1, lexer, body =>
    if lexer.rest = [] then (body, lexer)
    else
      let line := lexer.rest.takeWhile (· ≠ '\n')
      let after := lexer.bump line.length
      if line.getLast? = some '\\' then
        directiveBody fuel (after.bump 1) (body ++ line.dropLast ++ [' '])
      else (body ++ line, after)

/-- A preprocessor line. -/
def directive (lexer : Lexer) : Token × Lexer :=
  let (body, after) := directiveBody (lexer.rest.length + 1) (lexer.bump 1) []
  (.directive (trim body), after)

def ident (lexer : Lexer) : Token × Lexer :=
  let name := lexer.rest.takeWhile identChar
  (.ident name, lexer.bump name.length)

/-- `u`, `U`, `l` and `L` at the end of a number. -/
def suffixChar (c : Char) : Bool := c = 'u' || c = 'U' || c = 'l' || c = 'L'

/-- The value of a number's text, none where it has none. -/
def numberValue (text : List Char) : Option Int64 :=
  let digits := text.rdropWhile suffixChar
  if ['0', 'x'].isPrefixOf digits || ['0', 'X'].isPrefixOf digits then
    (Digits.fromStrRadix 16 (2 ^ 64) (digits.drop 2)).map Int64.ofNat
  else (Digits.fromStrRadix 10 (2 ^ 63) digits).map Int64.ofNat

def number (lexer : Lexer) : Panics CError (Token × Lexer) :=
  let text := lexer.rest.takeWhile Char.isAlphanum
  match numberValue text with
  | some value => .ok (.int value, lexer.bump text.length)
  | none => Panics.fail (.badNumber file lexer.line text)

/-- The text of a string literal after its opening quote. -/
def stringBody : Nat → Lexer → List Char → Panics CError (Token × Lexer)
  | 0, _, _ => .error .panic
  | fuel + 1, lexer, out =>
    match lexer.rest with
    | [] => Panics.fail (.unterminated file lexer.line "string")
    | c :: _ =>
      if c = '"' then .ok (.str out, lexer.bump 1)
      else if c = '\\' then do
        let after := lexer.bump 1
        match after.rest with
        | [] => Panics.fail (.unterminated file after.line "escape")
        | escaped :: _ =>
          let next ← after.bumpByte
          stringBody fuel next (out ++ [unescape escaped])
      else do
        let next ← lexer.bumpByte
        stringBody fuel next (out ++ [c])

def string (lexer : Lexer) : Panics CError (Token × Lexer) :=
  stringBody file (lexer.rest.length + 1) (lexer.bump 1) []

/-- A character literal, as its numeric value. -/
def charLiteral (lexer : Lexer) : Panics CError (Token × Lexer) := do
  let lexer := lexer.bump 1
  match lexer.rest with
  | [] => Panics.fail (.unterminated file lexer.line "character")
  | b :: _ =>
    let (value, lexer) ←
      if b = '\\' then
        let after := lexer.bump 1
        match after.rest with
        | [] => Panics.fail (.unterminated file after.line "escape")
        | escaped :: _ => .ok (unescape escaped, after)
      else .ok (b, lexer)
    let lexer ← lexer.bumpByte
    if lexer.rest.head? = some '\'' then
      .ok (.int (Int64.ofNat value.toNat), lexer.bump 1)
    else Panics.fail (.unterminated file lexer.line "character")

/-- The two-character operators. -/
def digraphs : List (List Char) :=
  [['<', '<'], ['>', '>'], ['<', '='], ['>', '='], ['=', '='], ['!', '='], ['&', '&'], ['|', '|']]

def punct (lexer : Lexer) : Panics CError (Token × Lexer) :=
  if digraphs.any (·.isPrefixOf lexer.rest) then .ok (.punct (lexer.rest.take 2), lexer.bump 2)
  else do
    let next ← lexer.bumpByte
    .ok (.punct (lexer.rest.take 1), next)

/-- The token that starts with a character. -/
def nextToken (lexer : Lexer) (b : Char) : Panics CError (Token × Lexer) :=
  if b = '#' then .ok (directive lexer)
  else if b = '"' then string file lexer
  else if b = '\'' then charLiteral file lexer
  else if b.isDigit then number file lexer
  else if b = '_' || b.isAlpha then .ok (ident lexer)
  else punct lexer

/-- The lexer's loop. -/
def run : Nat → Lexer → Panics CError (List Tok)
  | 0, _ => .ok []
  | fuel + 1, lexer => do
    let lexer ← skipTrivia file lexer.rest.length lexer
    match lexer.rest with
    | [] => .ok []
    | b :: _ =>
      let (token, next) ← nextToken file lexer b
      let later ← run fuel next
      return ⟨token, lexer.line⟩ :: later

/-- `lex`. -/
def lex (text : List Char) : Panics CError (List Tok) := run file (text.length + 1) ⟨text, 1⟩

end

end ClickDoom.Csource

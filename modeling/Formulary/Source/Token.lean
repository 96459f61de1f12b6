import Formulary.Number.Reading
import Formulary.Operator
import Formulary.Source.Diagnostic
import Formulary.Text.Blank
import Formulary.Text.Numeric

/-!
# Tokens of formulas

A text is cut into the longest tokens from left to right, blanks between them are left out. The cut
stops at the end of the text or at the first place where no token can be read; what is wrong there is
kept, since it is reported only if a reader gets that far.
-/

namespace Formulary

inductive Token where
  | number (n : Number)
  | text (s : String)
  | boolean (b : Bool)
  | name (s : String)
  | operator (op : BinaryOperator)
  | bang
  | question
  | colon
  | comma
  | open
  | close
deriving DecidableEq

namespace Token

/-- What starts at a character: a token that goes on for so many further characters, or none. -/
inductive Scan where
  | token (token : Token) (further : Nat)
  | fault (fault : ParseFault)
  /-- A text or a name that does not end. -/
  | unclosed (quote : Char)

/-- The character that an escape stands for; an unknown escape is the character itself. -/
def unescape : Char → Char
  | 'n' => '\n'
  | 't' => '\t'
  | 'r' => '\r'
  | c => c

/-- The content of a quoted text and the number of characters up to the closing quote. -/
def scanText (quote : Char) : List Char → Option (List Char × Nat)
  | [] => none
  | '\\' :: c :: rest =>
    (scanText quote rest).map fun (content, further) => (unescape c :: content, further + 2)
  | c :: rest =>
    if c = quote then some ([], 1)
    else (scanText quote rest).map fun (content, further) => (c :: content, further + 1)

/-- A point and the digits after it, if the text goes on so, and the rest. -/
def spanPoint : List Char → List Char × List Char
  | '.' :: rest => ('.' :: rest.takeWhile isDigit, rest.dropWhile isDigit)
  | rest => ([], rest)

/-- The characters of a number: digits, a point with digits, an exponent. -/
def numberChars (chars : List Char) : List Char :=
  let (point, rest) := spanPoint (chars.dropWhile isDigit)
  chars.takeWhile isDigit ++ point ++ DecimalText.takeExponent rest

def scanNumber (chars : List Char) : Scan :=
  let lexeme := numberChars chars
  match Number.ofDecimal? lexeme with
  | some n => .token (number n) (lexeme.length - 1)
  | none => .fault (.unexpectedToken (String.ofList lexeme) .number)

def isNameChar (c : Char) : Bool := isAlphanumeric c || c == '_'

/-- The words `true` and `false` are no names. -/
def ofWord (word : List Char) : Token :=
  if word = "true".toList then boolean true
  else if word = "false".toList then boolean false
  else name (String.ofList word)

/-- The quote around names that are no words. -/
def nameQuote : Char := '\x60'

def scanQuotedName (rest : List Char) : Scan :=
  let content := rest.takeWhile (· ≠ nameQuote)
  if content.length < rest.length then .token (name (String.ofList content)) (content.length + 1)
  else .unclosed nameQuote

/-- What starts with the character `c` before `rest`. -/
def scan (c : Char) (rest : List Char) : Scan :=
  match c, rest with
  | '+', _ => .token (operator .add) 0
  | '-', _ => .token (operator .subtract) 0
  | '*', _ => .token (operator .multiply) 0
  | '/', _ => .token (operator .divide) 0
  | '%', _ => .token (operator .remainder) 0
  | '^', _ => .token (operator .power) 0
  | '?', _ => .token question 0
  | ':', _ => .token colon 0
  | ',', _ => .token comma 0
  | '(', _ => .token .open 0
  | ')', _ => .token close 0
  | '=', '=' :: '=' :: _ => .token (operator .strictEqual) 2
  | '=', '=' :: _ => .token (operator .equal) 1
  | '=', _ => .token (operator .equal) 0
  | '!', '=' :: '=' :: _ => .token (operator .strictNotEqual) 2
  | '!', '=' :: _ => .token (operator .notEqual) 1
  | '!', _ => .token bang 0
  | '<', '=' :: _ => .token (operator .lessEqual) 1
  | '<', '>' :: _ => .token (operator .notEqual) 1
  | '<', _ => .token (operator .lessThan) 0
  | '>', '=' :: _ => .token (operator .greaterEqual) 1
  | '>', _ => .token (operator .greaterThan) 0
  | '&', '&' :: _ => .token (operator .and) 1
  | '|', '|' :: _ => .token (operator .or) 1
  | _, _ =>
    if c = '&' ∨ c = '|' then .fault (.unexpectedToken (String.ofList [c]) (.doubled c))
    else if c = '"' ∨ c = '\'' then
      match scanText c rest with
      | some (content, further) => .token (text (String.ofList content)) further
      | none => .unclosed c
    else if c = nameQuote then scanQuotedName rest
    else if isDigit c ∨ (c = '.' ∧ (rest.head?.any isDigit)) then scanNumber (c :: rest)
    else if isAlphabetic c ∨ c = '_' then
      let word := rest.takeWhile isNameChar
      .token (ofWord (c :: word)) word.length
    else .fault (.unexpectedToken (String.ofList [c]) .expression)

end Token

/-- A token at its place. -/
structure Lexeme where
  token : Token
  /-- The byte offset at which it starts. -/
  offset : Nat
  /-- The source from there on. -/
  source : List Char
  /-- The number of its characters. -/
  width : Nat

def Lexeme.written (lexeme : Lexeme) : String := String.ofList (lexeme.source.take lexeme.width)

/-- Why there are no further tokens. -/
inductive Ending where
  | finish (offset : Nat)
  | fault (error : ParseError)

/-- The tokens of a text up to its end or to its first lexical fault. -/
structure Lexemes where
  list : List Lexeme
  ending : Ending

namespace Lexemes

def byteLength (chars : List Char) : Nat := (chars.map Char.utf8Size).sum

/-- Cuts a text whose first `skip` characters belong to the token before it. -/
def cutFrom (offset : Nat) : (skip : Nat) → List Char → Lexemes
  | _, [] => ⟨[], .finish offset⟩
  | skip + 1, c :: rest => cutFrom (offset + c.utf8Size) skip rest
  | 0, c :: rest =>
    if isBlank c then cutFrom (offset + c.utf8Size) 0 rest
    else match Token.scan c rest with
      | .token token further =>
        let after := cutFrom (offset + c.utf8Size) further rest
        ⟨⟨token, offset, c :: rest, further + 1⟩ :: after.list, after.ending⟩
      | .fault fault => ⟨[], .fault ⟨fault, offset⟩⟩
      | .unclosed quote =>
        ⟨[], .fault ⟨.unexpectedEnd (.closing quote), offset + byteLength (c :: rest)⟩⟩

def ofText (source : String) : Lexemes := cutFrom 0 0 source.toList

end Lexemes

end Formulary

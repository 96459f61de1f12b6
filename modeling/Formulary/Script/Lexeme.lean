import Formulary.Error
import Formulary.Number.Reading
import Formulary.Script.Token
import Formulary.Text.Blank

/-!
# Tokens of a code

A code is cut into tokens before any of it is read, so a fault anywhere in it comes first. The last
token is always `finish`.
-/

namespace Formulary

namespace Script

/-- A token and the byte offset at which it starts. -/
structure Lexeme where
  token : Token
  offset : Nat
deriving DecidableEq

def isAsciiLetter (c : Char) : Bool := ('a' ≤ c && c ≤ 'z') || ('A' ≤ c && c ≤ 'Z')

def isWordChar (c : Char) : Bool := isAsciiLetter c || isDigit c || c == '_'

/-- The character that an escape stands for, if it is one. -/
def unescape? : Char → Option Char
  | 'n' => some '\n'
  | 'r' => some '\r'
  | 't' => some '\t'
  | '"' => some '"'
  | '\\' => some '\\'
  | _ => none

/-- The content of a quoted text and the number of characters up to the closing quote. -/
def scanText : List Char → Except Fault (List Char × Nat)
  | [] => .error .unterminatedText
  | '"' :: _ => .ok ([], 1)
  | '\\' :: escape :: rest =>
    match unescape? escape with
    | none => .error .badEscape
    | some c => (scanText rest).map fun (content, further) => (c :: content, further + 2)
  | c :: rest =>
    if c = '\\' then .error .badEscape
    else (scanText rest).map fun (content, further) => (c :: content, further + 1)

/-- The characters of a number: digits and points, then an exponent. -/
def numberChars (chars : List Char) : List Char :=
  let isPart := fun c => isDigit c || c == '.'
  chars.takeWhile isPart ++ DecimalText.takeExponent (chars.dropWhile isPart)

def scanNumber (chars : List Char) : Except Fault (Token × Nat) :=
  let lexeme := numberChars chars
  match Number.ofDecimal? lexeme with
  | some n => .ok (.number n, lexeme.length - 1)
  | none => .error (.malformedNumber (String.ofList lexeme))

/-- The token that starts with `c` before `rest` and the number of its further characters. -/
def scan (c : Char) (rest : List Char) : Except Fault (Token × Nat) :=
  match c, rest with
  | '(', _ => .ok (.open, 0)
  | ')', _ => .ok (.close, 0)
  | ',', _ => .ok (.comma, 0)
  | '?', _ => .ok (.question, 0)
  | ':', _ => .ok (.colon, 0)
  | '-', _ => .ok (.minus, 0)
  | '!', '=' :: '=' :: _ => .ok (.strictNotEqual, 2)
  | '!', '=' :: _ => .ok (.notEqual, 1)
  | '!', _ => .ok (.bang, 0)
  | '=', '=' :: '=' :: _ => .ok (.strictEqual, 2)
  | '=', '=' :: _ => .ok (.equal, 1)
  | '&', '&' :: _ => .ok (.and, 1)
  | '|', '|' :: _ => .ok (.or, 1)
  | '"', _ => (scanText rest).map fun (content, further) => (.text (String.ofList content), further)
  | _, _ =>
    if isDigit c ∨ c = '.' then scanNumber (c :: rest)
    else if isAsciiLetter c ∨ c = '_' then
      let word := rest.takeWhile isWordChar
      .ok (.word (String.ofList (c :: word)), word.length)
    else .error (.stray c)

/-- Cuts a code whose first `skip` characters belong to the token before it. -/
def cutFrom (offset : Nat) : (skip : Nat) → List Char → Except SyntaxFault (List Lexeme)
  | _, [] => .ok [⟨.finish, offset⟩]
  | skip + 1, c :: rest => cutFrom (offset + c.utf8Size) skip rest
  | 0, c :: rest =>
    if isBlank c then cutFrom (offset + c.utf8Size) 0 rest
    else match scan c rest with
      | .error fault => .error (.invalidScript offset fault)
      | .ok (token, further) =>
        (cutFrom (offset + c.utf8Size) further rest).map (⟨token, offset⟩ :: ·)

/-- The tokens of a code. -/
def lexemes (code : String) : Except SyntaxFault (List Lexeme) := cutFrom 0 0 code.toList

end Script

end Formulary

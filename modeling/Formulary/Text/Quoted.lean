import Formulary.Text.Printable

/-!
# Quoted text for diagnostics

A text between double quotes, on one line and in printable characters.
-/

namespace Formulary

/-- The escape of a character that has a short one. -/
def shortEscape? : Char → Option Char
  | '"' => some '"'
  | '\\' => some '\\'
  | '\n' => some 'n'
  | '\r' => some 'r'
  | '\t' => some 't'
  | '\x00' => some '0'
  | _ => none

/-- A character inside quotes. A mark that extends the character before it would be hard to see. -/
def quotedChar (c : Char) : List Char :=
  match shortEscape? c with
  | some letter => ['\\', letter]
  | none =>
    if isPrintable c && !isExtending c then [c]
    else ['\\', 'u', '\x7b'] ++ Nat.toDigits 16 c.toNat ++ ['\x7d']

/-- The text in double quotes. -/
def quotedText (text : String) : String :=
  String.ofList ('"' :: text.toList.flatMap quotedChar ++ ['"'])

end Formulary

import Formulary.Number.Decimal
import Formulary.Text.Quoted

/-!
# Tokens of scripts

The tokens of generated code and what can be wrong with such a code, with the words for both.
-/

namespace Formulary

namespace Script

inductive Token where
  | number (n : Number)
  | text (s : String)
  | word (name : String)
  | open
  | close
  | comma
  | question
  | colon
  | minus
  | bang
  | equal
  | strictEqual
  | notEqual
  | strictNotEqual
  | and
  | or
  /-- The end of the code. -/
  | finish
deriving DecidableEq

/-- The token's name in diagnostics. -/
def Token.describe : Token → String
  | number n => "Number(" ++ n.format Number.diagnosticStyle ++ ")"
  | text s => "String(" ++ quotedText s ++ ")"
  | word name => "Identifier(" ++ quotedText name ++ ")"
  | .open => "LeftParen"
  | close => "RightParen"
  | comma => "Comma"
  | question => "Question"
  | colon => "Colon"
  | minus => "Minus"
  | bang => "Bang"
  | equal => "Equal"
  | strictEqual => "StrictEqual"
  | notEqual => "NotEqual"
  | strictNotEqual => "StrictNotEqual"
  | and => "And"
  | or => "Or"
  | finish => "Eof"

/-- What a reader of code may ask for at a place. -/
inductive Wanted where
  | expression
  | number
  | text
  | index
  | open
  | close
  | comma
  | colon
  | finish
deriving DecidableEq

def Wanted.describe : Wanted → String
  | expression => "expression"
  | number => "number"
  | text => "string"
  | index => "aggregate index"
  | .open => "'('"
  | close => "')'"
  | comma => "','"
  | colon => "':'"
  | finish => "end of code"

/-- Why a code is no script. -/
inductive Fault where
  /-- A character that begins no token. -/
  | stray (c : Char)
  | unterminatedText
  | badEscape
  | malformedNumber (text : String)
  | unexpected (wanted : Wanted) (found : Token)
  | unknownFunction (name : String)
deriving DecidableEq

def Fault.describe : Fault → String
  | stray c => String.ofList ['\'', c, '\'']
  | unterminatedText => "unterminated string"
  | badEscape => "bad escape"
  | malformedNumber text => text
  | unexpected wanted found => "expected " ++ wanted.describe ++ ", found " ++ found.describe
  | unknownFunction name => "unknown function '" ++ name ++ "'"

end Script

end Formulary

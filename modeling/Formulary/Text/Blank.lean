import Formulary.Text.Ranges

/-!
# Blank characters

The characters with the property `White_Space`, and texts without them at their ends.
-/

namespace Formulary

/-- The white space of every script: 25 characters. -/
def blankRanges : List (Nat × Nat) := [
  (0x9, 0xD), (0x20, 0x20), (0x85, 0x85), (0xA0, 0xA0), (0x1680, 0x1680), (0x2000, 0x200A),
  (0x2028, 0x2029), (0x202F, 0x202F), (0x205F, 0x205F), (0x3000, 0x3000)]

def isBlank (c : Char) : Bool := inRanges blankRanges c

/-- The text without the blanks at its ends. -/
def trimChars (text : List Char) : List Char :=
  ((text.dropWhile isBlank).reverse.dropWhile isBlank).reverse

/-- Whether there is nothing but blanks. -/
def isBlankText (text : String) : Bool := text.toList.all isBlank

end Formulary

/-!
# Message catalog

Templates of messages by key. A template holds places `%@`, which take the arguments in order; a key
without a template is its own.
-/

namespace Formulary

/-- Templates by key, the first one of a key in force. -/
structure Catalog where
  entries : List (String × String)
deriving Repr

namespace Catalog

def english : Catalog where
  entries := [
    ("formula.syntax.found", "Syntax error: '%@'"),
    ("formula.syntax.end", "Syntax error: the formula is incomplete"),
    ("formula.syntax.depth", "Syntax error: the formula is nested too deeply"),
    ("formula.syntax.operator", "Unknown operator: '%@'"),
    ("formula.script.invalid", "Invalid generated code at offset %@: %@")]

/-- Puts a template in force for a key. -/
def insert (catalog : Catalog) (key template : String) : Catalog :=
  ⟨(key, template) :: catalog.entries⟩

def template (catalog : Catalog) (key : String) : String := (catalog.entries.lookup key).getD key

/-- Fills the places from left to right; a place without an argument is left out. -/
def fill : List Char → List String → List Char
  | '%' :: '@' :: rest, args => (args.headD "").toList ++ fill rest args.tail
  | c :: rest, args => c :: fill rest args
  | [], _ => []

def wording (catalog : Catalog) (key : String) (args : List String) : String :=
  String.ofList (fill (catalog.template key).toList args)

end Catalog

end Formulary

import Formulary.CommandLine.Arguments
import Formulary.Workspace.Formula

/-!
# The command line

The tasks of the command line and what they print. A failure is printed with what was being done and,
below it, its cause.
-/

namespace Formulary

namespace CommandLine

/-- How a run of the program ends. -/
structure Outcome where
  code : Nat
  stdout : String
  stderr : String
deriving DecidableEq, Repr

def printing (text : String) : Outcome := ⟨0, text ++ "\n", ""⟩

/-- A failure: what was being done, and why it could not be. -/
structure Failure where
  context : String
  cause : String

/-- A text with each line after the first indented like the first one. -/
def indented (text : String) : String :=
  String.ofList (text.toList.flatMap fun c => if c = '\n' then '\n' :: "    ".toList else [c])

def Failure.outcome (failure : Failure) : Outcome :=
  ⟨1, "", "Error: " ++ failure.context ++ "\n\nCaused by:\n    " ++ indented failure.cause ++ "\n"⟩

def usageError : Outcome :=
  ⟨2, "", "Usage: eval | compile | postfix | refs, then a formula\n"⟩

def emptyWarning : Outcome := ⟨0, "", "Warning: formula is empty\n"⟩

/-- The value of a variable as it is given on the command line. -/
def boundValue (raw : String) : Value :=
  match raw with
  | "" => .empty
  | "true" => .boolean true
  | "false" => .boolean false
  | raw => match Number.ofText? raw with
    | some n => .number n
    | none => .text raw

/-- A name and a value around the first `=`. -/
def binding (text : String) : Except Failure (String × Value) :=
  let failure := fun cause => .error ⟨"Invalid --var '" ++ text ++ "'", cause⟩
  match splitWord text.toList with
  | (_, none) => failure "expected NAME=VALUE"
  | (name, some raw) =>
    let name := trimChars name
    if name.isEmpty then failure "variable name is empty"
    else .ok (String.ofList name, boundValue (String.ofList raw))

/-- The sheet with the built-in functions and the variables given. -/
def sheetOf (bindings : List String) : Except Failure Sheet :=
  bindings.foldlM
    (fun sheet text => (binding text).map fun (name, value) => sheet.setVariable name value)
    Sheet.standard

/-- Values as they are printed: texts are quoted, so that the empty text is not like no data. -/
def displayValue : Value → String
  | .empty => "(empty)"
  | .text s => quotedText s
  | value => value.toText

/-- An error of the formula on which something was being done. -/
def whileDoing (what source : String) (error : FormulaError) : Failure :=
  ⟨"Failed to " ++ what ++ " '" ++ source ++ "'", error.message .english⟩

/-- Computes on a workspace where the formula is attached to the sheet. -/
def onFormula {α : Type} (sheet : Sheet) (source : String) (strategy : Strategy)
    (compute : (id : Nat) → Answer WorkspaceM α) : Except FormulaError α :=
  let w := (Workspace.empty.addHost .plain sheet).addFormula source strategy (some 0)
  ((compute 0).run.run w).1

def instructionLine (place : Nat) (instruction : Postfix.Instruction) : String :=
  let number := toString place
  String.ofList (List.replicate (4 - number.length) ' ') ++ number ++ "  " ++ instruction.describe ++ "\n"

def perform (source : String) : Task → Except Failure Outcome
  | .eval bindings strategy => do
    let sheet ← sheetOf bindings
    let value ← (onFormula sheet source strategy (Workspace.run · .empty)).mapError
      (whileDoing "evaluate" source)
    pure (printing (displayValue value))
  | .compile => do
    let found ← (onFormula .standard source .compiled Workspace.compiled).mapError
      (whileDoing "compile" source)
    match found with
    | some form => pure (printing form.code)
    | none => pure emptyWarning
  | .listing => do
    let found ← (onFormula .empty source .compiled Workspace.tree).mapError
      (whileDoing "parse" source)
    match found with
    | some expr =>
      let lines := (Postfix.Program.ofExpr expr).instructions.toList.zipIdx.map fun (instruction, place) =>
        instructionLine place instruction
      pure ⟨0, String.join lines, ""⟩
    | none => pure emptyWarning
  | .refs => do
    let refs ← (onFormula .empty source .compiled Workspace.references).mapError
      (whileDoing "parse" source)
    pure (printing ("Variables: " ++ ", ".intercalate refs.variables ++ "\nFunctions: "
      ++ ", ".intercalate refs.functions))

/-- A run of the program with some arguments. -/
def run (args : List String) : Outcome :=
  match read? args with
  | none => usageError
  | some (task, source) =>
    match perform source task with
    | .ok outcome => outcome
    | .error failure => failure.outcome

end CommandLine

end Formulary

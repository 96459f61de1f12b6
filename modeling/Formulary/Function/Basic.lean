import Formulary.Dictionary
import Formulary.Error
import Formulary.Value.Basic

/-!
# Functions

What a formula may call: a name, how many arguments it takes, and what it does with them. Most functions
have a result that depends on the arguments only; two kinds also leave something behind, variables or a
count of calls.
-/

namespace Formulary

inductive FunctionBody where
  | result (run : List Value → Except FormulaError Value)
  /-- Sets variables of the sheet that the function belongs to, one after the other, and then answers. What it
  sets and answers may depend on the variables that it finds. It does nothing to any other sheet. -/
  | setting (run : Dictionary Value → List Value → List (String × Value) × Except FormulaError Value)
  /-- Counts its own calls, of which there were so many. -/
  | counter (calls : Nat)

namespace FunctionBody

/-- The argument at a place, if there is one, else no data. -/
def argument (place : Nat) : FunctionBody := result fun args => .ok (args[place]?.getD .empty)

def constant (value : Value) : FunctionBody := result fun _ => .ok value

def failing (text : String) : FunctionBody := result fun _ => .error (.evaluation text)

/-- Sets a variable to the first argument, which is also the answer. -/
def assign (variableName : String) : FunctionBody :=
  setting fun _ args => ([(variableName, args.headD .empty)], .ok (args.headD .empty))

end FunctionBody

structure Function where
  name : String
  arity : Arity
  /-- The function reduces a collection, and its arguments are compiled inside an aggregate scope. -/
  aggregate : Bool
  body : FunctionBody

namespace Function

/-- Fails unless the function takes so many arguments. -/
def checkArity (f : Function) (count : Nat) : Except FormulaError Unit :=
  if f.arity.accepts count then .ok () else .error (.argumentCount f.name f.arity count)

def describe (f : Function) : String :=
  let most := match f.arity.most with
    | some most => "Some(" ++ toString most ++ ")"
    | none => "None"
  "FunctionDef \x7b name: " ++ quotedText f.name ++ ", min_args: " ++ toString f.arity.fewest
    ++ ", max_args: " ++ most ++ ", aggregate: " ++ (if f.aggregate then "true" else "false") ++ " \x7d"

end Function

/-- Functions by name. -/
abbrev Registry := Dictionary Function

/-- Puts a function in the place of one with the same name. -/
def Registry.register (registry : Registry) (f : Function) : Registry := registry.insert f.name f

end Formulary

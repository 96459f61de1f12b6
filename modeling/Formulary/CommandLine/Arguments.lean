import Formulary.Workspace.Basic

/-!
# Arguments of the command line

A subcommand comes first, then a formula and, for `eval`, options. An option's value stands after it: in the
next argument, after `=`, or right after the letter of a short option. After `--` nothing is an
option.
-/

namespace Formulary

namespace CommandLine

/-- What the program is asked to do with a formula. -/
inductive Task where
  | eval (bindings : List String) (strategy : Strategy)
  | compile
  | listing
  | refs
deriving DecidableEq, Repr

inductive Key where
  | binding
  | strategy
deriving DecidableEq, Repr

namespace Key

def ofLetter? : Char → Option Key
  | 'v' => some binding
  | 's' => some strategy
  | _ => none

def ofWord? : List Char → Option Key
  | ['v', 'a', 'r'] => some binding
  | ['s', 't', 'r', 'a', 't', 'e', 'g', 'y'] => some strategy
  | _ => none

end Key

/-- An argument on its own. -/
inductive Argument where
  | operand (text : String)
  /-- An option that takes the next argument as its value. -/
  | expecting (key : Key)
  | setting (key : Key) (value : String)
  /-- The end of the options. -/
  | separator
  /-- An option that does not exist. -/
  | unknown

def splitWord (word : List Char) : List Char × Option (List Char) :=
  match word.dropWhile (· != '=') with
  | [] => (word, none)
  | _ :: value => (word.takeWhile (· != '='), some value)

/-- The value written right after the letter of an option. -/
def attachedValue : List Char → String
  | '=' :: value => String.ofList value
  | value => String.ofList value

def Argument.ofText (text : String) : Argument :=
  match text.toList with
  | ['-', '-'] => separator
  | '-' :: '-' :: word =>
    match Key.ofWord? (splitWord word).1, (splitWord word).2 with
    | none, _ => unknown
    | some key, none => expecting key
    | some key, some value => setting key (String.ofList value)
  | '-' :: letter :: rest =>
    match Key.ofLetter? letter with
    | none => unknown
    | some key => if rest.isEmpty then expecting key else setting key (attachedValue rest)
  | _ => operand text

/-- The operands and settings of a command line. -/
structure Arguments where
  operands : List String
  settings : List (Key × String)

namespace Arguments

def addOperand (args : Arguments) (text : String) : Arguments :=
  { args with operands := text :: args.operands }

def addSetting (args : Arguments) (key : Key) (value : String) : Arguments :=
  { args with settings := (key, value) :: args.settings }

/-- Reads arguments; none if an option is unknown or lacks its value. -/
def ofTexts? : List String → Option Arguments
  | [] => some ⟨[], []⟩
  | text :: rest =>
    match Argument.ofText text with
    | .operand text => (ofTexts? rest).map (·.addOperand text)
    | .setting key value => (ofTexts? rest).map (·.addSetting key value)
    | .separator => some ⟨rest, []⟩
    | .unknown => none
    | .expecting key =>
      match rest with
      | [] => none
      | next :: rest =>
        match Argument.ofText next with
        | .operand value => (ofTexts? rest).map (·.addSetting key value)
        | _ => none

def valuesOf (args : Arguments) (key : Key) : List String :=
  (args.settings.filter fun setting => setting.1 == key).map Prod.snd

end Arguments

def strategyOf? : String → Option Strategy
  | "compiled" => some .compiled
  | "direct" => some .direct
  | "postfix" => some .flattened
  | _ => none

/-- The strategy asked for, at most once, and compilation if none is. -/
def strategyAmong? : List String → Option Strategy
  | [] => some .compiled
  | [name] => strategyOf? name
  | _ => none

/-- A task for arguments that name its formula, and settings only if it takes any. -/
def taskOf? : String → Arguments → Option Task
  | "eval", args => (strategyAmong? (args.valuesOf .strategy)).map (.eval (args.valuesOf .binding))
  | "compile", ⟨_, []⟩ => some .compile
  | "postfix", ⟨_, []⟩ => some .listing
  | "refs", ⟨_, []⟩ => some .refs
  | _, _ => none

/-- What a command line asks for, and the formula; none if it cannot be made out. -/
def read? : List String → Option (Task × String)
  | [] => none
  | name :: rest => do
    let args ← Arguments.ofTexts? rest
    let task ← taskOf? name args
    match args.operands with
    | [source] => some (task, source)
    | _ => none

end CommandLine

end Formulary

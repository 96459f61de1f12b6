import Formulary.Function.Basic
import Formulary.Number.Arithmetic
import Formulary.Number.Power

/-!
# Built-in functions

Arguments that are numbers, or texts that spell one, have a numeric reading. Functions of one argument
pass error markers and empty arguments through and answer `#VALUE!` for all else without a reading.
Reductions answer the first error marker among their arguments, if there is one, and otherwise see the
readings only.
-/

namespace Formulary

/-- The number that an argument is or spells. -/
def Value.reading? : Value → Option Number
  | .number n => some n
  | .text s => Number.ofText? s
  | _ => none

namespace Builtin

/-- A function of the numeric reading of the first argument. -/
def ofReading (f : Number → Number) : List Value → Value
  | [] => .empty
  | .error marker :: _ => .error marker
  | arg :: _ =>
    if arg.isEmpty then .empty
    else match arg.reading? with
      | some n => .number (f n)
      | none => .error .value

def abs : List Value → Value := ofReading Number.abs

def sqrt : List Value → Value := ofReading Number.sqrt

/-- Rounds to a decimal place, a half going away from zero, by scaling with a power of ten. -/
def roundAt (platform : Number → Number → Number) (digits n : Number) : Number :=
  let factor := (Number.ofNat 10).powOn platform digits
  (n.mul factor).round.div factor

/-- The first argument rounded to as many decimal places as the second one says, where the powers that are
not settled are those of `platform`. -/
def roundOn (platform : Number → Number → Number) (args : List Value) : Value :=
  match (args[1]? : Option Value) with
  | none => ofReading (roundAt platform (.ofNat 0)) args
  | some (.error marker) => .error marker
  | some arg => match arg.reading? with
    | some digits => ofReading (roundAt platform digits.trunc) args
    | none => .error .value

def round : List Value → Value := roundOn Number.platformPower

/-- The readings among the arguments in one pass, which the first marker ends. -/
def readings : List Value → Except ErrorMarker (List Number)
  | [] => .ok []
  | .error marker :: _ => .error marker
  | arg :: rest => (readings rest).map (arg.reading?.toList ++ ·)

/-- The result of a reduction of the readings. -/
def reduced (reduce : List Number → Value) (args : List Value) : Value :=
  match readings args with
  | .ok numbers => reduce numbers
  | .error marker => .error marker

/-- The best reading in one pass, which the first marker ends; `best` is that of the arguments before. -/
def extreme (better : Number → Number → Number) (best : Option Number) : List Value → Value
  | [] => best.elim .empty .number
  | .error marker :: _ => .error marker
  | arg :: rest =>
    extreme better ((arg.reading?.map fun n => best.elim n (better · n)) <|> best) rest

def min : List Value → Value := extreme Number.min none

def max : List Value → Value := extreme Number.max none

def sum : List Value → Value := reduced fun numbers => .number (Number.sum numbers)

def mean : List Value → Value := reduced fun numbers =>
  if numbers.isEmpty then .empty
  else .number ((Number.sum numbers).div (.ofNat numbers.length))

/-- The number of arguments that hold data. -/
def count (args : List Value) : Value :=
  .number (.ofNat (args.filter fun arg => !arg.isEmpty).length)

end Builtin

namespace Registry

/-- A function whose result is always a value. -/
def valued (name : String) (arity : Arity) (aggregate : Bool) (run : List Value → Value) : Function :=
  ⟨name, arity, aggregate, .result fun args => .ok (run args)⟩

/-- The built-in functions. -/
def standard : Registry := .ofList <|
  [ valued "abs" ⟨1, some 1⟩ false Builtin.abs,
    valued "round" ⟨1, some 2⟩ false Builtin.round,
    valued "sqrt" ⟨1, some 1⟩ false Builtin.sqrt,
    valued "min" ⟨1, none⟩ false Builtin.min,
    valued "max" ⟨1, none⟩ false Builtin.max,
    valued "sum" ⟨1, none⟩ true Builtin.sum,
    valued "mean" ⟨1, none⟩ true Builtin.mean,
    valued "count" ⟨0, none⟩ true Builtin.count ].map fun f => (f.name, f)

end Registry

end Formulary

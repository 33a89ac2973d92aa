import Spreadsheet.Expression.Arithmetic
import Spreadsheet.Expression.Library
import Spreadsheet.Expression.Part
import Spreadsheet.Expression.Tree
import Spreadsheet.Number.Reading

/-!
# Functions

What the functions of a formula make of their arguments. Each takes a list of
arguments, whose number is checked before any of them is read as a number. Truth
values count as one and zero, and a text counts as the number it reads as. An
expression calls these functions, the one that tests a condition and those of
its library by name, also as methods, whose first argument is their base.
-/
namespace Spreadsheet
open Text

def numberArgument (function : Builtin) : Datum → Except Failure Float
  | .number x => .ok x
  | .whole n => .ok (Float.ofInt n)
  | .truth b => .ok (if b then 1 else 0)
  | .text s =>
    match Number.read? (trim s.toList) with
    | some x => .ok x
    | none => .error (.notNumeric function s)
  | d => .error (.notNumber function d.type)

def numberArguments (function : Builtin) : List Datum → Except Failure (List Float)
  | [] => .ok []
  | d :: ds =>
    match numberArgument function d with
    | .error failure => .error failure
    | .ok x => (numberArguments function ds).map (x :: ·)

/-- Whether an argument counts as true: all but false and zero do. -/
def truthArgument : Datum → Except Failure Bool
  | .truth b => .ok b
  | d => (numberArgument .iif d).map fun x => x != 0

namespace Number

/-- The sum of a list of numbers; no numbers add up to a negative zero. -/
def sum (xs : List Float) : Float := xs.foldl (· + ·) (-0.0)

def mean (xs : List Float) : Float := sum xs / Float.ofNat xs.length

/-- The root of the squared distances from the mean, divided by the given number. -/
def deviation (xs : List Float) (divisor : Float) : Float :=
  (sum (xs.map fun x => (x - mean xs) * (x - mean xs)) / divisor).sqrt

end Number

namespace Builtin

def applyOne (function : Builtin) (x : Float) : Float :=
  match function with
  | abs => x.abs
  | cos => x.cos
  | exp => x.exp
  | int => Number.floor x
  | ln => x.log
  | log10 => x.log10
  | log2 => x.log2
  | sin => x.sin
  | sqrt => x.sqrt
  | tan => x.tan
  | todeg => x * (180 / Constant.pi.value)
  | torad => x * (Constant.pi.value / 180)
  | _ => x

def applyTwo (function : Builtin) (x y : Float) : Float :=
  match function with
  | mod => Number.remainder x y
  | _ => x.pow y

/-- What a function of any number of arguments gives, or the number that was drawn. -/
def applyMany (function : Builtin) (drawn : Float) (xs : List Float) : Float :=
  match function with
  | sum => Number.sum xs
  | avg => Number.mean xs
  | min => xs.foldl Number.smaller (1 / 0)
  | max => xs.foldl Number.larger (-1 / 0)
  | std => Number.deviation xs (Float.ofNat xs.length)
  | stds => Number.deviation xs (Float.ofNat xs.length - 1)
  | rand => drawn
  | _ => 0

def applyNumbers (function : Builtin) (drawn : Float) : List Float → Float
  | [x] =>
    if function.arity = .exactly 1 then function.applyOne x else function.applyMany drawn [x]
  | [x, y] =>
    if function.arity = .exactly 2 then function.applyTwo x y else function.applyMany drawn [x, y]
  | xs => function.applyMany drawn xs

def apply (function : Builtin) (drawn : Float) (arguments : List Datum) : Except Failure Datum :=
  if function.arity.accepts arguments.length then
    (numberArguments function arguments).map fun xs => .number (function.applyNumbers drawn xs)
  else .error (.argumentCount function)

end Builtin

/-- The name under which an expression tests a condition. -/
def conditionName : String := "truthy"

/-- The functions that an expression can call by name. -/
def callable? (name : String) : Option Builtin :=
  (Builtin.all.find? fun b => b.name == name).filter fun b => b != .iif && b != .str

section
variable [Library]

def callFunction (ω : Occasion) (bindings : Bindings) (name : String) (arguments : List Datum) :
    Except Interruption Datum :=
  match callable? name, arguments with
  | some function, [.list items] => orFailed (function.apply (Library.draw ω) items)
  | _, _ =>
    match decide (name = conditionName), arguments with
    | true, [condition] => orFailed ((truthArgument condition).map .truth)
    | _, _ =>
      match Library.call ω bindings name arguments with
      | some outcome => outcome
      | none => .error (.failed (.unsupported name (arguments.map Datum.type)))

/-- Takes one step from a datum to a part of it. -/
def Link.apply (ω : Occasion) (bindings : Bindings) (d : Datum) :
    Link Datum → Except Interruption Datum
  | property _ name => orFailed (d.property name)
  | method _ name arguments => callFunction ω bindings name (d :: arguments)
  | element _ index => orFailed (d.element index)

/-- Takes steps from a datum, one after the other. -/
def Link.applyAll (ω : Occasion) (bindings : Bindings) (d : Datum) :
    List (Link Datum) → Except Interruption Datum
  | [] => .ok d
  | link :: links =>
    match link.isOptional, d with
    | true, .unit => .ok .unit
    | _, d => do
      let e ← link.apply (ω.stage 0) bindings d
      applyAll (ω.stage 1) bindings e links

end

end Spreadsheet

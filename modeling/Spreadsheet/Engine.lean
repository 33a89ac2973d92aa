import Spreadsheet.Expression.Failure
import Spreadsheet.Occasion
import Spreadsheet.Value

/-!
# What evaluates expressions

Expressions are compiled and evaluated by an engine, of which nothing is laid down
but what goes in and what comes out. The text of an expression is compiled to a
script or refused. A script is evaluated with values bound to some names. It comes
to a datum, fails, or asks for a name that has no value. It may come to something
else on another occasion.
-/
namespace Spreadsheet

/-- Why an evaluation stops. -/
inductive Interruption where
  | needs (name : String)
  | failed (failure : Failure)
deriving DecidableEq, Repr

/-- The values that are bound to names, the latest first. -/
abbrev Bindings := List (String × Value)

/-- What compiles and evaluates expressions. -/
class Engine where
  Script : Type
  compile : List Char → Option Script
  evaluate : Occasion → Script → Bindings → Except Interruption Datum
  /-- The names that an evaluation of a script may ask for. -/
  names : Script → List String

end Spreadsheet

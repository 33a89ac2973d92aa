import Spreadsheet.Engine

/-!
# Libraries

What an expression can call besides the functions of a formula comes from a
library, and so do the numbers that are drawn at random and the limit on the depth
of an expression. A function of a library may give something else on another
occasion, and it may look up names by itself, as one does that evaluates a text.
-/
namespace Spreadsheet

class Library where
  /-- How many levels an expression may have. -/
  levelLimit : Nat
  /-- The number between zero and one that is drawn on an occasion. -/
  draw : Occasion → Float
  /-- What a function makes of its arguments; nothing if there is none of the name for them. -/
  call : Occasion → Bindings → String → List Datum → Option (Except Interruption Datum)
  /-- The names that functions may look up by themselves. -/
  lookedUp : List String

/-- A result of the functions and operators as a result of an evaluation. -/
def orFailed : Except Failure Datum → Except Interruption Datum
  | .ok d => .ok d
  | .error failure => .error (.failed failure)

end Spreadsheet

import Spreadsheet.Expression.Failure
import Spreadsheet.Position.Name
import Spreadsheet.Position.Rectangle

/-!
# Why a cell has no value

The causes for which a formula has no value. A fault belongs to the cell that
has it and never leaves the sheet; a formula that reads the cell gets a
propagated fault with the same message.
-/
namespace Spreadsheet
open Text

/-- Why a cell has no value. -/
inductive Fault where
  | unrecognized (name : String)
  | labelOperand (cell : Position)
  | propagated (message : String)
  | parameterCount (function : Builtin)
  | cycle (path : List Position)
  | unsettled (origin : Position)
  | invalidRange (text : String)
  | rangeTooLarge (text : String)
  | malformed
  | failed (failure : Failure)
  /-- A range follows a character outside ASCII, so that its text cannot be cut out. -/
  | uncuttable
deriving DecidableEq, Repr

/-- The kinds of faults that are told apart when they are reported. -/
inductive FaultKind where
  | unrecognizedReference
  | invalidOperandType
  | propagatedError
  | parameterCount
  | circularReference
  | invalidRange
  | malformed
  | evaluation
  | uncuttable
deriving DecidableEq, Repr

/-- The cells of a cycle, from the first to its return. -/
def describeCycle (path : List Position) : String :=
  Failure.joinedBy " -> " (path.map Position.nameText)

namespace Fault

def kind : Fault → FaultKind
  | unrecognized _ => .unrecognizedReference
  | labelOperand _ => .invalidOperandType
  | propagated _ => .propagatedError
  | parameterCount _ => .parameterCount
  | cycle _ | unsettled _ => .circularReference
  | invalidRange _ | rangeTooLarge _ => .invalidRange
  | malformed => .malformed
  | failed (.notExpression _) => .malformed
  | failed _ => .evaluation
  | uncuttable => .uncuttable

def cycleMessage : List Position → String
  | [] | [_] => "Circular reference"
  | [p, q] =>
    if p = q then "Circular reference: " ++ p.nameText ++ " refers to itself"
    else "Circular reference: " ++ describeCycle [p, q]
  | path => "Circular reference: " ++ describeCycle path

def message : Fault → String
  | unrecognized name => "Unrecognized cell '" ++ name ++ "'"
  | labelOperand cell => "Invalid cell type '" ++ cell.nameText ++ "'"
  | propagated text => text
  | parameterCount function => function.arityMessage
  | cycle path => cycleMessage path
  | unsettled origin => "Circular reference involving " ++ origin.nameText
  | invalidRange text => "Invalid range '" ++ text ++ "'"
  | rangeTooLarge text =>
    "Range '" ++ text ++ "' is larger than " ++ Decimal.text Position.rectangleLimit ++ " cells"
  | malformed => "Syntax error"
  | failed failure => failure.message
  | uncuttable => "Range after a character outside ASCII"

end Fault

end Spreadsheet

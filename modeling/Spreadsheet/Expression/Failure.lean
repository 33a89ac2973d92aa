import Spreadsheet.Expression.Datum
import Spreadsheet.Expression.Operator
import Spreadsheet.Formula.Builtin

/-!
# Why an evaluation fails

The causes for which an expression has no value, and what is said of each.
-/
namespace Spreadsheet
open Text

/-- Why a text cannot be read as a number. -/
inductive ReadingFault where
  | emptyWhole
  | noWhole
  | wholeTooSmall
  | wholeTooLarge
  | emptyNumber
  | noNumber
deriving DecidableEq, Repr

/-- Why an expression has no value. -/
inductive Failure where
  | unknownFunction (name : String)
  | unknownLiteral (index : UInt64)
  | unresolved (name : String)
  | unsupported (operation : String) (operands : List DatumType)
  | mismatch (found expected : DatumType)
  | unknownProperty (name : String) (owner : DatumType)
  | notIndexable (base index : DatumType)
  | outsideText (index : Int) (size : Nat)
  | outsideList (index : Int) (size : Nat)
  | outsideBits (index : Int)
  | overflow (operator : Operator) (left right : Int)
  | divisionByZero (left right : Int)
  | noRemainder (left right : Int)
  | negativePower (left right : Int)
  | negationOverflow
  | noWhole (x : Float)
  | noSign
  | unreadable (text : String) (fault : ReadingFault)
  | missingModule (path : List String)
  | notNumeric (function : Builtin) (text : String)
  | notNumber (function : Builtin) (found : DatumType)
  | argumentCount (function : Builtin)
  | unsupportedResult (found : DatumType)
  /-- A text that was to be evaluated cannot be read as an expression. -/
  | notExpression (reason : String)
  /-- Something else that the library found, in its words. -/
  | raised (reason : String)
deriving DecidableEq, Repr

namespace ReadingFault

/-- What is said of a text that is no whole number, or no number at all. -/
def message (text : String) : ReadingFault → String
  | emptyWhole => ofWhole "cannot parse integer from empty string"
  | noWhole => ofWhole "invalid digit found in string"
  | wholeTooSmall => ofWhole "number too small to fit in target type"
  | wholeTooLarge => ofWhole "number too large to fit in target type"
  | emptyNumber => ofNumber "cannot parse float from empty string"
  | noNumber => ofNumber "invalid float literal"
where
  ofWhole (reason : String) : String := "Error parsing integer number '" ++ text ++ "': " ++ reason
  ofNumber (reason : String) : String :=
    "Error parsing floating-point number '" ++ text ++ "': " ++ reason

end ReadingFault

namespace Failure

/-- What an arithmetic operator is called when its result does not fit. -/
def operatorName : Operator → String
  | .plus => "Addition"
  | .minus => "Subtraction"
  | .times => "Multiplication"
  | .dividedBy => "Division"
  | _ => "Exponential"

def joinedBy (separator : String) : List String → String
  | [] => ""
  | [s] => s
  | s :: rest => s ++ separator ++ joinedBy separator rest

def operation (operator : Operator) (left right : Int) : String :=
  String.ofList (Datum.wholeText left) ++ " " ++ operator.symbol ++ " " ++
    String.ofList (Datum.wholeText right)

/-- How much a container holds. -/
def holding (emptyText item container : String) : Nat → String
  | 0 => emptyText
  | 1 => "only 1 " ++ item ++ " in " ++ container
  | size => "only " ++ Decimal.text size ++ " " ++ item ++ "s in " ++ container

def message : Failure → String
  | unknownFunction name => "Unknown function '" ++ name ++ "'"
  | unknownLiteral index => "Unknown string " ++ Decimal.text index.toNat
  | unresolved name => "Unresolved identifier '" ++ name ++ "'"
  | unsupported name operands =>
    "Unsupported operation '" ++ name ++ " (" ++
      joinedBy ", " (operands.map DatumType.operandName) ++ ")'"
  | mismatch found expected =>
    "Data type incorrect: " ++ found.name ++ " (expecting " ++ expected.name ++ ")"
  | unknownProperty name owner =>
    "Unknown property '" ++ name ++ "' - a getter is not registered for type '" ++
      owner.ownerName ++ "'"
  | notIndexable base index =>
    "Indexer unavailable: " ++ base.ownerName ++ " [" ++ index.ownerName ++ "]"
  | outsideText index size =>
    "String index " ++ String.ofList (Datum.wholeText index) ++ " out of bounds: " ++
      holding "string is empty" "character" "string" size
  | outsideList index size =>
    "Array index " ++ String.ofList (Datum.wholeText index) ++ " out of bounds: " ++
      holding "array is empty" "element" "array" size
  | outsideBits index =>
    "Bit-field index " ++ String.ofList (Datum.wholeText index) ++
      " out of bounds: only 64 bits in bit-field"
  | overflow operator left right =>
    operatorName operator ++ " overflow: " ++ operation operator left right
  | divisionByZero left right => "Division by zero: " ++ operation .dividedBy left right
  | noRemainder left right =>
    "Modulo division by zero or overflow: " ++ operation .modulo left right
  | negativePower left right =>
    "Integer raised to a negative power: " ++ operation .power left right
  | negationOverflow => "integer overflow"
  | noWhole x => "Integer overflow: to_int(" ++ String.ofList (Number.plain x) ++ ")"
  | noSign => "Sign of NaN is undefined"
  | unreadable text fault => fault.message text
  | missingModule path => "Module not found: " ++ joinedBy "::" path
  | notNumeric function text => function.name ++ ": '" ++ text ++ "' is not a number"
  | notNumber function found => function.name ++ ": expected a number, got " ++ found.name
  | argumentCount function => function.arityMessage
  | unsupportedResult found => "Unsupported result type '" ++ found.name ++ "'"
  | notExpression reason | raised reason => reason

end Failure

end Spreadsheet

import Spreadsheet.Expression.Datum

/-!
# Values of cells

A cell holds a number or a text. A truth value becomes one or zero, the unit
zero, a character a text; nothing else is a value.
-/
namespace Spreadsheet

/-- What a cell holds when it has no fault. -/
inductive Value where
  | number (x : Float)
  | text (s : String)
deriving DecidableEq, Repr

namespace Value

def blank : Value := .number 0

instance : Inhabited Value := ⟨blank⟩

/-- A value as a cell shows it, numbers with the given decimal places. -/
def display (places : Nat) : Value → List Char
  | number x => Number.display places x
  | text s => s.toList

def toDatum : Value → Datum
  | number x => .number x
  | text s => .text s

/-- The value that a computed datum has in a cell. -/
def ofDatum? : Datum → Option Value
  | .unit => some (number 0)
  | .truth b => some (number (if b then 1 else 0))
  | .whole n => some (number (Float.ofInt n))
  | .number x => some (number x)
  | .glyph c => some (text (String.singleton c))
  | .text s => some (text s)
  | _ => none

end Value

end Spreadsheet

import Spreadsheet.Position.Basic

/-!
# Insertion and deletion of lines

Inserting a row or column at a boundary moves every line from the boundary on by
one; a line at the end of the sheet is pushed off. Deleting a line removes it
and moves the later ones back by one.
-/
namespace Spreadsheet

/-- A structural edit; the number is the first line that moves, or the line that goes. -/
inductive Shift where
  | insertRow (boundary : UInt64)
  | deleteRow (index : UInt64)
  | insertColumn (boundary : UInt64)
  | deleteColumn (index : UInt64)
deriving DecidableEq, Repr

/-- Whether a new line goes before or after the given one. -/
inductive Side where
  | before
  | after
deriving DecidableEq, Repr

/-- The boundary at which a new line goes in. After the last line there is none; the program aborts
where it would be computed. -/
def Side.boundary? : Side → UInt64 → Option UInt64
  | .before, index => some index
  | .after, index => if index = -1 then none else some (index + 1)

namespace Shift

def isColumnEdit : Shift → Bool
  | .insertColumn _ | .deleteColumn _ => true
  | .insertRow _ | .deleteRow _ => false

/-- Where a position goes; nothing if its line is deleted or pushed off the sheet. -/
def apply : Shift → Position → Option Position
  | .insertRow boundary, p => if boundary ≤ p.row then p.offset 0 1 else some p
  | .insertColumn boundary, p => if boundary ≤ p.col then p.offset 1 0 else some p
  | .deleteRow index, p =>
    if p.row = index then none else if index < p.row then p.offset 0 (-1) else some p
  | .deleteColumn index, p =>
    if p.col = index then none else if index < p.col then p.offset (-1) 0 else some p

end Shift

end Spreadsheet

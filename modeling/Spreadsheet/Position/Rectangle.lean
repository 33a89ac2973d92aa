import Spreadsheet.Position.Basic

/-!
# Rectangles of positions

Two corners, in any order, span a rectangle. Its positions are listed row by
row. A rectangle of more than a hundred thousand positions is not listed.
-/
namespace Spreadsheet.Position

/-- The largest number of positions that a rectangle may list. -/
def rectangleLimit : Nat := 100000

/-- The coordinates from one to another, both included. -/
def span (first last : UInt64) : List UInt64 :=
  (List.range (last.toNat + 1 - first.toNat)).map fun i => UInt64.ofNat (first.toNat + i)

/-- How many positions two corners span. -/
def rectangleSize (p q : Position) : Nat :=
  ((max p.row q.row).toNat + 1 - (min p.row q.row).toNat) *
    ((max p.col q.col).toNat + 1 - (min p.col q.col).toNat)

/-- The positions that two corners span, row by row. -/
def rectangle (p q : Position) : List Position :=
  (span (min p.row q.row) (max p.row q.row)).flatMap fun row =>
    (span (min p.col q.col) (max p.col q.col)).map fun col => ⟨row, col⟩

/-- The positions that two corners span, unless there are too many of them. -/
def rectangle? (p q : Position) : Option (List Position) :=
  if rectangleSize p q ≤ rectangleLimit then some (rectangle p q) else none

end Spreadsheet.Position

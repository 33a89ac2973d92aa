import Spreadsheet.Document

/-!
# Markdown tables

The values of a sheet are written as a table that reaches from the first to the
last row and column with content. A pipe within a text is escaped and a line
break becomes a space, so that every row stays one line.
-/
namespace Spreadsheet.Markdown
open Text

/-- The rows and columns that a table covers. -/
structure Bounds where
  firstRow : UInt64
  lastRow : UInt64
  firstColumn : UInt64
  lastColumn : UInt64
deriving DecidableEq, Repr

namespace Bounds

def ofPosition (p : Position) : Bounds := ⟨p.row, p.row, p.col, p.col⟩

/-- The least bounds that cover a position too. -/
def cover (b : Bounds) (p : Position) : Bounds :=
  ⟨min b.firstRow p.row, max b.lastRow p.row, min b.firstColumn p.col, max b.lastColumn p.col⟩

def ofPositions? : List Position → Option Bounds
  | [] => none
  | p :: ps => some (ps.foldl cover (ofPosition p))

def columns (b : Bounds) : List UInt64 := Position.span b.firstColumn b.lastColumn

def rows (b : Bounds) : List UInt64 := Position.span b.firstRow b.lastRow

end Bounds

/-- A text within a table. -/
def escape : List Char → List Char
  | [] => []
  | '|' :: cs => '\\' :: '|' :: escape cs
  | '\n' :: cs => ' ' :: escape cs
  | '\r' :: cs => escape cs
  | c :: cs => c :: escape cs

/-- A field with its closing pipe. -/
def field (cs : List Char) : List Char := ' ' :: cs ++ [' ', '|']

def title : List Char := "# Sheet\n\n".toList

/-- The line of column letters. -/
def headLine (b : Bounds) : List Char :=
  "|   |".toList ++ b.columns.flatMap (fun col => field (Position.columnLetters col)) ++ ['\n']

/-- The line between the column letters and the rows. -/
def ruleLine (b : Bounds) : List Char :=
  "|---|".toList ++ b.columns.flatMap (fun _ => "---|".toList) ++ ['\n']

/-- The line of a row, which begins with the row's number. -/
def rowLine (d : Document) (places : Nat) (b : Bounds) (row : UInt64) : List Char :=
  '|' :: field (Decimal.digits (row.toNat + 1)) ++
    b.columns.flatMap (fun col => field (escape (d.display ⟨row, col⟩ places))) ++ ['\n']

/-- The text of a document. There is none if the last row is the last there can be: its number does
not fit in 64 bits, and the program aborts. -/
def write? (d : Document) (places : Nat) : Option (List Char) :=
  match Bounds.ofPositions? d.grid.prune.keys with
  | none => some (title ++ "*Empty spreadsheet*\n".toList)
  | some b =>
    if b.lastRow = -1 then none
    else some (title ++ headLine b ++ ruleLine b ++ b.rows.flatMap (rowLine d places b))

end Spreadsheet.Markdown

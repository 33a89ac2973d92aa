import Spreadsheet.Edit
import Spreadsheet.Sheet

/-!
# Documents

A document is a sheet with its column widths, the number of decimal places that
it is shown with, the file that it belongs to and whether it has been changed
since it was last read or written. Only widths that differ from the default are
kept.
-/
namespace Spreadsheet

/-- The widths of columns that were set, in the order of the columns. -/
abbrev ColumnWidths := Table UInt64 UInt64

/-- A sheet that is being worked on. -/
structure Document where
  grid : Grid
  widths : ColumnWidths
  defaultWidth : UInt64
  precision : Nat
  path : Option String
  modified : Bool

namespace ColumnWidths

/-- The widths after an edit of lines: each moves with its column. -/
def shift (widths : ColumnWidths) (s : Shift) : ColumnWidths :=
  if s.isColumnEdit then
    Table.ofList (widths.entries.filterMap fun e =>
      (s.apply ⟨0, e.1⟩).map fun p => (p.col, e.2))
  else widths

/-- Sets widths of at least one, the later ones over the earlier. -/
def ofPairs (pairs : List (UInt64 × UInt64)) : ColumnWidths :=
  Table.ofList (pairs.map fun e => (e.1, max e.2 1))

end ColumnWidths

namespace Document

def standardWidth : UInt64 := 15

def standardPrecision : Nat := 2

def new : Document := ⟨Table.empty, Table.empty, standardWidth, standardPrecision, none, false⟩

instance : Inhabited Document := ⟨new⟩

def withGrid (d : Document) (g : Grid) : Document := { d with grid := g, modified := true }

section
variable [Engine]

def set (d : Document) (ω : Occasion) (p : Position) (input : List Char) : Document :=
  d.withGrid (d.grid.commit ω p input)

/-- Removes a cell; without the cell nothing changes. -/
def clear (d : Document) (ω : Occasion) (p : Position) : Document :=
  if d.grid.contains p then d.withGrid (d.grid.clear ω p) else d

/-- Copies a cell to another place; without the cell the other place is cleared. There is nothing
if the displacement is out of range, where the program aborts. -/
def copy? (d : Document) (ω : Occasion) (origin target : Position) : Option Document :=
  match d.grid.get? origin with
  | some c => (Grid.copiedInput? c origin target).map (d.set ω target)
  | none => some (d.clear ω target)

def shift (d : Document) (ω : Occasion) (s : Shift) : Document :=
  { d with grid := d.grid.shift ω s, widths := d.widths.shift s, modified := true }

/-- Inserts a row next to another. After the last row there is no place for one, and the program
aborts. -/
def insertRow? (d : Document) (ω : Occasion) (index : UInt64) (side : Side) : Option Document :=
  (side.boundary? index).map fun boundary => d.shift ω (.insertRow boundary)

def deleteRow (d : Document) (ω : Occasion) (index : UInt64) : Document :=
  d.shift ω (.deleteRow index)

/-- Inserts a column next to another, as for rows. -/
def insertColumn? (d : Document) (ω : Occasion) (index : UInt64) (side : Side) :
    Option Document :=
  (side.boundary? index).map fun boundary => d.shift ω (.insertColumn boundary)

def deleteColumn (d : Document) (ω : Occasion) (index : UInt64) : Document :=
  d.shift ω (.deleteColumn index)

def refresh (d : Document) (ω : Occasion) : Document := { d with grid := d.grid.refresh ω }

end

def columnWidth (d : Document) (col : UInt64) : UInt64 :=
  (d.widths.get? col).getD d.defaultWidth

/-- Sets the width of a column, which is at least one. -/
def setColumnWidth (d : Document) (col width : UInt64) : Document :=
  let width := max width 1
  let widths :=
    if width = d.defaultWidth then d.widths.erase col else d.widths.insert col width
  { d with widths := widths, modified := true }

/-- A width changed by a signed amount, kept within the range of widths. -/
def adjustedWidth (width : UInt64) (change : Int) : UInt64 :=
  UInt64.ofNat (min (width.toNat + change).toNat (UInt64.size - 1))

def adjustColumnWidth (d : Document) (col : UInt64) (change : Int) : Document :=
  d.setColumnWidth col (adjustedWidth (d.columnWidth col) change)

/-- The text shown for a cell with the given decimal places. -/
def display (d : Document) (p : Position) (places : Nat) : List Char :=
  match d.grid.get? p with
  | some c => c.display places
  | none => []

/-- The cells that a cell refers to: those that its last evaluation read, or, of a formula that
failed before it read any, those in its text. -/
def precedents (d : Document) (p : Position) : List Position :=
  match d.grid.get? p with
  | some c =>
    if c.dependsOn.isEmpty && c.isFormula && c.hasFault then
      (Formula.dependencies c.text).eraseDups
    else c.dependsOn.eraseDups
  | none => []

/-- The cells whose last evaluation read a cell, in reading order. -/
def dependents (d : Document) (p : Position) : List Position :=
  (d.grid.entries.filter fun e => e.2.dependsOn.contains p).map Prod.fst

/-- What is stored of a document. -/
def sheet (d : Document) : Sheet := ⟨d.grid.inputs, d.widths.entries⟩

def load [Engine] (d : Document) (ω : Occasion) (s : Sheet) : Document :=
  { d with
    grid := Grid.ofInputs ω s.cells
    widths := ColumnWidths.ofPairs s.widths
    modified := false }

/-- The cells with a fault and what is said of it, in reading order. -/
def faults (d : Document) : List (Position × Fault) :=
  d.grid.entries.filterMap fun e => e.2.fault?.map (e.1, ·)

end Document

end Spreadsheet

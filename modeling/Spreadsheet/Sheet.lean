import Spreadsheet.Position.Basic

/-!
# What is stored of a sheet

A sheet is stored as the inputs of its cells and the widths of its columns, in
the order in which they are written. Nothing that can be computed is stored.
-/
namespace Spreadsheet

/-- The inputs and column widths of a sheet. -/
structure Sheet where
  cells : List (Position × List Char)
  widths : List (UInt64 × UInt64)
deriving DecidableEq, Repr

namespace Sheet

def empty : Sheet := ⟨[], []⟩

/-- A sheet with one more cell in front. -/
def addCell (s : Sheet) (p : Position) (input : List Char) : Sheet :=
  ⟨(p, input) :: s.cells, s.widths⟩

/-- A sheet with one more column width in front. -/
def addWidth (s : Sheet) (col width : UInt64) : Sheet := ⟨s.cells, (col, width) :: s.widths⟩

end Sheet

end Spreadsheet

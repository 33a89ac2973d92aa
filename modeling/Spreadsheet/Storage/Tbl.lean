import Spreadsheet.Position.Name
import Spreadsheet.Sheet
import Spreadsheet.Text.Blank

/-!
# The line format

A sheet is written one item to a line: a cell name or `width` and column
letters, a colon, and the input or the width. Line breaks within an input are
escaped and carriage returns dropped. Reading trims every line, passes over
empty ones and those that start with `#`, and stops at the first line that is
none of these.
-/
namespace Spreadsheet.Tbl
open Text

/-- What a line can hold. -/
inductive Item where
  | nothing
  | cell (place : Position) (input : List Char)
  | width (column width : UInt64)
deriving DecidableEq, Repr

/-- Why a line cannot be read. -/
inductive LineFault where
  | noSeparator
  | invalidCell (name : List Char)
  | invalidColumn (letters : List Char)
  | invalidWidth (digits : List Char)
deriving DecidableEq, Repr

namespace LineFault

def message : LineFault → String
  | noSeparator => "Expected 'CELL: VALUE' or 'width COL: N'"
  | invalidCell name => "Invalid cell reference: " ++ String.ofList name
  | invalidColumn letters => "Invalid column: " ++ String.ofList letters
  | invalidWidth digits => "Invalid width: " ++ String.ofList digits

end LineFault

/-- What a line for a column width starts with. -/
def widthMark : List Char := "width ".toList

/-- An input within a line: a backslash and a line break are escaped. -/
def escape : List Char → List Char
  | [] => []
  | '\\' :: cs => '\\' :: '\\' :: escape cs
  | '\n' :: cs => '\\' :: 'n' :: escape cs
  | '\r' :: cs => escape cs
  | c :: cs => c :: escape cs

/-- Reads an escaped input; a backslash before any other character stands for itself. -/
def unescape : List Char → List Char
  | [] => []
  | '\\' :: '\\' :: cs => '\\' :: unescape cs
  | '\\' :: 'n' :: cs => '\n' :: unescape cs
  | c :: cs => c :: unescape cs

/-- Reads a column width of at least one. -/
def readWidth (letters digits : List Char) : Except LineFault Item :=
  match Position.column? letters with
  | none => .error (.invalidColumn letters)
  | some col =>
    match (Decimal.word? digits).filter fun width => width != 0 with
    | none => .error (.invalidWidth digits)
    | some width => .ok (.width col width)

/-- Reads what stands before and after the colon of a line. -/
def readPair (key value : List Char) : Except LineFault Item :=
  match dropLead? widthMark key with
  | some letters => readWidth (trim letters) value
  | none =>
    match Position.ofName? key with
    | some p => .ok (.cell p (unescape value))
    | none => .error (.invalidCell key)

def readTrimmed : List Char → Except LineFault Item
  | [] => .ok .nothing
  | '#' :: _ => .ok .nothing
  | line =>
    match cut (fun c => c = ':') line with
    | none => .error .noSeparator
    | some (key, value) => readPair (trim key) (trim value)

def readLine (line : List Char) : Except LineFault Item := readTrimmed (trim line)

/-- A sheet with the item of a line in front. -/
def Item.addTo : Item → Sheet → Sheet
  | nothing, s => s
  | cell p input, s => s.addCell p input
  | width col w, s => s.addWidth col w

/-- Reads lines, the first of which has the given number. -/
def readLines (number : Nat) : List (List Char) → Except (Nat × LineFault) Sheet
  | [] => .ok Sheet.empty
  | line :: lines =>
    match readLine line with
    | .error fault => .error (number, fault)
    | .ok item => (readLines (number + 1) lines).map item.addTo

/-- Reads a sheet; a fault comes with the number of its line. -/
def read (content : List Char) : Except (Nat × LineFault) Sheet :=
  readLines 1 (splitOn '\n' content)

/-- The line that a sheet starts with. -/
def header : List Char := "# Tabula sheet".toList

def widthLine (col width : UInt64) : List Char :=
  widthMark ++ Position.columnLetters col ++ ':' :: ' ' :: Decimal.digits width.toNat

def cellLine (p : Position) (input : List Char) : List Char :=
  p.name ++ ':' :: ' ' :: escape input

def lines (s : Sheet) : List (List Char) :=
  header :: s.widths.map (fun e => widthLine e.1 e.2) ++ s.cells.map (fun e => cellLine e.1 e.2)

def write (s : Sheet) : List Char := (lines s).flatMap fun line => line ++ ['\n']

end Spreadsheet.Tbl

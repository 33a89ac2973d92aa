import Spreadsheet.Position.Rectangle
import Spreadsheet.Table
import Spreadsheet.Cell
import Spreadsheet.Text.Blank

/-!
# Comma separated values

A row of cells is a record, its fields divided by commas. A field with a comma,
a quote, a line break or blanks at its ends is written in quotes, a quote within
it twice. Reading trims a field unless some part of it is in quotes, and passes
over fields that are all blank.
-/
namespace Spreadsheet.Csv
open Text

/-- Where a field ends. -/
inductive Stop where
  | comma
  | line
  | finish
deriving DecidableEq, Repr

/-- A field as it is read, and the text after its end. -/
structure Scanned where
  text : List Char
  quoted : Bool
  stop : Stop
  rest : List Char

/-- A field with one more character in front. -/
def Scanned.add (c : Char) (s : Scanned) : Scanned := ⟨c :: s.text, s.quoted, s.stop, s.rest⟩

/-- Scans a field, beginning inside or outside of quotes. -/
def scan : Bool → List Char → Scanned
  | _, [] => ⟨[], false, .finish, []⟩
  | true, '"' :: '"' :: cs => (scan true cs).add '"'
  | true, '"' :: cs => scan false cs
  | true, c :: cs => (scan true cs).add c
  | false, '"' :: cs =>
    let s := scan true cs
    ⟨s.text, true, s.stop, s.rest⟩
  | false, ',' :: cs => ⟨[], false, .comma, cs⟩
  | false, '\r' :: '\n' :: cs => ⟨[], false, .line, cs⟩
  | false, '\n' :: cs => ⟨[], false, .line, cs⟩
  | false, c :: cs => (scan false cs).add c

/-- A field that is not the last of the text is followed by less text. -/
theorem scan_rest_lt {inside : Bool} {cs : List Char} (h : (scan inside cs).stop ≠ .finish) :
    (scan inside cs).rest.length < cs.length := by
  fun_induction scan inside cs with
  | case1 => exact absurd rfl h
  | case2 cs ih =>
    have := ih h
    simp only [Scanned.add, List.length_cons]
    omega
  | case3 cs _ ih =>
    have := ih h
    simp only [List.length_cons]
    omega
  | case4 c cs _ _ ih =>
    have := ih h
    simp only [Scanned.add, List.length_cons]
    omega
  | case5 cs s ih =>
    have : s.rest.length < cs.length := ih h
    simp only [List.length_cons]
    omega
  | case6 => simp
  | case7 =>
    simp only [List.length_cons]
    omega
  | case8 => simp
  | case9 c cs _ _ _ _ ih =>
    have := ih h
    simp only [Scanned.add, List.length_cons]
    omega

/-- What a field holds: blanks at its ends count only if it is quoted. -/
def Scanned.field (s : Scanned) : List Char := if s.quoted then s.text else trim s.text

/-- Records with a field in front of the first. -/
def addField (field : List Char) : List (List (List Char)) → List (List (List Char))
  | [] => [[field]]
  | record :: records => (field :: record) :: records

/-- The records of a text, of which the first may have begun. An empty end is no record. -/
def recordsFrom (begun : Bool) (cs : List Char) : List (List (List Char)) :=
  let s := scan false cs
  if _ : s.stop = .finish then
    if begun || s.quoted || !s.text.isEmpty then [[s.field]] else []
  else if s.stop = .comma then addField s.field (recordsFrom true s.rest)
  else [s.field] :: recordsFrom false s.rest
termination_by cs.length
decreasing_by
  · exact scan_rest_lt (by assumption)
  · exact scan_rest_lt (by assumption)

def records (cs : List Char) : List (List (List Char)) := recordsFrom false cs

/-- The cells of a record in a row. -/
def recordCells (row : Nat) (record : List (List Char)) : List (Position × List Char) :=
  (record.zipIdx.filter fun e => !(trim e.1).isEmpty).map fun e =>
    (⟨UInt64.ofNat row, UInt64.ofNat e.2⟩, e.1)

def read (content : List Char) : List (Position × List Char) :=
  (records content).zipIdx.flatMap fun e => recordCells e.2 e.1

/-- Whether a character forces quotes. -/
def isSpecial (c : Char) : Bool := c == ',' || c == '"' || c == '\n' || c == '\r'

/-- A field in its written form. -/
def escape (field : List Char) : List Char :=
  if field.any isSpecial || trim field != field then
    '"' :: replaceChar '"' ['"', '"'] field ++ ['"']
  else field

def writeRow (cells : Table Position (List Char)) (lastColumn row : UInt64) : List Char :=
  [','].intercalate ((Position.span 0 lastColumn).map fun col =>
    ((cells.get? ⟨row, col⟩).map escape).getD []) ++ ['\n']

def largest (cs : List UInt64) : UInt64 := cs.foldl max 0

/-- How many rows the written sheet may have, and how many fields a row. All are laid out at once,
and what is laid out has at most `2 ^ 63 - 1` bytes, of which a row or field takes 24. -/
def sizeLimit : Nat := 384307168202282325

/-- Writes the rows from the first of the sheet to the last with a cell, all of one length. There is
no text of a sheet beyond the limit, for which the program aborts. -/
def write? (cells : List (Position × List Char)) : Option (List Char) :=
  if cells.isEmpty then some []
  else
    let lastColumn := largest (cells.map fun e => e.1.col)
    let lastRow := largest (cells.map fun e => e.1.row)
    if lastColumn.toNat < sizeLimit ∧ lastRow.toNat < sizeLimit then
      some ((Position.span 0 lastRow).flatMap (writeRow (Table.ofList cells) lastColumn))
    else none

end Spreadsheet.Csv

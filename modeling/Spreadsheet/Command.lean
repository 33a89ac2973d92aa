import Spreadsheet.Document
import Spreadsheet.Text.Blank

/-!
# Edit commands

A command is a word and its arguments, or an assignment `A1 = input`. Rows are
counted from one and columns written in letters. The first word decides whether
a text is a command; any other text is an assignment if it has an equals sign.
-/
namespace Spreadsheet
open Text

/-- One edit of a document. -/
inductive Command where
  | set (cell : Position) (input : List Char)
  | clear (cell : Position)
  | insertRow (row : UInt64) (side : Side)
  | deleteRow (row : UInt64)
  | insertColumn (column : UInt64) (side : Side)
  | deleteColumn (column : UInt64)
  | width (column width : UInt64)
  | copy (origin target : Position)
  | refresh
deriving DecidableEq, Repr

/-- What the first word of a command asks for. -/
inductive Verb where
  | clear
  | insertRow
  | deleteRow
  | insertColumn
  | deleteColumn
  | width
  | copy
  | refresh
deriving DecidableEq, Repr

namespace Verb

def ofLetters? (word : String) : Option Verb :=
  match word with
  | "clear" | "del" => some clear
  | "insert-row" | "ir" => some insertRow
  | "delete-row" | "dr" => some deleteRow
  | "insert-col" | "ic" => some insertColumn
  | "delete-col" | "dc" => some deleteColumn
  | "width" | "cw" => some width
  | "copy" | "cp" => some copy
  | "refresh" => some refresh
  | _ => none

def ofWord? (word : List Char) : Option Verb :=
  ofLetters? (String.ofList (word.map Char.toLower))

/-- How a command is written. -/
def usage : Verb → String
  | clear => "clear CELL"
  | insertRow => "insert-row ROW [after]"
  | deleteRow => "delete-row ROW"
  | insertColumn => "insert-col COL [after]"
  | deleteColumn => "delete-col COL"
  | width => "width COL WIDTH"
  | copy => "copy FROM TO"
  | refresh => "refresh"

end Verb

/-- Why a text is no command. -/
inductive CommandFault where
  | empty
  | unknown (word : List Char)
  | usage (verb : Verb)
  | invalidCell (word : List Char)
  | invalidRow (word : List Char)
  | invalidColumn (word : List Char)
  | invalidWidth (word : List Char)
deriving DecidableEq, Repr

namespace CommandFault

def message : CommandFault → String
  | empty => "Empty command"
  | unknown word => "Unknown command: " ++ String.ofList word
  | usage verb => "Usage: " ++ verb.usage
  | invalidCell word => "Invalid cell: " ++ String.ofList word
  | invalidRow word => "Invalid row: " ++ String.ofList word
  | invalidColumn word => "Invalid column: " ++ String.ofList word
  | invalidWidth word => "Invalid width: " ++ String.ofList word

end CommandFault

namespace Command

/-- A word's meaning, or the fault that it has none. -/
def orFault {α : Type} (fault : List Char → CommandFault) (read : List Char → Option α)
    (word : List Char) : Except CommandFault α :=
  match read word with
  | some a => .ok a
  | none => .error (fault word)

def readCell (word : List Char) : Except CommandFault Position :=
  orFault .invalidCell Position.ofName? word

/-- The row of a number counted from one. -/
def row? (word : List Char) : Option UInt64 :=
  (Decimal.word? word).bind fun n => Position.ofOrdinal? n.toNat

def readRow (word : List Char) : Except CommandFault UInt64 := orFault .invalidRow row? word

def readColumn (word : List Char) : Except CommandFault UInt64 :=
  orFault .invalidColumn Position.column? word

def readWidth (word : List Char) : Except CommandFault UInt64 :=
  orFault .invalidWidth Decimal.word? word

def side? (word : List Char) : Option Side :=
  if sameIgnoringCase word "before".toList then some .before
  else if sameIgnoringCase word "after".toList then some .after
  else none

/-- The index and the side among the arguments of an insertion; no side means before. -/
def insertion (verb : Verb) : List (List Char) → Except CommandFault (List Char × Side)
  | [index] => .ok (index, .before)
  | [index, word] =>
    match side? word with
    | some side => .ok (index, side)
    | none => .error (.usage verb)
  | _ => .error (.usage verb)

def readArguments (verb : Verb) (words : List (List Char)) : Except CommandFault Command :=
  match verb, words with
  | .clear, [cell] => return clear (← readCell cell)
  | .insertRow, words => do
    let (index, side) ← insertion verb words
    return insertRow (← readRow index) side
  | .deleteRow, [row] => return deleteRow (← readRow row)
  | .insertColumn, words => do
    let (index, side) ← insertion verb words
    return insertColumn (← readColumn index) side
  | .deleteColumn, [col] => return deleteColumn (← readColumn col)
  | .width, [col, w] => do
    let col ← readColumn col
    return width col (← readWidth w)
  | .copy, [origin, target] => do
    let origin ← readCell origin
    return copy origin (← readCell target)
  | .refresh, _ => .ok refresh
  | verb, _ => .error (.usage verb)

/-- Reads an assignment, whose input keeps its mark. -/
def readAssignment (text : List Char) : Except CommandFault Command :=
  match cut (fun c => c = '=') text with
  | none => .error (.unknown ((words text).headD text))
  | some (name, input) => return set (← readCell (trim name)) (trim input)

def readTrimmed (text : List Char) : Except CommandFault Command :=
  match words text with
  | [] => .error .empty
  | word :: arguments =>
    match Verb.ofWord? word with
    | some verb => readArguments verb arguments
    | none => readAssignment text

def read (text : List Char) : Except CommandFault Command := readTrimmed (trim text)

/-- The document after a command; nothing if the program aborts. -/
def perform? [Engine] (ω : Occasion) : Command → Document → Option Document
  | set cell input, d => some (d.set ω cell input)
  | clear cell, d => some (d.clear ω cell)
  | insertRow row side, d => d.insertRow? ω row side
  | deleteRow row, d => some (d.deleteRow ω row)
  | insertColumn col side, d => d.insertColumn? ω col side
  | deleteColumn col, d => some (d.deleteColumn ω col)
  | width col w, d => some (d.setColumnWidth col w)
  | copy origin target, d => d.copy? ω origin target
  | refresh, d => some (d.refresh ω)

end Command

end Spreadsheet

import Spreadsheet.Position.Basic
import Spreadsheet.Text.Decimal

/-!
# Cell names

A column is written in letters, in bijective base twenty-six: `A` to `Z`, then
`AA`. A row is written in decimal, counted from one. A cell name is the column
followed by the row. Reading ignores the case of the letters and leading zeros
of the row, and refuses what lies past the end of the sheet.
-/
namespace Spreadsheet.Position
open Text

/-- The place of a letter in the alphabet, `A` being one. -/
def letterValue (c : Char) : Nat := c.toUpper.toNat - 64

def letter (n : Nat) : Char := Char.ofNat (65 + n % 26)

/-- The number that column letters stand for, `A` being one. -/
def lettersValue (cs : List Char) : Nat := cs.foldl (fun n c => 26 * n + letterValue c) 0

/-- The letters of a number counted from one; zero has none. -/
def letters (n : Nat) : List Char :=
  if n = 0 then [] else letters ((n - 1) / 26) ++ [letter (n - 1)]
termination_by n

def columnLetters (col : UInt64) : List Char := letters (col.toNat + 1)

/-- A number counted from one as a coordinate counted from zero. -/
def ofOrdinal? (n : Nat) : Option UInt64 := coordinate? ((n : Int) - 1)

/-- Reads column letters of either case. -/
def column? (cs : List Char) : Option UInt64 :=
  if !cs.isEmpty && cs.all Char.isAlpha then ofOrdinal? (lettersValue cs) else none

/-- The digits of a row, counted from one. -/
def rowDigits (row : UInt64) : List Char := Decimal.digits (row.toNat + 1)

def name (p : Position) : List Char := columnLetters p.col ++ rowDigits p.row

def nameText (p : Position) : String := String.ofList p.name

/-- Reads a cell name: letters, then digits. -/
def ofName? (cs : List Char) : Option Position := do
  let digits := cs.dropWhile Char.isAlpha
  let col ← column? (cs.takeWhile Char.isAlpha)
  if Decimal.isNatural digits then
    let row ← ofOrdinal? (Decimal.value digits)
    return ⟨row, col⟩
  else none

end Spreadsheet.Position

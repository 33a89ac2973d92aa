import Spreadsheet.Formula.Range
import Spreadsheet.Formula.Literal
import Spreadsheet.Text.Word
import Spreadsheet.Position.Shift

/-!
# References in a formula's text

The text of a formula falls into words and single characters. A word outside the
quotes that is a cell name, and not the name of a function, refers to that cell.
The scan needs no grammar, so references can be listed and replaced in any text.
-/
namespace Spreadsheet.Formula
open Text

/-- A part of a formula's text. -/
inductive Piece where
  | word (cs : List Char)
  | other (c : Char)
deriving DecidableEq, Repr

namespace Piece

def text : Piece → List Char
  | word cs => cs
  | other c => [c]

def reference? : Piece → Option Position
  | word cs => (Position.ofName? cs).filter fun _ => !Builtin.isName cs
  | other _ => none

end Piece

/-- Splits a text into words and single characters; within quotes there are no words. -/
def piecesFrom (quoted : Bool) : List Char → List Piece
  | [] => []
  | c :: cs =>
    if isQuote c then .other c :: piecesFrom (!quoted) cs
    else if quoted || !isWord c then .other c :: piecesFrom quoted cs
    else .word (c :: cs.takeWhile isWord) :: piecesFrom quoted (cs.dropWhile isWord)
termination_by cs => cs.length
decreasing_by
  · simp
  · simp
  · have := length_dropWhile_le isWord cs
    simp only [List.length_cons]
    omega

def pieces (cs : List Char) : List Piece := piecesFrom false cs

/-- The cells that a text refers to, in the order of the text. -/
def references (cs : List Char) : List Position := (pieces cs).filterMap Piece.reference?

/-- The cells that a formula refers to after its ranges are expanded, or as written if they
cannot be. -/
def dependencies (cs : List Char) : List Position :=
  match expandRanges cs with
  | .ok expanded => references expanded
  | .error _ => references cs

/-- How many bytes a text takes when it is stored. -/
def byteSize (cs : List Char) : Nat := cs.foldr (fun c n => c.utf8Size + n) 0

/-- A reference with the place at which it stands. -/
structure Located where
  written : List Char
  start : Nat
  cell : Position
deriving DecidableEq, Repr

/-- The offset of the first byte after a reference. -/
def Located.stop (r : Located) : Nat := r.start + byteSize r.written

/-- The references among the pieces that begin at an offset. -/
def locate (offset : Nat) : List Piece → List Located
  | [] => []
  | piece :: rest =>
    let others := locate (offset + byteSize piece.text) rest
    match piece.reference? with
    | some cell => ⟨piece.text, offset, cell⟩ :: others
    | none => others

def locatedReferences (cs : List Char) : List Located := locate 0 (pieces cs)

/-- Replaces references; a reference with no replacement stays as it is written. -/
def replaceReferences (replacement : Position → Option (List Char)) (cs : List Char) : List Char :=
  (pieces cs).flatMap fun piece => (piece.reference?.bind replacement).getD piece.text

/-- What takes the place of a reference to a cell that is gone. -/
def lostReference : List Char := "#REF!".toList

/-- Follows a structural edit; a reference to a cell that stays is left as written. -/
def shiftReferences (shift : Shift) (cs : List Char) : List Char :=
  replaceReferences (fun cell => match shift.apply cell with
    | some moved => if moved = cell then none else some moved.name
    | none => some lostReference) cs

/-- Moves every reference by the same number of columns and rows. -/
def offsetReferences (dcol drow : Int) (cs : List Char) : List Char :=
  if dcol = 0 ∧ drow = 0 then cs
  else
    replaceReferences (fun cell => some (match cell.offset dcol drow with
      | some moved => moved.name
      | none => lostReference)) cs

end Spreadsheet.Formula

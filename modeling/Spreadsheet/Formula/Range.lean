import Spreadsheet.Fault

/-!
# Percent signs and ranges

A percent sign in a formula stands for a division by a hundred, a range for the
names of the cells that its corners span. Ranges are expanded from left to
right; the first one that cannot be expanded is a fault. A corner is a maximal
run of ASCII letters and digits beside the two dots.
-/
namespace Spreadsheet.Formula
open Text

/-- The text that stands for a percent sign. -/
def percent : List Char := "*1/100".toList

/-- The names of the cells of a range, with commas between them. -/
def cellList : List Position → List Char
  | [] => []
  | [p] => p.name
  | p :: ps => p.name ++ ',' :: cellList ps

def rangeText (first last : List Char) : String := String.ofList (first ++ '.' :: '.' :: last)

/-- The cells that two corner names span. -/
def rangeCells (first last : List Char) : Except Fault (List Position) :=
  match Position.ofName? first, Position.ofName? last with
  | some p, some q =>
    match Position.rectangle? p q with
    | some cells => .ok cells
    | none => .error (.rangeTooLarge (rangeText first last))
  | _, _ => .error (.invalidRange (rangeText first last))

/-- Whether a range may follow the text with the given reversed characters. -/
def isCuttable (before : List Char) : Bool :=
  match before with
  | c :: _ => c.toNat < 128
  | [] => true

/-- Expands the ranges of a text whose beginning, reversed, has been read and holds none. -/
def expandAfter (before : List Char) : List Char → Except Fault (List Char)
  | [] => .ok before.reverse
  | '.' :: '.' :: rest =>
    let first := (before.takeWhile Char.isAlphanum).reverse
    let outside := before.dropWhile Char.isAlphanum
    if isCuttable outside then
      match rangeCells first (rest.takeWhile Char.isAlphanum) with
      | .ok cells =>
        expandAfter ((cellList cells).reverse ++ outside) (rest.dropWhile Char.isAlphanum)
      | .error fault => .error fault
    else .error .uncuttable
  | c :: cs => expandAfter (c :: before) cs
termination_by cs => cs.length
decreasing_by
  · have := length_dropWhile_le Char.isAlphanum rest
    simp only [List.length_cons]
    omega
  · simp

/-- A formula with its percent signs and ranges written out. -/
def expandRanges (cs : List Char) : Except Fault (List Char) :=
  expandAfter [] (replaceChar '%' percent cs)

/-- Whether a range of the text follows a character outside ASCII before any other fault. -/
def isUncuttable (cs : List Char) : Bool := expandRanges cs matches .error .uncuttable

end Spreadsheet.Formula

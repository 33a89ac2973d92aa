import Spreadsheet.Text.Blank
import Spreadsheet.Text.Decimal

/-!
# Text literals

The quoted literals of a formula are taken out of its text and numbered from
left to right; a numbered placeholder takes the place of each. A quote that is
never closed stays, with all that follows it.
-/
namespace Spreadsheet.Formula
open Text

def isQuote (c : Char) : Bool := c == '"'

/-- A formula whose literals have been taken out. -/
structure Extracted where
  text : List Char
  literals : List (List Char)
deriving DecidableEq, Repr

/-- What takes the place of a literal. -/
def placeholder (number : Nat) : List Char :=
  "STR(".toList ++ Decimal.digits number ++ [')']

/-- Takes out the literals, which are numbered from the given number on. -/
def extractFrom (number : Nat) (cs : List Char) : Extracted :=
  match _opened : cut isQuote cs with
  | none => ⟨cs, []⟩
  | some (before, rest) =>
    match _closed : cut isQuote rest with
    | none => ⟨cs, []⟩
    | some (literal, after) =>
      let others := extractFrom (number + 1) after
      ⟨before ++ placeholder number ++ others.text, literal :: others.literals⟩
termination_by cs.length
decreasing_by
  have := length_lt_of_cut _opened
  have := length_lt_of_cut _closed
  omega

/-- A formula's text without its literals, and the literals. -/
def extractLiterals (cs : List Char) : Extracted := extractFrom 0 cs

end Spreadsheet.Formula

import Spreadsheet.Cell
import Spreadsheet.Formula.Resolution
import Spreadsheet.Number.Reading

/-!
# What is typed into a cell

An apostrophe marks a label and an equals sign a formula. A text without a mark
is a number if it reads as a finite one, a formula if it has a value, and a
label otherwise. A cell that is read for the first time is held as a blank one.
-/
namespace Spreadsheet
open Text

/-- A cell as the operand of a formula: a label is none, and a fault is passed on. -/
def Cell.operand (c : Cell) (p : Position) : Except Fault Value :=
  match c.outcome with
  | .error fault => .error (.propagated fault.message)
  | .ok value =>
    match c.kind with
    | .empty => .ok Value.blank
    | .label => .error (.labelOperand p)
    | .number | .formula => .ok value

namespace Grid

/-- Reads a cell for a formula. -/
def operand : Formula.Operands Grid := fun p g =>
  match g.get? p with
  | some c => (c.operand p, g)
  | none => (.ok Value.blank, g.insert p Cell.blank)

/-- A formula cell with what its resolution gave. -/
def formulaCell (cs : List Char) (r : Formula.Resolution) : Cell :=
  (Cell.formula cs).resolved r.outcome r.dependsOn

/-- The cell that a text without a mark makes, given what it gives as a formula. -/
def unmarkedCell (cs : List Char) (r : Formula.Resolution) : Cell :=
  match r.outcome with
  | .ok _ | .error .uncuttable => formulaCell cs r
  | .error _ => Cell.label cs

def finite? (cs : List Char) : Option Float := (Number.read? cs).filter Float.isFinite

section
variable [Engine]

/-- The cell that an input makes at a place, and the grid with the cells that were read. -/
def evaluateInput (g : Grid) (ω : Occasion) (own : Position) (input : List Char) : Cell × Grid :=
  match trim input with
  | [] => (Cell.blank, g)
  | '\'' :: label => (Cell.label label, g)
  | '=' :: formula =>
    let (r, g) := Formula.resolve ω formula own operand g
    (formulaCell formula r, g)
  | text =>
    match finite? text with
    | some x => (Cell.number text x, g)
    | none =>
      let (r, g) := Formula.resolve ω text own operand g
      (unmarkedCell text r, g)

def enter (g : Grid) (ω : Occasion) (own : Position) (input : List Char) : Grid :=
  let (c, g) := g.evaluateInput ω own input
  g.insert own c

end

end Grid

end Spreadsheet

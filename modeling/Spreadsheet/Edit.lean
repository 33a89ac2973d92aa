import Spreadsheet.Cascade
import Spreadsheet.Refresh

/-!
# Edits of a sheet

An input is committed at a cell, a cell is cleared or copied, and lines are
inserted or deleted. Committing and clearing set off a cascade. A commit that
mends a cell with a fault, and every edit of lines, refreshes the whole sheet.
-/
namespace Spreadsheet.Grid

def hasFaultAt (g : Grid) (p : Position) : Bool := (g.get? p).any Cell.hasFault

section
variable [Engine]

def commit (g : Grid) (ω : Occasion) (p : Position) (input : List Char) : Grid :=
  let (c, read) := g.evaluateInput (ω.stage 0) p input
  let settled := cascadeFrom (read.insert p c) (ω.stage 1) p
  if g.hasFaultAt p && !c.hasFault then settled.refresh (ω.stage 2) else settled

def clear (g : Grid) (ω : Occasion) (p : Position) : Grid := cascadeFrom (g.erase p) ω p

end

/-- The input that a copy of a cell commits; the references of a formula move along. There is none
if the displacement is out of range. -/
def copiedInput? (c : Cell) (origin target : Position) : Option (List Char) :=
  if c.isFormula then do
    let dcol ← Position.displacement? origin.col target.col
    let drow ← Position.displacement? origin.row target.row
    return '=' :: Formula.offsetReferences dcol drow c.text
  else some c.input

/-- A cell after an edit of lines. -/
def shiftedCell (shift : Shift) (c : Cell) : Cell :=
  if c.isFormula then
    ⟨c.kind, String.ofList (Formula.shiftReferences shift c.text), c.outcome, c.dependsOn,
      c.dependsOn_eq_nil⟩
  else c

theorem isFormula_shiftedCell (s : Shift) (c : Cell) :
    (shiftedCell s c).isFormula = c.isFormula := by
  unfold shiftedCell
  split <;> rfl

/-- Moves the cells for an edit of lines, without evaluating anything. -/
def moved (g : Grid) (shift : Shift) : Grid :=
  Table.ofList (g.entries.filterMap fun e =>
    (shift.apply e.1).map fun p => (p, shiftedCell shift e.2))

def shift [Engine] (g : Grid) (ω : Occasion) (s : Shift) : Grid := (g.moved s).refresh ω

/-- Whether the last input that was entered at a cell cannot be cut into its ranges. -/
def isStuckAt (g : Grid) (p : Position) : Bool :=
  (g.get? p).any fun c => c.fault? == some .uncuttable

/-- Enters inputs in the given order; nothing is entered after one that cannot be cut. -/
def enterAll [Engine] (ω : Occasion) : List (Position × List Char) → Grid → Grid
  | [], g => g
  | (p, input) :: rest, g =>
    let g := g.enter (ω.stage 0) p input
    if g.isStuckAt p then g else enterAll (ω.stage 1) rest g

/-- The sheet that the given inputs make. -/
def ofInputs [Engine] (ω : Occasion) (inputs : List (Position × List Char)) : Grid :=
  (enterAll (ω.stage 0) inputs Table.empty).refresh (ω.stage 1)

/-- The places of the cells with content and their inputs, in reading order. -/
def inputs (g : Grid) : List (Position × List Char) :=
  g.prune.entries.map fun e => (e.1, e.2.input)

end Spreadsheet.Grid

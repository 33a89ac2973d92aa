import Spreadsheet.Cycle
import Spreadsheet.Input

/-!
# What an edit sets off

After an edit of a cell every formula that mentions it is computed again, then
every formula that mentions one of those, and so on. Formulas with a fault are
passed over. The depth is bounded by twice the number of cells; a cascade that
reaches the bound has gone around a cycle, and the edited cell gets a fault.
-/
namespace Spreadsheet

namespace Cell

/-- Whether a formula without a fault mentions a cell. -/
def mentions (c : Cell) (p : Position) : Bool :=
  c.isFormula && !c.hasFault && (Formula.dependencies c.text).contains p

/-- A cell with a fault in place of its outcome. -/
def failing (c : Cell) (fault : Fault) : Cell :=
  ⟨c.kind, c.raw, .error fault, c.dependsOn, c.dependsOn_eq_nil⟩

end Cell

namespace Grid

/-- The formulas without a fault that mention a cell, in reading order. -/
def formulasMentioning (g : Grid) (p : Position) : List Position :=
  (g.entries.filter fun e => e.2.mentions p).map Prod.fst

/-- Evaluates one formula against the other cells as they are. -/
def recompute [Engine] (ω : Occasion) (g : Grid) (p : Position) : Grid :=
  match g.get? p with
  | none => g
  | some c =>
    if c.isFormula then
      let (r, g) := Formula.resolve (ω.cell p) c.text p operand g
      g.modify p fun c => c.resolved r.outcome r.dependsOn
    else g

/-- Lets cells take effect one after the other, as long as each of them settles. -/
def settleAll (settle : Position → Grid → Bool × Grid) : List Position → Grid → Bool × Grid
  | [], g => (true, g)
  | p :: ps, g =>
    match settle p g with
    | (true, g) => settleAll settle ps g
    | (false, g) => (false, g)

/-- Computes the formulas that mention a cell, then what depends on each of them. The answer is
whether this came to an end within the bound. -/
def cascade [Engine] (ω : Occasion) : Nat → Position → Grid → Bool × Grid
  | 0, _, g => (false, g)
  | bound + 1, p, g =>
    let targets := g.formulasMentioning p
    settleAll (cascade (ω.cell p) bound) targets (targets.foldl (recompute (ω.cell p)) g)

/-- The fault of a cell whose cascade does not come to an end. -/
def cascadeFault (g : Grid) (p : Position) : Fault :=
  match g.cyclePath p with
  | some path => .cycle path
  | none => .unsettled p

/-- The sheet after all effects of an edit of a cell. -/
def cascadeFrom [Engine] (g : Grid) (ω : Occasion) (p : Position) : Grid :=
  let bound := 2 * g.size
  match cascade (ω.stage 0) bound p g with
  | (true, g) => g
  | (false, g) =>
    (cascade (ω.stage 1) bound p (g.modify p fun c => c.failing (g.cascadeFault p))).2

end Grid

end Spreadsheet

import Spreadsheet.Cycle
import Spreadsheet.Input

/-!
# Refreshing a sheet

A refresh drops the cells without content and evaluates every formula once. They
are taken row by row, but a formula that reads one that is still pending has it
evaluated first. A formula that reads one in progress closes a cycle and gets a
fault that names its cells. So no value from before the refresh is ever read.
-/
namespace Spreadsheet

/-- A sheet during a refresh, with the formulas that are still to be evaluated. -/
structure RefreshPass where
  grid : Grid
  pending : List Position

namespace RefreshPass

def takeUp (s : RefreshPass) (p : Position) : RefreshPass :=
  ⟨s.grid, s.pending.filter fun q => q != p⟩

def store (s : RefreshPass) (p : Position) (r : Formula.Resolution) : RefreshPass :=
  ⟨s.grid.modify p fun c => c.resolved r.outcome r.dependsOn, s.pending⟩

/-- Reads a cell that is not in progress, evaluating it first. -/
def readAfter (evaluate : Position → RefreshPass → RefreshPass) (trail : List Position) :
    Formula.Operands RefreshPass := fun q s =>
  if q ∈ trail then (.error (.cycle (closeCycle q trail)), s)
  else
    let s := evaluate q s
    let (outcome, grid) := Grid.operand q s.grid
    (outcome, ⟨grid, s.pending⟩)

/-- Evaluates a formula if it is pending. The trail holds the formulas in progress, newest first;
each of them was pending, so the bound is the number of pending formulas. -/
def evaluate [Engine] (ω : Occasion) :
    Nat → List Position → Position → RefreshPass → RefreshPass
  | 0, _, _, s => s
  | bound + 1, trail, p, s =>
    if p ∈ s.pending then
      match s.grid.get? p with
      | none => s.takeUp p
      | some c =>
        let (r, s) := Formula.resolve (ω.cell p) c.text p
          (readAfter (evaluate ω bound (p :: trail)) (p :: trail)) (s.takeUp p)
        s.store p r
    else s

end RefreshPass

namespace Grid

def startRefresh (g : Grid) : RefreshPass := ⟨g, g.formulas⟩

/-- Evaluates every formula of the sheet anew. -/
def refresh [Engine] (g : Grid) (ω : Occasion) : Grid :=
  let start := g.prune.startRefresh
  let evaluated := start.pending.foldl
    (fun s p => RefreshPass.evaluate ω start.pending.length [] p s) start
  evaluated.grid

end Grid

end Spreadsheet

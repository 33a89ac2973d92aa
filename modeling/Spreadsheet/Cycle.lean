import Spreadsheet.Cell

/-!
# Cycles of recorded dependencies

A formula keeps the cells that its last evaluation read. The search follows them
depth first. A return to a cell on the way closes a cycle; a cell from which the
search has come back reaches none and is not entered again. A cell that the
sheet does not hold leads nowhere.
-/
namespace Spreadsheet

/-- The cycle that a return to a cell closes; the trail has the newest cell first. -/
def closeCycle (p : Position) (trail : List Position) : List Position :=
  p :: (trail.takeWhile fun q => q != p).reverse ++ [p]

/-- A cycle, if one was found, and the cells known to reach none. -/
abbrev CycleSearch := Option (List Position) × List Position

/-- Visits cells one after the other until a cycle is found. -/
def firstCycle (visit : Position → List Position → CycleSearch) :
    List Position → List Position → CycleSearch
  | [], done => (none, done)
  | p :: ps, done =>
    match visit p done with
    | (some path, done) => (some path, done)
    | (none, done) => firstCycle visit ps done

namespace Grid

/-- Searches from a cell onward. The trail never holds a cell twice, so the number of steps down
is bounded by the number of cells. -/
def searchCycle (g : Grid) : Nat → List Position → Position → List Position → CycleSearch
  | 0, _, _, done => (none, done)
  | bound + 1, trail, p, done =>
    if p ∈ trail then (some (closeCycle p trail), done)
    else if p ∈ done then (none, done)
    else
      match g.get? p with
      | none => (none, done)
      | some c =>
        match firstCycle (searchCycle g bound (p :: trail)) c.dependsOn done with
        | (some path, done) => (some path, done)
        | (none, done) => (none, p :: done)

/-- A cycle that can be reached from a cell, from one of its cells back to it. -/
def cyclePath (g : Grid) (p : Position) : Option (List Position) :=
  (g.searchCycle (g.size + 1) [] p []).1

end Grid

end Spreadsheet

import Spreadsheet.Position.Basic

/-!
# Occasions

A draw at random and a look at a clock give something else each time. An occasion
tells one evaluation from all others, so that what comes of an evaluation can be
taken as a function of its occasion. What happens within an occasion happens on
occasions of its own: no two evaluations of a run share one.
-/
namespace Spreadsheet

/-- When something is evaluated. -/
inductive Occasion where
  | start
  /-- One of the stages of what happens on an occasion. -/
  | stage (within : Occasion) (index : Nat)
  /-- What happens to a cell on an occasion. -/
  | cell (within : Occasion) (position : Position)
deriving DecidableEq, Repr, Inhabited

end Spreadsheet

import Spreadsheet.Proofs.Refresh.Pass

/-!
# The chronicle of a refresh pass

The pass is run once more with a list of the resolutions that it makes, each
with the formulas that were in progress around it. The list is only written,
never read, so that the pass itself is the same. What the list says about the
final sheet is the invariant of the pass: each resolution can be repeated from
the readings of cells that were settled before it.
-/
namespace Spreadsheet
open Formula

/-- A resolution of the pass: the formula and those that waited for it, the newest first. -/
structure Visit where
  cell : Position
  trail : List Position
deriving DecidableEq, Repr

/-- A pass with the resolutions that it has made, the latest first. -/
structure Chronicle where
  pass : RefreshPass
  visits : List Visit

namespace Chronicle

def takeUp (s : Chronicle) (p : Position) : Chronicle := ⟨s.pass.takeUp p, s.visits⟩

def store (s : Chronicle) (p : Position) (trail : List Position) (r : Resolution) : Chronicle :=
  ⟨s.pass.store p r, ⟨p, trail⟩ :: s.visits⟩

def withGrid (s : Chronicle) (g : Grid) : Chronicle := ⟨⟨g, s.pass.pending⟩, s.visits⟩

def readAfter (evaluate : Position → Chronicle → Chronicle) (trail : List Position) :
    Operands Chronicle := fun q s =>
  if q ∈ trail then (.error (.cycle (closeCycle q trail)), s)
  else
    let s := evaluate q s
    let (outcome, grid) := Grid.operand q s.pass.grid
    (outcome, s.withGrid grid)

section
variable [Engine]

/-- Each resolution of the pass adds one visit. -/
def evaluate (ω : Occasion) : Nat → List Position → Position → Chronicle → Chronicle
  | 0, _, _, s => s
  | bound + 1, trail, p, s =>
    if p ∈ s.pass.pending then
      match s.pass.grid.get? p with
      | none => s.takeUp p
      | some c =>
        let (r, s) := resolve (ω.cell p) c.text p
          (readAfter (evaluate ω bound (p :: trail)) (p :: trail)) (s.takeUp p)
        s.store p trail r
    else s

def evaluateAll (ω : Occasion) (bound : Nat) (ps : List Position) (s : Chronicle) : Chronicle :=
  ps.foldl (fun s p => evaluate ω bound [] p s) s

end

def visited (s : Chronicle) : List Position := s.visits.map Visit.cell

end Chronicle

/-- The refresh of a sheet, with the resolutions that it makes. -/
def Grid.chronicle [Engine] (g : Grid) (ω : Occasion) : Chronicle :=
  Chronicle.evaluateAll ω g.prune.startRefresh.pending.length g.prune.startRefresh.pending
    ⟨g.prune.startRefresh, []⟩

namespace Chronicle

/-! ## Forgetting the visits -/

section
variable {ω : Occasion} {bound : Nat} {trail : List Position} {p : Position} {s : Chronicle}

theorem readAfter_of_mem {evaluate : Position → Chronicle → Chronicle} {q : Position}
    (h : q ∈ trail) (s : Chronicle) :
    readAfter evaluate trail q s = (.error (.cycle (closeCycle q trail)), s) := if_pos h

theorem readAfter_of_not_mem {evaluate : Position → Chronicle → Chronicle} {q : Position}
    (h : q ∉ trail) (s : Chronicle) :
    readAfter evaluate trail q s = ((evaluate q s).pass.grid.reading q,
      (evaluate q s).withGrid (Grid.operand q (evaluate q s).pass.grid).2) := by
  rw [← Grid.operand_fst]
  exact if_neg h

variable [Engine]

theorem evaluate_of_not_mem (h : p ∉ s.pass.pending) : evaluate ω bound trail p s = s := by
  cases bound with
  | zero => rfl
  | succ bound => rw [evaluate, if_neg h]

theorem evaluate_of_none (h : p ∈ s.pass.pending) (hn : s.pass.grid.get? p = none) :
    evaluate ω (bound + 1) trail p s = s.takeUp p := by
  rw [evaluate, if_pos h, hn]

theorem evaluate_of_some (h : p ∈ s.pass.pending) {c : Cell} (hc : s.pass.grid.get? p = some c) :
    evaluate ω (bound + 1) trail p s =
      (resolve (ω.cell p) c.text p (readAfter (evaluate ω bound (p :: trail)) (p :: trail))
        (s.takeUp p)).2.store
        p trail
          (resolve (ω.cell p) c.text p (readAfter (evaluate ω bound (p :: trail)) (p :: trail))
          (s.takeUp p)).1 := by
  rw [evaluate, if_pos h, hc]

theorem pass_evaluate (ω : Occasion) (bound : Nat) (trail : List Position) (p : Position)
    (s : Chronicle) :
    (evaluate ω bound trail p s).pass = RefreshPass.evaluate ω bound trail p s.pass := by
  induction bound generalizing trail p s with
  | zero => rfl
  | succ bound ih =>
    by_cases hp : p ∈ s.pass.pending
    · cases hc : s.pass.grid.get? p with
      | none =>
        rw [evaluate_of_none hp hc, RefreshPass.evaluate_of_none hp hc]
        rfl
      | some c =>
        rw [evaluate_of_some hp hc, RefreshPass.evaluate_of_some hp hc]
        obtain ⟨hr, hs⟩ := resolve_simulate
          (readAfter (evaluate ω bound (p :: trail)) (p :: trail))
          (RefreshPass.readAfter (RefreshPass.evaluate ω bound (p :: trail)) (p :: trail))
          (R := fun s t => s.pass = t)
          (fun q s t hst => by
            subst hst
            by_cases hq : q ∈ p :: trail
            · rw [readAfter_of_mem hq, RefreshPass.readAfter_of_mem hq]
              exact ⟨rfl, rfl⟩
            · rw [readAfter_of_not_mem hq, RefreshPass.readAfter_of_not_mem hq, ← ih]
              exact ⟨rfl, rfl⟩)
          (s := s.takeUp p) (u := s.pass.takeUp p) rfl (ω.cell p) c.text p
        rw [← hr, ← hs]
        rfl
    · rw [evaluate_of_not_mem hp, RefreshPass.evaluate_of_not_mem hp]

theorem pass_evaluateAll (ω : Occasion) (bound : Nat) (ps : List Position) (s : Chronicle) :
    (s.evaluateAll ω bound ps).pass = s.pass.evaluateAll ω bound ps := by
  induction ps generalizing s with
  | nil => rfl
  | cons p ps ih =>
    have h := ih (evaluate ω bound [] p s)
    rw [pass_evaluate] at h
    exact h

end

end Chronicle

theorem Grid.chronicle_grid [Engine] (g : Grid) (ω : Occasion) :
    (g.chronicle ω).pass.grid = g.refresh ω := by
  rw [chronicle, Chronicle.pass_evaluateAll, refresh_eq]

end Spreadsheet

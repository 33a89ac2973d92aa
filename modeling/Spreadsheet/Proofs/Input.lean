import Mathlib.Tactic.FinCases
import Spreadsheet.Cascade
import Spreadsheet.Proofs.Formula.Repetition

/-!
# What an input is decided by

An input is evaluated as a formula, or it is taken as it stands. The cell that it
makes depends on the resolution of the formula alone, and this, on an occasion, on
the cells that the resolution reads. A formula lists them. A text without a mark
that has no value becomes a label, which lists none, although it would have been a
formula had the cells that it read been others.
-/
namespace Spreadsheet.Grid
open Text Formula

/-- What can be seen of a cell, a missing one being like a blank one. -/
def shown (g : Grid) (q : Position) : CellKind × Except Fault Value :=
  let c := (g.get? q).getD Cell.blank
  (c.kind, c.outcome)

/-- The text that an input is evaluated as, if it is not taken as it stands. -/
def evaluated? (input : List Char) : Option (List Char) :=
  match trim input with
  | [] => none
  | '\'' :: _ => none
  | '=' :: formula => some formula
  | text => if (finite? text).isSome then none else some text

/-- The cells that decide on an input: those that its cell lists and, of a label without a mark,
which lists none, those that its text read as a formula. -/
def decidedBy [Engine] (g : Grid) (ω : Occasion) (own : Position) (input : List Char) :
    List Position :=
  let c := (g.evaluateInput ω own input).1
  if c.kind = .label ∧ (trim input).head? ≠ some '\'' then
    (g.resolution ω own (trim input)).dependsOn
  else c.dependsOn

section
variable [Engine] {g h : Grid} {ω ω' : Occasion} {own : Position} {input : List Char}

omit [Engine] in
theorem reading_of_shown {q : Position} (hq : h.shown q = g.shown q) :
    h.reading q = g.reading q := by
  have hreading : ∀ g : Grid, g.reading q = ((g.get? q).getD Cell.blank).operand q := by
    intro g
    rw [reading]
    cases g.get? q <;> rfl
  obtain ⟨hkind, houtcome⟩ := Prod.ext_iff.1 hq
  simp only [shown] at hkind houtcome
  rw [hreading, hreading, Cell.operand, Cell.operand, houtcome, hkind]

/-- Nothing of the grid but the resolution of its text goes into the cell of an input. -/
theorem evaluateInput_congr (hr : ∀ cs, evaluated? input = some cs →
    h.resolution ω' own cs = g.resolution ω own cs) :
    (h.evaluateInput ω' own input).1 = (g.evaluateInput ω own input).1 := by
  unfold evaluated? at hr
  unfold evaluateInput
  split
  · rfl
  · rfl
  · rename_i formula hinput
    rw [hinput] at hr
    exact congrArg (formulaCell formula) (hr formula rfl)
  · rename_i text hne hlabel hformula
    split
    · rfl
    · rename_i hfinite
      refine congrArg (unmarkedCell (trim input)) (hr _ ?_)
      split
      · contradiction
      · exact absurd ‹_› (hlabel _)
      · exact absurd ‹_› (hformula _)
      · rw [hfinite]
        rfl

/-- An input whose text depends on no occasion makes the same on all of them. -/
theorem evaluateInput_onOccasion
    (h : ∀ cs, evaluated? input = some cs → Formula.IsRepeatable cs) (g : Grid)
    (ω ω' : Occasion) (own : Position) :
    g.evaluateInput ω own input = g.evaluateInput ω' own input := by
  unfold evaluated? at h
  unfold evaluateInput
  split
  · rfl
  · rfl
  · rename_i formula hinput
    rw [hinput] at h
    rw [(h formula rfl).resolve_eq ω ω']
  · rename_i hempty hlabel hformula
    split
    · rfl
    · rename_i hfinite
      have htext : Formula.IsRepeatable (trim input) := by
        refine h _ ?_
        split
        · contradiction
        · exact absurd ‹_› (hlabel _)
        · exact absurd ‹_› (hformula _)
        · rw [hfinite]
          rfl
      rw [htext.resolve_eq ω ω']

theorem evaluateInput_of_unmarked (hempty : trim input ≠ [])
    (hlabel : ∀ cs, trim input ≠ '\'' :: cs) (hformula : ∀ cs, trim input ≠ '=' :: cs)
    (hfinite : finite? (trim input) = none) :
    (g.evaluateInput ω own input).1 =
      unmarkedCell (trim input) (g.resolution ω own (trim input)) := by
  unfold evaluateInput
  split
  · contradiction
  · exact absurd ‹_› (hlabel _)
  · exact absurd ‹_› (hformula _)
  · rw [hfinite]
    rfl

theorem decidedBy_of_evaluated {cs : List Char} (hcs : evaluated? input = some cs) :
    g.decidedBy ω own input = (g.resolution ω own cs).dependsOn := by
  have hformula : ∀ cs r, (formulaCell cs r).dependsOn = r.dependsOn := fun _ r =>
    Cell.dependsOn_resolved rfl r.outcome r.dependsOn
  unfold evaluated? at hcs
  split at hcs
  · cases hcs
  · cases hcs
  · rename_i formula hinput
    cases hcs
    unfold decidedBy evaluateInput
    rw [hinput]
    exact hformula cs _
  · rename_i hempty hlabel hmark
    split at hcs
    · cases hcs
    · rename_i hfinite
      cases hcs
      rw [Option.not_isSome_iff_eq_none] at hfinite
      have hhead : (trim input).head? ≠ some '\'' := by
        intro hhead
        obtain ⟨rest, hrest⟩ := List.head?_eq_some_iff.1 hhead
        exact hlabel rest hrest
      rw [decidedBy, evaluateInput_of_unmarked hempty hlabel hmark hfinite]
      unfold unmarkedCell
      split
      · exact hformula _ _
      · exact hformula _ _
      · exact if_pos ⟨rfl, hhead⟩

/-- Grids that show the same in the cells that decide on an input make the same cell of it, on one
occasion, or on any two if what the input is evaluated as depends on none. What stands in the cell
itself and what is not read counts for nothing. -/
theorem evaluateInput_decided
    (hagree : ∀ q ∈ g.decidedBy ω own input, q ≠ own → h.shown q = g.shown q) :
    (h.evaluateInput ω own input).1 = (g.evaluateInput ω own input).1 ∧
      ((∀ cs, evaluated? input = some cs → Formula.IsRepeatable cs) →
        ∀ ω', (h.evaluateInput ω' own input).1 = (g.evaluateInput ω own input).1) := by
  have hresolution : ∀ cs, evaluated? input = some cs →
      h.resolution ω own cs = g.resolution ω own cs := by
    refine fun cs hcs => resolution_congr fun q hq hne => ?_
    rw [← decidedBy_of_evaluated hcs] at hq
    exact reading_of_shown (hagree q hq hne)
  refine ⟨evaluateInput_congr hresolution, fun hinput ω' => evaluateInput_congr fun cs hcs => ?_⟩
  rw [resolution_onOccasion (hinput cs hcs) ω' ω, hresolution cs hcs]

end

section
open scoped StandardLibrary

/-- The branch that is not taken and the cell itself are different, and the result is the same. -/
theorem evaluateInput_decided_branch : ∃ g h : Grid,
    g = Table.ofList [(⟨0, 0⟩, .label "old".toList), (⟨0, 2⟩, .label "else".toList)] ∧
    h = Table.ofList [(⟨0, 2⟩, (Cell.formula "foo".toList).failing .malformed)] ∧
    g.decidedBy .start ⟨0, 0⟩ " =IIF(B1, C1, D1)".toList = [⟨0, 1⟩, ⟨0, 3⟩] ∧
    (h.evaluateInput (.stage .start 1) ⟨0, 0⟩ " =IIF(B1, C1, D1)".toList).1 =
      (g.evaluateInput .start ⟨0, 0⟩ " =IIF(B1, C1, D1)".toList).1 := by
  obtain ⟨g, hg⟩ : ∃ g : Grid, g = Table.ofList
    [(⟨0, 0⟩, .label "old".toList), (⟨0, 2⟩, .label "else".toList)] := ⟨_, rfl⟩
  obtain ⟨h, hh⟩ : ∃ h : Grid, h = Table.ofList
    [(⟨0, 2⟩, (Cell.formula "foo".toList).failing .malformed)] := ⟨_, rfl⟩
  have hdecided : g.decidedBy .start ⟨0, 0⟩ " =IIF(B1, C1, D1)".toList = [⟨0, 1⟩, ⟨0, 3⟩] := by
    rw [hg]
    decide +kernel
  have hagree : ∀ q ∈ g.decidedBy .start ⟨0, 0⟩ " =IIF(B1, C1, D1)".toList, q ≠ ⟨0, 0⟩ →
      h.shown q = g.shown q := by
    intro q hq _
    rw [hdecided] at hq
    fin_cases hq <;> rw [hg, hh] <;> rfl
  have htext : evaluated? " =IIF(B1, C1, D1)".toList = some "IIF(B1, C1, D1)".toList := by decide
  refine ⟨g, h, hg, hh, hdecided, (evaluateInput_decided hagree).2 (fun cs hcs => ?_) _⟩
  cases htext.symm.trans hcs
  exact StandardLibrary.isRepeatable (by decide +kernel)

/-- A text without a mark that reads a label becomes a label, which lists no cell. Where the cell
that it read holds a value it becomes a formula. -/
theorem exists_label_decided_by_unlisted : ∃ (g h : Grid) (ω : Occasion) (own : Position)
    (input : List Char),
    (∀ q ∈ (g.evaluateInput ω own input).1.dependsOn, q ≠ own → h.shown q = g.shown q) ∧
    (h.evaluateInput ω own input).1 ≠ (g.evaluateInput ω own input).1 := by
  obtain ⟨g, hg⟩ : ∃ g : Grid, g = Table.ofList [(⟨0, 0⟩, .label "x".toList)] := ⟨_, rfl⟩
  obtain ⟨h, hh⟩ : ∃ h : Grid, h = Table.ofList
    [(⟨0, 0⟩, (Cell.formula "\"x\"".toList).resolved (.ok (.text "x")) [])] := ⟨_, rfl⟩
  have hlisted : (g.evaluateInput .start ⟨0, 1⟩ "A1".toList).1.dependsOn = [] := by
    rw [hg]
    decide +kernel
  have hlabel : (g.evaluateInput .start ⟨0, 1⟩ "A1".toList).1.kind = .label := by
    rw [hg]
    decide +kernel
  have hformula : (h.evaluateInput .start ⟨0, 1⟩ "A1".toList).1.kind = .formula := by
    rw [hh]
    decide +kernel
  refine ⟨g, h, .start, ⟨0, 1⟩, "A1".toList, ?_, fun he => ?_⟩
  · rw [hlisted]
    exact List.forall_mem_nil _
  · rw [he, hlabel] at hformula
    cases hformula

end

end Spreadsheet.Grid

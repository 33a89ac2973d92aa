import Spreadsheet.Proofs.Insertion
import Spreadsheet.Proofs.Position.Line
import Spreadsheet.Proofs.Refresh.History

/-!
# Edits of lines keep the content

An edit of lines moves the coordinates of one direction, each of which comes from
at most one. So it takes the cells with content to different places, and drops
only those in a line that is deleted or pushed off the sheet. The refresh at its
end changes no kind and no text, and nothing of a cell that is no formula.
-/
namespace Spreadsheet
open Position Formula

/-! ## Widths -/

namespace ColumnWidths
variable {widths : ColumnWidths} {s : Shift} {col col' : UInt64}

theorem shift_of_isColumnEdit (hs : s.isColumnEdit = true) (widths : ColumnWidths) :
    widths.shift s = Table.ofList (widths.entries.filterMap fun e =>
      (s.line e.1).map fun col => (col, e.2)) := by
  rw [shift, if_pos hs]
  simp only [Shift.apply_eq, Shift.axis_of_isColumnEdit hs, Option.map_map]
  rfl

/-- A width goes where its column goes. -/
theorem get?_shift (hs : s.isColumnEdit = true) (hcol : s.line col = some col') :
    (widths.shift s).get? col' = widths.get? col := by
  rw [shift_of_isColumnEdit hs]
  exact (Table.get?_moved (f := id) Shift.line_injective widths hcol).trans Option.map_id_apply

theorem get?_shift_of_none (hs : s.isColumnEdit = true) (hcol : ∀ x, s.line x ≠ some col') :
    (widths.shift s).get? col' = none := by
  rw [shift_of_isColumnEdit hs]
  exact Table.get?_moved_of_none (f := id) widths hcol

end ColumnWidths

/-! ## Cells -/

/-- The second cell is the first one after an edit of lines: a formula follows its references, and
any other cell is the same. -/
structure Cell.CarriedBy (s : Shift) (c c' : Cell) : Prop where
  kind : c'.kind = c.kind
  text : c.isFormula = true → c'.text = shiftReferences s c.text
  same : c.isFormula = false → c' = c

namespace Grid
variable {g : Grid} {s : Shift} {p p' : Position}

theorem carriedBy_of_unevaluated {c c' : Cell}
    (h : c'.unevaluated = (shiftedCell s c).unevaluated) : c.CarriedBy s c' where
  kind := by
    have hk := congrArg Cell.kind h
    rw [Cell.kind_unevaluated, Cell.kind_unevaluated] at hk
    rw [hk, shiftedCell]
    split <;> rfl
  text hf := by rw [Cell.text_of_unevaluated_eq h, text_shiftedCell hf]
  same hf := by
    rw [shiftedCell, if_neg (Bool.eq_false_iff.1 hf)] at h
    exact (Cell.eq_of_unevaluated_eq h.symm hf).symm

theorem get?_moved_of_apply (hp : s.apply p = some p') :
    (g.moved s).get? p' = (g.get? p).map (shiftedCell s) :=
  Table.get?_moved Shift.apply_injective g hp

section
variable [Engine] (ω : Occasion)

/-- The cells with content go where their places go. -/
theorem get?_prune_shift (hp : s.apply p = some p') :
    Option.Rel (Cell.CarriedBy s) (g.prune.get? p) ((g.shift ω s).prune.get? p') := by
  have hmoved : (g.moved s).prune.get? p' = (g.prune.get? p).map (shiftedCell s) := by
    rw [get?_prune, get?_prune, get?_moved_of_apply hp]
    cases g.get? p with
    | none => rfl
    | some c => simp [Option.filter, isEmpty_shiftedCell, apply_ite (Option.map (shiftedCell s))]
  have hcontent := sameContent_refresh ω (g.moved s) p'
  rw [hmoved, Option.map_map] at hcontent
  change Option.map _ ((g.shift ω s).prune.get? p') = _ at hcontent
  cases hc : g.prune.get? p with
  | none =>
    rw [hc, Option.map_none, Option.map_eq_none_iff] at hcontent
    rw [hcontent]
    exact .none
  | some c =>
    rw [hc, Option.map_some, Option.map_eq_some_iff] at hcontent
    obtain ⟨c', hc', he⟩ := hcontent
    rw [hc']
    exact .some (carriedBy_of_unevaluated he)

/-- Nothing with content comes up where no place goes. -/
theorem get?_prune_shift_of_none (hp : ∀ p, s.apply p ≠ some p') :
    (g.shift ω s).prune.get? p' = none := by
  have hcontent := sameContent_refresh ω (g.moved s) p'
  have hmoved : (g.moved s).get? p' = none := Table.get?_moved_of_none g hp
  rw [get?_prune (g.moved s), hmoved] at hcontent
  exact Option.map_eq_none_iff.1 hcontent

end

end Grid

namespace Document

/-- After an edit of lines the cells with content are those from before, each at the one place to
which its own goes, and those whose place goes nowhere are gone. The widths go with their columns,
and an edit of rows leaves them. -/
theorem shift_carries_content [Engine] (d : Document) (ω : Occasion) (s : Shift) :
    (∀ {p q r}, s.apply p = some r → s.apply q = some r → p = q) ∧
    (∀ {p p'}, s.apply p = some p' →
      Option.Rel (Cell.CarriedBy s) (d.grid.prune.get? p) ((d.shift ω s).grid.prune.get? p')) ∧
    (∀ {p'}, (∀ p, s.apply p ≠ some p') → (d.shift ω s).grid.prune.get? p' = none) ∧
    (s.isColumnEdit = true →
      (∀ {p p'}, s.apply p = some p' →
        (d.shift ω s).widths.get? p'.col = d.widths.get? p.col) ∧
      ∀ {col}, (∀ p p', s.apply p = some p' → p'.col ≠ col) →
        (d.shift ω s).widths.get? col = none) ∧
    (s.isColumnEdit = false → (d.shift ω s).widths = d.widths) := by
  refine ⟨Shift.apply_injective, Grid.get?_prune_shift ω, Grid.get?_prune_shift_of_none ω,
    fun hs => ⟨fun hp => ?_, fun hcol => ?_⟩, fun hs => ?_⟩
  · rw [Shift.apply_eq, Shift.axis_of_isColumnEdit hs, Option.map_eq_some_iff] at hp
    obtain ⟨col, hcol, rfl⟩ := hp
    exact ColumnWidths.get?_shift hs hcol
  · refine ColumnWidths.get?_shift_of_none hs fun x hx => hcol ⟨0, x⟩ ⟨0, _⟩ ?_ rfl
    rw [Shift.apply_eq, Shift.axis_of_isColumnEdit hs, Axis.of, hx, Option.map_some, Axis.put]
  · change d.widths.shift s = d.widths
    rw [ColumnWidths.shift, hs]
    rfl

section
open scoped StandardLibrary

/-- A column goes with its cell and its width. The next one takes its place, and the formula that
reads it follows. -/
theorem shift_carries_content_deletion : ∃ (d : Document) (c : Cell),
    d.grid = Table.ofList [(⟨0, 0⟩, .formula "IIF(C1=\"C1\", B1, C1)".toList),
      (⟨0, 1⟩, .label "gone".toList), (⟨0, 2⟩, .label "kept".toList)] ∧
    d.widths = Table.ofList [(1, 20), (2, 30)] ∧
    (d.shift .start (.deleteColumn 1)).grid.prune.get? ⟨0, 0⟩ = some c ∧ c.kind = .formula ∧
    c.text = "IIF(B1=\"C1\", #REF!, B1)".toList ∧
    (d.shift .start (.deleteColumn 1)).grid.prune.get? ⟨0, 1⟩ = some (.label "kept".toList) ∧
    (d.shift .start (.deleteColumn 1)).widths.get? 1 = some 30 ∧
    (d.shift .start (.deleteColumn 1)).widths.get? 2 = none := by
  obtain ⟨d, hg, hw⟩ : ∃ d : Document, d.grid = Table.ofList
      [(⟨0, 0⟩, .formula "IIF(C1=\"C1\", B1, C1)".toList), (⟨0, 1⟩, .label "gone".toList),
        (⟨0, 2⟩, .label "kept".toList)] ∧ d.widths = Table.ofList [(1, 20), (2, 30)] :=
    ⟨{ new with grid := _, widths := _ }, rfl, rfl⟩
  obtain ⟨_, hcells, _, hwidths, _⟩ := shift_carries_content d .start (.deleteColumn 1)
  have hstays : (Shift.deleteColumn 1).apply ⟨0, 0⟩ = some ⟨0, 0⟩ := by decide
  have hmoves : (Shift.deleteColumn 1).apply ⟨0, 2⟩ = some ⟨0, 1⟩ := by decide
  have hbehind : (Shift.deleteColumn 1).apply ⟨0, 3⟩ = some ⟨0, 2⟩ := by decide
  have hfirst := hcells hstays
  have hlast := hcells hmoves
  have hformula : d.grid.prune.get? ⟨0, 0⟩ =
      some (.formula "IIF(C1=\"C1\", B1, C1)".toList) := by
    rw [hg]
    rfl
  have hlabel : d.grid.prune.get? ⟨0, 2⟩ = some (.label "kept".toList) := by
    rw [hg]
    rfl
  rw [hformula] at hfirst
  rw [hlabel] at hlast
  generalize hc : (d.shift .start (.deleteColumn 1)).grid.prune.get? ⟨0, 0⟩ = found at hfirst
  generalize hl : (d.shift .start (.deleteColumn 1)).grid.prune.get? ⟨0, 1⟩ = found' at hlast
  cases hfirst with
  | some hfirst =>
    cases hlast with
    | some hlast =>
      refine ⟨d, _, hg, hw, hc, hfirst.kind, ?_, ?_, ?_, ?_⟩
      · rw [hfirst.text rfl]
        decide +kernel
      · rw [hl, hlast.same rfl]
      · exact ((hwidths rfl).1 hmoves).trans (by rw [hw]; rfl)
      · exact ((hwidths rfl).1 hbehind).trans (by rw [hw]; rfl)

end

end Document

end Spreadsheet

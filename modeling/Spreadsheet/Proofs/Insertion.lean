import Spreadsheet.Proofs.Formula.Regular
import Spreadsheet.Proofs.Refresh.Moved
import Spreadsheet.Proofs.Table

/-!
# What an insertion keeps

An insertion moves the cells, follows the references in the formulas and
refreshes the sheet. Where the new text of every formula follows its cells, the
moved formulas have the outcomes that they have without the insertion.
-/
namespace Spreadsheet
open Position Formula

/-! ## The moved cells -/

namespace Formula

theorem Piece.text_ne_nil {cs : List Char} {quoted : Bool} :
    ∀ piece ∈ piecesFrom quoted cs, piece.text ≠ [] := by
  fun_induction piecesFrom quoted cs with
  | case1 => exact List.forall_mem_nil _
  | case2 _ _ _ _ ih => exact List.forall_mem_cons.2 ⟨List.cons_ne_nil _ _, ih⟩
  | case3 _ _ _ _ _ ih => exact List.forall_mem_cons.2 ⟨List.cons_ne_nil _ _, ih⟩
  | case4 _ _ _ _ _ ih => exact List.forall_mem_cons.2 ⟨List.cons_ne_nil _ _, ih⟩

theorem pieces_ne_nil {cs : List Char} (h : cs ≠ []) : pieces cs ≠ [] := by
  cases cs with
  | nil => exact absurd rfl h
  | cons c cs =>
    rw [pieces, piecesFrom]
    repeat' split
    all_goals exact List.cons_ne_nil _ _

/-- A text with references to other cells is as empty as the text with the old ones. -/
theorem isEmpty_shiftReferences (s : Shift) (cs : List Char) :
    (shiftReferences s cs).isEmpty = cs.isEmpty := by
  cases hcs : cs with
  | nil => simp [shiftReferences, replaceReferences, pieces, piecesFrom]
  | cons c cs' =>
    rw [← hcs]
    have hne : shiftReferences s cs ≠ [] := by
      rw [shiftReferences, replaceReferences]
      intro hnil
      rw [List.flatMap_eq_nil_iff] at hnil
      obtain ⟨piece, hpiece⟩ :=
        List.exists_mem_of_ne_nil _ (pieces_ne_nil (hcs ▸ List.cons_ne_nil c cs'))
      have hnone := hnil piece hpiece
      rw [Option.getD_eq_iff] at hnone
      rcases hnone with hsome | ⟨-, htext⟩
      · obtain ⟨p, -, hp⟩ := Option.bind_eq_some_iff.1 hsome
        split at hp
        · split at hp
          · cases hp
          · exact name_ne_nil _ (Option.some.inj hp)
        · exact absurd (Option.some.inj hp) (by decide)
      · exact Piece.text_ne_nil piece hpiece htext
    rw [List.isEmpty_eq_false_iff.2 hne, List.isEmpty_eq_false_iff.2 (hcs ▸ List.cons_ne_nil c cs')]

end Formula

namespace Grid

theorem text_shiftedCell {s : Shift} {c : Cell} (h : c.isFormula = true) :
    (shiftedCell s c).text = shiftReferences s c.text := by
  rw [shiftedCell, if_pos h, Cell.text, String.toList_ofList]

theorem isEmpty_eq_isEmpty_text (c : Cell) : c.isEmpty = c.text.isEmpty := by
  rw [Bool.eq_iff_iff, Cell.isEmpty, Cell.text, String.isEmpty_iff, List.isEmpty_iff,
    String.toList_eq_nil_iff]

theorem isEmpty_shiftedCell (s : Shift) (c : Cell) : (shiftedCell s c).isEmpty = c.isEmpty := by
  by_cases hf : c.isFormula = true
  · rw [isEmpty_eq_isEmpty_text, text_shiftedCell hf, isEmpty_shiftReferences,
      isEmpty_eq_isEmpty_text]
  · rw [shiftedCell, if_neg hf]

section
variable {g : Grid} {s : Shift} (hs : s.isInsertion = true)
  (hcells : ∀ p ∈ g.keys, (s.apply p).isSome = true)
include hs hcells

/-- The cells of a sheet, of which none is pushed off, after their move. -/
theorem entries_moved : (g.moved s).entries =
    g.entries.map fun e => (s.place e.1, shiftedCell s e.2) := by
  have happly : ∀ e ∈ g.entries, s.apply e.1 = some (s.place e.1) := by
    intro e he
    obtain ⟨p, hp⟩ := Option.isSome_iff_exists.1 (hcells e.1 (List.mem_map_of_mem he))
    rw [hp, Shift.place_of_apply hs hp]
  have hmap : (g.entries.filterMap fun e => (s.apply e.1).map fun p => (p, shiftedCell s e.2)) =
      g.entries.map fun e => (s.place e.1, shiftedCell s e.2) := by
    rw [← List.filterMap_eq_map]
    refine List.filterMap_congr fun e he => ?_
    rw [happly e he]
    rfl
  rw [moved, hmap]
  refine Table.entries_ofList (List.pairwise_map.2 ?_)
  refine List.Pairwise.imp_of_mem (fun ha hb hbefore => ?_) g.sorted
  exact Shift.before_of_moved (happly _ ha) (happly _ hb) hbefore

theorem entries_prune_moved : (g.moved s).prune.entries =
    g.prune.entries.map fun e => (s.place e.1, shiftedCell s e.2) := by
  change (g.moved s).entries.filter _ = (g.entries.filter _).map _
  rw [entries_moved hs hcells, List.filter_map]
  refine congrArg _ (List.filter_congr fun e _ => ?_)
  exact congrArg not (isEmpty_shiftedCell s e.2)

theorem get?_prune_moved (p : Position) :
    (g.moved s).prune.get? (s.place p) = (g.prune.get? p).map (shiftedCell s) := by
  rw [Table.get?, entries_prune_moved hs hcells]
  exact Table.find_map (Shift.place_injective hs) (shiftedCell s) p g.prune.entries

theorem formulas_prune_moved : (g.moved s).prune.formulas = g.prune.formulas.map s.place := by
  rw [formulas, entries_prune_moved hs hcells, formulas, List.filter_map, List.map_map,
    List.map_map]
  congr 1
  refine List.filter_congr fun e _ => ?_
  rw [Function.comp_apply, isFormula_shiftedCell]

theorem follows_prune_moved [Engine] (htexts : ∀ p c, g.get? p = some c → c.isFormula = true →
    Formula.Follows s.place c.text (shiftReferences s c.text)) :
    g.prune.Follows s.place (g.moved s).prune := by
  intro p
  rw [get?_prune_moved hs hcells, get?_prune]
  cases hp : g.get? p with
  | none => exact .none
  | some c =>
    cases hc : c.isEmpty with
    | true =>
      rw [Option.filter_some_neg (by simp [hc])]
      exact .none
    | false =>
      rw [Option.filter_some_pos (by simp [hc])]
      refine .some ⟨?_, ?_, fun hf => ?_⟩
      · unfold shiftedCell
        split <;> rfl
      · unfold shiftedCell
        split <;> exact .refl _
      · rw [text_shiftedCell hf]
        exact htexts p c hp hf

end

end Grid

/-! ## Results after an insertion -/

namespace Document

/-- A refreshed formula has the same result after an insertion that pushes no cell and no reference
off the sheet, if all formulas are regular and without ranges and call plain functions. It stands
where its cell has moved, with its references rewritten. -/
theorem insertion_keeps_results [Library] {d : Document} {s : Shift} (hs : s.isInsertion = true)
    (hcells : ∀ p ∈ d.grid.keys, (s.apply p).isSome = true)
    (hformulas : ∀ p c, d.grid.get? p = some c → c.isFormula = true →
      isRegular c.text = true ∧ ¬['.', '.'] <:+: c.text ∧ CallsPlain c.text ∧
        ∀ q ∈ references c.text, (s.apply q).isSome = true)
    (ω ω' : Occasion) {p : Position} {c : Cell} (hc : (d.refresh ω).grid.get? p = some c)
    (hf : c.isFormula = true) :
    ∃ p' c', s.apply p = some p' ∧ (d.shift ω' s).grid.get? p' = some c' ∧
      c'.isFormula = true ∧ c'.text = shiftReferences s c.text ∧
      SameOutcome c.outcome c'.outcome := by
  obtain ⟨b, hb, hkind, hraw⟩ := (Grid.get?_prune_of_refresh hc).resolve_left fun he => by
    rw [he] at hf
    cases hf
  have hbf : b.isFormula = true := by rwa [Cell.isFormula, ← hkind]
  have hp : p ∈ d.grid.keys := by
    rw [Grid.get?_prune, Option.filter_eq_some_iff] at hb
    exact (Table.mem_keys_iff _ p).2 ⟨b, hb.1⟩
  obtain ⟨p', hp'⟩ := Option.isSome_iff_exists.1 (hcells p hp)
  obtain rfl := Shift.place_of_apply hs hp'
  have hfollows : (d.grid.refresh ω).Follows s.place ((d.grid.moved s).refresh ω') :=
    Grid.Follows.refresh (Shift.place_injective hs)
      (Grid.follows_prune_moved hs hcells fun q e he hf => by
        obtain ⟨hregular, hrange, hplain, hrefs⟩ := hformulas q e he hf
        exact follows_shiftReferences hs hregular hrange hplain hrefs)
      (Grid.formulas_prune_moved hs hcells) ω ω'
  have hmoved : (d.grid.moved s).prune.get? (s.place p) = some (Grid.shiftedCell s b) := by
    rw [Grid.get?_prune_moved hs hcells, hb, Option.map_some]
  obtain ⟨c', hc', -, hraw'⟩ := Grid.exists_get?_refresh ω' hmoved
  change (d.grid.refresh ω).get? p = some c at hc
  have hcell := hfollows p
  rw [hc, hc'] at hcell
  cases hcell with
  | some hcell =>
    refine ⟨_, c', hp', hc', by rw [hcell.isFormula, hf], ?_, hcell.outcome⟩
    rw [Cell.text, hraw', ← Cell.text, Grid.text_shiftedCell hbf, Cell.text, Cell.text, hraw]

section
open scoped StandardLibrary

/-- A choice between a cell that moves and a text with the name of one. -/
theorem insertion_keeps_results_choice : ∃ (d : Document) (c : Cell) (c' : Cell),
    d.grid = Table.ofList [(⟨0, 0⟩, .formula "IIF(A3=\"A3\", 2%, a3)".toList),
      (⟨2, 0⟩, .formula "\"x\"".toList)] ∧
    (d.refresh .start).grid.get? ⟨0, 0⟩ = some c ∧
    (d.shift (.stage .start 1) (.insertRow 1)).grid.get? ⟨0, 0⟩ = some c' ∧
    c'.text = "IIF(A4=\"A3\", 2%, A4)".toList ∧ SameOutcome c.outcome c'.outcome := by
  obtain ⟨g, hg⟩ : ∃ g : Grid, g = Table.ofList [(⟨0, 0⟩,
    .formula "IIF(A3=\"A3\", 2%, a3)".toList), (⟨2, 0⟩, .formula "\"x\"".toList)] := ⟨_, rfl⟩
  have hcells : ∀ p ∈ g.keys, ((Shift.insertRow 1).apply p).isSome = true := by
    rw [hg]
    decide +kernel
  have hentries : ∀ e ∈ g.entries, isRegular e.2.text = true ∧ ¬['.', '.'] <:+: e.2.text ∧
      StandardLibrary.drawsNothing e.2.text = true ∧
      ∀ q ∈ references e.2.text, ((Shift.insertRow 1).apply q).isSome = true := by
    rw [hg]
    decide +kernel
  have hfirst : ((g.refresh .start).get? ⟨0, 0⟩).map (fun c =>
      (c.isFormula, shiftReferences (.insertRow 1) c.text)) =
      some (true, "IIF(A4=\"A3\", 2%, A4)".toList) := by
    rw [hg]
    decide +kernel
  obtain ⟨c, hc, hs⟩ := Option.map_eq_some_iff.1 hfirst
  simp only [Prod.mk.injEq] at hs
  obtain ⟨p', c', hp', hc', _, htext, houtcome⟩ := insertion_keeps_results
    (d := { new with grid := g }) (s := .insertRow 1) rfl hcells
    (fun p c hc _ => by
      obtain ⟨hregular, hrange, hdraws, hrefs⟩ :=
        hentries (p, c) ((Table.mem_entries_iff g p c).2 hc)
      exact ⟨hregular, hrange, StandardLibrary.callsPlain hdraws, hrefs⟩)
    .start (.stage .start 1) hc hs.1
  cases hp'
  exact ⟨{ new with grid := g }, c, c', hg, hc, hc', htext.trans hs.2, houtcome⟩

end

/-- An insertion that pushes no cell and no reference off the sheet, and yet changes the result of
a formula. -/
def InsertionChanges [Engine] (d : Document) (s : Shift) : Prop :=
  s.isInsertion = true ∧ (∀ q ∈ d.grid.keys, (s.apply q).isSome = true) ∧
    (∀ q b, d.grid.get? q = some b → b.isFormula = true → ¬['.', '.'] <:+: b.text ∧
      ∀ r ∈ references b.text, (s.apply r).isSome = true) ∧
    ∃ p p' c c', (d.refresh .start).grid.get? p = some c ∧ c.isFormula = true ∧
      s.apply p = some p' ∧ (d.shift (.stage .start 1) s).grid.get? p' = some c' ∧
      ¬SameOutcome c.outcome c'.outcome

/-- The text of the first cell is another one after the insertion of a row. -/
theorem insertionChanges_of_text [Engine] {g : Grid} {v : Value}
    (hcells : ∀ p ∈ g.keys, ((Shift.insertRow 1).apply p).isSome = true)
    (hentries : ∀ e ∈ g.entries, ¬['.', '.'] <:+: e.2.text ∧
      ∀ q ∈ references e.2.text, ((Shift.insertRow 1).apply q).isSome = true)
    (hbefore : ((g.refresh .start).get? ⟨0, 0⟩).map (fun c =>
      (c.isFormula, c.outcome.toOption)) = some (true, some v))
    (hafter : ((g.shift (.stage .start 1) (.insertRow 1)).get? ⟨0, 0⟩).map
      (fun c => decide (c.outcome.toOption = some v)) = some false) :
    InsertionChanges { new with grid := g } (.insertRow 1) := by
  obtain ⟨c, hc, hs⟩ := Option.map_eq_some_iff.1 hbefore
  simp only [Prod.mk.injEq] at hs
  obtain ⟨c', hc', hs'⟩ := Option.map_eq_some_iff.1 hafter
  refine ⟨rfl, hcells, fun q b hb _ => hentries (q, b) ((Table.mem_entries_iff g q b).2 hb),
    ⟨0, 0⟩, ⟨0, 0⟩, c, c', hc, hs.1, rfl, hc', fun hsame => ?_⟩
  generalize c.outcome = x at hs hsame
  generalize c'.outcome = x' at hs' hsame
  cases hsame with
  | value v => exact of_decide_eq_false hs' hs.2
  | fault => cases hs.2

open scoped StandardLibrary in
/-- A cell with the name of a function is read, but no reference, so that it moves away from the
formula that reads it. So does a cell that is read by the evaluation of a text. -/
theorem exists_insertion_changing_result : (∃ d s, InsertionChanges d s) ∧
    ∃ d s, @InsertionChanges (@Library.engine (.evaluating ["A2"])) d s := by
  constructor
  · obtain ⟨g, hg⟩ : ∃ g : Grid, g = Table.ofList [(⟨0, 0⟩, .formula "LOG10".toList),
      (⟨9, 8508⟩, .formula "\"x\"".toList)] := ⟨_, rfl⟩
    refine ⟨_, _, insertionChanges_of_text (g := g) (v := .text "x") ?_ ?_ ?_ ?_⟩ <;> rw [hg] <;>
      decide +kernel
  · obtain ⟨g, hg⟩ : ∃ g : Grid, g = Table.ofList [(⟨0, 0⟩, .formula "eval!(\"A2\")".toList),
      (⟨1, 0⟩, .formula "\"x\"".toList)] := ⟨_, rfl⟩
    refine ⟨_, _, @insertionChanges_of_text (@Library.engine (.evaluating ["A2"])) g (.text "x")
      ?_ ?_ ?_ ?_⟩ <;> rw [hg] <;> decide +kernel

end Document

end Spreadsheet

import Spreadsheet.Document
import Spreadsheet.Proofs.Formula.Repetition
import Spreadsheet.Proofs.Refresh.Invariant

/-!
# What a refresh leaves is consistent

After a refresh a formula holds what its text gives on the sheet as it is in the
end, although it was resolved while other formulas were still pending. Only a
cell that closes a cycle differs, because it read a formula in progress. What a
text gives is that of the occasion of its resolution, and of every occasion if it
depends on none. Each formula is resolved once.
-/
namespace Spreadsheet
open Formula

/-- Whether the cell has a fault that speaks of a cycle. -/
def Cell.isCircular (c : Cell) : Bool := c.fault?.any fun fault => fault.kind == .circularReference

/-- On an occasion the text of a formula gives what is stored for it, and reading for it adds no
cell. -/
def Grid.UpToDate [Engine] (g : Grid) (ω : Occasion) (p : Position) (c : Cell) : Prop :=
  resolve ω c.text p Grid.operand g = (⟨c.outcome, c.dependsOn⟩, g)

theorem Cell.isCircular_eq_true {c : Cell} : c.isCircular = true ↔
    ∃ fault : Fault, c.outcome = .error fault ∧ fault.kind = .circularReference := by
  unfold isCircular fault?
  split <;> rename_i h <;> simp [h]

theorem Cell.isCircular_of_hasFault_eq_false {c : Cell} (h : c.hasFault = false) :
    c.isCircular = false := by
  unfold hasFault at h
  rw [Option.isSome_eq_false_iff, Option.isNone_iff_eq_none] at h
  rw [isCircular, h]
  rfl

namespace Grid

section
variable [Engine] {ω : Occasion} {g : Grid} {p : Position} {c : Cell}

theorem Accounts.holdsIn {visits : List Visit} (h : g.Accounts ω visits) {v : Visit}
    (hv : v ∈ visits) : ∃ older, v.HoldsIn ω g older := by
  induction visits with
  | nil => cases hv
  | cons u older ih =>
    rcases List.mem_cons.1 hv with rfl | hv
    · exact ⟨older, h.1⟩
    · exact ih h.2 hv

/-- The visit of a formula of the refreshed sheet. -/
theorem exists_visit (hc : (g.refresh ω).get? p = some c) (hf : c.isFormula = true) :
    ∃ v ∈ (g.chronicle ω).visits, v.cell = p :=
  List.mem_map.1 (mem_formulas_refresh.1 (mem_formulas.2 ⟨c, hc, hf⟩))

theorem upToDate_refresh (hc : (g.refresh ω).get? p = some c) (hf : c.isFormula = true)
    (hn : c.isCircular = false) : (g.refresh ω).UpToDate (ω.cell p) p c := by
  obtain ⟨v, hv, rfl⟩ := exists_visit hc hf
  obtain ⟨older, _, d, l, hd, _, hl, hx⟩ := (accounts_refresh ω g).holdsIn hv
  cases hc.symm.trans hd
  refine hl.resolve_eq (answers_of_get? fun x hxl => ?_)
  rcases hx x hxl with ⟨_, ha⟩ | ⟨_, e, he, ha, _⟩
  · have ho : c.outcome = _ := hl.ending.outcome_of_refused hxl ha
    have hcirc : c.isCircular = true := Cell.isCircular_eq_true.2 ⟨_, ho, rfl⟩
    rw [hn] at hcirc
    cases hcirc
  · exact ⟨e, he, ha⟩

/-- A formula that depends on no occasion gives what is stored for it on all of them. -/
theorem UpToDate.onOccasion (h : g.UpToDate ω p c) (hc : Formula.IsRepeatable c.text)
    (ω' : Occasion) : g.UpToDate ω' p c :=
  (hc.resolve_eq ω' ω p operand g).trans h

/-- So does a formula without a fault on the refreshed sheet. -/
theorem resolution_refresh (hc : (g.refresh ω).get? p = some c) (hf : c.isFormula = true)
    (hn : c.hasFault = false) (hcs : Formula.IsRepeatable c.text) (ω' : Occasion) :
    (g.refresh ω).resolution ω' p c.text = ⟨c.outcome, c.dependsOn⟩ :=
  congrArg Prod.fst
    ((upToDate_refresh hc hf (Cell.isCircular_of_hasFault_eq_false hn)).onOccasion hcs ω')

theorem count_visited (ω : Occasion) (g : Grid) (p : Position) :
    (g.chronicle ω).visited.count p = if p ∈ (g.refresh ω).formulas then 1 else 0 := by
  rw [(progress_chronicle ω g).sound.nodup.count]
  simp only [mem_formulas_refresh]

end

end Grid

namespace Document

/-- Every formula that does not close a cycle is up to date after a refresh, and on every occasion
if it depends on none. The pass, which the chronicle records resolution by resolution, resolves each
formula exactly once. -/
theorem refresh_consistent [Engine] (d : Document) (ω : Occasion) :
    (∀ p c, (d.refresh ω).grid.get? p = some c → c.isFormula = true → c.isCircular = false →
      (d.refresh ω).grid.UpToDate (ω.cell p) p c ∧
        (Formula.IsRepeatable c.text → ∀ ω', (d.refresh ω).grid.UpToDate ω' p c)) ∧
    (d.grid.chronicle ω).pass.grid = (d.refresh ω).grid ∧
    ∀ p, (d.grid.chronicle ω).visited.count p =
      if p ∈ (d.refresh ω).grid.formulas then 1 else 0 := by
  refine ⟨fun p c hc hf hn => ?_, d.grid.chronicle_grid ω, d.grid.count_visited ω⟩
  have hdate := Grid.upToDate_refresh hc hf hn
  exact ⟨hdate, hdate.onOccasion⟩

section
open scoped StandardLibrary

/-- The first formula of a row reads the second, which comes after it. -/
theorem refresh_consistent_forward : ∃ (d : Document) (c : Cell),
    d.grid = Table.ofList [(⟨0, 0⟩, .formula "B1".toList), (⟨0, 1⟩, .formula "C1".toList)] ∧
    (d.refresh .start).grid.get? ⟨0, 0⟩ = some c ∧ c.dependsOn = [⟨0, 1⟩] ∧
    (d.refresh .start).grid.UpToDate (.stage .start 1) ⟨0, 0⟩ c := by
  obtain ⟨d, hd⟩ : ∃ d : Document, d.grid = Table.ofList [(⟨0, 0⟩, .formula "B1".toList),
    (⟨0, 1⟩, .formula "C1".toList)] := ⟨{ new with grid := _ }, rfl⟩
  have hfirst : ((d.grid.refresh .start).get? ⟨0, 0⟩).map (fun c => (c.isFormula, c.isCircular,
      c.dependsOn, StandardLibrary.drawsNothing c.text)) = some (true, false, [⟨0, 1⟩], true) := by
    rw [hd]
    decide +kernel
  obtain ⟨c, hc, hs⟩ := Option.map_eq_some_iff.1 hfirst
  simp only [Prod.mk.injEq] at hs
  obtain ⟨hf, hn, hdepends, hdraw⟩ := hs
  exact ⟨d, c, hd, hc, hdepends,
    ((refresh_consistent d .start).1 _ c hc hf hn).2 (StandardLibrary.isRepeatable hdraw) _⟩

end

end Document

end Spreadsheet

import Spreadsheet.Proofs.Cascade.Reports

/-!
# The bound of a cascade

A cascade follows the cells in the texts of formulas. Its bound is twice the
number of cells when it starts, and it is used up only where the texts lead back
to a formula. On a sheet where they never do, a cascade puts no fault into its
origin, however deep the formulas depend on each other and however many paths
join the same two of them.
-/
namespace Spreadsheet
open Formula Relation

namespace Grid

section
variable [Engine] {g : Grid} {ω : Occasion} {p : Position}

omit [Engine] in
theorem dependencies_nil : dependencies [] = [] := by decide +kernel

/-- A refresh drops no formula that mentions a cell. -/
theorem mentions_refresh (g : Grid) (ω : Occasion) : (g.refresh ω).Mentions = g.Mentions := by
  funext q p
  refine propext ⟨?_, ?_⟩
  · rintro ⟨cs, hcs, hp⟩
    obtain ⟨c, hc, hf, rfl⟩ := formulaText?_eq_some.1 hcs
    rcases get?_prune_of_refresh hc with rfl | ⟨b, hb, hk, hr⟩
    · cases hf
    · rw [get?_prune, Option.filter_eq_some_iff] at hb
      have hbf : b.isFormula = true := by rwa [Cell.isFormula, ← hk]
      exact ⟨c.text, formulaText?_eq_some.2 ⟨b, hb.1, hbf, by rw [Cell.text, Cell.text, hr]⟩, hp⟩
  · rintro ⟨cs, hcs, hp⟩
    obtain ⟨c, hc, hf, rfl⟩ := formulaText?_eq_some.1 hcs
    have hcontent : g.prune.get? q = some c := by
      rw [get?_prune, Option.filter_eq_some_iff]
      refine ⟨hc, ?_⟩
      by_contra he
      have hnil : c.text = [] := by simpa [Cell.isEmpty, Cell.text] using he
      rw [hnil, dependencies_nil] at hp
      cases hp
    obtain ⟨d, hd, hk, hr⟩ := exists_get?_refresh _ hcontent
    have hdf : d.isFormula = true := by rw [Cell.isFormula, hk, ← Cell.isFormula, hf]
    exact ⟨c.text, formulaText?_eq_some.2 ⟨d, hd, hdf, by rw [Cell.text, Cell.text, hr]⟩, hp⟩

/-- The formulas of a sheet mention only cells to their right. -/
def IsRightward (g : Grid) : Prop :=
  ∀ e ∈ g.entries, e.2.isFormula = true → ∀ q ∈ dependencies e.2.text, e.1.col < q.col

instance (g : Grid) : Decidable g.IsRightward :=
  inferInstanceAs (Decidable
    (∀ e ∈ g.entries, e.2.isFormula = true → ∀ q ∈ dependencies e.2.text, e.1.col < q.col))

omit [Engine] in
theorem IsRightward.acyclic (h : g.IsRightward) (p : Position) : ¬TransGen g.Mentions p p := by
  have hstep : ∀ {q r}, g.Mentions q r → q.col < r.col := by
    rintro q r ⟨cs, hcs, hr⟩
    obtain ⟨c, hc, hf, rfl⟩ := formulaText?_eq_some.1 hcs
    exact h (q, c) ((Table.mem_entries_iff g q c).2 hc) hf r hr
  have hpath : ∀ {q r}, TransGen g.Mentions q r → q.col < r.col := by
    intro q r hqr
    induction hqr with
    | single hqr => exact hstep hqr
    | tail _ hrs ih => exact UInt64.lt_trans ih (hstep hrs)
  exact fun hp => UInt64.lt_irrefl _ (hpath hp)

/-- A bound that is used up has led to a formula that reaches itself. -/
theorem exists_cycle_of_not_settles (hg : 0 < g.size) (hs : g.settles ω p = false) :
    ∃ q, TransGen g.Mentions q p ∧ TransGen g.Mentions q q := by
  by_contra hnone
  have hsettles : (cascade (ω.stage 0) (2 * g.size) p g).1 = true :=
    cascade_settles_of_acyclic (fun q hqp hqq => hnone ⟨q, hqp, hqq⟩) hg
  rw [settles, hsettles] at hs
  cases hs

omit [Engine] in
theorem get?_eq_none_of_size (hg : g.size = 0) : g.get? p = none := by
  have hnil : g.entries = [] := List.length_eq_zero_iff.1 hg
  rw [Table.get?, hnil]
  rfl

/-- A cascade with nothing to go around ends within its bound, unless the sheet has no cell that it
could put a fault in. -/
theorem cascadeFrom_of_acyclic (hacyclic : ∀ q, ¬TransGen g.Mentions q q) (ω : Occasion)
    (p : Position) :
    (g.settles ω p = true ∨ g.get? p = none) ∧
      g.cascadeFrom ω p = (cascade (ω.stage 0) (2 * g.size) p g).2 := by
  rcases Nat.eq_zero_or_pos g.size with hg | hg
  · -- The bound is zero too, so that the cascade gives up at once.
    have hnone : g.get? p = none := get?_eq_none_of_size hg
    have hcascade : ∀ ω, cascade ω (2 * g.size) p g = (false, g) := fun ω => by rw [hg]; rfl
    refine ⟨.inr hnone, ?_⟩
    rw [cascadeFrom_of_false (by rw [hcascade]), hcascade]
    dsimp only
    rw [modify_of_none hnone, hcascade]
  · have hs : (cascade (ω.stage 0) (2 * g.size) p g).1 = true :=
      cascade_settles_of_acyclic (fun q _ => hacyclic q) hg
    exact ⟨.inl hs, cascadeFrom_of_true hs⟩

end

end Grid

namespace Document
open Grid

/-- An edit of a cell with the occasion of its cascade, the sheet that this starts from and the
document that it leaves: the cell is entered anew, or it is cleared. -/
inductive StartsCascade [Engine] (d : Document) (p : Position) :
    Occasion → Grid → Document → Prop
  | set (ω : Occasion) (input : List Char) :
      StartsCascade d p (ω.stage 1) (d.grid.enter (ω.stage 0) p input) (d.set ω p input)
  | clear (ω : Occasion) :
      d.grid.contains p = true → StartsCascade d p ω (d.grid.erase p) (d.clear ω p)

section
variable [Engine] {d e : Document} {ω : Occasion} {start : Grid} {p : Position}

theorem StartsCascade.mentions (h : d.StartsCascade p ω start e) :
    e.grid.Mentions = start.Mentions := by
  have hcascade := mentions_congr (formulaText?_cascadeFrom start ω p)
  cases h with
  | set ω input =>
    change (d.grid.commit ω p input).Mentions = _
    rw [commit_eq]
    split
    · rw [mentions_refresh, hcascade]
    · exact hcascade
  | clear _ hp =>
    rw [Document.clear, if_pos hp]
    exact hcascade

/-- Before its cascade an edited cell reports nothing but its reading of itself. -/
theorem StartsCascade.admitsCycle (h : d.StartsCascade p ω start e) : start.AdmitsCycle p := by
  cases h with
  | set ω input => exact admitsCycle_enter d.grid _ p input
  | clear =>
    intro c hc
    rw [Table.get?_erase, if_pos rfl] at hc
    cases hc

end

/-- If no formula reaches itself through the cells in the texts after an edit, the cascade of the
edit puts no fault into its origin: it comes to an end within its bound, or there is no origin any
more. Conversely a bound that is used up, on a sheet with cells, shows a cycle of such mentions
that can be reached from the origin. -/
theorem cascade_bound_suffices [Engine] {d e : Document} {ω : Occasion} {p : Position}
    {start : Grid}
    (hedit : d.StartsCascade p ω start e) :
    ((∀ q, ¬TransGen e.grid.Mentions q q) →
      (start.settles ω p = true ∨ start.get? p = none) ∧
      start.cascadeFrom ω p = (cascade (ω.stage 0) (2 * start.size) p start).2 ∧
      (start.cascadeFrom ω p).AdmitsCycle p) ∧
    (0 < start.size → start.settles ω p = false →
      ∃ q, TransGen e.grid.Mentions q p ∧ TransGen e.grid.Mentions q q) := by
  rw [hedit.mentions]
  refine ⟨fun hacyclic => ?_, exists_cycle_of_not_settles⟩
  obtain ⟨hs, he⟩ := cascadeFrom_of_acyclic hacyclic ω p
  refine ⟨hs, he, ?_⟩
  rw [he]
  exact hedit.admitsCycle.cascade _ _ p

section
open scoped StandardLibrary

/-- A cell that two formulas read, which a third one reads, is cleared, and its cascade settles.
Where a formula has a cell in its text that reads it, the bound of an entry is used up. -/
theorem cascade_bound_suffices_shared : ∃ d e f : Document,
    d.grid = Grid.refresh (Table.ofList [(⟨0, 0⟩, .formula "B1+C1".toList),
      (⟨0, 1⟩, .formula "D1".toList), (⟨0, 2⟩, .formula "D1".toList)]) .start ∧
    e = d.clear .start ⟨0, 3⟩ ∧ (Grid.settles (d.grid.erase ⟨0, 3⟩) .start ⟨0, 3⟩ = true ∨
      (d.grid.erase ⟨0, 3⟩).get? ⟨0, 3⟩ = none) ∧
    (Grid.cascadeFrom (d.grid.erase ⟨0, 3⟩) .start ⟨0, 3⟩).AdmitsCycle ⟨0, 3⟩ ∧
    f = new.set .start ⟨0, 1⟩ "=IIF(1,A1,C1)".toList ∧
    ∃ q, TransGen (f.set .start ⟨0, 2⟩ "=B1".toList).grid.Mentions q ⟨0, 2⟩ ∧
      TransGen (f.set .start ⟨0, 2⟩ "=B1".toList).grid.Mentions q q := by
  obtain ⟨g, hg⟩ : ∃ g : Grid, g = Grid.refresh (Table.ofList [(⟨0, 0⟩, .formula "B1+C1".toList),
      (⟨0, 1⟩, .formula "D1".toList), (⟨0, 2⟩, .formula "D1".toList)]) .start := ⟨_, rfl⟩
  obtain ⟨f, hf⟩ : ∃ f : Document, f = new.set .start ⟨0, 1⟩ "=IIF(1,A1,C1)".toList := ⟨_, rfl⟩
  have hcontains : g.contains ⟨0, 3⟩ = true := by
    rw [hg]
    decide +kernel
  have hrightward : (Document.clear { new with grid := g } .start ⟨0, 3⟩).grid.IsRightward := by
    rw [hg]
    decide +kernel
  have hpositive : 0 < (f.grid.enter (.stage .start 0) ⟨0, 2⟩ "=B1".toList).size := by
    rw [hf]
    decide +kernel
  have hexhausted :
      (f.grid.enter (.stage .start 0) ⟨0, 2⟩ "=B1".toList).settles (.stage .start 1) ⟨0, 2⟩ =
      false := by
    rw [hf]
    decide +kernel
  have hclear := (cascade_bound_suffices (d := { new with grid := g })
    (.clear .start hcontains)).1 hrightward.acyclic
  exact ⟨{ new with grid := g }, _, f, hg, rfl, hclear.1, hclear.2.2, hf,
    (cascade_bound_suffices (.set .start "=B1".toList)).2 hpositive hexhausted⟩

end

end Document

end Spreadsheet

import Spreadsheet.Document
import Spreadsheet.Proofs.Formula.Repetition
import Spreadsheet.Proofs.Position.Rectangle
import Spreadsheet.Proofs.Refresh.Pass

/-!
# A refresh forgets the past

Two passes are followed side by side. They start from sheets with the same
content and may hold different outcomes of the formulas that have not been
evaluated yet. No such outcome is ever read, so the passes ask for the same
cells, get the same answers and end with the same sheet.
-/
namespace Spreadsheet

/-- A cell as it is before its evaluation. -/
def Cell.unevaluated (c : Cell) : Cell :=
  if c.isFormula then c.resolved (.ok Value.blank) [] else c

/-- The cells with content are the same, except for what evaluations made of their formulas. -/
def Grid.SameContent (g h : Grid) : Prop :=
  ∀ p, (g.prune.get? p).map Cell.unevaluated = (h.prune.get? p).map Cell.unevaluated

namespace Cell

@[simp] theorem kind_unevaluated (c : Cell) : c.unevaluated.kind = c.kind := by
  unfold unevaluated
  split <;> rfl

@[simp] theorem raw_unevaluated (c : Cell) : c.unevaluated.raw = c.raw := by
  unfold unevaluated
  split <;> rfl

/-- An evaluation leaves nothing of the previous one. -/
theorem resolved_unevaluated (c : Cell) (outcome : Except Fault Value)
    (dependsOn : List Position) :
    c.unevaluated.resolved outcome dependsOn = c.resolved outcome dependsOn := by
  simp [resolved]

theorem unevaluated_of_isFormula {c d : Cell} (hk : d.kind = c.kind) (hr : d.raw = c.raw)
    (hc : c.isFormula = true) : d.unevaluated = c.unevaluated := by
  have hd : d.isFormula = true := by rw [isFormula, hk, ← isFormula, hc]
  simp [unevaluated, hc, hd, resolved, hk, hr]

theorem isFormula_of_unevaluated_eq {c d : Cell} (h : c.unevaluated = d.unevaluated) :
    c.isFormula = d.isFormula := by
  have hk : c.unevaluated.kind = d.unevaluated.kind := by rw [h]
  rw [kind_unevaluated, kind_unevaluated] at hk
  rw [isFormula, isFormula, hk]

theorem text_of_unevaluated_eq {c d : Cell} (h : c.unevaluated = d.unevaluated) :
    c.text = d.text := by
  have hr : c.unevaluated.raw = d.unevaluated.raw := by rw [h]
  rw [raw_unevaluated, raw_unevaluated] at hr
  rw [text, text, hr]

theorem eq_of_unevaluated_eq {c d : Cell} (h : c.unevaluated = d.unevaluated)
    (hc : c.isFormula = false) : c = d := by
  have hd : d.isFormula = false := by rw [← isFormula_of_unevaluated_eq h, hc]
  simpa [unevaluated, hc, hd] using h

end Cell

namespace RefreshPass
open Formula

/-- The passes have come equally far, and differ at most in formulas that are pending or in
progress. -/
structure Alike (trail : List Position) (s t : RefreshPass) : Prop where
  pending_eq : s.pending = t.pending
  settled : ∀ q, q ∉ s.pending → q ∉ trail → s.grid.get? q = t.grid.get? q
  content : ∀ q, (s.grid.get? q).map Cell.unevaluated = (t.grid.get? q).map Cell.unevaluated

section
variable {trail : List Position} {p : Position} {s t : RefreshPass}

theorem Alike.takeUp (h : Alike trail s t) (p : Position) :
    Alike (p :: trail) (s.takeUp p) (t.takeUp p) where
  pending_eq := by simp [RefreshPass.takeUp, h.pending_eq]
  settled q hq hqt := by
    have hne : q ≠ p := List.ne_of_not_mem_cons hqt
    exact h.settled q (fun hm => hq (mem_takeUp.2 ⟨hm, hne⟩)) (List.not_mem_of_not_mem_cons hqt)
  content := h.content

/-- Only pending formulas are taken up, so that an absent one leaves no trace on the trail. -/
theorem Alike.takeUp_of_none (h : Alike trail s t) (hn : s.grid.get? p = none) :
    Alike trail (s.takeUp p) (t.takeUp p) where
  pending_eq := by simp [RefreshPass.takeUp, h.pending_eq]
  settled q hq hqt := by
    by_cases he : q = p
    · have ht := h.content p
      rw [hn, Option.map_none, eq_comm, Option.map_eq_none_iff] at ht
      rw [grid_takeUp, grid_takeUp, he, hn, ht]
    · exact h.settled q (fun hm => hq (mem_takeUp.2 ⟨hm, he⟩)) hqt
  content := h.content

theorem Alike.store (h : Alike (p :: trail) s t) (r : Resolution) :
    Alike trail (s.store p r) (t.store p r) := by
  have hp : ((s.grid.get? p).map fun c => c.resolved r.outcome r.dependsOn) =
      (t.grid.get? p).map fun c => c.resolved r.outcome r.dependsOn := by
    have := congrArg (Option.map fun d : Cell => d.resolved r.outcome r.dependsOn) (h.content p)
    simpa only [Option.map_map, Function.comp_def, Cell.resolved_unevaluated] using this
  refine ⟨h.pending_eq, ?_, ?_⟩
  · intro q hq hqt
    rw [get?_store, get?_store]
    split
    · rename_i he
      rwa [← he]
    · rename_i hne
      exact h.settled q hq fun hm => (List.mem_cons.1 hm).elim (fun he => hne he.symm) hqt
  · intro q
    rw [get?_store, get?_store]
    split
    · rename_i he
      rw [← he, hp]
    · exact h.content q

/-- Reading a settled cell gives the same answer on both sides and keeps the passes alike. -/
theorem Alike.read (h : Alike trail s t) {q : Position} (hq : q ∉ s.pending) (hqt : q ∉ trail) :
    s.grid.reading q = t.grid.reading q ∧
      Alike trail ⟨(Grid.operand q s.grid).2, s.pending⟩
        ⟨(Grid.operand q t.grid).2, t.pending⟩ := by
  have hg := h.settled q hq hqt
  refine ⟨by rw [Grid.reading, Grid.reading, hg], ?_⟩
  cases ht : t.grid.get? q with
  | some c =>
    rw [Grid.operand_of_get? ht, Grid.operand_of_get? (hg.trans ht)]
    exact h
  | none =>
    simp only [Grid.operand, ht, hg.trans ht]
    refine ⟨h.pending_eq, ?_, ?_⟩
    · intro p hp hpt
      simp only [Table.get?_insert, h.settled p hp hpt]
    · intro p
      simp only [Table.get?_insert]
      split
      · rfl
      · exact h.content p

/-- No outcome from before the pass is read. -/
theorem Alike.evaluate [Engine] (ω : Occasion) {bound : Nat} (h : Alike trail s t)
    (hb : s.pending.length ≤ bound) (p : Position) :
    Alike trail (evaluate ω bound trail p s) (evaluate ω bound trail p t) := by
  induction bound generalizing trail p s t with
  | zero => exact h
  | succ bound ih =>
    by_cases hp : p ∈ s.pending
    · have hpt : p ∈ t.pending := h.pending_eq ▸ hp
      have hc := h.content p
      cases hs : s.grid.get? p with
      | none =>
        rw [hs, Option.map_none, eq_comm, Option.map_eq_none_iff] at hc
        rw [evaluate_of_none hp hs, evaluate_of_none hpt hc]
        exact h.takeUp_of_none hs
      | some c =>
        rw [hs, Option.map_some, eq_comm, Option.map_eq_some_iff] at hc
        obtain ⟨d, ht, hd⟩ := hc
        rw [evaluate_of_some hp hs, evaluate_of_some hpt ht, Cell.text_of_unevaluated_eq hd]
        have hlt := length_takeUp_lt hp
        -- The bound is carried along, as it is what keeps pending cells from being read.
        obtain ⟨hr, hrel, _⟩ := resolve_simulate
          (readAfter (RefreshPass.evaluate ω bound (p :: trail)) (p :: trail))
          (readAfter (RefreshPass.evaluate ω bound (p :: trail)) (p :: trail))
          (R := fun s t => Alike (p :: trail) s t ∧ s.pending.length ≤ bound)
          (fun q s t hst => by
            obtain ⟨hst, hb⟩ := hst
            by_cases hq : q ∈ p :: trail
            · rw [readAfter_of_mem hq, readAfter_of_mem hq]
              exact ⟨rfl, hst, hb⟩
            · rw [readAfter_of_not_mem hq, readAfter_of_not_mem hq]
              obtain ⟨ho, hg⟩ := (ih hst hb q).read (not_mem_pending_evaluate (p :: trail) q hb) hq
              exact ⟨ho, hg, Nat.le_trans (length_pending_evaluate_le ω bound (p :: trail) q s) hb⟩)
          (s := s.takeUp p) (u := t.takeUp p) ⟨h.takeUp p, by omega⟩ (ω.cell p) c.text p
        rw [hr]
        exact hrel.store _
    · rw [evaluate_of_not_mem hp, evaluate_of_not_mem (h.pending_eq ▸ hp)]
      exact h

theorem Alike.evaluateAll [Engine] (ω : Occasion) {bound : Nat} (h : Alike [] s t)
    (hb : s.pending.length ≤ bound) (ps : List Position) :
    Alike [] (s.evaluateAll ω bound ps) (t.evaluateAll ω bound ps) := by
  induction ps generalizing s t with
  | nil => exact h
  | cons p ps ih =>
    exact ih (h.evaluate ω hb p) (Nat.le_trans (length_pending_evaluate_le ω bound [] p s) hb)

end

/-! ## Passes on different occasions -/

section
variable [Engine] {bound : Nat} {trail : List Position} {p : Position} {s : RefreshPass}

omit [Engine] in
theorem formulaText?_store (s : RefreshPass) (p : Position) (r : Resolution) :
    (s.store p r).grid.formulaText? = s.grid.formulaText? :=
  Grid.formulaText?_modify fun _ => ⟨rfl, rfl⟩

/-- A pass changes no text. -/
theorem formulaText?_evaluate (ω : Occasion) (bound : Nat) (trail : List Position) (p : Position)
    (s : RefreshPass) : (evaluate ω bound trail p s).grid.formulaText? = s.grid.formulaText? := by
  induction bound generalizing trail p s with
  | zero => rfl
  | succ bound ih =>
    by_cases hp : p ∈ s.pending
    · cases hc : s.grid.get? p with
      | none => rw [evaluate_of_none hp hc, grid_takeUp]
      | some c =>
        rw [evaluate_of_some hp hc]
        obtain ⟨l, _, ha⟩ := exists_dialogue (ω.cell p) c.text p
          (readAfter (RefreshPass.evaluate ω bound (p :: trail)) (p :: trail)) (s.takeUp p)
        have hread : ∀ q s, (readAfter (RefreshPass.evaluate ω bound (p :: trail)) (p :: trail) q
            s).2.grid.formulaText? = s.grid.formulaText? := by
          intro q s
          by_cases hq : q ∈ p :: trail
          · rw [readAfter_of_mem hq]
          · rw [readAfter_of_not_mem hq]
            exact (Grid.operand_addsBlanks q _).formulaText?_eq.trans (ih (p :: trail) q s)
        have hl :=
            ha.related (R := fun s t : RefreshPass => t.grid.formulaText? = s.grid.formulaText?)
          (fun _ => rfl) (fun {s t u} h k => k.trans h) hread
        rw [formulaText?_store]
        exact hl
    · rw [evaluate_of_not_mem hp]

/-- The formulas that are still to be evaluated depend on no occasion. -/
def IsRepeatable (s : RefreshPass) : Prop :=
  ∀ q ∈ s.pending, ∃ cs, s.grid.formulaText? q = some cs ∧ Formula.IsRepeatable cs

theorem IsRepeatable.of_pending_subset {t : RefreshPass} (h : s.IsRepeatable)
    (hp : t.pending ⊆ s.pending) (ht : t.grid.formulaText? = s.grid.formulaText?) :
    t.IsRepeatable := by
  intro q hq
  rw [ht]
  exact h q (hp hq)

theorem IsRepeatable.takeUp (h : s.IsRepeatable) (p : Position) : (s.takeUp p).IsRepeatable :=
  h.of_pending_subset (later_takeUp s p).pending_subset rfl

theorem IsRepeatable.evaluate (h : s.IsRepeatable) (ω : Occasion) (bound : Nat)
    (trail : List Position) (p : Position) :
    (RefreshPass.evaluate ω bound trail p s).IsRepeatable :=
  h.of_pending_subset (later_evaluate ω bound trail p s).pending_subset
    (formulaText?_evaluate ω bound trail p s)

/-- Both passes go through the same states: each formula gives the same on either occasion. -/
theorem IsRepeatable.evaluate_eq (h : s.IsRepeatable) (ω ω' : Occasion) (bound : Nat)
    (trail : List Position) (p : Position) :
    RefreshPass.evaluate ω bound trail p s = RefreshPass.evaluate ω' bound trail p s := by
  induction bound generalizing trail p s with
  | zero => rfl
  | succ bound ih =>
    by_cases hp : p ∈ s.pending
    · cases hc : s.grid.get? p with
      | none => rw [evaluate_of_none hp hc, evaluate_of_none hp hc]
      | some c =>
        obtain ⟨cs, hcs, hrep⟩ := h p hp
        obtain ⟨d, hd, _, rfl⟩ := Grid.formulaText?_eq_some.1 hcs
        cases hc.symm.trans hd
        rw [evaluate_of_some hp hc, evaluate_of_some hp hc, hrep.resolve_eq (ω.cell p) (ω'.cell p)]
        obtain ⟨hr, hs, _⟩ := resolve_simulate
          (readAfter (RefreshPass.evaluate ω bound (p :: trail)) (p :: trail))
          (readAfter (RefreshPass.evaluate ω' bound (p :: trail)) (p :: trail))
          (R := fun s t => s = t ∧ s.IsRepeatable)
          (fun q s t hst => by
            obtain ⟨rfl, hs⟩ := hst
            by_cases hq : q ∈ p :: trail
            · rw [readAfter_of_mem hq, readAfter_of_mem hq]
              exact ⟨rfl, rfl, hs⟩
            · rw [readAfter_of_not_mem hq, readAfter_of_not_mem hq, ih hs]
              refine ⟨rfl, rfl, (hs.evaluate ω' bound (p :: trail) q).of_pending_subset ?_ ?_⟩
              · exact fun _ h => h
              · exact (Grid.operand_addsBlanks q _).formulaText?_eq)
          ⟨rfl, h.takeUp p⟩ (ω'.cell p) c.text p
        rw [hr, hs]
    · rw [evaluate_of_not_mem hp, evaluate_of_not_mem hp]

theorem IsRepeatable.evaluateAll_eq (h : s.IsRepeatable) (ω ω' : Occasion) (bound : Nat)
    (ps : List Position) : s.evaluateAll ω bound ps = s.evaluateAll ω' bound ps := by
  induction ps generalizing s with
  | nil => rfl
  | cons p ps ih =>
    change (RefreshPass.evaluate ω bound [] p s).evaluateAll ω bound ps =
      (RefreshPass.evaluate ω' bound [] p s).evaluateAll ω' bound ps
    rw [h.evaluate_eq ω ω' bound [] p]
    exact ih (h.evaluate ω' bound [] p)

end

end RefreshPass

namespace Grid
open RefreshPass

theorem formulas_prune_eq {g h : Grid} (hgh : g.SameContent h) :
    g.prune.formulas = h.prune.formulas := by
  have hmem : ∀ {g h : Grid}, g.SameContent h → ∀ p ∈ g.prune.formulas, p ∈ h.prune.formulas := by
    intro g h hgh p hp
    obtain ⟨c, hc, hf⟩ := mem_formulas.1 hp
    have hp := hgh p
    rw [hc, Option.map_some, eq_comm, Option.map_eq_some_iff] at hp
    obtain ⟨d, hd, he⟩ := hp
    exact mem_formulas.2 ⟨d, hd, by rw [Cell.isFormula_of_unevaluated_eq he, hf]⟩
  exact Position.eq_of_sorted (formulas_sorted _) (formulas_sorted _) fun p =>
    ⟨hmem hgh p, hmem (fun q => (hgh q).symm) p⟩

theorem alike_startRefresh {g h : Grid} (hgh : g.SameContent h) :
    Alike [] g.prune.startRefresh h.prune.startRefresh where
  pending_eq := formulas_prune_eq hgh
  settled q hq _ := by
    have hc := hgh q
    cases hg : g.prune.get? q with
    | none =>
      rw [hg, Option.map_none, eq_comm, Option.map_eq_none_iff] at hc
      exact hg.trans hc.symm
    | some c =>
      rw [hg, Option.map_some, eq_comm, Option.map_eq_some_iff] at hc
      obtain ⟨d, hd, he⟩ := hc
      have hf : c.isFormula = false := by
        rw [← Bool.not_eq_true]
        intro hf
        exact hq (mem_formulas.2 ⟨c, hg, hf⟩)
      rw [Cell.eq_of_unevaluated_eq he.symm hf] at hg
      exact hg.trans hd.symm
  content := hgh

theorem formulaText?_prune_of_some {g : Grid} {p : Position} {cs : List Char}
    (h : g.prune.formulaText? p = some cs) : g.formulaText? p = some cs := by
  obtain ⟨c, hc, hf, rfl⟩ := formulaText?_eq_some.1 h
  rw [get?_prune, Option.filter_eq_some_iff] at hc
  exact formulaText?_eq_some.2 ⟨c, hc.1, hf, rfl⟩

section
variable [Engine] {ω : Occasion}

/-- Sheets with the same content are the same after a refresh on the same occasion. -/
theorem refresh_congr {g h : Grid} (hgh : g.SameContent h) : g.refresh ω = h.refresh ω := by
  have hs := alike_startRefresh hgh
  have hend := hs.evaluateAll ω (Nat.le_refl _) g.prune.startRefresh.pending
  rw [refresh_eq, refresh_eq, ← hs.pending_eq]
  refine Table.ext_get? fun q => hend.settled q ?_ List.not_mem_nil
  intro hq
  exact not_mem_pending_evaluateAll (Nat.le_refl _) hq
    ((later_evaluateAll _ _ _ _).pending_subset hq)

/-- A refresh adds at most blank cells to what it starts from. -/
theorem sameContent_refresh (ω : Occasion) (g : Grid) : (g.refresh ω).SameContent g := by
  have hl := later_evaluateAll ω g.prune.startRefresh.pending.length g.prune.startRefresh.pending
    g.prune.startRefresh
  intro p
  rw [get?_prune, refresh_eq]
  cases hc : g.prune.get? p with
  | some c =>
    obtain ⟨d, hd, hk, hr⟩ := hl.content p c hc
    have hdc : d.unevaluated = c.unevaluated := by
      by_cases hf : c.isFormula = true
      · exact Cell.unevaluated_of_isFormula hk hr hf
      · rw [hl.get?_eq_some (not_mem_formulas hc (Bool.eq_false_iff.2 hf)) hc] at hd
        cases hd
        rfl
    rw [get?_prune, Option.filter_eq_some_iff] at hc
    have hne : (!d.isEmpty) = true := by rw [Cell.isEmpty, hr, ← Cell.isEmpty, hc.2]
    simp [hd, Option.filter, hne, hdc]
  | none =>
    have hp : p ∉ g.prune.formulas := by
      intro hp
      obtain ⟨c, hc', _⟩ := mem_formulas.1 hp
      rw [hc] at hc'
      cases hc'
    rcases hl.settled p hp with hd | ⟨_, hd⟩
    · rw [hd]
      simp [startRefresh, hc]
    · rw [hd]
      rfl

/-- Where no formula with content depends on the occasion, neither does a refresh. -/
theorem refresh_onOccasion {g : Grid} (h : g.prune.IsRepeatable) (ω ω' : Occasion) :
    g.refresh ω = g.refresh ω' := by
  have hs : g.prune.startRefresh.IsRepeatable := by
    intro q hq
    obtain ⟨c, hc, hf⟩ := mem_formulas.1 hq
    have hcs := formulaText?_eq_some.2 ⟨c, hc, hf, rfl⟩
    exact ⟨c.text, hcs, h q c.text hcs⟩
  rw [refresh_eq, refresh_eq, hs.evaluateAll_eq ω ω']

theorem IsRepeatable.prune {g : Grid} (h : g.IsRepeatable) : g.prune.IsRepeatable :=
  fun q cs hcs => h q cs (formulaText?_prune_of_some hcs)

theorem IsRepeatable.refresh_eq {g : Grid} (h : g.IsRepeatable) (ω ω' : Occasion) :
    g.refresh ω = g.refresh ω' := refresh_onOccasion h.prune ω ω'

end

end Grid

namespace Document

/-- Where no formula depends on the occasion, a refresh depends on nothing but the content of the
sheet, and so a second one changes nothing. -/
theorem refresh_forgets_history [Engine] (d : Document) (hd : d.grid.IsRepeatable)
    (ω ω' : Occasion) :
    (∀ e : Document, d.grid.SameContent e.grid → (d.refresh ω).grid = (e.refresh ω').grid) ∧
      (d.refresh ω).refresh ω' = d.refresh ω := by
  refine ⟨fun e h => (hd.refresh_eq ω ω').trans (Grid.refresh_congr h), ?_⟩
  have h : (d.grid.refresh ω).refresh ω' = d.grid.refresh ω :=
    (Grid.refresh_congr (Grid.sameContent_refresh _ d.grid)).trans (hd.refresh_eq ω' ω)
  exact congrArg (fun g => { d with grid := g }) h

section
open scoped StandardLibrary

/-- A stale outcome with its record and a blank cell, against the formula as it is entered. -/
theorem refresh_forgets_stale_outcome : ∃ d e : Document,
    d.grid = (Table.empty.insert ⟨4, 4⟩ Cell.blank).insert ⟨0, 0⟩
      ((Cell.formula "B1".toList).resolved (.ok (.text "old")) [⟨4, 4⟩]) ∧
    e.grid = Table.empty.insert ⟨0, 0⟩ (Cell.formula "B1".toList) ∧
    (d.refresh .start).grid = (e.refresh (.stage .start 1)).grid := by
  obtain ⟨d, hd⟩ : ∃ d : Document, d.grid = (Table.empty.insert ⟨4, 4⟩ Cell.blank).insert ⟨0, 0⟩
    ((Cell.formula "B1".toList).resolved (.ok (.text "old")) [⟨4, 4⟩]) :=
    ⟨{ new with grid := _ }, rfl⟩
  obtain ⟨e, he⟩ : ∃ e : Document, e.grid = Table.empty.insert ⟨0, 0⟩ (Cell.formula "B1".toList) :=
    ⟨{ new with grid := _ }, rfl⟩
  have hrepeatable : d.grid.IsRepeatable := by
    refine StandardLibrary.sheet_isRepeatable ?_
    rw [hd]
    decide +kernel
  refine ⟨d, e, hd, he, (refresh_forgets_history d hrepeatable _ _).1 e fun p => ?_⟩
  rw [hd, he, Grid.get?_prune, Grid.get?_prune, Table.get?_insert, Table.get?_insert,
    Table.get?_insert]
  split
  · rfl
  · split <;> rfl

end

end Document

end Spreadsheet

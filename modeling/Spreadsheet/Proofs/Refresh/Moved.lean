import Mathlib.Data.Option.Basic
import Spreadsheet.Document
import Spreadsheet.Proofs.Formula.Moved
import Spreadsheet.Proofs.Refresh.Pass

/-!
# A refresh of moved cells

Two sheets go side by side if the one holds at each place, after its move, a cell
of the same kind and with the same outcome as the other does at the place, and
the formulas follow their cells. A refresh evaluates the formulas of both in the
same order, each with the same cells in progress, and keeps them side by side.
-/
namespace Spreadsheet
open Formula

variable [Engine]

/-- A cell that has the kind and the outcome of another one; the text of a formula follows the
cells. -/
structure Cell.Follows (move : Position → Position) (c c' : Cell) : Prop where
  kind : c'.kind = c.kind
  outcome : SameOutcome c.outcome c'.outcome
  text : c.isFormula = true → Formula.Follows move c.text c'.text

/-- A sheet that holds the cells of another one where they have moved. -/
def Grid.Follows (move : Position → Position) (g g' : Grid) : Prop :=
  ∀ q, Option.Rel (Cell.Follows move) (g.get? q) (g'.get? (move q))

section
variable {move : Position → Position} {c c' : Cell} {g g' : Grid} {p q : Position}

theorem Cell.Follows.isFormula (h : c.Follows move c') : c'.isFormula = c.isFormula := by
  rw [Cell.isFormula, Cell.isFormula, h.kind]

theorem Cell.Follows.resolved (h : c.Follows move c') {x x' : Except Fault Value}
    (hx : SameOutcome x x') (l l' : List Position) :
    (c.resolved x l).Follows move (c'.resolved x' l') :=
  ⟨h.kind, hx, h.text⟩

theorem Cell.follows_blank : Cell.blank.Follows move Cell.blank :=
  ⟨rfl, .refl _, fun h => nomatch h⟩

theorem Cell.Follows.operand (h : c.Follows move c') (q : Position) :
    SameOutcome (c.operand q) (c'.operand (move q)) := by
  have houtcome := h.outcome
  rw [Cell.operand, Cell.operand, h.kind]
  generalize c.outcome = x at houtcome ⊢
  generalize c'.outcome = x' at houtcome ⊢
  cases houtcome with
  | fault hkind => exact .fault rfl
  | value v => cases c.kind <;> first | exact .value _ | exact .fault rfl

variable (hmove : Function.Injective move)
include hmove

theorem Grid.Follows.operand (h : g.Follows move g') (q : Position) :
    SameOutcome (Grid.operand q g).1 (Grid.operand (move q) g').1 ∧
      (Grid.operand q g).2.Follows move (Grid.operand (move q) g').2 := by
  have hq := h q
  rw [Grid.operand, Grid.operand]
  generalize hx : g.get? q = x at hq
  generalize hx' : g'.get? (move q) = x' at hq
  cases hq with
  | some hcell => exact ⟨hcell.operand q, h⟩
  | none =>
    refine ⟨.value _, fun p => ?_⟩
    rw [Table.get?_insert, Table.get?_insert]
    by_cases hp : q = p
    · rw [if_pos hp, if_pos (congrArg move hp)]
      exact .some Cell.follows_blank
    · rw [if_neg hp, if_neg fun he => hp (hmove he)]
      exact h p

theorem Grid.Follows.modify (h : g.Follows move g') {f f' : Cell → Cell}
    (hf : ∀ c c', c.Follows move c' → (f c).Follows move (f' c')) (p : Position) :
    (g.modify p f).Follows move (g'.modify (move p) f') := by
  intro q
  rw [Grid.get?_modify, Grid.get?_modify]
  by_cases hp : p = q
  · have hq := h q
    rw [if_pos hp, if_pos (congrArg move hp)]
    generalize g.get? q = x at hq ⊢
    generalize g'.get? (move q) = x' at hq ⊢
    cases hq with
    | none => exact .none
    | some hcell => exact .some (hf _ _ hcell)
  · rw [if_neg hp, if_neg fun he => hp (hmove he)]
    exact h q

end

/-! ## Two passes side by side -/

namespace RefreshPass

/-- The pending cells are formulas. -/
def PendingFormulas (s : RefreshPass) : Prop :=
  ∀ p ∈ s.pending, ∃ c, s.grid.get? p = some c ∧ c.isFormula = true

omit [Engine] in
theorem PendingFormulas.later {s t : RefreshPass} (h : s.PendingFormulas) (k : Later s t) :
    t.PendingFormulas := by
  intro p hp
  obtain ⟨c, hc, hf⟩ := h p (k.pending_subset hp)
  obtain ⟨d, hd, hkind, -⟩ := k.content p c hc
  exact ⟨d, hd, by rwa [Cell.isFormula, hkind]⟩

/-- Passes over two sheets of which one follows the other, with the same formulas pending. -/
structure Follows (move : Position → Position) (s s' : RefreshPass) : Prop where
  pending : s'.pending = s.pending.map move
  grid : s.grid.Follows move s'.grid
  formulas : s.PendingFormulas

section
variable {move : Position → Position} (hmove : Function.Injective move) (ω ω' : Occasion)
  {s s' : RefreshPass}
include hmove

theorem Follows.mem_pending (h : s.Follows move s') (p : Position) :
    move p ∈ s'.pending ↔ p ∈ s.pending := by
  rw [h.pending, List.mem_map_of_injective hmove]

theorem Follows.takeUp (h : s.Follows move s') (p : Position) :
    (s.takeUp p).Follows move (s'.takeUp (move p)) := by
  refine ⟨?_, h.grid, h.formulas.later (later_takeUp s p)⟩
  have hne : ∀ q ∈ s.pending, ((fun q => q != move p) ∘ move) q = (q != p) := by
    intro q _
    simp [hmove.eq_iff, bne]
  rw [RefreshPass.takeUp, RefreshPass.takeUp, h.pending, List.filter_map, List.filter_congr hne]

theorem Follows.readAfter {evaluate evaluate' : Position → RefreshPass → RefreshPass}
    (hlater : ∀ q s, Later s (evaluate q s))
    (hevaluate : ∀ q s s', s.Follows move s' → (evaluate q s).Follows move (evaluate' (move q) s'))
    (trail : List Position) (q : Position) (h : s.Follows move s') :
    SameOutcome (RefreshPass.readAfter evaluate trail q s).1
        (RefreshPass.readAfter evaluate' (trail.map move) (move q) s').1 ∧
      (RefreshPass.readAfter evaluate trail q s).2.Follows move
        (RefreshPass.readAfter evaluate' (trail.map move) (move q) s').2 := by
  have hformulas := h.formulas.later (later_readAfter hlater trail q s)
  by_cases hq : q ∈ trail
  · rw [readAfter_of_mem hq, readAfter_of_mem (List.mem_map_of_mem hq)]
    exact ⟨.fault rfl, h⟩
  · have hq' : move q ∉ trail.map move := fun hm => hq ((List.mem_map_of_injective hmove).1 hm)
    rw [readAfter_of_not_mem hq] at hformulas ⊢
    rw [readAfter_of_not_mem hq']
    have hnext := hevaluate q s s' h
    have hread := hnext.grid.operand hmove q
    rw [Grid.operand_fst, Grid.operand_fst] at hread
    exact ⟨hread.1, hnext.pending, hread.2, hformulas⟩

theorem Follows.evaluate (bound : Nat) (trail : List Position) (p : Position)
    (h : s.Follows move s') : (RefreshPass.evaluate ω bound trail p s).Follows move
      (RefreshPass.evaluate ω' bound (trail.map move) (move p) s') := by
  induction bound generalizing trail p s s' with
  | zero => exact h
  | succ bound ih =>
    have hformulas := h.formulas.later (later_evaluate ω (bound + 1) trail p s)
    by_cases hp : p ∈ s.pending
    · have hp' := (h.mem_pending hmove p).2 hp
      obtain ⟨c, hc, hf⟩ := h.formulas p hp
      have hcell := h.grid p
      rw [hc] at hcell
      generalize hc' : s'.grid.get? (move p) = x at hcell
      cases hcell with
      | @some _ c' hcell =>
        rw [evaluate_of_some hp hc] at hformulas ⊢
        rw [evaluate_of_some hp' hc']
        obtain ⟨houtcome, hnext⟩ := resolve_follows hmove
          (fun q s s' h => Follows.readAfter hmove (later_evaluate ω bound (p :: trail))
            (fun q s s' h => ih (p :: trail) q h) (p :: trail) q h)
          (hcell.text hf) (ω.cell p) (ω'.cell (move p)) p (h.takeUp hmove p)
        exact ⟨hnext.pending,
          hnext.grid.modify hmove (fun _ _ hcell => hcell.resolved houtcome _ _) p, hformulas⟩
    · rw [evaluate_of_not_mem hp, evaluate_of_not_mem fun hp' => hp ((h.mem_pending hmove p).1 hp')]
      exact h

theorem Follows.evaluateAll (bound : Nat) (ps : List Position) (h : s.Follows move s') :
    (s.evaluateAll ω bound ps).Follows move (s'.evaluateAll ω' bound (ps.map move)) := by
  induction ps generalizing s s' with
  | nil => exact h
  | cons p ps ih => exact ih (h.evaluate hmove ω ω' bound [] p)

end

end RefreshPass

namespace Grid

omit [Engine] in
theorem pendingFormulas_startRefresh (g : Grid) : g.startRefresh.PendingFormulas :=
  fun _ hp => mem_formulas.1 hp

/-- Side by side with the same formulas, two sheets are still so after a refresh of each. -/
theorem Follows.refresh {move : Position → Position} (hmove : Function.Injective move)
    {g g' : Grid} (h : g.prune.Follows move g'.prune)
    (hformulas : g'.prune.formulas = g.prune.formulas.map move) (ω ω' : Occasion) :
    (g.refresh ω).Follows move (g'.refresh ω') := by
  have hstart : g.prune.startRefresh.Follows move g'.prune.startRefresh :=
    ⟨hformulas, h, pendingFormulas_startRefresh _⟩
  rw [refresh_eq, refresh_eq, hstart.pending, List.length_map]
  exact (hstart.evaluateAll hmove ω ω' _ _).grid

end Grid
end Spreadsheet

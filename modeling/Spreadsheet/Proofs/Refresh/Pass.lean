import Spreadsheet.Proofs.Reading
import Spreadsheet.Refresh

/-!
# What a refresh pass changes

Only the outcomes of pending formulas change in a pass. All other cells stay as
they are, and the places that are read get blank cells where there were none.
-/
namespace Spreadsheet

namespace RefreshPass
open Formula

/-- The second pass goes on from the first. -/
structure Later (s t : RefreshPass) : Prop where
  pending_sublist : t.pending.Sublist s.pending
  settled : ∀ q, q ∉ s.pending → Grid.Keeps (s.grid.get? q) (t.grid.get? q)
  content : ∀ q c, s.grid.get? q = some c →
    ∃ d, t.grid.get? q = some d ∧ d.kind = c.kind ∧ d.raw = c.raw

theorem Later.pending_subset {s t : RefreshPass} (h : Later s t) : t.pending ⊆ s.pending :=
  h.pending_sublist.subset

theorem Later.length_pending_le {s t : RefreshPass} (h : Later s t) :
    t.pending.length ≤ s.pending.length :=
  h.pending_sublist.length_le

theorem Later.refl (s : RefreshPass) : Later s s :=
  ⟨List.Sublist.refl _, fun _ _ => .inl rfl, fun _ c h => ⟨c, h, rfl, rfl⟩⟩

theorem Later.trans {s t u : RefreshPass} (h : Later s t) (k : Later t u) : Later s u where
  pending_sublist := k.pending_sublist.trans h.pending_sublist
  settled q hq := by
    have hqt : q ∉ t.pending := fun hm => hq (h.pending_subset hm)
    exact (h.settled q hq).trans (k.settled q hqt)
  content q c hc := by
    obtain ⟨d, hd, hk, hr⟩ := h.content q c hc
    obtain ⟨e, he, hk', hr'⟩ := k.content q d hd
    exact ⟨e, he, hk'.trans hk, hr'.trans hr⟩

/-- A cell that is not pending stays as it is. -/
theorem Later.get?_eq_some {s t : RefreshPass} (h : Later s t) {q : Position} {c : Cell}
    (hq : q ∉ s.pending) (hc : s.grid.get? q = some c) : t.grid.get? q = some c :=
  (h.settled q hq).eq_some hc

theorem mem_takeUp {s : RefreshPass} {p q : Position} :
    q ∈ (s.takeUp p).pending ↔ q ∈ s.pending ∧ q ≠ p := by
  simp [takeUp]

@[simp] theorem grid_takeUp (s : RefreshPass) (p : Position) : (s.takeUp p).grid = s.grid := rfl

theorem length_takeUp_lt {s : RefreshPass} {p : Position} (h : p ∈ s.pending) :
    (s.takeUp p).pending.length < s.pending.length :=
  List.length_filter_lt_length_iff_exists.2 ⟨p, h, by simp⟩

@[simp] theorem pending_store (s : RefreshPass) (p : Position) (r : Resolution) :
    (s.store p r).pending = s.pending := rfl

theorem get?_store (s : RefreshPass) (p q : Position) (r : Resolution) :
    (s.store p r).grid.get? q =
      if p = q then (s.grid.get? q).map fun c => c.resolved r.outcome r.dependsOn
      else s.grid.get? q :=
  Grid.get?_modify s.grid p q _

theorem later_takeUp (s : RefreshPass) (p : Position) : Later s (s.takeUp p) where
  pending_sublist := List.filter_sublist
  settled _ _ := .inl rfl
  content _ c hc := ⟨c, hc, rfl, rfl⟩

/-- Storing an outcome changes a cell that was pending. -/
theorem Later.store {s t : RefreshPass} (h : Later s t) {p : Position} (hp : p ∈ s.pending)
    (r : Resolution) : Later s (t.store p r) where
  pending_sublist := h.pending_sublist
  settled q hq := by
    have hne : p ≠ q := fun he => hq (he ▸ hp)
    rw [get?_store, if_neg hne]
    exact h.settled q hq
  content q c hc := by
    obtain ⟨d, hd, hk, hr⟩ := h.content q c hc
    rw [get?_store, hd]
    split
    · exact ⟨_, rfl, hk, hr⟩
    · exact ⟨d, rfl, hk, hr⟩

theorem later_addsBlanks {s : RefreshPass} {g : Grid} (h : Grid.AddsBlanks s.grid g) :
    Later s ⟨g, s.pending⟩ where
  pending_sublist := List.Sublist.refl _
  settled q _ := h q
  content _ c hc := ⟨c, h.get?_eq_some hc, rfl, rfl⟩

theorem readAfter_of_mem {evaluate : Position → RefreshPass → RefreshPass}
    {trail : List Position} {q : Position} (h : q ∈ trail) (s : RefreshPass) :
    readAfter evaluate trail q s = (.error (.cycle (closeCycle q trail)), s) := if_pos h

theorem readAfter_of_not_mem {evaluate : Position → RefreshPass → RefreshPass}
    {trail : List Position} {q : Position} (h : q ∉ trail) (s : RefreshPass) :
    readAfter evaluate trail q s =
      ((evaluate q s).grid.reading q,
        ⟨(Grid.operand q (evaluate q s).grid).2, (evaluate q s).pending⟩) := by
  rw [← Grid.operand_fst]
  exact if_neg h

theorem later_readAfter {evaluate : Position → RefreshPass → RefreshPass}
    (h : ∀ q s, Later s (evaluate q s)) (trail : List Position) (q : Position)
    (s : RefreshPass) : Later s (readAfter evaluate trail q s).2 := by
  by_cases hq : q ∈ trail
  · rw [readAfter_of_mem hq]
    exact .refl s
  · rw [readAfter_of_not_mem hq]
    exact (h q s).trans (later_addsBlanks (Grid.operand_addsBlanks q _))

/-! ## One evaluation -/

section
variable [Engine] {ω : Occasion} {bound : Nat} {trail : List Position} {p : Position}
    {s : RefreshPass}

theorem evaluate_of_not_mem (h : p ∉ s.pending) : evaluate ω bound trail p s = s := by
  cases bound with
  | zero => rfl
  | succ bound => rw [evaluate, if_neg h]

theorem evaluate_of_none (h : p ∈ s.pending) (hn : s.grid.get? p = none) :
    evaluate ω (bound + 1) trail p s = s.takeUp p := by
  rw [evaluate, if_pos h, hn]

theorem evaluate_of_some (h : p ∈ s.pending) {c : Cell} (hc : s.grid.get? p = some c) :
    evaluate ω (bound + 1) trail p s =
      (resolve (ω.cell p) c.text p (readAfter (evaluate ω bound (p :: trail)) (p :: trail))
        (s.takeUp p)).2.store
        p (resolve (ω.cell p) c.text p (readAfter (evaluate ω bound (p :: trail)) (p :: trail))
          (s.takeUp p)).1 := by
  rw [evaluate, if_pos h, hc]

theorem later_evaluate ω (bound : Nat) (trail : List Position) (p : Position) (s : RefreshPass) :
    Later s (evaluate ω bound trail p s) := by
  induction bound generalizing trail p s with
  | zero => exact .refl s
  | succ bound ih =>
    by_cases hp : p ∈ s.pending
    · cases hc : s.grid.get? p with
      | none =>
        rw [evaluate_of_none hp hc]
        exact later_takeUp s p
      | some c =>
        rw [evaluate_of_some hp hc]
        obtain ⟨l, _, ha⟩ := exists_dialogue (ω.cell p) c.text p
          (readAfter (evaluate ω bound (p :: trail)) (p :: trail)) (s.takeUp p)
        have hl := ha.related Later.refl Later.trans
          (later_readAfter (ih (p :: trail)) (p :: trail))
        exact ((later_takeUp s p).trans hl).store hp _
    · rw [evaluate_of_not_mem hp]
      exact .refl s

/-- A formula is not pending any more once it has been evaluated. -/
theorem not_mem_pending_evaluate (trail : List Position) (p : Position)
    (h : s.pending.length ≤ bound) : p ∉ (evaluate ω bound trail p s).pending := by
  by_cases hp : p ∈ s.pending
  · have hpos : 0 < s.pending.length := List.length_pos_of_mem hp
    obtain ⟨bound, rfl⟩ : ∃ n, bound = n + 1 := ⟨bound - 1, by omega⟩
    cases hc : s.grid.get? p with
    | none =>
      rw [evaluate_of_none hp hc, mem_takeUp]
      exact fun hm => hm.2 rfl
    | some c =>
      rw [evaluate_of_some hp hc, pending_store]
      intro hm
      obtain ⟨l, _, ha⟩ := exists_dialogue (ω.cell p) c.text p
        (readAfter (evaluate ω bound (p :: trail)) (p :: trail)) (s.takeUp p)
      have hl := ha.related Later.refl Later.trans
        (later_readAfter (later_evaluate ω bound (p :: trail)) (p :: trail))
      exact (mem_takeUp.1 (hl.pending_subset hm)).2 rfl
  · rwa [evaluate_of_not_mem hp]

theorem length_pending_evaluate_le (ω : Occasion) (bound : Nat) (trail : List Position)
    (p : Position)
    (s : RefreshPass) : (evaluate ω bound trail p s).pending.length ≤ s.pending.length :=
  (later_evaluate ω bound trail p s).length_pending_le

end

/-! ## The whole pass -/

section
variable [Engine] {ω : Occasion}

/-- Evaluates formulas one after the other. -/
def evaluateAll (ω : Occasion) (bound : Nat) (ps : List Position) (s : RefreshPass) : RefreshPass :=
  ps.foldl (fun s p => evaluate ω bound [] p s) s

theorem later_evaluateAll (ω : Occasion) (bound : Nat) (ps : List Position) (s : RefreshPass) :
    Later s (s.evaluateAll ω bound ps) := by
  induction ps generalizing s with
  | nil => exact .refl s
  | cons p ps ih => exact (later_evaluate ω bound [] p s).trans (ih _)

theorem not_mem_pending_evaluateAll {bound : Nat} {ps : List Position} {s : RefreshPass}
    (h : s.pending.length ≤ bound) {q : Position} (hq : q ∈ (s.evaluateAll ω bound ps).pending) :
    q ∉ ps := by
  induction ps generalizing s with
  | nil => exact List.not_mem_nil
  | cons p ps ih =>
    intro hm
    rcases List.mem_cons.1 hm with rfl | hm
    · exact not_mem_pending_evaluate [] q h ((later_evaluateAll ω bound ps _).pending_subset hq)
    · exact ih (Nat.le_trans (length_pending_evaluate_le ω bound [] p s) h) hq hm

end

end RefreshPass

namespace Grid

variable [Engine] {ω : Occasion}

theorem refresh_eq (g : Grid) (ω : Occasion) : g.refresh ω =
    (g.prune.startRefresh.evaluateAll ω g.prune.startRefresh.pending.length
      g.prune.startRefresh.pending).grid := rfl

/-- A cell with content keeps its kind and its text. -/
theorem exists_get?_refresh (ω : Occasion) {g : Grid} {p : Position} {c : Cell}
    (hc : g.prune.get? p = some c) :
    ∃ d, (g.refresh ω).get? p = some d ∧ d.kind = c.kind ∧ d.raw = c.raw :=
  (RefreshPass.later_evaluateAll _ _ _ _).content p c hc

/-- A cell of the refreshed sheet had its content before, or it is a blank one that was read. -/
theorem get?_prune_of_refresh {g : Grid} {p : Position} {c : Cell}
    (hc : (g.refresh ω).get? p = some c) :
    c = Cell.blank ∨ ∃ b, g.prune.get? p = some b ∧ c.kind = b.kind ∧ c.raw = b.raw := by
  cases hb : g.prune.get? p with
  | some b =>
    obtain ⟨d, hd, hk, hr⟩ := exists_get?_refresh ω hb
    cases hc.symm.trans hd
    exact .inr ⟨b, rfl, hk, hr⟩
  | none =>
    have hp : p ∉ g.prune.formulas := fun hp => by
      obtain ⟨b, hb', _⟩ := mem_formulas.1 hp
      cases hb.symm.trans hb'
    rcases (RefreshPass.later_evaluateAll ω g.prune.startRefresh.pending.length
      g.prune.startRefresh.pending g.prune.startRefresh).settled p hp with hkeep | ⟨_, hblank⟩
    · cases (hc.symm.trans hkeep).trans hb
    · exact .inl (Option.some.inj (hc.symm.trans hblank))

end Grid

end Spreadsheet

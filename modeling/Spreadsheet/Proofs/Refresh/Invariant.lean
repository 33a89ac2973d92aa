import Spreadsheet.Proofs.Refresh.Chronicle

/-!
# The invariant of a refresh pass

Every formula is pending, in progress or visited, and it is visited once. What
is stored for a visited formula is what its text gives when the cells that were
in progress around it answer with a cycle and all others as the sheet holds
them, formulas among them having been visited before. A formula waits for
another only while it reads it.
-/
namespace Spreadsheet
open Formula

/-- How a cell answers a formula that has its own cell in front of its trail. -/
def Grid.Justifies (g : Grid) (older : List Visit) (trail : List Position) (x : Reading) : Prop :=
  x.cell ∈ trail ∧ x.answer = .error (.cycle (closeCycle x.cell trail)) ∨
  x.cell ∉ trail ∧ ∃ c, g.get? x.cell = some c ∧ x.answer = c.operand x.cell ∧
    (c.isFormula = true → x.cell ∈ older.map Visit.cell)

section
variable [Engine] (ω : Occasion)

/-- The formula of a visit holds what comes of readings that the sheet justifies. -/
def Visit.HoldsIn (v : Visit) (g : Grid) (older : List Visit) : Prop :=
  v.cell ∉ v.trail ∧ ∃ c l, g.get? v.cell = some c ∧ c.isFormula = true ∧
    TextDialogue (ω.cell v.cell) c.text v.cell l ⟨c.outcome, c.dependsOn⟩ ∧
    ∀ x ∈ l, g.Justifies older (v.cell :: v.trail) x

def Grid.Accounts (g : Grid) : List Visit → Prop
  | [] => True
  | v :: older => v.HoldsIn ω g older ∧ Grid.Accounts g older

end

/-- The formula that waited for the visited one has been visited too and has read it. -/
def Visit.HasParent (v : Visit) (g : Grid) (visits : List Visit) : Prop :=
  ∀ t trail, v.trail = t :: trail →
    ⟨t, trail⟩ ∈ visits ∧ ∃ c, g.get? t = some c ∧ v.cell ∈ c.dependsOn

theorem Grid.Justifies.mono {g h : Grid} {older newer : List Visit} {trail : List Position}
    {x : Reading} (hx : g.Justifies older trail x)
    (hv : ∀ p ∈ older.map Visit.cell, p ∈ newer.map Visit.cell)
    (hg : ∀ q c, q ∉ trail → g.get? q = some c →
      (c.isFormula = true → q ∈ older.map Visit.cell) → h.get? q = some c) :
    h.Justifies newer trail x := by
  rcases hx with hx | ⟨hq, c, hc, hx, hf⟩
  · exact .inl hx
  · exact .inr ⟨hq, c, hg _ c hq hc hf, hx, fun h => hv _ (hf h)⟩

/-- An account stays true as long as the settled cells stay. -/
theorem Grid.Accounts.mono [Engine] {ω : Occasion} {g h : Grid} {visits : List Visit}
    (ha : g.Accounts ω visits)
    (hg : ∀ q c, g.get? q = some c → (c.isFormula = true → q ∈ visits.map Visit.cell) →
      h.get? q = some c) : h.Accounts ω visits := by
  induction visits with
  | nil => trivial
  | cons v older ih =>
    obtain ⟨⟨hv, c, l, hc, hf, hl, hx⟩, ha⟩ := ha
    have hold : ∀ q c, g.get? q = some c →
        (c.isFormula = true → q ∈ older.map Visit.cell) → h.get? q = some c :=
      fun q d hd hm => hg q d hd fun hf => List.mem_cons_of_mem _ (hm hf)
    refine ⟨⟨hv, c, l, hg _ c hc fun _ => List.mem_cons_self, hf, hl, ?_⟩, ih ha hold⟩
    intro x hxl
    exact (hx x hxl).mono (fun _ hp => hp) fun q d _ => hold q d

namespace Chronicle

structure Sound [Engine] (ω : Occasion) (trail : List Position) (s : Chronicle) : Prop where
  formula_iff : ∀ p, p ∈ s.pass.grid.formulas ↔ p ∈ s.pass.pending ∨ p ∈ trail ∨ p ∈ s.visited
  pending_fresh : ∀ p ∈ s.pass.pending, p ∉ trail ∧ p ∉ s.visited
  trail_fresh : ∀ p ∈ trail, p ∉ s.visited
  nodup : s.visited.Nodup
  accounts : s.pass.grid.Accounts ω s.visits

/-- The later chronicle goes on from the earlier one. -/
structure Extends (s t : Chronicle) : Prop where
  later : s.pass.Later t.pass
  visits_subset : s.visits ⊆ t.visits

theorem Extends.refl (s : Chronicle) : Extends s s := ⟨.refl _, fun _ h => h⟩

theorem Extends.trans {s t u : Chronicle} (h : Extends s t) (k : Extends t u) : Extends s u :=
  ⟨h.later.trans k.later, fun _ hv => k.visits_subset (h.visits_subset hv)⟩

theorem Extends.visited_subset {s t : Chronicle} (h : Extends s t) : s.visited ⊆ t.visited :=
  List.map_subset _ h.visits_subset

section
variable [Engine] {ω : Occasion} {bound : Nat} {trail : List Position} {p q : Position}
    {s t : Chronicle} {c : Cell}

/-- A cell without a formula is not pending, and neither is a visited one. -/
theorem Sound.not_mem_pending (hs : Sound ω trail s) (hc : s.pass.grid.get? q = some c)
    (hf : c.isFormula = true → q ∈ s.visited) : q ∉ s.pass.pending := by
  intro hq
  by_cases hfc : c.isFormula = true
  · exact (hs.pending_fresh q hq).2 (hf hfc)
  · exact Grid.not_mem_formulas hc (Bool.eq_false_iff.2 hfc) ((hs.formula_iff q).2 (.inl hq))

theorem Sound.get?_of_extends (hs : Sound ω trail s) (h : Extends s t)
    (hc : s.pass.grid.get? q = some c) (hf : c.isFormula = true → q ∈ s.visited) :
    t.pass.grid.get? q = some c :=
  h.later.get?_eq_some (hs.not_mem_pending hc hf) hc

theorem Sound.justifies_of_extends (hs : Sound ω trail s) (h : Extends s t) {x : Reading}
    (hx : s.pass.grid.Justifies s.visits trail x) : t.pass.grid.Justifies t.visits trail x :=
  hx.mono (fun _ hp => h.visited_subset hp) fun _ _ _ hc hf => hs.get?_of_extends h hc hf

theorem Sound.mem_visited (hs : Sound ω trail s) (hc : s.pass.grid.get? q = some c)
    (hf : c.isFormula = true) (hq : q ∉ s.pass.pending) (hqt : q ∉ trail) : q ∈ s.visited :=
  (((hs.formula_iff q).1 (Grid.mem_formulas.2 ⟨c, hc, hf⟩)).resolve_left hq).resolve_left hqt

theorem Sound.hasParent_of_extends (hs : Sound ω trail s) (h : Extends s t) {v : Visit}
    (hv : v.HasParent s.pass.grid s.visits) : v.HasParent t.pass.grid t.visits := by
  intro u rest hu
  obtain ⟨hm, c, hc, hd⟩ := hv u rest hu
  exact ⟨h.visits_subset hm, c,
    hs.get?_of_extends h hc fun _ => List.mem_map.2 ⟨_, hm, rfl⟩, hd⟩

theorem Sound.takeUp (hs : Sound ω trail s) (hp : p ∈ s.pass.pending) :
    Sound ω (p :: trail) (s.takeUp p) where
  formula_iff q := by
    rw [Chronicle.takeUp, RefreshPass.grid_takeUp, hs.formula_iff, RefreshPass.mem_takeUp,
      List.mem_cons]
    by_cases he : q = p
    · simp [he, hp]
    · simp [he, visited]
  pending_fresh q hq := by
    obtain ⟨hq, hne⟩ := RefreshPass.mem_takeUp.1 hq
    obtain ⟨hqt, hqv⟩ := hs.pending_fresh q hq
    exact ⟨by simp [hne, hqt], hqv⟩
  trail_fresh q hq := by
    rcases List.mem_cons.1 hq with rfl | hq
    · exact (hs.pending_fresh q hp).2
    · exact hs.trail_fresh q hq
  nodup := hs.nodup
  accounts := hs.accounts

omit [Engine] in
theorem extends_takeUp (s : Chronicle) (p : Position) : Extends s (s.takeUp p) :=
  ⟨RefreshPass.later_takeUp _ _, fun _ h => h⟩

omit [Engine] in
theorem extends_withGrid {g : Grid} (hg : Grid.AddsBlanks s.pass.grid g) :
    Extends s (s.withGrid g) :=
  ⟨RefreshPass.later_addsBlanks hg, fun _ h => h⟩

omit [Engine] in
theorem mem_formulas_addsBlanks {g h : Grid} (hg : Grid.AddsBlanks g h) :
    p ∈ h.formulas ↔ p ∈ g.formulas := by
  rw [Grid.mem_formulas, Grid.mem_formulas]
  exact exists_congr fun c => and_congr_left fun hf => (hg p).formula_iff hf

/-- Blank cells that are added at the places read keep the invariant. -/
theorem Sound.withGrid (hs : Sound ω trail s) {g : Grid} (hg : Grid.AddsBlanks s.pass.grid g) :
    Sound ω trail (s.withGrid g) where
  formula_iff p := (mem_formulas_addsBlanks hg).trans (hs.formula_iff p)
  pending_fresh := hs.pending_fresh
  trail_fresh := hs.trail_fresh
  nodup := hs.nodup
  accounts := hs.accounts.mono fun _ _ hc _ => hg.get?_eq_some hc

/-! ## Preservation -/

/-- What the pass does between two states with the same trail: it goes on soundly, and every new
visit is asked for from here or has its parent among the visits. -/
structure Progress (ω : Occasion) (trail : List Position) (s t : Chronicle)
    (asked : List Position) : Prop where
  sound : Sound ω trail t
  onward : Extends s t
  visits : ∀ v ∈ t.visits, v ∈ s.visits ∨ v.trail = trail ∧ v.cell ∈ asked ∨
    v.HasParent t.pass.grid t.visits

theorem Progress.refl (hs : Sound ω trail s) : Progress ω trail s s [] :=
  ⟨hs, .refl s, fun _ hv => .inl hv⟩

theorem Progress.trans {u : Chronicle} {ps qs : List Position} (h : Progress ω trail s t ps)
    (k : Progress ω trail t u qs) : Progress ω trail s u (ps ++ qs) where
  sound := k.sound
  onward := h.onward.trans k.onward
  visits v hv := by
    rcases k.visits v hv with hv | ⟨hv, hm⟩ | hv
    · rcases h.visits v hv with hv | ⟨hv, hm⟩ | hv
      · exact .inl hv
      · exact .inr (.inl ⟨hv, List.mem_append_left _ hm⟩)
      · exact .inr (.inr (h.sound.hasParent_of_extends k.onward hv))
    · exact .inr (.inl ⟨hv, List.mem_append_right _ hm⟩)
    · exact .inr (.inr hv)

theorem progress_withGrid (hs : Sound ω trail s) {g : Grid}
    (hg : Grid.AddsBlanks s.pass.grid g) : Progress ω trail s (s.withGrid g) [] where
  sound := hs.withGrid hg
  onward := extends_withGrid hg
  visits _ hv := .inl hv

omit [Engine] in
theorem get?_store (s : Chronicle) (p q : Position) (trail : List Position) (r : Resolution) :
    (s.store p trail r).pass.grid.get? q =
      if p = q then (s.pass.grid.get? q).map fun c => c.resolved r.outcome r.dependsOn
      else s.pass.grid.get? q :=
  RefreshPass.get?_store s.pass p q r

omit [Engine] in
theorem mem_formulas_store (s : Chronicle) (p q : Position) (trail : List Position)
    (r : Resolution) :
    q ∈ (s.store p trail r).pass.grid.formulas ↔ q ∈ s.pass.grid.formulas := by
  rw [Grid.mem_formulas, Grid.mem_formulas, get?_store]
  split
  · cases s.pass.grid.get? q <;> simp
  · rfl

/-- The formula at the head of the trail is visited with what its readings give. -/
theorem Sound.store (ht : Sound ω (p :: trail) t) (hpt : p ∉ trail)
    (hc : t.pass.grid.get? p = some c) (hf : c.isFormula = true) {l : List Reading}
    {r : Resolution} (hl : TextDialogue (ω.cell p) c.text p l r)
    (hx : ∀ x ∈ l, t.pass.grid.Justifies t.visits (p :: trail) x) :
    Sound ω trail (t.store p trail r) := by
  have hpv : p ∉ t.visited := ht.trail_fresh p List.mem_cons_self
  -- Settled cells are not the one that is stored.
  have hkeep : ∀ q d, t.pass.grid.get? q = some d → (d.isFormula = true → q ∈ t.visited) →
      (t.store p trail r).pass.grid.get? q = some d := by
    intro q d hd hm
    have hne : p ≠ q := by
      rintro rfl
      cases hc.symm.trans hd
      exact hpv (hm hf)
    rw [get?_store, if_neg hne, hd]
  refine ⟨?_, ?_, ?_, ?_, ?_⟩
  · intro q
    rw [mem_formulas_store, ht.formula_iff, List.mem_cons]
    simp only [visited, Chronicle.store, RefreshPass.pending_store, List.map_cons, List.mem_cons]
    rw [or_assoc, @or_left_comm (q = p)]
  · intro q hq
    obtain ⟨hqt, hqv⟩ := ht.pending_fresh q hq
    have hne : q ≠ p := List.ne_of_not_mem_cons hqt
    exact ⟨List.not_mem_of_not_mem_cons hqt, fun hm => (List.mem_cons.1 hm).elim hne hqv⟩
  · intro q hq hm
    rcases List.mem_cons.1 hm with rfl | hm
    · exact hpt hq
    · exact ht.trail_fresh q (List.mem_cons_of_mem _ hq) hm
  · exact List.nodup_cons.2 ⟨hpv, ht.nodup⟩
  · refine ⟨⟨hpt, c.resolved r.outcome r.dependsOn, l, ?_, hf, ?_, ?_⟩, ht.accounts.mono hkeep⟩
    · rw [get?_store, if_pos rfl, hc, Option.map_some]
    · rw [Cell.dependsOn_resolved hf]
      exact hl
    · intro x hxl
      exact (hx x hxl).mono (fun _ hp => hp) fun q d _ => hkeep q d

theorem Progress.store (hs : Sound ω trail s) (hp : p ∈ s.pass.pending)
    (hc : s.pass.grid.get? p = some c) {l : List Reading} {r : Resolution}
    (h : Progress ω (p :: trail) (s.takeUp p) t (l.map Reading.cell))
    (hl : TextDialogue (ω.cell p) c.text p l r)
    (hx : ∀ x ∈ l, t.pass.grid.Justifies t.visits (p :: trail) x) :
    Progress ω trail s (t.store p trail r) [p] := by
  obtain ⟨d, hd, hk, hr⟩ := h.onward.later.content p c hc
  have hf : d.isFormula = true := by
    obtain ⟨e, he, hf⟩ := Grid.mem_formulas.1 ((hs.formula_iff p).2 (.inl hp))
    cases hc.symm.trans he
    rw [Cell.isFormula, hk, ← Cell.isFormula, hf]
  have htext : c.text = d.text := by rw [Cell.text, Cell.text, hr]
  rw [htext] at hl
  have hpt := (hs.pending_fresh p hp).1
  have hsound := h.sound.store hpt hd hf hl hx
  have hpv : p ∉ t.visited := h.sound.trail_fresh p List.mem_cons_self
  have honward := (extends_takeUp s p).trans h.onward
  refine ⟨hsound, ⟨honward.later.store hp r, fun v hv => ?_⟩, ?_⟩
  · exact List.mem_cons_of_mem _ (honward.visits_subset hv)
  · intro v hv
    rcases List.mem_cons.1 hv with rfl | hv
    · exact .inr (.inl ⟨rfl, List.mem_singleton_self p⟩)
    rcases h.visits v hv with hv | ⟨hvt, hvc⟩ | hv
    · exact .inl hv
    · refine .inr (.inr ?_)
      intro u rest hu
      rw [hvt] at hu
      cases hu
      refine ⟨List.mem_cons_self, d.resolved r.outcome r.dependsOn, ?_, ?_⟩
      · rw [get?_store, if_pos rfl, hd, Option.map_some]
      · obtain ⟨x, hxl, hxc⟩ := List.mem_map.1 hvc
        rw [Cell.dependsOn_resolved hf, ← hxc]
        exact hl.ending.mem_dependsOn hxl
    · refine .inr (.inr ?_)
      intro u rest hu
      obtain ⟨hm, e, he, hd⟩ := hv u rest hu
      have hne : p ≠ u := fun heq => hpv (heq ▸ List.mem_map.2 ⟨_, hm, rfl⟩)
      exact ⟨List.mem_cons_of_mem _ hm, e, by rw [get?_store, if_neg hne, he], hd⟩

/-- One reading, given that evaluations make progress. -/
theorem progress_readAfter
    (ih : ∀ q s, Sound ω trail s → s.pass.pending.length ≤ bound →
      Progress ω trail s (evaluate ω bound trail q s) [q])
    (hs : Sound ω trail s) (hb : s.pass.pending.length ≤ bound) (q : Position)
    {o : Except Fault Value} (ho : readAfter (evaluate ω bound trail) trail q s = (o, t)) :
    Progress ω trail s t [q] ∧ t.pass.grid.Justifies t.visits trail ⟨q, o⟩ := by
  by_cases hq : q ∈ trail
  · rw [readAfter_of_mem hq] at ho
    cases ho
    refine ⟨⟨hs, .refl s, fun v hv => .inl hv⟩, .inl ⟨hq, rfl⟩⟩
  · rw [readAfter_of_not_mem hq] at ho
    cases ho
    have he := ih q s hs hb
    have hg := Grid.operand_addsBlanks q (evaluate ω bound trail q s).pass.grid
    have hpend : q ∉ (evaluate ω bound trail q s).pass.pending := by
      rw [pass_evaluate]
      exact RefreshPass.not_mem_pending_evaluate trail q hb
    refine ⟨he.trans (progress_withGrid he.sound hg), .inr ⟨hq, ?_⟩⟩
    cases hc : (evaluate ω bound trail q s).pass.grid.get? q with
    | some c =>
      refine ⟨c, hg.get?_eq_some hc, ?_, fun hf => he.sound.mem_visited hc hf hpend hq⟩
      simp [Grid.reading, hc]
    | none =>
      refine ⟨Cell.blank, ?_, ?_, fun hf => by cases hf⟩
      · simp [Grid.operand, hc, withGrid]
      · simp only [Grid.reading, hc]
        rfl

theorem progress_answers
    (ih : ∀ q s, Sound ω trail s → s.pass.pending.length ≤ bound →
      Progress ω trail s (evaluate ω bound trail q s) [q])
    {l : List Reading} (ha : Answers (readAfter (evaluate ω bound trail) trail) s l t)
    (hs : Sound ω trail s) (hb : s.pass.pending.length ≤ bound) :
    Progress ω trail s t (l.map Reading.cell) ∧
      ∀ x ∈ l, t.pass.grid.Justifies t.visits trail x := by
  induction ha with
  | nil s => exact ⟨.refl hs, by simp⟩
  | @cons s u t q o l ho _ iha =>
    obtain ⟨hu, hx⟩ := progress_readAfter ih hs hb q ho
    obtain ⟨ht, hl⟩ := iha hu.sound (Nat.le_trans hu.onward.later.length_pending_le hb)
    refine ⟨hu.trans ht, ?_⟩
    intro y hy
    rcases List.mem_cons.1 hy with rfl | hy
    · exact hu.sound.justifies_of_extends ht.onward hx
    · exact hl y hy

/-- The invariant is preserved: the bound on the depth is never what ends an evaluation, as there
are at least as many levels left as pending formulas. -/
theorem progress_evaluate (hs : Sound ω trail s) (hb : s.pass.pending.length ≤ bound)
    (p : Position) : Progress ω trail s (evaluate ω bound trail p s) [p] := by
  induction bound generalizing trail p s with
  | zero => exact ⟨hs, .refl s, fun v hv => .inl hv⟩
  | succ bound ih =>
    by_cases hp : p ∈ s.pass.pending
    · obtain ⟨c, hc, _⟩ := Grid.mem_formulas.1 ((hs.formula_iff p).2 (.inl hp))
      have hlt := RefreshPass.length_takeUp_lt hp
      have hb' : (s.takeUp p).pass.pending.length ≤ bound :=
        Nat.le_of_lt_succ (Nat.lt_of_lt_of_le hlt hb)
      obtain ⟨l, hl, ha⟩ := exists_dialogue (ω.cell p) c.text p
        (readAfter (evaluate ω bound (p :: trail)) (p :: trail)) (s.takeUp p)
      obtain ⟨ht, hx⟩ := progress_answers (fun q s hs hb => ih hs hb q) ha (hs.takeUp hp) hb'
      rw [evaluate_of_some hp hc]
      exact Progress.store hs hp hc ht hl hx
    · rw [evaluate_of_not_mem hp]
      exact ⟨hs, .refl s, fun v hv => .inl hv⟩

theorem progress_evaluateAll (hs : Sound ω [] s) (hb : s.pass.pending.length ≤ bound)
    (ps : List Position) : Progress ω [] s (s.evaluateAll ω bound ps) ps := by
  induction ps generalizing s with
  | nil => exact .refl hs
  | cons p ps ih =>
    have hp := progress_evaluate hs hb p
    exact hp.trans (ih hp.sound (Nat.le_trans hp.onward.later.length_pending_le hb))

end

end Chronicle

/-! ## The chronicle of a refresh -/

namespace Grid

section
variable [Engine] {ω : Occasion} {g : Grid}

theorem sound_start (ω : Occasion) (g : Grid) :
    Chronicle.Sound ω [] ⟨g.prune.startRefresh, []⟩ where
  formula_iff p := by simp [startRefresh, Chronicle.visited]
  pending_fresh p _ := by simp [Chronicle.visited]
  trail_fresh p hp := by cases hp
  nodup := List.nodup_nil
  accounts := trivial

theorem progress_chronicle (ω : Occasion) (g : Grid) :
    Chronicle.Progress ω [] ⟨g.prune.startRefresh, []⟩
    (g.chronicle ω) g.prune.startRefresh.pending :=
  Chronicle.progress_evaluateAll (sound_start ω g) (Nat.le_refl _) _

/-- The formulas of the refreshed sheet are those that were visited. -/
theorem mem_formulas_refresh {p : Position} :
    p ∈ (g.refresh ω).formulas ↔ p ∈ (g.chronicle ω).visited := by
  rw [← chronicle_grid, (progress_chronicle ω g).sound.formula_iff]
  have hp : p ∉ (g.chronicle ω).pass.pending := by
    intro hp
    rw [chronicle, Chronicle.pass_evaluateAll] at hp
    exact RefreshPass.not_mem_pending_evaluateAll (Nat.le_refl _) hp
      ((RefreshPass.later_evaluateAll _ _ _ _).pending_subset hp)
  simp [hp]

theorem accounts_refresh (ω : Occasion) (g : Grid) :
    (g.refresh ω).Accounts ω (g.chronicle ω).visits := by
  rw [← chronicle_grid]
  exact (progress_chronicle ω g).sound.accounts

theorem hasParent_refresh {v : Visit} (hv : v ∈ (g.chronicle ω).visits) :
    v.HasParent (g.refresh ω) (g.chronicle ω).visits := by
  rw [← chronicle_grid]
  rcases (progress_chronicle ω g).visits v hv with hv | ⟨ht, _⟩ | hv
  · cases hv
  · intro u rest hu
    rw [ht] at hu
    cases hu
  · exact hv

end

end Grid

end Spreadsheet

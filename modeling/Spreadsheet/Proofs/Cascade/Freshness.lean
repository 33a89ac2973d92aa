import Spreadsheet.Proofs.Cascade.Settling
import Spreadsheet.Proofs.Formula.Repetition
import Spreadsheet.Proofs.Refresh.Consistency

/-!
# Edits keep formulas fresh

A formula without a fault is stale when its text gives something else than what
is stored for it, be it in all that is stored or in the outcome alone. A change
of one cell makes only those formulas stale that mention it. While a cascade
runs, every stale formula mentions a cell that the cascade has yet to come to,
and in the end there is no such cell. As the formulas come to the same on every
occasion, they may be looked at on any.
-/
namespace Spreadsheet
open Formula Relation

/-- Wherever the formula is resolved, it reads only cells that are in its text. -/
def Formula.ReadsListed [Engine] (cs : List Char) (own : Position) : Prop :=
  ∀ (g : Grid) (ω : Occasion), ∀ q ∈ (g.resolution ω own cs).dependsOn, q ∈ dependencies cs

section
variable [Engine] {cs : List Char} {own q : Position}

/-- A formula that first asks for a cell in its text, and that has no other name, reads no other
cell. -/
theorem Formula.readsListed_of_name (hcs : Formula.IsRepeatable cs) (name : String)
    (hf : (ofText cs).toOption.map (fun f =>
      ((Engine.names f.script).length, f.attempt .start [])) = some (1, .needs name))
    (hq : Position.ofName? name.toList = some q) (hmem : q ∈ dependencies cs) :
    ReadsListed cs own := by
  intro g ω r hr
  suffices he : r = q by rwa [he]
  obtain ⟨l, hl, _⟩ := exists_dialogue ω cs own Grid.operand g
  unfold Grid.resolution at hr
  generalize (resolve ω cs own Grid.operand g).1 = res at hr hl
  cases hl with
  | blank _ => cases hr
  | refused _ _ => cases hr
  | compiled _ hof hd =>
    rw [hof] at hf
    simp only [Except.toOption, Option.map_some, Option.some.injEq, Prod.mk.injEq] at hf
    obtain ⟨hlen, hfirst⟩ := hf
    have hneeds := (hcs _ hof (ω.stage 0) .start []).trans hfirst
    rw [hlen] at hd
    cases hd with
    | resolved _ => cases hr
    | failed _ => cases hr
    | repeated _ _ => cases hr
    | unrecognized _ _ _ => cases hr
    | itself hn _ ho =>
      cases hneeds.symm.trans hn
      cases hq.symm.trans ho
      simpa using hr
    | refused hn _ ho _ =>
      cases hneeds.symm.trans hn
      cases hq.symm.trans ho
      simpa using hr
    | answered hn _ ho _ hd =>
      cases hneeds.symm.trans hn
      cases hq.symm.trans ho
      -- The only name is bound now, so that nothing is read any more.
      cases hd <;> simpa [Resolution.after] using hr

/-- A formula without names reads nothing. -/
theorem Formula.readsListed_of_no_name
    (hf : (ofText cs).toOption.map (fun f => (Engine.names f.script).length) = some 0) :
    ReadsListed cs own := by
  intro g ω r hr
  obtain ⟨l, hl, _⟩ := exists_dialogue ω cs own Grid.operand g
  unfold Grid.resolution at hr
  generalize (resolve ω cs own Grid.operand g).1 = res at hr hl
  cases hl with
  | blank _ => cases hr
  | refused _ _ => cases hr
  | compiled _ hof hd =>
    rw [hof] at hf
    simp only [Except.toOption, Option.map_some, Option.some.injEq] at hf
    rw [hf] at hd
    cases hd <;> cases hr

end

/-- A resolution is what is stored in a cell. -/
def Cell.Stores (c : Cell) (r : Resolution) : Prop := r = ⟨c.outcome, c.dependsOn⟩

theorem Cell.stores_self (c : Cell) : c.Stores ⟨c.outcome, c.dependsOn⟩ := rfl

namespace Grid

section
variable [Engine]

/-- On every occasion the text of a formula gives without a fault what is stored for it. -/
def Fresh (g : Grid) (p : Position) (c : Cell) : Prop :=
  c.hasFault = false ∧ ∀ ω, g.resolution ω p c.text = ⟨c.outcome, c.dependsOn⟩

/-- A formula without a fault that does not agree with what its text gives on an occasion. -/
def Stale (g : Grid) (seen : Occasion) (agrees : Cell → Resolution → Prop) (p : Position) : Prop :=
  ∃ c, g.get? p = some c ∧ c.isFormula = true ∧ c.hasFault = false ∧
    ¬agrees c (g.resolution seen p c.text)

/-- Every formula reads only cells that are in its text and depends on no occasion. -/
def IsLegible (g : Grid) : Prop :=
  ∀ p cs, g.formulaText? p = some cs → ReadsListed cs p ∧ Formula.IsRepeatable cs

/-- Every formula that is stale on an occasion mentions one of the places. -/
def Outstanding (g : Grid) (seen : Occasion) (agrees : Cell → Resolution → Prop)
    (places : List Position) : Prop :=
  ∀ q, g.Stale seen agrees q → ∃ p ∈ places, g.Mentions q p

end

/-- Apart from one place the second grid has at most further blank cells. -/
def ChangesOnly (g h : Grid) (p : Position) : Prop :=
  ∀ q, q ≠ p → Keeps (g.get? q) (h.get? q)

variable [Engine] {seen ω : Occasion} {agrees : Cell → Resolution → Prop}

section
variable {g h : Grid} {p q : Position} {c : Cell}

theorem formulaText?_of_stale (hs : g.Stale seen agrees p) : ∃ cs, g.formulaText? p = some cs := by
  obtain ⟨c, hc, hf, _⟩ := hs
  exact ⟨c.text, formulaText?_eq_some.2 ⟨c, hc, hf, rfl⟩⟩

theorem isLegible_congr (ht : h.formulaText? = g.formulaText?) (hl : g.IsLegible) :
    h.IsLegible := by
  unfold IsLegible
  rw [ht]
  exact hl

omit [Engine] in
theorem AddsBlanks.changesOnly_insert (hg : AddsBlanks g h) (p : Position) (c : Cell) :
    ChangesOnly g (h.insert p c) p := by
  intro q hq
  rw [Table.get?_insert, if_neg hq.symm]
  exact hg q

/-- A formula that is stored with its resolution is not made stale by that. -/
theorem ChangesOnly.not_stale (hg : ChangesOnly g h p) (hc : h.get? p = some c)
    (hr : c.isFormula = true → agrees c (g.resolution seen p c.text)) :
    ¬h.Stale seen agrees p := by
  rintro ⟨d, hd, hf, _, hno⟩
  cases hc.symm.trans hd
  have hsame : h.resolution seen p c.text = g.resolution seen p c.text :=
    resolution_congr fun q _ hq => (hg q hq).reading_eq
  exact hno (hsame ▸ hr hf)

/-- A change of one cell makes only formulas stale that mention it. -/
theorem ChangesOnly.stale_or_mentions (hg : ChangesOnly g h p)
    (hl : ∀ cs, g.formulaText? q = some cs → ReadsListed cs q) (hq : q ≠ p)
    (hs : h.Stale seen agrees q) : g.Stale seen agrees q ∨ g.Mentions q p := by
  obtain ⟨c, hc, hf, hn, hno⟩ := hs
  have hgc : g.get? q = some c := ((hg q hq).formula_iff hf).1 hc
  have htext : g.formulaText? q = some c.text := formulaText?_eq_some.2 ⟨c, hgc, hf, rfl⟩
  by_cases hagrees : agrees c (g.resolution seen q c.text)
  · refine .inr (Classical.byContradiction fun hm => ?_)
    have hsame : h.resolution seen q c.text = g.resolution seen q c.text := by
      refine resolution_congr fun r hr _ => (hg r ?_).reading_eq
      rintro rfl
      exact hm ⟨c.text, htext, hl c.text htext g seen r hr⟩
    exact hno (hsame ▸ hagrees)
  · exact .inl ⟨c, hgc, hf, hn, hagrees⟩

/- A cell agrees with what is stored in it. -/
variable (hself : ∀ c : Cell, agrees c ⟨c.outcome, c.dependsOn⟩)
include hself

theorem stale_recompute (hl : g.IsLegible) (hs : (g.recompute ω p).Stale seen agrees q) :
    q ≠ p ∧ (g.Stale seen agrees q ∨ g.Mentions q p) := by
  rcases recompute_cases ω g p with ⟨hn, he⟩ | ⟨c, k, hc, hf, hk, he⟩
  · rw [he] at hs
    refine ⟨?_, .inl hs⟩
    rintro rfl
    obtain ⟨cs, hcs⟩ := formulaText?_of_stale hs
    rw [hn] at hcs
    cases hcs
  · have hrepeats := (hl p c.text (formulaText?_eq_some.2 ⟨c, hc, hf, rfl⟩)).2
    rw [he, resolution_onOccasion hrepeats (ω.cell p) seen] at hs
    have hchange := hk.changesOnly_insert p
      (c.resolved (g.resolution seen p c.text).outcome (g.resolution seen p c.text).dependsOn)
    have hq : q ≠ p := by
      rintro rfl
      refine hchange.not_stale (by rw [Table.get?_insert, if_pos rfl]) (fun _ => ?_) hs
      have hresolved := hself
        (c.resolved (g.resolution seen q c.text).outcome (g.resolution seen q c.text).dependsOn)
      rwa [Cell.dependsOn_resolved hf] at hresolved
    exact ⟨hq, hchange.stale_or_mentions (fun cs hcs => (hl q cs hcs).1) hq hs⟩

end

/-! ## Along the cascade -/

section
variable {g : Grid} {p : Position} {places : List Position} {bound : Nat}
variable (hself : ∀ c : Cell, agrees c ⟨c.outcome, c.dependsOn⟩)
include hself

theorem stale_foldl_recompute {ps : List Position} {q : Position} (hl : g.IsLegible)
    (hs : (ps.foldl (recompute ω) g).Stale seen agrees q) :
    g.Stale seen agrees q ∧ q ∉ ps ∨ ∃ p ∈ ps, g.Mentions q p := by
  induction ps generalizing g with
  | nil => exact .inl ⟨hs, List.not_mem_nil⟩
  | cons p ps ih =>
    have ht := formulaText?_recompute ω g p
    rcases ih (isLegible_congr ht hl) hs with ⟨hs, hq⟩ | ⟨r, hr, hm⟩
    · obtain ⟨hne, hs⟩ := stale_recompute hself hl hs
      rcases hs with hs | hm
      · refine .inl ⟨hs, fun hmem => ?_⟩
        exact (List.mem_cons.1 hmem).elim hne hq
      · exact .inr ⟨p, List.mem_cons_self, hm⟩
    · rw [mentions_congr ht] at hm
      exact .inr ⟨r, List.mem_cons_of_mem _ hr, hm⟩

/-- Recomputing the formulas that mention a cell passes its change on to them. -/
theorem Outstanding.foldl_recompute (hl : g.IsLegible)
    (h : g.Outstanding seen agrees (p :: places)) :
    Outstanding ((g.formulasMentioning p).foldl (recompute ω) g) seen agrees
      (g.formulasMentioning p ++ places) := by
  intro q hs
  rw [mentions_congr (formulaText?_foldl _ _ g)]
  rcases stale_foldl_recompute hself hl hs with ⟨hbefore, hq⟩ | ⟨r, hr, hm⟩
  · obtain ⟨r, hr, hm⟩ := h q hbefore
    rcases List.mem_cons.1 hr with rfl | hr
    · obtain ⟨c, hc, hf, hn, _⟩ := hbefore
      obtain ⟨cs, hcs, hmem⟩ := hm
      obtain ⟨d, hd, _, rfl⟩ := formulaText?_eq_some.1 hcs
      cases hc.symm.trans hd
      have hcm : c.mentions r = true := by simp [Cell.mentions, hf, hn, hmem]
      exact (hq (mem_formulasMentioning.2 ⟨c, hc, hcm⟩)).elim
    · exact ⟨r, List.mem_append_right _ hr, hm⟩
  · exact ⟨r, List.mem_append_left _ hr, hm⟩

omit hself in
theorem Outstanding.settleAll {settle : Position → Grid → Bool × Grid} {ps : List Position}
    (step : ∀ p places (g : Grid), g.IsLegible → g.Outstanding seen agrees (p :: places) →
      (settle p g).1 = true →
        (settle p g).2.IsLegible ∧ (settle p g).2.Outstanding seen agrees places)
    (hl : g.IsLegible) (h : g.Outstanding seen agrees (ps ++ places))
    (hr : (Grid.settleAll settle ps g).1 = true) :
    (Grid.settleAll settle ps g).2.Outstanding seen agrees places := by
  induction ps generalizing g with
  | nil => exact h
  | cons p ps ih =>
    cases hs : (settle p g).1 with
    | true =>
      rw [settleAll_of_true hs] at hr ⊢
      obtain ⟨hl', h'⟩ := step p (ps ++ places) g hl h hs
      exact ih hl' h' hr
    | false =>
      rw [settleAll_of_false hs] at hr
      cases hr

theorem Outstanding.cascade (hl : g.IsLegible) (h : g.Outstanding seen agrees (p :: places))
    (hr : (Grid.cascade ω bound p g).1 = true) :
    (Grid.cascade ω bound p g).2.Outstanding seen agrees places := by
  induction bound generalizing ω p g places with
  | zero => cases hr
  | succ bound ih =>
    rw [Grid.cascade] at hr ⊢
    refine Outstanding.settleAll (fun q places g hl h hr => ?_)
      (isLegible_congr (formulaText?_foldl _ _ g) hl) (h.foldl_recompute hself hl) hr
    exact ⟨isLegible_congr (formulaText?_cascade _ bound q g) hl, ih hl h hr⟩

end

/-! ## The whole cascade -/

section
variable {g : Grid} {p : Position}
variable (hself : ∀ c : Cell, agrees c ⟨c.outcome, c.dependsOn⟩)
include hself

/-- A cascade mends all formulas that the change of its origin has made stale. -/
theorem Outstanding.cascadeFrom (hl : g.IsLegible) (hacyclic : ∀ q, ¬TransGen g.Mentions q q)
    (h : g.Outstanding seen agrees [p]) (q : Position) :
    ¬(g.cascadeFrom ω p).Stale seen agrees q := by
  intro hs
  have hg : 0 < g.size := by
    obtain ⟨cs, hcs⟩ := formulaText?_of_stale hs
    rw [formulaText?_cascadeFrom] at hcs
    have hkeys : 0 < g.keys.length := List.length_pos_of_mem (mem_keys_of_formulaText? hcs)
    rwa [Table.keys, List.length_map] at hkeys
  have hsettles : (Grid.cascade (ω.stage 0) (2 * g.size) p g).1 = true :=
    cascade_settles_of_acyclic (fun q _ => hacyclic q) hg
  have hrest := h.cascade hself hl hsettles
  rw [cascadeFrom_of_true hsettles] at hs
  obtain ⟨r, hr, _⟩ := hrest q hs
  cases hr

omit hself in
/-- The change that an edit begins with. -/
theorem ChangesOnly.outstanding {h : Grid} (hg : ChangesOnly g h p) (hl : h.IsLegible)
    (hfresh : ∀ q, q ≠ p → ¬g.Stale seen agrees q) (hp : ¬h.Stale seen agrees p) :
    h.Outstanding seen agrees [p] := by
  intro q hs
  have hq : q ≠ p := by
    rintro rfl
    exact hp hs
  have ht := (hg q hq).formulaText?_eq
  refine ⟨p, List.mem_singleton_self p, ?_⟩
  have hlisted : ∀ cs, g.formulaText? q = some cs → ReadsListed cs q :=
    fun cs hcs => (hl q cs (ht.trans hcs)).1
  rcases hg.stale_or_mentions hlisted hq hs with hs | ⟨cs, hcs, hm⟩
  · exact (hfresh q hq hs).elim
  · exact ⟨cs, ht.trans hcs, hm⟩

end

/-! ## Edits -/

section
variable {g : Grid} {p : Position}

theorem resolution_formulaCell (g : Grid) (ω : Occasion) (p : Position) (cs : List Char) :
    g.resolution ω p (formulaCell cs (g.resolution ω p cs)).text =
      ⟨(formulaCell cs (g.resolution ω p cs)).outcome,
        (formulaCell cs (g.resolution ω p cs)).dependsOn⟩ := by
  have htext : (formulaCell cs (g.resolution ω p cs)).text = cs := String.toList_ofList
  have hdeps : (formulaCell cs (g.resolution ω p cs)).dependsOn = (g.resolution ω p cs).dependsOn :=
    Cell.dependsOn_resolved rfl _ _
  rw [htext, hdeps]
  rfl

omit [Engine] in
theorem unmarkedCell_of_isFormula {cs : List Char} {r : Resolution}
    (hf : (unmarkedCell cs r).isFormula = true) : unmarkedCell cs r = formulaCell cs r := by
  unfold unmarkedCell at hf ⊢
  split at hf
  · rfl
  · rfl
  · cases hf

/-- A formula that is entered holds what its text gives. -/
theorem evaluateInput_spec (g : Grid) (ω : Occasion) (p : Position) (input : List Char) :
    AddsBlanks g (g.evaluateInput ω p input).2 ∧
      ((g.evaluateInput ω p input).1.isFormula = true →
        g.resolution ω p (g.evaluateInput ω p input).1.text =
          ⟨(g.evaluateInput ω p input).1.outcome, (g.evaluateInput ω p input).1.dependsOn⟩) := by
  unfold evaluateInput
  split
  · exact ⟨.refl g, fun hf => by cases hf⟩
  · exact ⟨.refl g, fun hf => by cases hf⟩
  · rename_i cs _
    exact ⟨resolve_addsBlanks g ω p cs, fun _ => resolution_formulaCell g ω p cs⟩
  · split
    · exact ⟨.refl g, fun hf => by cases hf⟩
    · refine ⟨resolve_addsBlanks g ω p _, fun hf => ?_⟩
      dsimp only at hf ⊢
      rw [unmarkedCell_of_isFormula hf]
      exact resolution_formulaCell g ω p _

theorem get?_enter (g : Grid) (ω : Occasion) (p : Position) (input : List Char) (q : Position) :
    (g.enter ω p input).get? q =
      if p = q then some (g.evaluateInput ω p input).1
      else (g.evaluateInput ω p input).2.get? q :=
  Table.get?_insert ..

theorem get?_enter_self (g : Grid) (ω : Occasion) (p : Position) (input : List Char) :
    (g.enter ω p input).get? p = some (g.evaluateInput ω p input).1 := by
  rw [get?_enter, if_pos rfl]

theorem keeps_enter (g : Grid) (ω : Occasion) (input : List Char) {q : Position} (hq : q ≠ p) :
    Keeps (g.get? q) ((g.enter ω p input).get? q) :=
  (evaluateInput_spec g ω p input).1.changesOnly_insert p _ q hq

variable (hself : ∀ c : Cell, agrees c ⟨c.outcome, c.dependsOn⟩)
include hself

theorem not_stale_refresh (hl : (g.refresh ω).IsLegible) (q : Position) :
    ¬(g.refresh ω).Stale seen agrees q := by
  rintro ⟨c, hc, hf, hn, hno⟩
  have hrepeats := (hl q c.text (formulaText?_eq_some.2 ⟨c, hc, hf, rfl⟩)).2
  exact hno (resolution_refresh hc hf hn hrepeats seen ▸ hself c)

/-- The cascade after a change of one cell leaves nothing stale. -/
theorem ChangesOnly.not_stale_cascadeFrom {h : Grid} (hg : ChangesOnly g h p)
    (hp : ¬h.Stale seen agrees p) (hacyclic : ∀ q, ¬TransGen (h.cascadeFrom ω p).Mentions q q)
    (hl : (h.cascadeFrom ω p).IsLegible) (hfresh : ∀ q, q ≠ p → ¬g.Stale seen agrees q)
    (q : Position) : ¬(h.cascadeFrom ω p).Stale seen agrees q := by
  have ht := formulaText?_cascadeFrom h ω p
  have hlisted : h.IsLegible := isLegible_congr ht.symm hl
  rw [mentions_congr ht] at hacyclic
  exact (hg.outstanding hlisted hfresh hp).cascadeFrom hself hlisted hacyclic q

theorem not_stale_commit {input : List Char}
    (hacyclic : ∀ q, ¬TransGen (g.commit ω p input).Mentions q q)
    (hl : (g.commit ω p input).IsLegible) (hfresh : ∀ q, q ≠ p → ¬g.Stale seen agrees q)
    (q : Position) : ¬(g.commit ω p input).Stale seen agrees q := by
  obtain ⟨hblanks, hr⟩ := evaluateInput_spec g (ω.stage 0) p input
  have hchange := hblanks.changesOnly_insert p (g.evaluateInput (ω.stage 0) p input).1
  unfold commit at hacyclic hl ⊢
  dsimp only at hacyclic hl ⊢
  split
  · rename_i hcond
    rw [if_pos hcond] at hl
    exact not_stale_refresh hself hl q
  · rename_i hcond
    rw [if_neg hcond] at hacyclic hl
    have hentered : (g.enter (ω.stage 0) p input).IsLegible :=
      isLegible_congr (formulaText?_cascadeFrom _ _ p).symm hl
    refine hchange.not_stale_cascadeFrom hself ?_ hacyclic hl hfresh q
    refine hchange.not_stale (by rw [Table.get?_insert, if_pos rfl]) fun hf => ?_
    have htext := formulaText?_eq_some.2 ⟨_, get?_enter_self g (ω.stage 0) p input, hf, rfl⟩
    rw [resolution_onOccasion (hentered p _ htext).2 seen (ω.stage 0), hr hf]
    exact hself _

theorem not_stale_clear (hacyclic : ∀ q, ¬TransGen (g.clear ω p).Mentions q q)
    (hl : (g.clear ω p).IsLegible) (hfresh : ∀ q, q ≠ p → ¬g.Stale seen agrees q)
    (q : Position) : ¬(g.clear ω p).Stale seen agrees q := by
  have hgone : (g.erase p).get? p = none := by rw [Table.get?_erase, if_pos rfl]
  have hchange : ChangesOnly g (g.erase p) p := by
    intro r hr
    rw [Table.get?_erase, if_neg hr.symm]
    exact .refl _
  have hp : ¬Stale (g.erase p) seen agrees p := by
    rintro ⟨c, hc, _⟩
    rw [hgone] at hc
    cases hc
  exact hchange.not_stale_cascadeFrom hself hp hacyclic hl hfresh q

end

end Grid

namespace Document

/-- If all formulas without a fault were fresh before an edit of a cell, except perhaps the one in
it, then all of them are fresh afterwards. No formula may reach itself through the cells in its
text, each may read only cells that are in its text, and none may depend on the occasion. -/
theorem edit_keeps_fresh [Engine] {d e : Document} {ω : Occasion} {p : Position}
    (hedit : e = d.clear ω p ∨ ∃ input, e = d.set ω p input)
    (hacyclic : ∀ q, ¬TransGen e.grid.Mentions q q) (hrepeats : e.grid.IsRepeatable)
    (hlisted : ∀ q c, e.grid.get? q = some c → c.isFormula = true → ReadsListed c.text q)
    (hfresh : ∀ q c, q ≠ p → d.grid.get? q = some c → c.isFormula = true →
      c.hasFault = false → d.grid.Fresh q c) :
    ∀ q c, e.grid.get? q = some c → c.isFormula = true → c.hasFault = false →
      e.grid.Fresh q c := by
  have hl : e.grid.IsLegible := by
    intro q cs hcs
    obtain ⟨c, hc, hf, rfl⟩ := Grid.formulaText?_eq_some.1 hcs
    exact ⟨hlisted q c hc hf, hrepeats q c.text hcs⟩
  suffices hall : ∀ seen q, ¬e.grid.Stale seen Cell.Stores q by
    intro q c hc hf hn
    exact ⟨hn, fun seen =>
      Classical.byContradiction fun hno => hall seen q ⟨c, hc, hf, hn, hno⟩⟩
  intro seen
  have hstale : ∀ q, q ≠ p → ¬d.grid.Stale seen Cell.Stores q := by
    rintro q hq ⟨c, hc, hf, hn, hno⟩
    exact hno ((hfresh q c hq hc hf hn).2 seen)
  rcases hedit with rfl | ⟨input, rfl⟩
  · unfold clear at hacyclic hl ⊢
    split
    · rename_i hp
      rw [if_pos hp] at hacyclic hl
      exact Grid.not_stale_clear Cell.stores_self hacyclic hl hstale
    · rename_i hp
      intro q hs
      refine hstale q ?_ hs
      rintro rfl
      obtain ⟨c, hc, _⟩ := hs
      simp [Table.contains, hc] at hp
  · exact Grid.not_stale_commit Cell.stores_self hacyclic hl hstale

section
open scoped StandardLibrary

/-- The middle of a row, which its first formula reads, becomes a formula itself. -/
theorem edit_keeps_fresh_row : ∃ (d e : Document) (c : Cell),
    d = ({ new with grid := Table.ofList [(⟨0, 0⟩, .formula "B1".toList)] } : Document).refresh
      .start ∧
    e = d.set (.stage .start 1) ⟨0, 1⟩ "=C1".toList ∧ e.grid.get? ⟨0, 0⟩ = some c ∧
      c.dependsOn = [⟨0, 1⟩] ∧
    e.grid.Fresh ⟨0, 0⟩ c := by
  obtain ⟨d, hd⟩ : ∃ d : Document, d = ({ new with
    grid := Table.ofList [(⟨0, 0⟩, .formula "B1".toList)] } : Document).refresh
      .start := ⟨_, rfl⟩
  obtain ⟨e, he⟩ : ∃ e, e = d.set (.stage .start 1) ⟨0, 1⟩ "=C1".toList := ⟨_, rfl⟩
  have htexts : (e.grid.formulas.map fun q =>
      (q, e.grid.formulaText? q)) =
      [(⟨0, 0⟩, some "B1".toList), (⟨0, 1⟩, some "C1".toList)] := by
    rw [he, hd]
    decide +kernel
  have hfirst : (e.grid.get? ⟨0, 0⟩).map
      (fun c => (c.isFormula, c.hasFault, c.dependsOn)) = some (true, false, [⟨0, 1⟩]) := by
    rw [he, hd]
    decide +kernel
  have hcases : ∀ q cs, e.grid.formulaText? q = some cs →
      q = ⟨0, 0⟩ ∧ cs = "B1".toList ∨ q = ⟨0, 1⟩ ∧ cs = "C1".toList := by
    intro q cs hcs
    obtain ⟨c, hc, hf, _⟩ := Grid.formulaText?_eq_some.1 hcs
    have hmem := List.mem_map_of_mem
      (f := fun q => (q, e.grid.formulaText? q))
      (Grid.mem_formulas.2 ⟨c, hc, hf⟩)
    rw [htexts, hcs] at hmem
    simpa using hmem
  have hB : dependencies "B1".toList = [⟨0, 1⟩] := by decide +kernel
  have hC : dependencies "C1".toList = [⟨0, 2⟩] := by decide +kernel
  have hright : ∀ {q r}, e.grid.Mentions q r → q.col < r.col := by
    rintro q r ⟨cs, hcs, hr⟩
    rcases hcases q cs hcs with ⟨rfl, rfl⟩ | ⟨rfl, rfl⟩
    · rw [hB, List.mem_singleton] at hr
      subst hr
      decide
    · rw [hC, List.mem_singleton] at hr
      subst hr
      decide
  have hfurther : ∀ {q r}, TransGen e.grid.Mentions q r →
      q.col < r.col := by
    intro q r h
    induction h with
    | single h => exact hright h
    | tail _ h ih => exact UInt64.lt_trans ih (hright h)
  have hname : Position.ofName? "B1".toList = some ⟨0, 1⟩ := by decide +kernel
  have hname' : Position.ofName? "C1".toList = some ⟨0, 2⟩ := by decide +kernel
  have hrepeats : e.grid.IsRepeatable := by
    refine StandardLibrary.sheet_isRepeatable ?_
    rw [he, hd]
    decide +kernel
  have hlisted : ∀ q c, e.grid.get? q = some c → c.isFormula = true →
      ReadsListed c.text q := by
    intro q c hc hf
    have htext := Grid.formulaText?_eq_some.2 ⟨c, hc, hf, rfl⟩
    have hcs := hrepeats q c.text htext
    rcases hcases q c.text htext with ⟨_, ht⟩ | ⟨_, ht⟩ <;> rw [ht] at hcs ⊢
    · exact readsListed_of_name hcs "B1" (by decide +kernel) hname (by rw [hB]; decide)
    · exact readsListed_of_name hcs "C1" (by decide +kernel) hname' (by rw [hC]; decide)
  obtain ⟨c, hc, hs⟩ := Option.map_eq_some_iff.1 hfirst
  simp only [Prod.mk.injEq] at hs
  obtain ⟨hf, hn, hdeps⟩ := hs
  refine ⟨d, e, c, hd, he, hc, hdeps, ?_⟩
  refine edit_keeps_fresh (.inr ⟨_, he⟩) (fun q h => UInt64.lt_irrefl _ (hfurther h)) hrepeats
    hlisted ?_ _ c hc hf hn
  intro q b _ hb hf hn
  have hbefore : d.grid.IsRepeatable := by
    refine StandardLibrary.sheet_isRepeatable ?_
    rw [hd]
    decide +kernel
  have htext := Grid.formulaText?_eq_some.2 ⟨b, hb, hf, rfl⟩
  rw [hd] at hb ⊢
  exact ⟨hn, fun seen => Grid.resolution_refresh hb hf hn (hbefore q _ htext) seen⟩

end

end Document

end Spreadsheet

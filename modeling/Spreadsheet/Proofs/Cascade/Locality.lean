import Spreadsheet.Proofs.Cascade.Bound

/-!
# What an edit leaves alone

A cascade recomputes formulas that lead to its origin through the cells in their
texts, and nothing else changes, whether or not it comes to an end. No text
changes with it, so that what leads to the origin at its start is all that it
ever comes to. A commit therefore changes its own cell and what leads to it, and
adds at most blank cells.
-/
namespace Spreadsheet
open Formula Relation

namespace Grid

section
variable [Engine] {g h : Grid} {ω : Occasion} {p q t : Position} {c : Cell} {input : List Char}

theorem keeps_recompute (g : Grid) (hq : q ≠ t) : Keeps (g.get? q) ((g.recompute ω t).get? q) := by
  rcases recompute_cases ω g t with ⟨_, he⟩ | ⟨c, k, _, _, hk, he⟩
  · rw [he]
    exact .refl _
  · rw [he, Table.get?_insert, if_neg hq.symm]
    exact hk q

theorem keeps_foldl_recompute {ps : List Position} (hq : q ∉ ps) (g : Grid) :
    Keeps (g.get? q) ((ps.foldl (recompute ω) g).get? q) := by
  induction ps generalizing g with
  | nil => exact .refl _
  | cons t ps ih =>
    rw [List.mem_cons, not_or] at hq
    exact (keeps_recompute g hq.1).trans (ih hq.2 _)

omit [Engine] in
/-- If each of some cells that take effect keeps the texts and one place, all of them do. -/
theorem keeps_settleAll {settle : Position → Grid → Bool × Grid} {ps : List Position}
    (step : ∀ t ∈ ps, ∀ h : Grid, h.formulaText? = g.formulaText? →
      (settle t h).2.formulaText? = g.formulaText? ∧ Keeps (h.get? q) ((settle t h).2.get? q))
    (ht : h.formulaText? = g.formulaText?) :
    Keeps (h.get? q) ((settleAll settle ps h).2.get? q) := by
  induction ps generalizing h with
  | nil => exact .refl _
  | cons t ps ih =>
    obtain ⟨htexts, hkeeps⟩ := step t List.mem_cons_self h ht
    cases hs : (settle t h).1 with
    | true =>
      rw [settleAll_of_true hs]
      exact hkeeps.trans (ih (fun r hr => step r (List.mem_cons_of_mem _ hr)) htexts)
    | false =>
      rw [settleAll_of_false hs]
      exact hkeeps

/-- A cascade keeps what does not lead to its origin. -/
theorem keeps_cascade_of_not_leads (bound : Nat) (hq : ¬TransGen g.Mentions q p) :
    Keeps (g.get? q) ((cascade ω bound p g).2.get? q) := by
  induction bound generalizing ω p g with
  | zero => exact .refl _
  | succ bound ih =>
    rw [cascade]
    have htargets : q ∉ g.formulasMentioning p := fun hmem => hq (.single (mentions_of_mem hmem))
    refine (keeps_foldl_recompute htargets g).trans
      (keeps_settleAll (fun t ht h htexts => ?_) (formulaText?_foldl _ _ g))
    refine ⟨(formulaText?_cascade _ bound t h).trans htexts, ih fun hqt => hq ?_⟩
    rw [mentions_congr htexts] at hqt
    exact hqt.tail (mentions_of_mem ht)

/-- Nor does the fault that a cascade without an end puts into its origin come to any other
place. -/
theorem keeps_cascadeFrom (hq : q ≠ p) (hleads : ¬TransGen g.Mentions q p) :
    Keeps (g.get? q) ((g.cascadeFrom ω p).get? q) := by
  have hfirst : Keeps (g.get? q) ((cascade (ω.stage 0) (2 * g.size) p g).2.get? q) :=
    keeps_cascade_of_not_leads _ hleads
  have htexts := formulaText?_cascade (ω.stage 0) (2 * g.size) p g
  cases hs : (cascade (ω.stage 0) (2 * g.size) p g).1 with
  | true =>
    rw [cascadeFrom_of_true hs]
    exact hfirst
  | false =>
    rw [cascadeFrom_of_false hs]
    generalize (cascade (ω.stage 0) (2 * g.size) p g).2 = h at hfirst htexts ⊢
    have htexts' := (formulaText?_failing h p (h.cascadeFault p)).trans htexts
    have hmarked : (h.modify p fun c => c.failing (h.cascadeFault p)).get? q = h.get? q := by
      rw [get?_modify, if_neg hq.symm]
    refine hfirst.trans (hmarked ▸ keeps_cascade_of_not_leads _ ?_)
    rwa [mentions_congr htexts']

omit [Engine] in
/-- Only formulas lead anywhere. -/
theorem not_leads_of_formulaText? (hq : g.formulaText? q = none) : ¬TransGen g.Mentions q p := by
  intro hleads
  obtain ⟨r, ⟨cs, hcs, _⟩, _⟩ := TransGen.head'_iff.1 hleads
  cases hq.symm.trans hcs

omit [Engine] in
/-- What leads to a place in spite of a new text there led to it before: a way to the place is at
its end when it comes to it first. -/
theorem leads_of_texts (htexts : ∀ r, r ≠ p → h.formulaText? r = g.formulaText? r) (hq : q ≠ p)
    (hleads : TransGen h.Mentions q p) : TransGen g.Mentions q p := by
  have hstep : ∀ {r s}, r ≠ p → h.Mentions r s → g.Mentions r s :=
    fun hr ⟨cs, hcs, hs⟩ => ⟨cs, (htexts _ hr).symm.trans hcs, hs⟩
  induction hleads using TransGen.head_induction_on with
  | single hqp => exact .single (hstep hq hqp)
  | @head q r hqr _ ih =>
    by_cases hr : r = p
    · exact .single (hr ▸ hstep hq hqr)
    · exact .head (hstep hq hqr) (ih hr)

omit [Engine] in
/-- A formula is a formula with the same text after a change that keeps its text. -/
theorem exists_same_content (hc : g.get? q = some c) (hf : c.isFormula = true)
    (ht : h.formulaText? q = g.formulaText? q) :
    ∃ c', h.get? q = some c' ∧ c'.kind = c.kind ∧ c'.raw = c.raw := by
  have htext : h.formulaText? q = some c.text :=
    ht.trans (formulaText?_eq_some.2 ⟨c, hc, hf, rfl⟩)
  obtain ⟨c', hc', hf', hsame⟩ := formulaText?_eq_some.1 htext
  exact ⟨c', hc', (beq_iff_eq.1 hf').trans (beq_iff_eq.1 hf).symm, String.toList_injective hsame⟩

theorem formulaText?_enter (g : Grid) (ω : Occasion) (input : List Char) (hq : q ≠ p) :
    (g.enter ω p input).formulaText? q = g.formulaText? q :=
  (keeps_enter g ω input hq).formulaText?_eq

end

end Grid

namespace Document
open Grid

/-- A commit that is not followed by a refresh changes no other cell than formulas that lead to its
own through the cells in their texts, and of these neither the kind nor the text. What it adds
besides its own cell is blank. This holds of a cascade without an end, too. -/
theorem commit_stays_local [Engine] {d : Document} {ω : Occasion} {p q : Position}
    {input : List Char} (hno : d.grid.hasFaultAt p = false ∨
      (d.grid.evaluateInput (ω.stage 0) p input).1.hasFault = true)
    (hq : q ≠ p) :
    (∀ c, d.grid.get? q = some c → ∃ c', (d.set ω p input).grid.get? q = some c' ∧
      c'.kind = c.kind ∧ c'.raw = c.raw ∧
      (c.isFormula = false ∨ ¬TransGen d.grid.Mentions q p → c' = c)) ∧
    (d.grid.get? q = none →
      (d.set ω p input).grid.get? q = none ∨ (d.set ω p input).grid.get? q = some Cell.blank) := by
  have hset :
      (d.set ω p input).grid = (d.grid.enter (ω.stage 0) p input).cascadeFrom (ω.stage 1) p := by
    change d.grid.commit ω p input = _
    have hrefreshes : d.grid.refreshesAfter ω p input = false := by
      rw [refreshesAfter]
      rcases hno with hno | hno <;> simp [hno]
    rw [commit_eq, hrefreshes]
    rfl
  rw [hset]
  have htexts : ((d.grid.enter (ω.stage 0) p input).cascadeFrom (ω.stage 1) p).formulaText? q =
      d.grid.formulaText? q := by
    rw [formulaText?_cascadeFrom, formulaText?_enter d.grid _ input hq]
  have hkeeps : ¬TransGen d.grid.Mentions q p →
      Keeps (d.grid.get? q)
        (((d.grid.enter (ω.stage 0) p input).cascadeFrom (ω.stage 1) p).get? q) := by
    intro hleads
    refine (keeps_enter d.grid _ input hq).trans (keeps_cascadeFrom hq fun h => hleads ?_)
    exact leads_of_texts (fun r hr => formulaText?_enter d.grid _ input hr) hq h
  constructor
  · intro c hc
    have hsame : c.isFormula = false ∨ ¬TransGen d.grid.Mentions q p →
        ((d.grid.enter (ω.stage 0) p input).cascadeFrom (ω.stage 1) p).get? q = some c := by
      rintro (hf | hleads)
      · refine (hkeeps (not_leads_of_formulaText? ?_)).eq_some hc
        rw [formulaText?_eq_none]
        rintro c' hc'
        cases hc.symm.trans hc'
        exact hf
      · exact (hkeeps hleads).eq_some hc
    cases hf : c.isFormula with
    | false => exact ⟨c, hsame (.inl hf), rfl, rfl, fun _ => rfl⟩
    | true =>
      obtain ⟨c', hc', hkind, hraw⟩ := exists_same_content hc hf htexts
      refine ⟨c', hc', hkind, hraw, fun hcond => ?_⟩
      rw [hf] at hsame
      exact Option.some.inj (hc'.symm.trans (hsame hcond))
  · intro hn
    have hnone : d.grid.formulaText? q = none := by
      rw [formulaText?_eq_none, hn]
      exact fun c hc => nomatch hc
    rcases hkeeps (not_leads_of_formulaText? hnone) with h | ⟨_, h⟩
    · exact .inl (h.trans hn)
    · exact .inr h

section
open scoped StandardLibrary

/-- The cascade of an entry has no end, since a formula has a cell in its text that reads it. A
formula besides these stays. -/
theorem commit_stays_local_unsettled : ∃ (d : Document) (c : Cell),
    d = (new.set .start ⟨0, 1⟩ "=IIF(1,A1,C1)".toList).set .start ⟨0, 3⟩ "=A1+2".toList ∧
    (d.grid.enter (.stage .start 0) ⟨0, 2⟩ "=B1".toList).settles (.stage .start 1) ⟨0, 2⟩ = false ∧
    d.grid.get? ⟨0, 3⟩ = some c ∧ c.isFormula = true ∧
    (d.set .start ⟨0, 2⟩ "=B1".toList).grid.get? ⟨0, 3⟩ = some c := by
  obtain ⟨d, hd⟩ : ∃ d : Document,
    d = (new.set .start ⟨0, 1⟩ "=IIF(1,A1,C1)".toList).set .start ⟨0, 3⟩ "=A1+2".toList := ⟨_, rfl⟩
  have hno : d.grid.hasFaultAt ⟨0, 2⟩ = false ∨
      (d.grid.evaluateInput (.stage .start 0) ⟨0, 2⟩ "=B1".toList).1.hasFault = true := by
    rw [hd]
    decide +kernel
  have hsettles : (d.grid.enter (.stage .start 0) ⟨0, 2⟩ "=B1".toList).settles
      (.stage .start 1) ⟨0, 2⟩ = false := by
    rw [hd]
    decide +kernel
  have htexts : d.grid.formulaText? ⟨0, 3⟩ = some "A1+2".toList ∧
      d.grid.formulaText? ⟨0, 0⟩ = none := by
    rw [hd]
    decide +kernel
  obtain ⟨c, hc, hf, _⟩ := formulaText?_eq_some.1 htexts.1
  -- The formula has only the cell A1 in its text, which is none.
  have hleads : ¬TransGen d.grid.Mentions ⟨0, 3⟩ ⟨0, 2⟩ := by
    intro hleads
    obtain ⟨r, ⟨cs, hcs, hr⟩, hrest⟩ := TransGen.head'_iff.1 hleads
    cases htexts.1.symm.trans hcs
    have hlisted : dependencies "A1+2".toList = [⟨0, 0⟩] := by decide +kernel
    rw [hlisted, List.mem_singleton] at hr
    subst hr
    rcases reflTransGen_iff_eq_or_transGen.1 hrest with he | hrest
    · cases he
    · exact not_leads_of_formulaText? htexts.2 hrest
  obtain ⟨c', hc', _, _, hsame⟩ := (commit_stays_local hno (by decide)).1 c hc
  rw [hsame (.inr hleads)] at hc'
  exact ⟨d, c, hd, hsettles, hc, hf, hc'⟩

end

end Document

end Spreadsheet

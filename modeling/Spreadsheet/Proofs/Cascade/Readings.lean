import Spreadsheet.Proofs.Content

/-!
# What is read of formulas

What can be read of a formula is its value. A refresh that leaves no faults gives
each formula what its text gives and leaves everything else to be read as before,
save for what it drops. A sheet on which it would change nothing already has all
its values.
-/
namespace Spreadsheet

namespace Cell

variable {c : Cell} {q : Position} {v : Value}

theorem operand_of_ok (hf : c.isFormula = true) (ho : c.outcome = .ok v) (q : Position) :
    c.operand q = .ok v := by
  have hk : c.kind = .formula := beq_iff_eq.1 hf
  simp only [operand, ho, hk]

theorem outcome_of_operand (hf : c.isFormula = true) (ho : c.operand q = .ok v) :
    c.outcome = .ok v := by
  have hk : c.kind = .formula := beq_iff_eq.1 hf
  unfold operand at ho
  split at ho
  · cases ho
  · rename_i w hw
    rw [hk] at ho
    rw [hw, ← ho]

theorem exists_outcome_of_not_hasFault (hn : c.hasFault = false) : ∃ v, c.outcome = .ok v := by
  cases ho : c.outcome with
  | ok v => exact ⟨v, rfl⟩
  | error fault => simp [hasFault, fault?, ho] at hn

theorem hasFault_of_ok (ho : c.outcome = .ok v) : c.hasFault = false := by
  simp [hasFault, fault?, ho]

end Cell

namespace Grid
open Formula

section
variable [Engine] {g h : Grid} {ω : Occasion} {q : Position} {cs : List Char}

/-- Every one of the formulas with the given texts gives a value on the sheet, and that is what is
read of it. -/
def Yields (g : Grid) (ω : Occasion) (texts : Position → Option (List Char)) : Prop :=
  ∀ q cs, texts q = some cs → ∃ v, (g.resolution ω q cs).outcome = .ok v ∧ g.reading q = .ok v

theorem Yields.congr {texts : Position → Option (List Char)} (hg : g.Yields ω texts)
    (hr : ∀ q, h.reading q = g.reading q) : h.Yields ω texts := by
  intro q cs hcs
  rw [resolution_congr fun r _ _ => hr r, hr]
  exact hg q cs hcs

/-- A text that mentions no cell at which two sheets differ gives the same on both. -/
theorem resolution_eq_of_mentions (hl : ReadsListed cs q)
    (hr : ∀ r ∈ dependencies cs, h.reading r = g.reading r) :
    h.resolution ω q cs = g.resolution ω q cs :=
  resolution_congr fun r hdep _ => hr r (hl g ω r hdep)

end

/-! ## What a refresh makes of what is read -/

section
variable [Engine] {g h : Grid} {ω ω' : Occasion} {q : Position} {c : Cell}

omit [Engine] in
theorem get?_prune_of_isEmpty (hc : g.get? q = some c) (hempty : c.isEmpty = true) :
    g.prune.get? q = none := by
  rw [get?_prune, hc]
  exact Option.filter_some_neg (by simp [hempty])

omit [Engine] in
theorem get?_prune_of_not_isEmpty (hc : g.get? q = some c) (hempty : ¬c.isEmpty = true) :
    g.prune.get? q = some c := by
  rw [get?_prune, hc]
  exact Option.filter_some_pos (by simpa using hempty)

/-- Where there is no content a refresh leaves nothing to read. -/
theorem reading_refresh_of_prune (hn : g.prune.get? q = none) :
    (g.refresh ω).reading q = .ok Value.blank := by
  cases hd : (g.refresh ω).get? q with
  | none => exact reading_of_none hd
  | some d =>
    rcases get?_prune_of_refresh hd with rfl | ⟨b, hb, _⟩
    · rw [reading_of_get? hd]
      rfl
    · cases hn.symm.trans hb

/-- Of a cell without a formula a refresh only drops what has no content. -/
theorem reading_refresh_of_formulaText? (hn : g.formulaText? q = none) :
    (g.refresh ω).reading q = g.prune.reading q := by
  cases hc : g.prune.get? q with
  | none => rw [reading_of_none hc, reading_refresh_of_prune hc]
  | some c =>
    obtain ⟨d, hd, hk, hr⟩ := exists_get?_refresh _ hc
    rw [reading_of_get? hd, reading_of_get? hc]
    rw [get?_prune, Option.filter_eq_some_iff] at hc
    rcases get?_refresh_cases hd with hf | rfl | hd'
    · rw [Cell.isFormula, hk, ← Cell.isFormula, formulaText?_eq_none.1 hn c hc.1] at hf
      cases hf
    · have hempty : c.isEmpty = true := by rw [Cell.isEmpty, ← hr]; rfl
      simp [hempty] at hc
    · cases hd'.symm.trans hc.1
      rfl

theorem Keeps.reading_refresh_eq (hn : g.formulaText? q = none) (hk : Keeps (g.get? q) (h.get? q)) :
    (h.refresh ω').reading q = (g.refresh ω).reading q := by
  have hn' : h.formulaText? q = none := hk.formulaText?_eq.trans hn
  rw [reading_refresh_of_formulaText? hn, reading_refresh_of_formulaText? hn', reading, reading,
    get?_prune, get?_prune]
  rcases hk with hk | ⟨hnone, hk⟩
  · rw [hk]
  · rw [hnone, hk]
    rfl

/-- A refresh that leaves no formula with a fault gives every formula what its text gives. -/
theorem yields_refresh (hrepeats : g.IsRepeatable)
    (hsound : ∀ q c, (g.refresh ω).get? q = some c → c.isFormula = true → c.hasFault = false) :
    (g.refresh ω).Yields ω' g.formulaText? := by
  intro q cs hcs
  obtain ⟨c, hc, hf, rfl⟩ := formulaText?_eq_some.1 hcs
  by_cases hempty : c.isEmpty = true
  · -- The refresh drops the formula, which had no text.
    have hnil : c.text = [] := by simpa [Cell.isEmpty, Cell.text] using hempty
    exact ⟨Value.blank, by rw [hnil]; rfl,
      reading_refresh_of_prune (get?_prune_of_isEmpty hc hempty)⟩
  · obtain ⟨d, hd, hk, hr⟩ := exists_get?_refresh _ (get?_prune_of_not_isEmpty hc hempty)
    have hdf : d.isFormula = true := by rwa [Cell.isFormula, hk]
    have hn := hsound q d hd hdf
    obtain ⟨v, hv⟩ := Cell.exists_outcome_of_not_hasFault hn
    have htext : c.text = d.text := by rw [Cell.text, Cell.text, hr]
    have hup := resolution_refresh hd hdf hn (htext ▸ hrepeats q c.text hcs) ω'
    exact ⟨v, by rw [htext, hup, hv], by rw [reading_of_get? hd, Cell.operand_of_ok hdf hv]⟩

/-- On a sheet without faults on which a refresh changes nothing, every formula has what its text
gives. -/
theorem yields_of_steady (hrepeats : g.IsRepeatable)
    (hsound : ∀ q c, g.get? q = some c → c.hasFault = false)
    (hsteady : ∀ q, (g.refresh ω).reading q = g.reading q) : g.Yields ω' g.formulaText? := by
  refine (yields_refresh hrepeats fun q c hc hf => ?_).congr fun q => (hsteady q).symm
  rcases get?_prune_of_refresh hc with rfl | ⟨b, hb, hk, _⟩
  · rfl
  · rw [get?_prune, Option.filter_eq_some_iff] at hb
    obtain ⟨v, hv⟩ := Cell.exists_outcome_of_not_hasFault (hsound q b hb.1)
    have hread := hsteady q
    rw [reading_of_get? hc, reading_of_get? hb.1,
      Cell.operand_of_ok (by rwa [Cell.isFormula, ← hk]) hv] at hread
    exact Cell.hasFault_of_ok (Cell.outcome_of_operand hf hread)

end

end Grid

end Spreadsheet

import Mathlib.Data.Finite.Prod
import Mathlib.Data.Fintype.Card
import Spreadsheet.Proofs.Cascade.Bound
import Spreadsheet.Proofs.Cascade.Readings
import Spreadsheet.Proofs.Refresh.History

/-!
# Cascades and refreshes

On a sheet without faults, on which a refresh changes nothing, a commit leaves
each formula with the outcome that a refresh gives it, unless it leaves it with a
fault. A cascade passes over formulas with a fault, so that one stays which comes
from cells of which some are new and some still old. That takes a formula to
which the change comes on two ways: along a single one every formula goes from
its old outcome to its final one.
-/
namespace Spreadsheet
open Text Formula Relation

instance : Finite Position :=
  Finite.of_injective (fun p : Position => (p.row.toFin, p.col.toFin)) fun p q h => by
    obtain ⟨hrow, hcol⟩ := Prod.mk.inj h
    exact Position.ext_toNat (congrArg Fin.val hrow) (congrArg Fin.val hcol)

/-- A resolution has the outcome that is stored in a cell, whatever it reads. -/
def Cell.StoresOutcome (c : Cell) (r : Resolution) : Prop := r.outcome = c.outcome

theorem Cell.storesOutcome_self (c : Cell) : c.StoresOutcome ⟨c.outcome, c.dependsOn⟩ := rfl

namespace Grid

/-- If no formula reaches itself, what holds of a place once it holds of all cells in its text holds
of all places. -/
theorem mentions_induction {g : Grid} (hacyclic : ∀ q, ¬TransGen g.Mentions q q)
    {P : Position → Prop} (step : ∀ q, (∀ r, g.Mentions q r → P r) → P q) (q : Position) :
    P q := by
  have htrans : IsTrans Position fun r q => TransGen g.Mentions q r :=
    ⟨fun _ _ _ hab hbc => hbc.trans hab⟩
  have hirrefl : Std.Irrefl fun r q => TransGen g.Mentions q r := ⟨hacyclic⟩
  have hwf : WellFounded fun r q => TransGen g.Mentions q r :=
    Finite.wellFounded_of_trans_of_irrefl _
  induction q using hwf.induction with
  | _ q ih => exact step q fun r hqr => ih r (.single hqr)

/-! ## Commits on healthy sheets -/

/-- A commit on a sheet without faults, on which a refresh changes nothing. Before and after it no
formula depends on the occasion or reaches itself through the cells in the texts, and a refresh
after it leaves no fault. -/
structure IsHealthyCommit [Engine] (g : Grid) (ω seen : Occasion) (p : Position)
    (input : List Char) : Prop where
  repeatable_before : g.IsRepeatable
  repeatable : (g.commit ω p input).IsRepeatable
  acyclic_before : ∀ q, ¬TransGen g.Mentions q q
  acyclic : ∀ q, ¬TransGen (g.commit ω p input).Mentions q q
  sound : ∀ q c, g.get? q = some c → c.hasFault = false
  steady : ∀ q, (g.refresh seen).reading q = g.reading q
  mended : ∀ q c, ((g.commit ω p input).refresh seen).get? q = some c → c.hasFault = false

section
variable [Engine] {g : Grid} {ω seen : Occasion} {p q : Position} {input : List Char} {c : Cell}

/-- A cascade keeps all texts and every place without a formula. -/
theorem keeps_cascade (ω : Occasion) (bound : Nat) (p : Position) (g : Grid) :
    (cascade ω bound p g).2.formulaText? = g.formulaText? ∧
      ∀ q, g.formulaText? q = none → Keeps (g.get? q) ((cascade ω bound p g).2.get? q) := by
  refine cascade_related
    (R := fun g h => h.formulaText? = g.formulaText? ∧
      ∀ q, g.formulaText? q = none → Keeps (g.get? q) (h.get? q))
    (fun g => ⟨rfl, fun _ _ => .refl _⟩) ?_
    (fun ω g t => ⟨formulaText?_recompute ω g t, ?_⟩) ω bound p g
  · rintro g h k ⟨hgh, hg⟩ ⟨hhk, hh⟩
    exact ⟨hhk.trans hgh, fun q hq => (hg q hq).trans (hh q (by rw [hgh, hq]))⟩
  · intro q hq
    rcases recompute_cases _ g t with ⟨_, he⟩ | ⟨c, k, hc, hf, hk, he⟩
    · rw [he]
      exact .refl _
    · have hne : t ≠ q := by
        rintro rfl
        cases hf.symm.trans (formulaText?_eq_none.1 hq c hc)
      rw [he, Table.get?_insert, if_neg hne]
      exact hk q

omit [Engine] in
/-- What has content is read as before when a sheet is pruned, but for a label without a text. -/
theorem reading_prune_of_holdsContent (hc : g.get? q = some c) (hholds : c.HoldsContent)
    (hf : c.isFormula = false) (hlabel : c.kind = .label → c.isEmpty = false) :
    g.prune.reading q = g.reading q := by
  rw [reading_of_get? hc, reading, get?_prune, hc]
  cases hempty : c.isEmpty with
  | false => rw [Option.filter_some_pos (by simp [hempty])]
  | true =>
    rw [Option.filter_some_neg (by simp [hempty])]
    unfold Cell.HoldsContent at hholds
    unfold Cell.operand
    cases hk : c.kind with
    | empty =>
      rw [hk] at hholds
      simp [hholds.2]
    | number =>
      rw [hk] at hholds
      obtain ⟨x, hx, _⟩ := hholds
      have hnil : c.text = [] := by simpa [Cell.isEmpty, Cell.text] using hempty
      rw [hnil, finite?, Number.read?_nil] at hx
      cases hx
    | label =>
      rw [hlabel hk] at hempty
      cases hempty
    | formula => simp [Cell.isFormula, hk] at hf

/-- Only a lone mark makes a label without a text. -/
theorem trim_eq_of_isEmpty_label (hk : (g.evaluateInput (ω.stage 0) p input).1.kind = .label)
    (hempty : (g.evaluateInput (ω.stage 0) p input).1.isEmpty = true) : trim input = ['\''] := by
  have hnil : ∀ cs, (String.ofList cs).isEmpty = true → cs = [] := by
    intro cs hcs
    rw [← String.toList_ofList (l := cs), String.isEmpty_iff.1 hcs]
    rfl
  unfold evaluateInput at hk hempty
  split at hempty
  · rename_i hinput
    simp only [hinput] at hk
    cases hk
  · rename_i label hinput
    rw [hinput, hnil label hempty]
  · rename_i formula hinput
    simp only [hinput] at hk
    cases hk
  · rename_i hne _ _
    refine absurd (hnil (trim input) ?_) (hne ·)
    split at hempty
    · exact hempty
    · dsimp only at hempty
      unfold unmarkedCell at hempty
      split at hempty <;> exact hempty

namespace IsHealthyCommit
variable (hg : g.IsHealthyCommit ω seen p input)
include hg

theorem commit_eq :
    g.commit ω p input = (g.enter (ω.stage 0) p input).cascadeFrom (ω.stage 1) p := by
  have hfault : g.hasFaultAt p = false := by
    cases hc : g.get? p with
    | none => rw [hasFaultAt, hc]; rfl
    | some c => rw [hasFaultAt, hc, Option.any_some, hg.sound p c hc]
  rw [Grid.commit_eq, refreshesAfter, hfault]
  rfl

theorem formulaText? :
    (g.commit ω p input).formulaText? = (g.enter (ω.stage 0) p input).formulaText? := by
  rw [hg.commit_eq, formulaText?_cascadeFrom]

theorem formulaText?_of_ne (hq : q ≠ p) :
    (g.commit ω p input).formulaText? q = g.formulaText? q := by
  rw [hg.formulaText?]
  exact (keeps_enter g _ input hq).formulaText?_eq

/-- The cascade of the commit comes to an end. -/
theorem eq_cascade : g.commit ω p input =
    (cascade ((ω.stage 1).stage 0) (2 * (g.enter (ω.stage 0) p input).size) p
      (g.enter (ω.stage 0) p input)).2 := by
  have hment : (g.commit ω p input).Mentions = (g.enter (ω.stage 0) p input).Mentions :=
    mentions_congr hg.formulaText?
  have hacyclic := hg.acyclic
  rw [hment] at hacyclic
  rw [hg.commit_eq]
  exact (cascadeFrom_of_acyclic hacyclic _ _).2

theorem keeps (hq : (g.commit ω p input).formulaText? q = none) :
    Keeps ((g.enter (ω.stage 0) p input).get? q) ((g.commit ω p input).get? q) := by
  rw [hg.formulaText?] at hq
  rw [hg.eq_cascade]
  exact (keeps_cascade _ _ p _).2 q hq

theorem keeps_of_ne (hq : (g.commit ω p input).formulaText? q = none) (hne : q ≠ p) :
    Keeps (g.get? q) ((g.commit ω p input).get? q) :=
  (keeps_enter g _ input hne).trans (hg.keeps hq)

theorem reading_refresh_of_ne (hq : (g.commit ω p input).formulaText? q = none) (hne : q ≠ p) :
    ((g.commit ω p input).refresh seen).reading q = g.reading q := by
  have hq' : g.formulaText? q = none := (hg.formulaText?_of_ne hne).symm.trans hq
  rw [(hg.keeps_of_ne hq hne).reading_refresh_eq hq', hg.steady]

/-- A cell that is entered is read as it will be read after a refresh, if it is no formula and no
label without a text. -/
theorem reading_refresh_self (hp : (g.commit ω p input).formulaText? p = none)
    (hlabel : (g.evaluateInput (ω.stage 0) p input).1.kind = .label →
      (g.evaluateInput (ω.stage 0) p input).1.isEmpty = false) :
    ((g.commit ω p input).refresh seen).reading p =
      (g.evaluateInput (ω.stage 0) p input).1.operand p := by
  have hc := (hg.keeps hp).eq_some (get?_enter_self g _ p input)
  rw [reading_refresh_of_formulaText? hp,
    reading_prune_of_holdsContent hc (g.evaluateInput_holdsContent _ p input)
      (formulaText?_eq_none.1 hp _ hc) hlabel,
    reading_of_get? hc]

theorem yields : g.Yields seen g.formulaText? :=
  yields_of_steady hg.repeatable_before hg.sound hg.steady

theorem yields_refresh :
    ((g.commit ω p input).refresh seen).Yields seen (g.commit ω p input).formulaText? :=
  Grid.yields_refresh hg.repeatable fun q c hc _ => hg.mended q c hc

end IsHealthyCommit

end

/-! ## Values that are final -/

section
variable [Engine] {g k : Grid} {ω seen : Occasion} {p q r : Position} {input : List Char}
    {cs : List Char} {v : Value}

theorem IsHealthyCommit.outcome_resolution (hg : g.IsHealthyCommit ω seen p input)
    (hl : (g.commit ω p input).IsLegible) {c : Cell} (hc : (g.commit ω p input).get? q = some c)
    (hf : c.isFormula = true) (hn : c.hasFault = false) :
    ((g.commit ω p input).resolution seen q c.text).outcome = c.outcome := by
  have hstale : ∀ q, q ≠ p → ¬g.Stale seen Cell.StoresOutcome q := by
    rintro q _ ⟨c, hc, hf, _, hno⟩
    obtain ⟨v, ho, hread⟩ := hg.yields q c.text (formulaText?_eq_some.2 ⟨c, hc, hf, rfl⟩)
    rw [reading_of_get? hc] at hread
    exact hno (ho.trans (Cell.outcome_of_operand hf hread).symm)
  by_contra hno
  exact not_stale_commit Cell.storesOutcome_self hg.acyclic hl hstale q ⟨c, hc, hf, hn, hno⟩

/-- Every value that can be read after the commit is the one that is read after a refresh. -/
theorem IsHealthyCommit.reading_refresh (hg : g.IsHealthyCommit ω seen p input)
    (hl : (g.commit ω p input).IsLegible) (q : Position) :
    ∀ v, (g.commit ω p input).reading q = .ok v →
      ((g.commit ω p input).refresh seen).reading q = .ok v := by
  induction q using mentions_induction hg.acyclic with
  | step q ih =>
    intro v hv
    cases ht : (g.commit ω p input).formulaText? q with
    | none =>
      by_cases hq : q = p
      · subst hq
        have hc := (hg.keeps ht).eq_some (get?_enter_self g _ q input)
        rw [reading_of_get? hc] at hv
        rw [hg.reading_refresh_self ht fun hlabel => ?_, hv]
        -- A label gives no value.
        unfold Cell.operand at hv
        rw [hlabel] at hv
        split at hv <;> cases hv
      · rw [hg.reading_refresh_of_ne ht hq, ← hv]
        exact (hg.keeps_of_ne ht hq).reading_eq.symm
    | some cs =>
      obtain ⟨c, hc, hf, rfl⟩ := formulaText?_eq_some.1 ht
      rw [reading_of_get? hc] at hv
      have ho := Cell.outcome_of_operand hf hv
      have hfresh := hg.outcome_resolution hl hc hf (Cell.hasFault_of_ok ho)
      rw [ho] at hfresh
      obtain ⟨l, hdialogue, ha⟩ := exists_dialogue seen c.text q operand (g.commit ω p input)
      have hok := hdialogue.ending.of_ok hfresh
      -- All that the formula reads has a value, which is final.
      have hsame : ((g.commit ω p input).refresh seen).resolution seen q c.text =
          (g.commit ω p input).resolution seen q c.text := by
        refine resolution_congr fun r hr _ => ?_
        have hmention : (g.commit ω p input).Mentions q r :=
          ⟨c.text, ht, (hl q c.text ht).1 _ _ r hr⟩
        rw [resolution, hok.1] at hr
        obtain ⟨x, hx, rfl⟩ := List.mem_map.1 hr
        obtain ⟨w, hw⟩ := hok.2 x hx
        rw [(answers_operand ha).1 x hx] at hw
        rw [ih x.cell hmention w hw, hw]
      obtain ⟨w, hw, hread⟩ := hg.yields_refresh q c.text ht
      rw [hsame, hfresh] at hw
      cases hw
      exact hread

end

/-! ## Formulas to which a change comes on a single way -/

/-- The texts lead from a place to another one on at most one way: whatever formula they lead to
first, it mentions at most one cell that leads further to the other place. -/
def IsUnbranched (g : Grid) (p q : Position) : Prop :=
  ∀ r a b, ReflTransGen g.Mentions q r → g.Mentions r a → g.Mentions r b →
    ReflTransGen g.Mentions a p → ReflTransGen g.Mentions b p → a = b

/-- A sheet in the course of a cascade. What leads to the origin on a single way is read as before
the edit or already as in the end. -/
structure Stage [Engine] (seen : Occasion) (before after : Grid) (p : Position) (k : Grid) :
    Prop where
  texts : k.formulaText? = after.formulaText?
  origin : k.reading p = (after.refresh seen).reading p
  mixed : ∀ q, after.IsUnbranched p q →
    k.reading q = before.reading q ∨ k.reading q = (after.refresh seen).reading q

section
variable [Engine] {g k : Grid} {ω seen : Occasion} {p q r : Position} {input : List Char}
    {cs : List Char} {v : Value}

omit [Engine] in
theorem IsUnbranched.of_mentions (h : g.IsUnbranched p q) (hr : g.Mentions q r) :
    g.IsUnbranched p r :=
  fun t a b ht => h t a b (.head hr ht)

theorem reading_recompute_of_ne {t : Position} (hq : q ≠ t) :
    (k.recompute ω t).reading q = k.reading q := by
  rcases recompute_cases _ k t with ⟨_, he⟩ | ⟨c, k', _, _, hk, he⟩
  · rw [he]
  · rw [he, reading, Table.get?_insert, if_neg hq.symm, ← reading]
    exact hk.reading_eq q

theorem reading_recompute_self (ht : k.formulaText? q = some cs) (hcs : Formula.IsRepeatable cs)
    (ho : (k.resolution seen q cs).outcome = .ok v) : (k.recompute ω q).reading q = .ok v := by
  rcases recompute_cases ω k q with ⟨hn, _⟩ | ⟨c, k', hc, hf, _, he⟩
  · cases hn.symm.trans ht
  · obtain ⟨d, hd, _, rfl⟩ := formulaText?_eq_some.1 ht
    cases hc.symm.trans hd
    rw [resolution_onOccasion hcs seen (ω.cell q)] at ho
    rw [he, reading_of_get? ((Table.get?_insert ..).trans (if_pos rfl))]
    exact Cell.operand_of_ok (c := c.resolved _ _) hf ho q

namespace IsHealthyCommit
variable (hg : g.IsHealthyCommit ω seen p input) (hl : (g.commit ω p input).IsLegible)
include hg hl

/-- A cell that does not lead to the edited one is read as before. -/
theorem reading_refresh_of_not_leads (q : Position) :
    ¬ReflTransGen (g.commit ω p input).Mentions q p →
      ((g.commit ω p input).refresh seen).reading q = g.reading q := by
  induction q using mentions_induction hg.acyclic with
  | step q ih =>
    intro hq
    have hne : q ≠ p := fun he => hq (he ▸ .refl)
    cases ht : (g.commit ω p input).formulaText? q with
    | none => exact hg.reading_refresh_of_ne ht hne
    | some cs =>
      obtain ⟨v, hv, hread⟩ := hg.yields q cs ((hg.formulaText?_of_ne hne).symm.trans ht)
      obtain ⟨w, hw, hread'⟩ := hg.yields_refresh q cs ht
      have hsame :
          ((g.commit ω p input).refresh seen).resolution seen q cs = g.resolution seen q cs :=
        resolution_eq_of_mentions (hl q cs ht).1 fun r hr =>
          ih r ⟨cs, ht, hr⟩ fun hrp => hq (.head ⟨cs, ht, hr⟩ hrp)
      rw [hsame, hv] at hw
      cases hw
      rw [hread, hread']

omit hl in
/-- A formula in the edited cell leads nowhere that the edit can change. -/
theorem not_leads_of_mentions (hr : (g.commit ω p input).Mentions p r) :
    ¬ReflTransGen (g.commit ω p input).Mentions r p :=
  fun hrp => hg.acyclic p (.head' hr hrp)

/-- The sheet on which the cascade starts. -/
theorem stage_enter (hinput : trim input ≠ ['\'']) :
    Stage seen g (g.commit ω p input) p (g.enter (ω.stage 0) p input) := by
  have horigin :
      (g.enter (ω.stage 0) p input).reading p = ((g.commit ω p input).refresh seen).reading p := by
    rw [reading_of_get? (get?_enter_self g _ p input)]
    cases ht : (g.commit ω p input).formulaText? p with
    | none =>
      refine (hg.reading_refresh_self ht fun hk => ?_).symm
      by_contra hempty
      exact hinput (trim_eq_of_isEmpty_label hk (by simpa using hempty))
    | some cs =>
      rw [hg.formulaText?] at ht
      obtain ⟨c, hc, hf, rfl⟩ := formulaText?_eq_some.1 ht
      rw [← hg.formulaText?] at ht
      rw [get?_enter_self] at hc
      cases hc
      obtain ⟨v, hv, hread⟩ := hg.yields_refresh p _ ht
      have hsame : ((g.commit ω p input).refresh seen).resolution seen p
            (g.evaluateInput (ω.stage 0) p input).1.text =
          g.resolution seen p (g.evaluateInput (ω.stage 0) p input).1.text :=
        resolution_eq_of_mentions (hl p _ ht).1 fun r hr =>
          hg.reading_refresh_of_not_leads hl r (hg.not_leads_of_mentions ⟨_, ht, hr⟩)
      rw [hsame, resolution_onOccasion (hl p _ ht).2 seen (ω.stage 0),
        (evaluateInput_spec g _ p input).2 hf] at hv
      rw [hread]
      exact Cell.operand_of_ok hf hv p
  refine ⟨hg.formulaText?.symm, horigin, fun q _ => ?_⟩
  by_cases hq : q = p
  · exact .inr (hq ▸ horigin)
  · exact .inl (keeps_enter g _ input hq).reading_eq

/-- A formula on a single way is resolved as before the edit or as in the end. -/
theorem resolution_of_stage (hk : Stage seen g (g.commit ω p input) p k)
    (hq : (g.commit ω p input).IsUnbranched p q) (ht : k.formulaText? q = some cs) :
    k.resolution seen q cs = ((g.commit ω p input).refresh seen).resolution seen q cs ∨
      q ≠ p ∧ k.resolution seen q cs = g.resolution seen q cs := by
  rw [hk.texts] at ht
  have hmixed : ∀ r ∈ dependencies cs, k.reading r = g.reading r ∨
      k.reading r = ((g.commit ω p input).refresh seen).reading r := fun r hr =>
    hk.mixed r (hq.of_mentions ⟨cs, ht, hr⟩)
  by_cases hall : ∀ r ∈ dependencies cs,
      k.reading r = ((g.commit ω p input).refresh seen).reading r
  · exact .inl (resolution_eq_of_mentions (hl q cs ht).1 hall)
  · -- One cell is still read as before, and no other one in the text can have changed.
    obtain ⟨a, hnot⟩ := not_forall.1 hall
    obtain ⟨ha, hold⟩ := Classical.not_imp.1 hnot
    have hleads : ReflTransGen (g.commit ω p input).Mentions a p := by
      by_contra hno
      rw [hg.reading_refresh_of_not_leads hl a hno] at hold
      exact hold ((hmixed a ha).elim id fun he =>
        he.trans (hg.reading_refresh_of_not_leads hl a hno))
    refine .inr ⟨?_, resolution_eq_of_mentions (hl q cs ht).1 fun r hr => ?_⟩
    · rintro rfl
      exact hg.not_leads_of_mentions ⟨cs, ht, ha⟩ hleads
    · by_cases hr' : ReflTransGen (g.commit ω p input).Mentions r p
      · rw [← hq q a r .refl ⟨cs, ht, ha⟩ ⟨cs, ht, hr⟩ hleads hr']
        exact (hmixed a ha).resolve_right hold
      · exact (hmixed r hr).elim id fun he =>
          he.trans (hg.reading_refresh_of_not_leads hl r hr')

theorem stage_recompute (hk : Stage seen g (g.commit ω p input) p k) (ω' : Occasion)
    (t : Position) : Stage seen g (g.commit ω p input) p (k.recompute ω' t) := by
  have htexts := (formulaText?_recompute ω' k t).trans hk.texts
  cases ht : k.formulaText? t with
  | none =>
    rcases recompute_cases ω' k t with ⟨_, he⟩ | ⟨c, _, hc, hf, _, _⟩
    · rwa [he]
    · cases hf.symm.trans (formulaText?_eq_none.1 ht c hc)
  | some cs =>
    have ht' : (g.commit ω p input).formulaText? t = some cs := hk.texts ▸ ht
    obtain ⟨v, hv, hread⟩ := hg.yields_refresh t cs ht'
    -- The recomputed formula itself, if it is on a single way.
    have hself : (g.commit ω p input).IsUnbranched p t →
        t ≠ p ∧ (k.recompute ω' t).reading t = g.reading t ∨
          (k.recompute ω' t).reading t = ((g.commit ω p input).refresh seen).reading t := by
      intro hq
      rcases hg.resolution_of_stage hl hk hq ht with hsame | ⟨hne, hsame⟩
      · exact .inr ((reading_recompute_self ht (hl t cs ht').2 (hsame ▸ hv)).trans hread.symm)
      · obtain ⟨w, hw, hold⟩ := hg.yields t cs ((hg.formulaText?_of_ne hne).symm.trans ht')
        exact .inl ⟨hne, (reading_recompute_self ht (hl t cs ht').2 (hsame ▸ hw)).trans hold.symm⟩
    refine ⟨htexts, ?_, fun q hq => ?_⟩
    · by_cases hp : p = t
      · subst hp
        have hone : (g.commit ω p input).IsUnbranched p p := fun r a _ hr ha _ hap _ =>
          absurd ((TransGen.tail' hr ha).trans_left hap) (hg.acyclic p)
        exact (hself hone).resolve_left fun h => h.1 rfl
      · rw [reading_recompute_of_ne hp]
        exact hk.origin
    · by_cases hqt : q = t
      · subst hqt
        exact (hself hq).imp_left And.right
      · rw [reading_recompute_of_ne hqt]
        exact hk.mixed q hq

theorem stage_commit (hinput : trim input ≠ ['\'']) :
    Stage seen g (g.commit ω p input) p (g.commit ω p input) := by
  have hrun := cascade_related
    (R := fun h k => Stage seen g (g.commit ω p input) p h → Stage seen g (g.commit ω p input) p k)
    (fun _ h => h) (fun h k hs => k (h hs)) (fun ω' k t hk => hg.stage_recompute hl hk ω' t)
    ((ω.stage 1).stage 0) (2 * (g.enter (ω.stage 0) p input).size) p
    (g.enter (ω.stage 0) p input) (hg.stage_enter hl hinput)
  rwa [← hg.eq_cascade] at hrun

/-- A fault that the commit leaves is in a formula to which the change comes on two ways. -/
theorem of_hasFault (hinput : trim input ≠ ['\'']) {c : Cell}
    (hc : (g.commit ω p input).get? q = some c) (hn : c.hasFault = true) :
    c.isFormula = true ∧ ¬(g.commit ω p input).IsUnbranched p q := by
  have hf : c.isFormula = true := by
    by_contra hf
    have ht : (g.commit ω p input).formulaText? q = none := by
      rw [formulaText?_eq_none]
      rintro d hd
      cases hc.symm.trans hd
      simpa using hf
    by_cases hq : q = p
    · subst hq
      have hc' := (hg.keeps ht).eq_some (get?_enter_self g _ q input)
      cases hc.symm.trans hc'
      exact hf ((g.evaluateInput_holdsContent _ q input).isFormula_of_hasFault hn)
    · rcases hg.keeps_of_ne ht hq with hkeep | ⟨_, hblank⟩
      · rw [hg.sound q c (hkeep ▸ hc)] at hn
        cases hn
      · cases hblank.symm.trans hc
        cases hn
  refine ⟨hf, fun hq => ?_⟩
  have ht : (g.commit ω p input).formulaText? q = some c.text :=
    formulaText?_eq_some.2 ⟨c, hc, hf, rfl⟩
  have hvalue : ∃ v, (g.commit ω p input).reading q = .ok v := by
    have hstage := hg.stage_commit hl hinput
    obtain ⟨v, _, hv⟩ := hg.yields_refresh q c.text ht
    by_cases hqp : q = p
    · subst hqp
      exact ⟨v, hstage.origin.trans hv⟩
    · obtain ⟨w, _, hw⟩ := hg.yields q c.text ((hg.formulaText?_of_ne hqp).symm.trans ht)
      exact (hstage.mixed q hq).elim (fun h => ⟨w, h.trans hw⟩) fun h => ⟨v, h.trans hv⟩
  obtain ⟨v, hv⟩ := hvalue
  rw [reading_of_get? hc] at hv
  rw [Cell.hasFault_of_ok (Cell.outcome_of_operand hf hv)] at hn
  cases hn

end IsHealthyCommit

end

/-- A commit after a refresh is healthy if no formula depends on the occasion, the sheets before and
after it mention cells to the right only, and they have no faults once they are refreshed. -/
theorem isHealthyCommit_refresh [Engine] {g : Grid} {ω seen : Occasion} {p : Position}
    {input : List Char}
    (hrepeatable : (g.refresh seen).IsRepeatable ∧ ((g.refresh seen).commit ω p input).IsRepeatable)
    (hright : (g.refresh seen).IsRightward ∧ ((g.refresh seen).commit ω p input).IsRightward)
    (hentries : (∀ e ∈ (g.refresh seen).entries, e.2.hasFault = false) ∧
      ∀ e ∈ (((g.refresh seen).commit ω p input).refresh seen).entries, e.2.hasFault = false) :
    (g.refresh seen).IsHealthyCommit ω seen p input where
  repeatable_before := hrepeatable.1
  repeatable := hrepeatable.2
  acyclic_before := hright.1.acyclic
  acyclic := hright.2.acyclic
  sound q c hc := hentries.1 (q, c) ((Table.mem_entries_iff _ q c).2 hc)
  steady q := by rw [refresh_congr (sameContent_refresh _ g)]
  mended q c hc := hentries.2 (q, c) ((Table.mem_entries_iff _ q c).2 hc)

end Grid

namespace Document
open Grid

/-- A commit on a healthy sheet gives every formula that it leaves without a fault the outcome that
a refresh gives it, if the formulas read only cells in their texts. Unless the input is a label
without a text, it leaves a fault only in formulas to which the edited cell leads on two ways. -/
theorem commit_agrees_with_refresh [Engine] {d : Document} {ω seen : Occasion} {p : Position}
    {input : List Char} (hd : d.grid.IsHealthyCommit ω seen p input)
    (hlisted : ∀ q c, (d.set ω p input).grid.get? q = some c → c.isFormula = true →
      ReadsListed c.text q) :
    (∀ ω' q c c', (d.set ω p input).grid.get? q = some c → c.isFormula = true →
      c.hasFault = false → ((d.set ω p input).refresh ω').grid.get? q = some c' →
      c.outcome = c'.outcome) ∧
    (trim input ≠ ['\''] → ∀ q c, (d.set ω p input).grid.get? q = some c → c.hasFault = true →
      c.isFormula = true ∧ ¬(d.set ω p input).grid.IsUnbranched p q) := by
  have hl : (d.grid.commit ω p input).IsLegible := by
    intro q cs hcs
    obtain ⟨c, hc, hf, rfl⟩ := formulaText?_eq_some.1 hcs
    exact ⟨hlisted q c hc hf, hd.repeatable q c.text hcs⟩
  refine ⟨fun ω' q c c' hc hf hn hc' => ?_,
    fun hinput q c hc hn => hd.of_hasFault hl hinput hc hn⟩
  obtain ⟨v, hv⟩ := Cell.exists_outcome_of_not_hasFault hn
  have hread : (d.grid.commit ω p input).reading q = .ok v :=
    (reading_of_get? hc).trans (Cell.operand_of_ok hf hv q)
  have hfinal := hd.reading_refresh hl q v hread
  change ((d.grid.commit ω p input).refresh ω').get? q = some c' at hc'
  rw [hd.repeatable.refresh_eq seen ω', reading_of_get? hc'] at hfinal
  rcases get?_prune_of_refresh hc' with rfl | ⟨b, hb, hk, _⟩
  · rw [hv, ← hfinal]
    rfl
  · change (d.grid.commit ω p input).get? q = some c at hc
    rw [get?_prune, hc, Option.filter_eq_some_iff] at hb
    cases hb.1
    rw [hv, Cell.outcome_of_operand (by rwa [Cell.isFormula, hk]) hfinal]

section
open scoped StandardLibrary

/-- A change at the end of a row of references comes to its beginning. -/
theorem commit_agrees_with_refresh_row : ∃ (d : Document) (c c' : Cell),
    d.grid = Grid.refresh (Table.ofList [(⟨0, 0⟩, .formula "B1".toList),
      (⟨0, 1⟩, .formula "C1".toList), (⟨0, 2⟩, .formula "\"x\"".toList)]) .start ∧
    (d.set .start ⟨0, 2⟩ "=\"y\"".toList).grid.get? ⟨0, 0⟩ = some c ∧ c.hasFault = false ∧
    ((d.set .start ⟨0, 2⟩ "=\"y\"".toList).refresh .start).grid.get? ⟨0, 0⟩ = some c' ∧
    (c'.outcome matches .ok (.text "y")) = true ∧ c.outcome = c'.outcome := by
  obtain ⟨g, hg⟩ : ∃ g : Grid, g = Grid.refresh (Table.ofList [(⟨0, 0⟩, .formula "B1".toList),
      (⟨0, 1⟩, .formula "C1".toList), (⟨0, 2⟩, .formula "\"x\"".toList)]) .start := ⟨_, rfl⟩
  have hhealthy : g.IsHealthyCommit .start .start ⟨0, 2⟩ "=\"y\"".toList := by
    rw [hg]
    exact isHealthyCommit_refresh ⟨StandardLibrary.sheet_isRepeatable (by decide +kernel),
        StandardLibrary.sheet_isRepeatable (by decide +kernel)⟩ (by decide +kernel)
        (by decide +kernel)
  have htexts : ∀ e ∈ (g.commit .start ⟨0, 2⟩ "=\"y\"".toList).entries,
      e.2.text ∈ ["B1".toList, "C1".toList, "\"y\"".toList] := by
    rw [hg]
    decide +kernel
  have hcells : ((g.commit .start ⟨0, 2⟩ "=\"y\"".toList).get? ⟨0, 0⟩).map
        (fun c => (c.isFormula, c.hasFault)) = some (true, false) ∧
      (((g.commit .start ⟨0, 2⟩ "=\"y\"".toList).refresh .start).get? ⟨0, 0⟩).map
        (fun c => c.outcome matches .ok (.text "y")) = some true := by
    rw [hg]
    decide +kernel
  obtain ⟨c, hc, hs⟩ := Option.map_eq_some_iff.1 hcells.1
  obtain ⟨c', hc', hs'⟩ := Option.map_eq_some_iff.1 hcells.2
  simp only [Prod.mk.injEq] at hs
  have hlisted : ∀ q b, (g.commit .start ⟨0, 2⟩ "=\"y\"".toList).get? q = some b →
      b.isFormula = true → ReadsListed b.text q := by
    intro q b hb _
    have htext := htexts (q, b) ((Table.mem_entries_iff _ q b).2 hb)
    simp only [List.mem_cons, List.not_mem_nil, or_false] at htext
    rcases htext with htext | htext | htext <;> rw [htext]
    · exact readsListed_of_name (StandardLibrary.isRepeatable (by decide +kernel)) "B1"
        (by decide +kernel) (q := ⟨0, 1⟩) (by decide +kernel) (by decide +kernel)
    · exact readsListed_of_name (StandardLibrary.isRepeatable (by decide +kernel)) "C1"
        (by decide +kernel) (q := ⟨0, 2⟩) (by decide +kernel) (by decide +kernel)
    · exact readsListed_of_no_name (by decide +kernel)
  exact ⟨{ new with grid := g }, c, c', hg, hc, hs.2, hc', hs',
    (commit_agrees_with_refresh (d := { new with grid := g }) hhealthy hlisted).1 _ _ c c' hc hs.1
      hs.2 hc'⟩

/-- Commits on healthy sheets that a refresh has still something to do after. A formula compares two
cells of which only one is new, fails and is passed over once both are new. A formula reads a cell
with the name of a function, which counts as no mention. A formula reads a label without a text,
which a refresh drops. -/
theorem exists_commit_unlike_refresh :
    (∃ (d : Document) (p q : Position) (input : List Char) (c : Cell),
      d.grid.IsHealthyCommit .start .start p input ∧ trim input ≠ ['\''] ∧
      (d.set .start p input).grid.get? q = some c ∧ c.hasFault = true) ∧
    (∃ (d : Document) (p q : Position) (input : List Char) (c c' : Cell),
      d.grid.IsHealthyCommit .start .start p input ∧ (d.set .start p input).grid.get? q = some c ∧
      c.isFormula = true ∧ c.hasFault = false ∧
      ((d.set .start p input).refresh .start).grid.get? q = some c' ∧ c.outcome ≠ c'.outcome) ∧
    ∃ (d : Document) (p q : Position) (input : List Char) (c : Cell),
      d.grid.IsHealthyCommit .start .start p input ∧ trim input = ['\''] ∧
      (d.set .start p input).grid.get? q = some c ∧ c.hasFault = true := by
  refine ⟨?_, ?_, ?_⟩
  · obtain ⟨g, hg⟩ : ∃ g : Grid, g = Grid.refresh (Table.ofList
        [(⟨0, 0⟩, .formula "IIF(C1=B1, 1, FOO)".toList), (⟨0, 1⟩, .formula "C1".toList),
          (⟨0, 2⟩, .formula "\"x\"".toList)]) .start := ⟨_, rfl⟩
    have hhealthy : g.IsHealthyCommit .start .start ⟨0, 2⟩ "=\"y\"".toList := by
      rw [hg]
      exact isHealthyCommit_refresh ⟨StandardLibrary.sheet_isRepeatable (by decide +kernel),
        StandardLibrary.sheet_isRepeatable (by decide +kernel)⟩ (by decide +kernel)
        (by decide +kernel)
    have hcell : ((g.commit .start ⟨0, 2⟩ "=\"y\"".toList).get? ⟨0, 0⟩).map Cell.hasFault =
        some true := by
      rw [hg]
      decide +kernel
    obtain ⟨c, hc, hn⟩ := Option.map_eq_some_iff.1 hcell
    exact ⟨{ new with grid := g }, ⟨0, 2⟩, ⟨0, 0⟩, "=\"y\"".toList, c, hhealthy, by decide, hc, hn⟩
  · obtain ⟨g, hg⟩ : ∃ g : Grid, g = Grid.refresh (Table.ofList
        [(⟨0, 0⟩, .formula "LOG10".toList)]) .start := ⟨_, rfl⟩
    have hhealthy : g.IsHealthyCommit .start .start ⟨9, 8508⟩ "=\"x\"".toList := by
      rw [hg]
      exact isHealthyCommit_refresh ⟨StandardLibrary.sheet_isRepeatable (by decide +kernel),
        StandardLibrary.sheet_isRepeatable (by decide +kernel)⟩ (by decide +kernel)
        (by decide +kernel)
    have hcells : ((g.commit .start ⟨9, 8508⟩ "=\"x\"".toList).get? ⟨0, 0⟩).map (fun c =>
          (c.isFormula, c.hasFault, (c.outcome matches .ok (.text _) : Bool))) =
          some (true, false, false) ∧
        (((g.commit .start ⟨9, 8508⟩ "=\"x\"".toList).refresh .start).get? ⟨0, 0⟩).map (fun c =>
          (c.outcome matches .ok (.text _) : Bool)) = some true := by
      rw [hg]
      decide +kernel
    obtain ⟨c, hc, hs⟩ := Option.map_eq_some_iff.1 hcells.1
    obtain ⟨c', hc', hs'⟩ := Option.map_eq_some_iff.1 hcells.2
    simp only [Prod.mk.injEq] at hs
    refine ⟨{ new with grid := g }, ⟨9, 8508⟩, ⟨0, 0⟩, "=\"x\"".toList, c, c', hhealthy, hc, hs.1,
      hs.2.1, hc', fun heq => ?_⟩
    rw [heq, hs'] at hs
    cases hs.2.2
  · obtain ⟨g, hg⟩ : ∃ g : Grid, g = Grid.refresh (Table.ofList
        [(⟨0, 0⟩, .formula "B1".toList)]) .start := ⟨_, rfl⟩
    have hhealthy : g.IsHealthyCommit .start .start ⟨0, 1⟩ ['\''] := by
      rw [hg]
      exact isHealthyCommit_refresh ⟨StandardLibrary.sheet_isRepeatable (by decide +kernel),
        StandardLibrary.sheet_isRepeatable (by decide +kernel)⟩ (by decide +kernel)
        (by decide +kernel)
    have hcell : ((g.commit .start ⟨0, 1⟩ ['\'']).get? ⟨0, 0⟩).map Cell.hasFault = some true := by
      rw [hg]
      decide +kernel
    obtain ⟨c, hc, hn⟩ := Option.map_eq_some_iff.1 hcell
    exact ⟨{ new with grid := g }, ⟨0, 1⟩, ⟨0, 0⟩, ['\''], c, hhealthy, by decide, hc, hn⟩

end

end Document

end Spreadsheet

import Spreadsheet.Proofs.Cascade.Locality
import Spreadsheet.Proofs.Cascade.Readings
import Spreadsheet.Proofs.Draft

/-!
# Clearing a cell and committing an empty input

A cleared cell is gone, and an empty input leaves a blank one in its place. A
blank cell reads like a missing one, so that the cascades of the two edits go
the same way, if no formula depends on the occasion. They end alike if they come
to an end, which the smaller of their bounds has to allow. Only the empty input is
followed by a refresh where there was a fault. Clearing such a cell changes nothing
else, since no formula without a fault has read it, and those with a fault are
passed over.
-/
namespace Spreadsheet
open Formula Relation

theorem Cell.resolved_self (c : Cell) : c.resolved c.outcome c.dependsOn = c := by
  obtain ⟨kind, raw, outcome, dependsOn, hnil⟩ := c
  rw [Cell.resolved, Cell.mk.injEq]
  refine ⟨rfl, rfl, rfl, ?_⟩
  split
  · rfl
  · rename_i hk
    exact (hnil hk).symm

namespace Grid

/-! ## Cascades of sheets that read alike -/

/-- Apart from one place the sheets are the same, and no formula on them depends on the occasion. At
the place the second one may have a further blank cell. -/
structure SameBesides [Engine] (p : Position) (g h : Grid) : Prop where
  other : ∀ q, q ≠ p → h.get? q = g.get? q
  origin : Keeps (g.get? p) (h.get? p)
  repeatable : g.IsRepeatable

section
variable [Engine] {g h : Grid} {p q t : Position} {c : Cell} {bound more : Nat} {ω ω' : Occasion}

theorem SameBesides.addsBlanks (hs : SameBesides p g h) : AddsBlanks g h := by
  intro q
  by_cases hq : q = p
  · exact hq ▸ hs.origin
  · exact .inl (hs.other q hq)

omit [Engine] in
theorem get?_operand (q r : Position) (g : Grid) : (operand q g).2.get? r =
    if q = r then some ((g.get? r).getD Cell.blank) else g.get? r := by
  unfold operand
  by_cases hr : q = r
  · subst hr
    rw [if_pos rfl]
    split
    · rename_i c hc
      rw [hc]
      rfl
    · rename_i hn
      rw [Table.get?_insert, if_pos rfl, hn]
      rfl
  · rw [if_neg hr]
    split
    · rfl
    · rw [Table.get?_insert, if_neg hr]

theorem SameBesides.operand (hs : SameBesides p g h) (q : Position) :
    (Grid.operand q g).1 = (Grid.operand q h).1 ∧
      SameBesides p (Grid.operand q g).2 (Grid.operand q h).2 := by
  refine ⟨by rw [operand_fst, operand_fst, hs.addsBlanks.reading_eq], fun r hr => ?_, ?_,
    (isRepeatable_congr (operand_addsBlanks q g).formulaText?_eq).2 hs.repeatable⟩
  · rw [get?_operand, get?_operand, hs.other r hr]
  · rw [get?_operand, get?_operand]
    split
    · rcases hs.origin with ho | ⟨hn, ho⟩
      · rw [ho]
        exact .refl _
      · rw [hn, ho]
        exact .refl _
    · exact hs.origin

theorem SameBesides.recompute (hs : SameBesides p g h) (ω ω' : Occasion) (t : Position) :
    SameBesides p (g.recompute ω t) (h.recompute ω' t) := by
  have hrepeatable := (isRepeatable_congr (formulaText?_recompute ω g t)).2 hs.repeatable
  suffices hsame : (∀ q, q ≠ p → (h.recompute ω' t).get? q = (g.recompute ω t).get? q) ∧
      Keeps ((g.recompute ω t).get? p) ((h.recompute ω' t).get? p) from
    ⟨hsame.1, hsame.2, hrepeatable⟩
  unfold Grid.recompute
  rcases hs.addsBlanks t with ht | ⟨hn, ht⟩
  · rw [ht]
    cases hc : g.get? t with
    | none => exact ⟨hs.other, hs.origin⟩
    | some c =>
      dsimp only
      split
      · rename_i hf
        have hcs := hs.repeatable t c.text (formulaText?_eq_some.2 ⟨c, hc, hf, rfl⟩)
        obtain ⟨hr, hrel⟩ := resolve_simulate (R := SameBesides p) Grid.operand Grid.operand
          (fun q _ _ h => h.operand q) hs (ω.cell t) c.text t
        have hsome := (resolve_addsBlanks g (ω.cell t) t c.text).get?_eq_some hc
        rw [← hcs.resolve_eq (ω.cell t) (ω'.cell t), ← hr]
        refine ⟨fun q hq => ?_, ?_⟩
        · rw [get?_modify, get?_modify, hrel.other q hq]
        · rw [get?_modify, get?_modify]
          split
          · rename_i he
            subst he
            rw [hrel.origin.eq_some hsome, hsome]
            exact .refl _
          · exact hrel.origin
      · exact ⟨hs.other, hs.origin⟩
  · rw [hn, ht]
    exact ⟨hs.other, hs.origin⟩

omit [Engine] in
theorem formulasMentioning_sorted (g : Grid) (p : Position) :
    (g.formulasMentioning p).Pairwise Position.Before :=
  List.pairwise_map.2 (g.sorted.filter _)

omit [Engine] in
theorem AddsBlanks.formulasMentioning_eq (hg : AddsBlanks g h) (q : Position) :
    h.formulasMentioning q = g.formulasMentioning q := by
  refine Position.eq_of_sorted (formulasMentioning_sorted h q) (formulasMentioning_sorted g q)
    fun t => ?_
  rw [mem_formulasMentioning, mem_formulasMentioning]
  refine exists_congr fun c => and_congr_left fun hm => (hg t).formula_iff ?_
  simp only [Cell.mentions, Bool.and_eq_true] at hm
  exact hm.1.1

theorem SameBesides.foldl_recompute (hs : SameBesides p g h) (ω ω' : Occasion)
    (ps : List Position) : SameBesides p (ps.foldl (Grid.recompute ω) g)
      (ps.foldl (Grid.recompute ω') h) := by
  induction ps generalizing g h with
  | nil => exact hs
  | cons t ps ih => exact ih (hs.recompute ω ω' t)

theorem SameBesides.settleAll {settle settle' : Position → Grid → Bool × Grid}
    (step : ∀ t g h, SameBesides p g h →
      (settle t g).1 = (settle' t h).1 ∧ SameBesides p (settle t g).2 (settle' t h).2)
    (hs : SameBesides p g h) (ps : List Position) :
    (Grid.settleAll settle ps g).1 = (Grid.settleAll settle' ps h).1 ∧
      SameBesides p (Grid.settleAll settle ps g).2 (Grid.settleAll settle' ps h).2 := by
  induction ps generalizing g h with
  | nil => exact ⟨rfl, hs⟩
  | cons t ps ih =>
    obtain ⟨hanswer, hrel⟩ := step t g h hs
    cases ht : (settle t g).1 with
    | true =>
      rw [settleAll_of_true ht, settleAll_of_true (hanswer ▸ ht)]
      exact ih hrel
    | false =>
      rw [settleAll_of_false ht, settleAll_of_false (hanswer ▸ ht)]
      exact ⟨rfl, hrel⟩

/-- Cascades on the two sheets go the same way. -/
theorem SameBesides.cascade (hs : SameBesides p g h) (ω ω' : Occasion) (bound : Nat)
    (q : Position) : (Grid.cascade ω bound q g).1 = (Grid.cascade ω' bound q h).1 ∧
      SameBesides p (Grid.cascade ω bound q g).2 (Grid.cascade ω' bound q h).2 := by
  induction bound generalizing ω ω' q g h with
  | zero => exact ⟨rfl, hs⟩
  | succ bound ih =>
    rw [Grid.cascade, Grid.cascade, hs.addsBlanks.formulasMentioning_eq]
    exact (hs.foldl_recompute _ _ _).settleAll (fun t _ _ h => ih h _ _ t) _

omit [Engine] in
theorem settleAll_congr {settle settle' : Position → Grid → Bool × Grid}
    (step : ∀ t g, (settle t g).1 = true → settle' t g = settle t g) {ps : List Position}
    (hs : (settleAll settle ps g).1 = true) : settleAll settle' ps g = settleAll settle ps g := by
  induction ps generalizing g with
  | nil => rfl
  | cons t ps ih =>
    cases ht : (settle t g).1 with
    | true =>
      have ht' := step t g ht
      rw [settleAll_of_true ht] at hs ⊢
      rw [settleAll_of_true (ht'.symm ▸ ht), ht']
      exact ih hs
    | false =>
      rw [settleAll_of_false ht] at hs
      cases hs

/-- A cascade that comes to an end is the same with a larger bound. -/
theorem cascade_of_le (hbound : bound ≤ more) (hs : (cascade ω bound p g).1 = true) :
    cascade ω more p g = cascade ω bound p g := by
  induction bound generalizing ω more p g with
  | zero => cases hs
  | succ bound ih =>
    cases more with
    | zero => cases hbound
    | succ more =>
      rw [cascade] at hs ⊢
      rw [cascade]
      exact settleAll_congr (fun t h ht => ih (Nat.le_of_succ_le_succ hbound) ht) hs

omit [Engine] in
theorem size_le_insert (g : Grid) (p : Position) (c : Cell) : g.size ≤ (g.insert p c).size := by
  have hplace : ∀ es : List (Position × Cell), es.length ≤ (Table.place p c es).length := by
    intro es
    induction es with
    | nil => exact Nat.zero_le 1
    | cons e es ih =>
      obtain ⟨q, d⟩ := e
      rw [Table.place]
      split
      · exact Nat.le_refl _
      · split
        · exact Nat.le_succ _
        · exact Nat.succ_le_succ ih
  exact hplace g.entries

theorem sameBesides_cleared (hg : g.IsRepeatable) (p : Position) :
    SameBesides p (g.erase p) (g.insert p Cell.blank) := by
  refine ⟨fun q hq => ?_, .inr ⟨?_, ?_⟩, fun q cs hcs => ?_⟩
  · rw [Table.get?_insert, if_neg hq.symm, Table.get?_erase, if_neg hq.symm]
  · rw [Table.get?_erase, if_pos rfl]
  · rw [Table.get?_insert, if_pos rfl]
  · obtain ⟨c, hc, hf, rfl⟩ := formulaText?_eq_some.1 hcs
    rw [Table.get?_erase] at hc
    split at hc
    · cases hc
    · exact hg q c.text (formulaText?_eq_some.2 ⟨c, hc, hf, rfl⟩)

/-- Where no cell mentions the origin a cascade ends at once. -/
theorem cascade_of_no_mention (hn : g.formulasMentioning p = []) :
    cascade ω 1 p g = (true, g) := by
  rw [cascade, hn]
  rfl

/-- If the cascade of a cleared cell comes to an end, that of a blank cell in its place does the
same. On a sheet that has no other cell there is nothing to do. -/
theorem cascadeFrom_cleared (hg : g.IsRepeatable)
    (hs : settles (g.erase p) ω p = true ∨ (g.erase p).size = 0) (hq : q ≠ p) :
    (cascadeFrom (g.insert p Cell.blank) ω' p).get? q = (cascadeFrom (g.erase p) ω p).get? q := by
  obtain ⟨bound, hle, hend, hcleared⟩ : ∃ bound ≤ 2 * (g.insert p Cell.blank).size,
      (cascade (ω.stage 0) bound p (g.erase p)).1 = true ∧
        cascadeFrom (g.erase p) ω p = (cascade (ω.stage 0) bound p (g.erase p)).2 := by
    rcases hs with hs | hempty
    · have hsize : (g.erase p).size ≤ (g.insert p Cell.blank).size :=
        Nat.le_trans (List.length_filter_le _ _) (size_le_insert g p Cell.blank)
      exact ⟨_, Nat.mul_le_mul_left 2 hsize, hs, cascadeFrom_of_true hs⟩
    · have hsize : (g.insert p Cell.blank).size ≠ 0 := by
        intro hsize
        have hp : (g.insert p Cell.blank).get? p = none := get?_eq_none_of_size hsize
        rw [Table.get?_insert, if_pos rfl] at hp
        cases hp
      have hn : formulasMentioning (g.erase p) p = [] := by
        rw [formulasMentioning, List.length_eq_zero_iff.1 hempty]
        rfl
      have hnone : (g.erase p).get? p = none := get?_eq_none_of_size hempty
      have hzero : ∀ ω, cascade ω (2 * (g.erase p).size) p (g.erase p) = (false, g.erase p) := by
        intro ω
        rw [hempty]
        rfl
      refine ⟨1, by omega, by rw [cascade_of_no_mention hn], ?_⟩
      rw [cascade_of_no_mention hn, cascadeFrom_of_false (by rw [hzero]), hzero,
        modify_of_none hnone, hzero]
  obtain ⟨hanswer, hsame⟩ := (sameBesides_cleared hg p).cascade (ω.stage 0) (ω'.stage 0)
    (2 * (g.insert p Cell.blank).size) p
  rw [cascade_of_le hle hend] at hanswer hsame
  rw [hcleared, cascadeFrom_of_true (hanswer.symm.trans hend)]
  exact hsame.other q hq

/-! ## Refreshes after a cascade -/

/-- A cascade leaves the content of all other cells, and that of its origin if it is a formula or
has none. -/
theorem sameContent_cascadeFrom
    (hp : ∀ c, g.get? p = some c → c.isFormula = true ∨ c.isEmpty = true) :
    SameContent (g.cascadeFrom ω p) g := by
  intro q
  have hentry := get?_entered (g.cascadeFrom ω p) q
  rw [entered_cascadeFrom, get?_entered] at hentry
  cases hc : g.prune.get? q with
  | none =>
    rw [hc, Option.map_none, eq_comm, Option.map_eq_none_iff] at hentry
    rw [hentry]
  | some c =>
    rw [hc, Option.map_some, eq_comm, Option.map_eq_some_iff] at hentry
    obtain ⟨d, hd, hsame⟩ := hentry
    obtain ⟨hk, htext⟩ := Entry.mk.inj hsame
    rw [hd, Option.map_some, Option.map_some]
    have hraw : d.raw = c.raw := String.toList_injective htext
    rw [get?_prune, Option.filter_eq_some_iff] at hc hd
    cases hf : c.isFormula with
    | true => rw [Cell.unevaluated_of_isFormula hk hraw hf]
    | false =>
      have hne : q ≠ p := by
        rintro rfl
        rcases hp c hc.1 with hf' | hempty
        · rw [hf] at hf'
          cases hf'
        · simp [hempty] at hc
      have hnone : g.formulaText? q = none := by
        rw [formulaText?_eq_none]
        rintro c' hc'
        cases hc.1.symm.trans hc'
        exact hf
      have hkeeps : (g.cascadeFrom ω p).get? q = some c :=
        (keeps_cascadeFrom hne (not_leads_of_formulaText? hnone)).eq_some hc.1
      cases hd.1.symm.trans hkeeps
      rfl

/-- A refresh makes the same sheet of a cleared cell and of a blank one. -/
theorem refresh_cleared (hg : g.IsRepeatable) (p : Position) (ω ω' seen seen' : Occasion) :
    (cascadeFrom (g.erase p) ω p).refresh seen =
      (cascadeFrom (g.insert p Cell.blank) ω' p).refresh seen' := by
  have hcleared := sameBesides_cleared hg p
  have herased : SameContent (cascadeFrom (g.erase p) ω p) (g.erase p) := by
    refine sameContent_cascadeFrom fun c hc => ?_
    rw [Table.get?_erase, if_pos rfl] at hc
    cases hc
  have hblank : SameContent (cascadeFrom (g.insert p Cell.blank) ω' p)
      (g.insert p Cell.blank) := by
    refine sameContent_cascadeFrom fun c hc => .inr ?_
    rw [Table.get?_insert, if_pos rfl] at hc
    cases hc
    rfl
  have hrepeatable : (cascadeFrom (g.erase p) ω p).IsRepeatable :=
    (isRepeatable_congr (formulaText?_cascadeFrom _ ω p)).2 hcleared.repeatable
  rw [hrepeatable.refresh_eq seen seen']
  refine refresh_congr fun q => ?_
  rw [herased q, hblank q, hcleared.addsBlanks.get?_prune]

end

/-! ## Clearing a cell with a fault -/

/-- A refresh on an occasion adds or drops blank cells at most. -/
def IsSteady [Engine] (g : Grid) (seen : Occasion) : Prop :=
  ∀ q, Keeps (g.get? q) ((g.refresh seen).get? q) ∨ Keeps ((g.refresh seen).get? q) (g.get? q)

section
variable [Engine] {g h : Grid} {p q t : Position} {c : Cell} {ω seen : Occasion}

/-- A formula without a fault holds on a steady sheet what its text gives. -/
theorem IsSteady.resolution_eq (hg : g.IsSteady seen) (hrepeatable : g.IsRepeatable)
    (hc : g.get? q = some c) (hf : c.isFormula = true) (hn : c.hasFault = false) (ω : Occasion) :
    g.resolution ω q c.text = ⟨c.outcome, c.dependsOn⟩ := by
  have hcs := hrepeatable q c.text (formulaText?_eq_some.2 ⟨c, hc, hf, rfl⟩)
  have hrefreshed : (g.refresh seen).get? q = some c := by
    rcases hg q with hq | hq
    · exact hq.eq_some hc
    · exact (hq.formula_iff hf).1 hc
  rw [← resolution_refresh hrefreshed hf hn hcs ω]
  exact resolution_congr fun r _ _ => (hg r).elim (fun hr => hr.reading_eq.symm) Keeps.reading_eq

/-- A formula without a fault has read no cell with one. -/
theorem not_mem_dependsOn_of_hasFault {cs : List Char} {v : Value} (hc : g.get? p = some c)
    (hn : c.hasFault = true) (ho : (g.resolution ω q cs).outcome = .ok v) :
    p ∉ (g.resolution ω q cs).dependsOn := by
  intro hp
  obtain ⟨l, hdialogue, ha⟩ := exists_dialogue ω cs q operand g
  have hok := hdialogue.ending.of_ok ho
  rw [resolution, hok.1] at hp
  obtain ⟨x, hx, rfl⟩ := List.mem_map.1 hp
  obtain ⟨w, hw⟩ := hok.2 x hx
  rw [(answers_operand ha).1 x hx, reading_of_get? hc] at hw
  unfold Cell.operand at hw
  unfold Cell.hasFault Cell.fault? at hn
  split at hw
  · cases hw
  · rename_i v hv
    rw [hv] at hn
    cases hn

/-- The second sheet is the first one without one of its cells, save for further blank cells. -/
structure LosesOnly (p : Position) (g h : Grid) : Prop where
  other : ChangesOnly g h p
  origin : h.formulaText? p = none

omit [Engine] in
theorem LosesOnly.failing (hh : LosesOnly p g h) (fault : Fault) :
    LosesOnly p g (h.modify p fun c => c.failing fault) := by
  refine ⟨fun q hq => ?_, (congrFun (formulaText?_failing h p fault) p).trans hh.origin⟩
  rw [get?_modify, if_neg hq.symm]
  exact hh.other q hq

section
variable (hg : g.IsSteady seen) (hrepeatable : g.IsRepeatable) (hc : g.get? p = some c)
  (hn : c.hasFault = true)
include hg hrepeatable hc hn

/-- Computing a formula again that has not read the lost cell changes nothing. -/
theorem LosesOnly.recompute (hh : LosesOnly p g h) {d : Cell} (hd : g.get? t = some d)
    (hf : d.isFormula = true) (hsound : d.hasFault = false) (ht : t ≠ p) (ω : Occasion) :
    LosesOnly p g (h.recompute ω t) := by
  have hstored := hg.resolution_eq hrepeatable hd hf hsound (ω.cell t)
  obtain ⟨v, hv⟩ := Cell.exists_outcome_of_not_hasFault hsound
  have hunread : p ∉ (g.resolution (ω.cell t) t d.text).dependsOn :=
    not_mem_dependsOn_of_hasFault hc hn ((congrArg Resolution.outcome hstored).trans hv)
  have hsame : h.resolution (ω.cell t) t d.text = g.resolution (ω.cell t) t d.text :=
    resolution_congr fun q hq _ => (hh.other q fun he => hunread (he ▸ hq)).reading_eq
  refine ⟨fun q hq => ?_, (congrFun (formulaText?_recompute ω h t) p).trans hh.origin⟩
  rcases recompute_cases ω h t with ⟨_, he⟩ | ⟨d', k, hd', _, hk, he⟩
  · rw [he]
    exact hh.other q hq
  · cases ((hh.other t ht).eq_some hd).symm.trans hd'
    rw [he, hsame, hstored, Cell.resolved_self, Table.get?_insert]
    split
    · rename_i he
      exact .inl (he ▸ hd.symm)
    · exact (hh.other q hq).trans (hk q)

theorem LosesOnly.foldl_recompute (hh : LosesOnly p g h) {ps : List Position}
    (hps : ∀ t ∈ ps, t ≠ p ∧ ∃ d, g.get? t = some d ∧ d.isFormula = true ∧ d.hasFault = false)
    (ω : Occasion) : LosesOnly p g (ps.foldl (Grid.recompute ω) h) := by
  induction ps generalizing h with
  | nil => exact hh
  | cons t ps ih =>
    obtain ⟨ht, d, hd, hf, hsound⟩ := hps t List.mem_cons_self
    exact ih (hh.recompute hg hrepeatable hc hn hd hf hsound ht ω) fun t ht =>
      hps t (List.mem_cons_of_mem _ ht)

/-- Without a cell that has a fault a cascade computes nothing new. -/
theorem LosesOnly.cascade (hh : LosesOnly p g h) (ω : Occasion) (bound : Nat) (q : Position) :
    LosesOnly p g (Grid.cascade ω bound q h).2 := by
  induction bound generalizing ω q h with
  | zero => exact hh
  | succ bound ih =>
    rw [Grid.cascade]
    have htargets : LosesOnly p g
        ((h.formulasMentioning q).foldl (Grid.recompute (ω.cell q)) h) := by
      refine hh.foldl_recompute hg hrepeatable hc hn (fun t ht => ?_) (ω.cell q)
      obtain ⟨d, hd, hm⟩ := mem_formulasMentioning.1 ht
      simp only [Cell.mentions, Bool.and_eq_true, Bool.not_eq_true'] at hm
      have htp : t ≠ p := by
        rintro rfl
        rw [formulaText?_eq_none.1 hh.origin d hd] at hm
        cases hm.1.1
      exact ⟨htp, d, ((hh.other t htp).formula_iff hm.1.1).1 hd, hm.1.1, hm.1.2⟩
    exact settleAll_related (R := fun k l => LosesOnly p g k → LosesOnly p g l) (fun _ h => h)
      (fun hkl hlm hk => hlm (hkl hk)) (fun t k hk => ih hk _ t) _ _ htargets

/-- Clearing a cell with a fault changes nothing else on a steady sheet. -/
theorem losesOnly_clear (ω : Occasion) : LosesOnly p g (g.clear ω p) := by
  have herased : LosesOnly p g (g.erase p) := by
    refine ⟨fun q hq => .inl ?_, formulaText?_eq_none.2 fun d hd => ?_⟩
    · rw [Table.get?_erase, if_neg hq.symm]
    · rw [Table.get?_erase, if_pos rfl] at hd
      cases hd
  have hfirst := herased.cascade hg hrepeatable hc hn (ω.stage 0) (2 * (g.erase p).size) p
  unfold clear
  cases hs : (Grid.cascade (ω.stage 0) (2 * (g.erase p).size) p (g.erase p)).1 with
  | true =>
    rw [cascadeFrom_of_true hs]
    exact hfirst
  | false =>
    rw [cascadeFrom_of_false hs]
    exact (hfirst.failing _).cascade hg hrepeatable hc hn _ _ p

end

/-- What a refresh leaves is steady. -/
theorem isSteady_refresh (g : Grid) (ω : Occasion) : (g.refresh ω).IsSteady ω := by
  intro q
  rw [refresh_congr (sameContent_refresh _ g)]
  exact .inl (.refl _)

theorem commit_empty (g : Grid) (ω : Occasion) (p : Position) : g.commit ω p [] =
    if g.hasFaultAt p then
      (cascadeFrom (g.insert p Cell.blank) (ω.stage 1) p).refresh (ω.stage 2)
    else cascadeFrom (g.insert p Cell.blank) (ω.stage 1) p := by
  rw [commit_eq, refreshesAfter]
  cases g.hasFaultAt p <;> rfl

end

end Grid

namespace Document
open Grid

/-- Where no formula depends on the occasion, a cleared cell without a fault leaves the other cells
as an empty input in its place does, if the cascade comes to an end. A cleared cell with a fault
does so only once the sheet is refreshed: on a steady sheet all other cells stay as they are. -/
theorem clear_agrees_with_empty_input [Engine] {d : Document} (hrepeatable : d.grid.IsRepeatable)
    {p : Position} {c : Cell} (hc : d.grid.get? p = some c) (ω ω' seen : Occasion) :
    (c.hasFault = false → settles (d.grid.erase p) ω p = true ∨ (d.grid.erase p).size = 0 →
      ∀ q, q ≠ p → (d.clear ω p).grid.get? q = (d.set ω' p []).grid.get? q) ∧
    (c.hasFault = true → ((d.clear ω p).refresh seen).grid = (d.set ω' p []).grid ∧
      (d.grid.IsSteady seen →
        ∀ q, q ≠ p → Keeps (d.grid.get? q) ((d.clear ω p).grid.get? q))) := by
  have hclear : (d.clear ω p).grid = cascadeFrom (d.grid.erase p) ω p := by
    rw [Document.clear, if_pos (by rw [Table.contains, hc]; rfl)]
    rfl
  have hset : (d.set ω' p []).grid = d.grid.commit ω' p [] := rfl
  have hfault : d.grid.hasFaultAt p = c.hasFault := by rw [hasFaultAt, hc, Option.any_some]
  rw [commit_empty, hfault] at hset
  refine ⟨fun hn hs q hq => ?_, fun hn => ⟨?_, fun hsteady q hq => ?_⟩⟩
  · rw [hset, hn, if_neg Bool.false_ne_true, hclear]
    exact (cascadeFrom_cleared hrepeatable hs hq).symm
  · rw [hset, hn, if_pos rfl]
    change (d.clear ω p).grid.refresh seen = _
    rw [hclear]
    exact refresh_cleared hrepeatable p _ _ _ _
  · rw [hclear]
    exact (losesOnly_clear hsteady hrepeatable hc hn ω).other q hq

section
open scoped StandardLibrary

/-- A row with a text and a formula that reads it, and a name that stands for nothing and a formula
that reads that. -/
theorem clear_agrees_with_empty_input_row : ∃ (d : Document) (c c' : Cell),
    d.grid = Grid.refresh (Table.ofList [(⟨0, 0⟩, .formula "\"x\"".toList),
      (⟨0, 1⟩, .formula "A1".toList), (⟨0, 2⟩, .formula "FOO".toList),
      (⟨0, 3⟩, .formula "C1".toList)]) .start ∧
    (d.clear .start ⟨0, 0⟩).grid.get? ⟨0, 1⟩ = some c ∧ (c.outcome matches .ok (.number _)) = true ∧
    (d.set .start ⟨0, 0⟩ []).grid.get? ⟨0, 1⟩ = some c ∧
    ((d.clear .start ⟨0, 2⟩).refresh .start).grid = (d.set .start ⟨0, 2⟩ []).grid ∧
    d.grid.get? ⟨0, 3⟩ = some c' ∧ c'.hasFault = true ∧
    (d.clear .start ⟨0, 2⟩).grid.get? ⟨0, 3⟩ = some c' := by
  obtain ⟨g, hg⟩ : ∃ g : Grid, g = Grid.refresh (Table.ofList
      [(⟨0, 0⟩, .formula "\"x\"".toList), (⟨0, 1⟩, .formula "A1".toList),
        (⟨0, 2⟩, .formula "FOO".toList), (⟨0, 3⟩, .formula "C1".toList)]) .start := ⟨_, rfl⟩
  have hsteady : g.IsSteady .start := hg ▸ isSteady_refresh _ _
  have hrepeatable : g.IsRepeatable := by
    rw [hg]
    exact StandardLibrary.sheet_isRepeatable (by decide +kernel)
  have hcells : (g.get? ⟨0, 0⟩).map Cell.hasFault = some false ∧
      (g.get? ⟨0, 2⟩).map Cell.hasFault = some true ∧
      (g.get? ⟨0, 3⟩).map Cell.hasFault = some true := by
    rw [hg]
    decide +kernel
  have hread : ((Document.clear { new with grid := g } .start ⟨0, 0⟩).grid.get? ⟨0, 1⟩).map
      (fun c => c.outcome matches .ok (.number _)) = some true := by
    rw [hg]
    decide +kernel
  have hsettles : settles (g.erase ⟨0, 0⟩) .start ⟨0, 0⟩ = true ∨ (g.erase ⟨0, 0⟩).size = 0 := by
    rw [hg]
    decide +kernel
  obtain ⟨a, ha, hsound⟩ := Option.map_eq_some_iff.1 hcells.1
  obtain ⟨b, hb, hfault⟩ := Option.map_eq_some_iff.1 hcells.2.1
  obtain ⟨c', hc', hn⟩ := Option.map_eq_some_iff.1 hcells.2.2
  obtain ⟨c, hc, hnumber⟩ := Option.map_eq_some_iff.1 hread
  have htext := (clear_agrees_with_empty_input (d := { new with grid := g }) hrepeatable ha .start
    .start .start).1 hsound hsettles ⟨0, 1⟩ (by decide)
  obtain ⟨hrefreshed, hkept⟩ := (clear_agrees_with_empty_input (d := { new with grid := g })
    hrepeatable hb .start .start .start).2 hfault
  exact ⟨{ new with grid := g }, c, c', hg, hc, hnumber, htext ▸ hc, hrefreshed, hc', hn,
    (hkept hsteady ⟨0, 3⟩ (by decide)).eq_some hc'⟩

/-- A cleared cell with a fault leaves it to a formula that has read it, which an empty input in its
place mends. Where a cascade has no end, it is cut off sooner after a cleared cell. -/
theorem exists_clear_unlike_empty_input :
    (∃ (d : Document) (p q : Position) (c c' : Cell), d.grid.IsRepeatable ∧
      d.grid.IsSteady .start ∧ d.grid.contains p = true ∧ q ≠ p ∧
      settles (d.grid.erase p) .start p = true ∧
      (d.clear .start p).grid.get? q = some c ∧ c.hasFault = true ∧
      (d.set .start p []).grid.get? q = some c' ∧ c'.hasFault = false) ∧
    ∃ (d : Document) (p q : Position) (c c' : Cell), d.grid.IsRepeatable ∧
      d.grid.IsSteady .start ∧ (∀ e ∈ d.grid.entries, e.2.hasFault = false) ∧
      d.grid.contains p = true ∧ q ≠ p ∧
      (d.clear .start p).grid.get? q = some c ∧ (d.set .start p []).grid.get? q = some c' ∧
      c.outcome ≠ c'.outcome := by
  constructor
  · obtain ⟨g, hg⟩ : ∃ g : Grid, g = Grid.refresh (Table.ofList
        [(⟨0, 0⟩, .formula "FOO".toList), (⟨0, 1⟩, .formula "A1".toList)]) .start := ⟨_, rfl⟩
    have hrepeatable : g.IsRepeatable := by
      rw [hg]
      exact StandardLibrary.sheet_isRepeatable (by decide +kernel)
    have hcontains : g.contains ⟨0, 0⟩ = true ∧ settles (g.erase ⟨0, 0⟩) .start ⟨0, 0⟩ = true := by
      rw [hg]
      decide +kernel
    have hcleared : ((Document.clear { new with grid := g } .start ⟨0, 0⟩).grid.get? ⟨0, 1⟩).map
        Cell.hasFault = some true := by
      rw [hg]
      decide +kernel
    have hset : ((Document.set { new with grid := g } .start ⟨0, 0⟩ []).grid.get? ⟨0, 1⟩).map
        Cell.hasFault = some false := by
      rw [hg]
      decide +kernel
    obtain ⟨c, hc, hn⟩ := Option.map_eq_some_iff.1 hcleared
    obtain ⟨c', hc', hn'⟩ := Option.map_eq_some_iff.1 hset
    exact ⟨{ new with grid := g }, ⟨0, 0⟩, ⟨0, 1⟩, c, c', hrepeatable, hg ▸ isSteady_refresh _ _,
      hcontains.1, by decide, hcontains.2, hc, hn, hc', hn'⟩
  · obtain ⟨g, hg⟩ : ∃ g : Grid, g = Grid.refresh (Table.ofList
        [(⟨0, 0⟩, .formula "\"a\"".toList),
          (⟨0, 1⟩, .formula "IIF(D1=\"a\",\"s\",C1+\"x\")".toList),
          (⟨0, 2⟩, .formula "B1".toList), (⟨0, 3⟩, .formula "IIF(1,E1,A1)".toList),
          (⟨0, 4⟩, .formula "A1".toList)]) .start := ⟨_, rfl⟩
    have hrepeatable : g.IsRepeatable := by
      rw [hg]
      exact StandardLibrary.sheet_isRepeatable (by decide +kernel)
    obtain ⟨hsound, hcleared, hset⟩ :
        ((∀ e ∈ g.entries, e.2.hasFault = false) ∧ g.contains ⟨0, 0⟩ = true) ∧
        ((Document.clear { new with grid := g } .start ⟨0, 0⟩).grid.get? ⟨0, 2⟩).map
          (fun c => (c.kind, c.display 0)) = some (.formula, "sxxx".toList) ∧
        ((Document.set { new with grid := g } .start ⟨0, 0⟩ []).grid.get? ⟨0, 2⟩).map
          (fun c => (c.kind, c.display 0)) = some (.formula, "sxxxx".toList) := by
      rw [hg]
      decide +kernel
    obtain ⟨c, hc, hshown⟩ := Option.map_eq_some_iff.1 hcleared
    obtain ⟨c', hc', hshown'⟩ := Option.map_eq_some_iff.1 hset
    rw [Prod.mk.injEq] at hshown hshown'
    refine ⟨{ new with grid := g }, ⟨0, 0⟩, ⟨0, 2⟩, c, c', hrepeatable, hg ▸ isSteady_refresh _ _,
      hsound.1, hsound.2, by decide, hc, hc', fun he => ?_⟩
    have hsame : c.display 0 = c'.display 0 := by
      rw [Cell.display, Cell.display, he, hshown.1, hshown'.1]
    rw [hshown.2, hshown'.2] at hsame
    exact absurd hsame (by decide)

end

end Document

end Spreadsheet

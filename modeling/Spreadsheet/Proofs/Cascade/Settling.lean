import Mathlib.Logic.Relation
import Spreadsheet.Cascade
import Spreadsheet.Proofs.Reading

/-!
# Cascades settle

A cascade recomputes formulas and changes no text, so that who mentions whom
stays the same while it runs. It goes from a cell to formulas that mention it.
When none of the formulas ahead can reach itself, each step leaves fewer of them
ahead, and the cascade comes to an end before its bound.
-/
namespace Spreadsheet.Grid
open Formula Relation

/-- The formula at the first place has the second one in its text. -/
def Mentions (g : Grid) (q p : Position) : Prop :=
  ∃ cs, g.formulaText? q = some cs ∧ p ∈ dependencies cs

section
variable {g h : Grid} {p q : Position} {c d : Cell}

theorem mem_keys_of_formulaText? {cs : List Char} (ht : g.formulaText? p = some cs) :
    p ∈ g.keys := by
  obtain ⟨c, hc, _⟩ := formulaText?_eq_some.1 ht
  exact (Table.mem_keys_iff g p).2 ⟨c, hc⟩

theorem mentions_congr (ht : h.formulaText? = g.formulaText?) : h.Mentions = g.Mentions := by
  unfold Mentions
  rw [ht]

theorem modify_of_get? (hc : g.get? p = some c) (f : Cell → Cell) :
    g.modify p f = g.insert p (f c) := by
  simp only [modify, hc]

theorem modify_of_none (hn : g.get? p = none) (f : Cell → Cell) : g.modify p f = g := by
  simp only [modify, hn]

/-- A formula is recomputed against the other cells as they are; other cells stay. -/
theorem recompute_cases [Engine] (ω : Occasion) (g : Grid) (p : Position) :
    g.formulaText? p = none ∧ g.recompute ω p = g ∨
    ∃ c k, g.get? p = some c ∧ c.isFormula = true ∧ AddsBlanks g k ∧
      g.recompute ω p = k.insert p (c.resolved (g.resolution (ω.cell p) p c.text).outcome
        (g.resolution (ω.cell p) p c.text).dependsOn) := by
  unfold recompute
  cases hc : g.get? p with
  | none =>
    refine .inl ⟨?_, rfl⟩
    simp [formulaText?, hc]
  | some c =>
    by_cases hf : c.isFormula = true
    · have hblanks := resolve_addsBlanks g (ω.cell p) p c.text
      refine .inr ⟨c, _, rfl, hf, hblanks, ?_⟩
      dsimp only
      rw [if_pos hf]
      exact modify_of_get? (hblanks.get?_eq_some hc) _
    · refine .inl ⟨?_, ?_⟩
      · simp [formulaText?, hc, Option.filter, hf]
      · dsimp only
        rw [if_neg hf]

theorem formulaText?_recompute [Engine] (ω : Occasion) (g : Grid) (p : Position) :
    (g.recompute ω p).formulaText? = g.formulaText? := by
  rcases recompute_cases ω g p with ⟨_, he⟩ | ⟨c, k, hc, _, hk, he⟩
  · rw [he]
  · have hkc : k.get? p = some c := hk.get?_eq_some hc
    rw [he, formulaText?_insert hkc (Cell.kind_resolved ..) (Cell.raw_resolved ..),
      hk.formulaText?_eq]

theorem mem_formulasMentioning : q ∈ g.formulasMentioning p ↔
    ∃ c, g.get? q = some c ∧ c.mentions p = true := by
  simp only [formulasMentioning, List.mem_map, List.mem_filter, Prod.exists,
    Table.mem_entries_iff]
  constructor
  · rintro ⟨r, c, ⟨hc, hm⟩, rfl⟩
    exact ⟨c, hc, hm⟩
  · rintro ⟨c, hc, hm⟩
    exact ⟨q, c, ⟨hc, hm⟩, rfl⟩

theorem mentions_of_mem (hq : q ∈ g.formulasMentioning p) : g.Mentions q p := by
  obtain ⟨c, hc, hm⟩ := mem_formulasMentioning.1 hq
  simp only [Cell.mentions, Bool.and_eq_true, List.contains_iff_mem] at hm
  exact ⟨c.text, formulaText?_eq_some.2 ⟨c, hc, hm.1.1, rfl⟩, hm.2⟩

end

/-! ## What every recomputation keeps -/

section
variable {R : Grid → Grid → Prop}

theorem settleAll_of_true {settle : Position → Grid → Bool × Grid} {p : Position} {g : Grid}
    (hs : (settle p g).1 = true) (ps : List Position) :
    settleAll settle (p :: ps) g = settleAll settle ps (settle p g).2 := by
  rw [settleAll]
  split
  · rename_i k hk
    rw [hk]
  · rename_i k hk
    rw [hk] at hs
    cases hs

theorem settleAll_of_false {settle : Position → Grid → Bool × Grid} {p : Position} {g : Grid}
    (hs : (settle p g).1 = false) (ps : List Position) :
    settleAll settle (p :: ps) g = (false, (settle p g).2) := by
  rw [settleAll]
  split
  · rename_i k hk
    rw [hk] at hs
    cases hs
  · rename_i k hk
    rw [hk]

theorem settleAll_related (refl : ∀ g, R g g) (trans : ∀ {g h k}, R g h → R h k → R g k)
    {settle : Position → Grid → Bool × Grid} (step : ∀ p g, R g (settle p g).2)
    (ps : List Position) (g : Grid) : R g (settleAll settle ps g).2 := by
  induction ps generalizing g with
  | nil => exact refl g
  | cons p ps ih =>
    cases hs : (settle p g).1 with
    | true =>
      rw [settleAll_of_true hs]
      exact trans (step p g) (ih _)
    | false =>
      rw [settleAll_of_false hs]
      exact step p g

variable [Engine]

theorem foldl_recompute_related (refl : ∀ g, R g g) (trans : ∀ {g h k}, R g h → R h k → R g k)
    (step : ∀ ω g p, R g (g.recompute ω p)) (ω : Occasion) (ps : List Position) (g : Grid) :
    R g (ps.foldl (recompute ω) g) := by
  induction ps generalizing g with
  | nil => exact refl g
  | cons p ps ih => exact trans (step ω g p) (ih _)

/-- What every recomputation keeps, a cascade keeps, whether or not it comes to an end. -/
theorem cascade_related (refl : ∀ g, R g g) (trans : ∀ {g h k}, R g h → R h k → R g k)
    (step : ∀ ω g p, R g (g.recompute ω p)) (ω : Occasion) (bound : Nat) (p : Position) (g : Grid) :
    R g (cascade ω bound p g).2 := by
  induction bound generalizing ω p g with
  | zero => exact refl g
  | succ bound ih =>
    rw [cascade]
    exact trans (foldl_recompute_related refl trans step _ _ g)
      (settleAll_related refl trans (ih _) _ _)

end

theorem formulaText?_failing (g : Grid) (p : Position) (fault : Fault) :
    (g.modify p fun c => c.failing fault).formulaText? = g.formulaText? := by
  cases hc : g.get? p with
  | none => rw [modify_of_none hc]
  | some c =>
    rw [modify_of_get? hc]
    exact formulaText?_insert hc rfl rfl

section
variable [Engine]

theorem formulaText?_foldl (ω : Occasion) (ps : List Position) (g : Grid) :
    (ps.foldl (recompute ω) g).formulaText? = g.formulaText? :=
  foldl_recompute_related (R := fun g h => h.formulaText? = g.formulaText?) (fun _ => rfl)
    (fun h k => k.trans h) formulaText?_recompute ω ps g

theorem formulaText?_cascade (ω : Occasion) (bound : Nat) (p : Position) (g : Grid) :
    (cascade ω bound p g).2.formulaText? = g.formulaText? :=
  cascade_related (R := fun g h => h.formulaText? = g.formulaText?) (fun _ => rfl)
    (fun h k => k.trans h) formulaText?_recompute ω bound p g

variable {g : Grid} {ω : Occasion} {p : Position}

theorem cascadeFrom_of_true (hs : (cascade (ω.stage 0) (2 * g.size) p g).1 = true) :
    g.cascadeFrom ω p = (cascade (ω.stage 0) (2 * g.size) p g).2 := by
  unfold cascadeFrom
  dsimp only
  split
  · rename_i k hk
    rw [hk]
  · rename_i k hk
    rw [hk] at hs
    cases hs

theorem cascadeFrom_of_false (hs : (cascade (ω.stage 0) (2 * g.size) p g).1 = false) :
    g.cascadeFrom ω p = (cascade (ω.stage 1) (2 * g.size) p
      ((cascade (ω.stage 0) (2 * g.size) p g).2.modify p fun c =>
        c.failing ((cascade (ω.stage 0) (2 * g.size) p g).2.cascadeFault p))).2 := by
  unfold cascadeFrom
  dsimp only
  split
  · rename_i k hk
    rw [hk] at hs
    cases hs
  · rename_i k hk
    rw [hk]

theorem formulaText?_cascadeFrom (g : Grid) (ω : Occasion) (p : Position) :
    (g.cascadeFrom ω p).formulaText? = g.formulaText? := by
  cases hs : (cascade (ω.stage 0) (2 * g.size) p g).1 with
  | true => rw [cascadeFrom_of_true hs, formulaText?_cascade]
  | false =>
    rw [cascadeFrom_of_false hs, formulaText?_cascade, formulaText?_failing, formulaText?_cascade]

end

/-! ## The formulas ahead -/

section
open Classical
variable {bound : Nat} {p : Position} {g : Grid}

/-- The formulas that a change of a cell can reach, among given places. -/
noncomputable def ahead (g : Grid) (places : List Position) (p : Position) : List Position :=
  places.filter fun q => TransGen g.Mentions q p

theorem length_ahead_lt {places : List Position} {q : Position} (hq : q ∈ places)
    (hqp : g.Mentions q p) (hqq : ¬TransGen g.Mentions q q) :
    (g.ahead places q).length < (g.ahead places p).length := by
  have hsub : g.ahead places q = (g.ahead places p).filter fun r => TransGen g.Mentions r q := by
    rw [ahead, ahead, List.filter_filter]
    refine List.filter_congr fun r _ => ?_
    have himp : TransGen g.Mentions r q → TransGen g.Mentions r p := fun h => h.tail hqp
    by_cases hr : TransGen g.Mentions r q
    · simp [hr, himp hr]
    · simp [hr]
  rw [hsub]
  refine List.length_filter_lt_length_iff_exists.2 ⟨q, ?_, by simpa using hqq⟩
  rw [ahead, List.mem_filter]
  exact ⟨hq, by simpa using TransGen.single hqp⟩

theorem settleAll_settles {settle : Position → Grid → Bool × Grid} {ps : List Position}
    (step : ∀ q ∈ ps, ∀ h : Grid, h.formulaText? = g.formulaText? →
      (settle q h).1 = true ∧ (settle q h).2.formulaText? = g.formulaText?)
    {h : Grid} (ht : h.formulaText? = g.formulaText?) : (settleAll settle ps h).1 = true := by
  induction ps generalizing h with
  | nil => rfl
  | cons q ps ih =>
    obtain ⟨hs, ht'⟩ := step q List.mem_cons_self h ht
    rw [settleAll_of_true hs]
    exact ih (fun r hr => step r (List.mem_cons_of_mem _ hr)) ht'

variable [Engine] {ω : Occasion}

/-- A cascade settles when no formula that it can reach can reach itself, and the bound is more
than the number of these formulas. -/
theorem cascade_settles {places : List Position}
    (hplaces : ∀ q cs, g.formulaText? q = some cs → q ∈ places)
    (hacyclic : ∀ q, TransGen g.Mentions q p → ¬TransGen g.Mentions q q)
    (hbound : (g.ahead places p).length < bound) : (cascade ω bound p g).1 = true := by
  induction bound generalizing ω p g with
  | zero => cases hbound
  | succ bound ih =>
    rw [cascade]
    refine settleAll_settles (g := g) (fun q hq h ht => ?_) (formulaText?_foldl _ _ g)
    have hqp := mentions_of_mem hq
    have hment := mentions_congr ht
    have hq' : q ∈ places := by
      obtain ⟨cs, hcs, _⟩ := hqp
      exact hplaces q cs hcs
    have hlt := length_ahead_lt hq' hqp (hacyclic q (.single hqp))
    refine ⟨ih ?_ ?_ ?_, (formulaText?_cascade _ bound q h).trans ht⟩
    · rw [ht]
      exact hplaces
    · rw [hment]
      exact fun r hr => hacyclic r (hr.tail hqp)
    · rw [ahead, hment, ← ahead]
      omega

theorem cascade_settles_of_acyclic
    (hacyclic : ∀ q, TransGen g.Mentions q p → ¬TransGen g.Mentions q q) (hg : 0 < g.size) :
    (cascade ω (2 * g.size) p g).1 = true := by
  have hle : (g.ahead g.keys p).length ≤ g.keys.length := List.length_filter_le _ _
  have hkeys : g.keys.length = g.size := List.length_map _
  exact cascade_settles (fun q _ => mem_keys_of_formulaText?) hacyclic (by omega)

end

end Spreadsheet.Grid

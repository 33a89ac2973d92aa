import Spreadsheet.Proofs.Dialogue

/-!
# How a dialogue ends

Only the last reading of a dialogue can be refused, and then its fault is the
outcome. A dialogue whose readings all have values ends with a value, with a
fault of the formula's own, or because the formula asks for its own cell. The
text of a formula alone is never taken for a cycle.
-/
namespace Spreadsheet.Formula

def Reading.HasValue (x : Reading) : Prop := ∃ v, x.answer = .ok v

/-- The readings of a dialogue up to its end, and what comes of them. -/
inductive Ending (own : Position) : List Reading → Resolution → Prop
  | value {l : List Reading} {v : Value} : (∀ x ∈ l, x.HasValue) →
      Ending own l ⟨.ok v, l.map Reading.cell⟩
  | failure {l : List Reading} {fault : Fault} : (∀ x ∈ l, x.HasValue) →
      fault.kind ≠ .circularReference → Ending own l ⟨.error fault, l.map Reading.cell⟩
  | itself {l : List Reading} : (∀ x ∈ l, x.HasValue) →
      Ending own l ⟨.error (.cycle [own, own]), l.map Reading.cell ++ [own]⟩
  | refused {l : List Reading} {q : Position} {fault : Fault} : (∀ x ∈ l, x.HasValue) →
      Ending own (l ++ [⟨q, .error fault⟩]) ⟨.error fault, l.map Reading.cell ++ [q]⟩

theorem Ending.after {own q : Position} {v : Value} {l : List Reading} {r : Resolution}
    (h : Ending own l r) : Ending own (⟨q, .ok v⟩ :: l) (r.after q) := by
  have hq : ∀ {l : List Reading}, (∀ x ∈ l, x.HasValue) →
      ∀ x ∈ (⟨q, .ok v⟩ : Reading) :: l, x.HasValue := by
    intro l hl x hx
    rcases List.mem_cons.1 hx with rfl | hx
    · exact ⟨v, rfl⟩
    · exact hl x hx
  cases h with
  | value hl => exact .value (hq hl)
  | failure hl hk => exact .failure (hq hl) hk
  | itself hl => exact .itself (hq hl)
  | refused hl => exact .refused (hq hl)

theorem Ending.mem_dependsOn {own : Position} {l : List Reading} {r : Resolution}
    (h : Ending own l r) {x : Reading} (hx : x ∈ l) : x.cell ∈ r.dependsOn := by
  have hc : x.cell ∈ l.map Reading.cell := List.mem_map_of_mem hx
  cases h with
  | value _ => exact hc
  | failure _ _ => exact hc
  | itself _ => exact List.mem_append_left _ hc
  | refused _ => simpa using hc

section
variable {own q : Position} {l : List Reading} {r : Resolution} {fault : Fault}

/-- A reading that is refused decides the outcome. -/
theorem Ending.outcome_of_refused (h : Ending own l r) {x : Reading} (hx : x ∈ l)
    (ha : x.answer = .error fault) : r.outcome = .error fault := by
  have hno : ∀ {l : List Reading}, (∀ x ∈ l, x.HasValue) → x ∉ l := by
    intro l hl hx
    obtain ⟨v, hv⟩ := hl x hx
    rw [ha] at hv
    cases hv
  cases h with
  | value hl => exact (hno hl hx).elim
  | failure hl _ => exact (hno hl hx).elim
  | itself hl => exact (hno hl hx).elim
  | refused hl =>
    rcases List.mem_append.1 hx with hx | hx
    · exact (hno hl hx).elim
    · rw [List.mem_singleton] at hx
      subst hx
      exact ha

theorem Ending.of_ok (h : Ending own l r) {v : Value} (ho : r.outcome = .ok v) :
    r.dependsOn = l.map Reading.cell ∧ ∀ x ∈ l, x.HasValue := by
  cases h with
  | value hl => exact ⟨rfl, hl⟩
  | failure _ _ => cases ho
  | itself _ => cases ho
  | refused _ => cases ho

/-- A cell that was read is the last one unless it gave a value. -/
theorem Ending.last_of_mem (h : Ending own l r) (hq : q ∈ r.dependsOn) :
    (∃ x ∈ l, x.cell = q ∧ x.HasValue) ∨
      ∃ ds, r.dependsOn = ds ++ [q] ∧ ∀ d ∈ ds, ∃ x ∈ l, x.cell = d ∧ x.HasValue := by
  have hcells : ∀ {l : List Reading}, (∀ x ∈ l, x.HasValue) → ∀ d ∈ l.map Reading.cell,
      ∃ x ∈ l, x.cell = d ∧ x.HasValue := by
    intro l hl d hd
    obtain ⟨x, hx, rfl⟩ := List.mem_map.1 hd
    exact ⟨x, hx, rfl, hl x hx⟩
  cases h with
  | value hl => exact .inl (hcells hl q hq)
  | failure hl _ => exact .inl (hcells hl q hq)
  | itself hl =>
    rcases List.mem_append.1 hq with hq | hq
    · exact .inl (hcells hl q hq)
    · rw [List.mem_singleton] at hq
      subst hq
      exact .inr ⟨_, rfl, hcells hl⟩
  | @refused l p fault hl =>
    have hmore : ∀ d ∈ l.map Reading.cell,
        ∃ x ∈ l ++ [⟨p, .error fault⟩], x.cell = d ∧ x.HasValue := by
      intro d hd
      obtain ⟨x, hx, hd⟩ := hcells hl d hd
      exact ⟨x, List.mem_append_left _ hx, hd⟩
    rcases List.mem_append.1 hq with hq | hq
    · exact .inl (hmore q hq)
    · rw [List.mem_singleton] at hq
      subst hq
      exact .inr ⟨_, rfl, hmore⟩

/-- A fault that speaks of a cycle is the formula's own or an answer that it got. -/
theorem Ending.of_circular (h : Ending own l r) (ho : r.outcome = .error fault)
    (hk : fault.kind = .circularReference) :
    fault = .cycle [own, own] ∧ own ∈ r.dependsOn ∨ ∃ x ∈ l, x.answer = .error fault := by
  cases h with
  | value _ => cases ho
  | failure _ hne =>
    cases ho
    exact (hne hk).elim
  | itself _ =>
    cases ho
    exact .inl ⟨rfl, by simp⟩
  | refused _ =>
    cases ho
    exact .inr ⟨_, List.mem_append_right _ List.mem_cons_self, rfl⟩

end

/-- An evaluation never fails for a cycle. -/
theorem kind_failed_ne (failure : Failure) : (Fault.failed failure).kind ≠ .circularReference := by
  unfold Fault.kind
  split <;> simp_all

section
variable [Engine]

theorem attempt_fault {f : Compiled} {ω : Occasion} {b : Bindings} {fault : Fault}
    (h : f.attempt ω b = .failed fault) : ∃ failure, fault = .failed failure := by
  rcases evaluate_of_failed h with ⟨failure, hfault, -⟩ | ⟨type, hfault⟩
  · exact ⟨failure, hfault⟩
  · exact ⟨.unsupportedResult type, hfault⟩

theorem Dialogue.ending {ω : Occasion} {f : Compiled} {own : Position} {n : Nat} {b : Bindings}
    {l : List Reading} {r : Resolution} (h : Dialogue ω f own n b l r) : Ending own l r := by
  induction h with
  | resolved _ => exact .value (l := []) (by simp)
  | failed hf =>
    obtain ⟨failure, rfl⟩ := attempt_fault hf
    exact .failure (l := []) (by simp) (kind_failed_ne failure)
  | repeated _ _ => exact .failure (l := []) (by simp) (kind_failed_ne _)
  | unrecognized _ _ _ => exact .failure (l := []) (by simp) (by simp [Fault.kind])
  | exhausted _ _ _ => exact .failure (l := []) (by simp) (kind_failed_ne _)
  | itself _ _ _ => exact .itself (l := []) (by simp)
  | refused _ _ _ _ => exact .refused (l := []) (by simp)
  | answered _ _ _ _ _ ih => exact ih.after

end

/-! ## Faults of a formula's text -/

/-- Whether a fault can be found when a formula is lowered. -/
def IsOfLowering : Fault → Bool
  | .parameterCount _ | .unrecognized _ | .failed (.unknownFunction _)
  | .failed (.unknownLiteral _) => true
  | _ => false

/-- Whether the text of a formula alone can have a fault. -/
def IsOfText : Fault → Bool
  | .invalidRange _ | .rangeTooLarge _ | .uncuttable | .malformed => true
  | fault => IsOfLowering fault

section
variable {cs : List Char} {fault : Fault} {literals : List (List Char)} {frames : List Frame}

theorem isOfText_of_isOfLowering (h : IsOfLowering fault = true) : IsOfText fault = true := by
  unfold IsOfText
  split
  · rfl
  · rfl
  · rfl
  · rfl
  · exact h

theorem isOfText_of_expandAfter {before : List Char} (h : expandAfter before cs = .error fault) :
    IsOfText fault = true := by
  fun_induction expandAfter before cs with
  | case1 => cases h
  | case2 _ _ _ _ _ _ _ ih => exact ih h
  | case3 before rest first _ _ f hf =>
    cases h
    unfold rangeCells at hf
    split at hf
    · split at hf <;> cases hf
      rfl
    · cases hf
      rfl
  | case4 =>
    cases h
    rfl
  | case5 _ _ _ _ ih => exact ih h

theorem isOfLowering_of_stepCall {name rest : List Char}
    (h : stepCall literals frames name rest = .error fault) : IsOfLowering fault = true := by
  unfold stepCall at h
  split at h
  · cases h
    rfl
  · split at h
    · split at h <;> cases h
      rfl
    · cases h

theorem isOfLowering_of_step {c : Char} (h : step literals frames c cs = .error fault) :
    IsOfLowering fault = true := by
  unfold step at h
  split at h
  · cases h
  split at h
  · cases h
  split at h
  · unfold stepClose at h
    split at h
    · cases h
    split at h
    · cases h
    · split at h <;> cases h
      rfl
  · unfold stepArgument at h
    split at h
    · cases h
    split at h
    · unfold stepName at h
      split at h
      · exact isOfLowering_of_stepCall h
      · cases h
    · split at h <;> cases h
      rfl

theorem isOfLowering_of_lowerFrom (h : lowerFrom literals frames cs = .error fault) :
    IsOfLowering fault = true := by
  fun_induction lowerFrom literals frames cs with
  | case1 => cases h
  | case2 _ _ _ _ hs =>
    cases h
    exact isOfLowering_of_step hs
  | case3 _ _ _ _ _ _ hs ih =>
    cases h
    exact ih hs
  | case4 => cases h

theorem isOfText_of_ofText [Engine] (h : ofText cs = .error fault) : IsOfText fault = true := by
  unfold ofText at h
  split at h
  · rename_i hf
    cases h
    exact isOfText_of_expandAfter hf
  · dsimp only [compile] at h
    split at h
    · rename_i hf
      cases h
      exact isOfText_of_isOfLowering (isOfLowering_of_lowerFrom hf)
    · split at h <;> cases h
      rfl

/-- A formula's text alone is never taken for a cycle. -/
theorem kind_of_ofText [Engine] (h : ofText cs = .error fault) :
    fault.kind ≠ .circularReference := by
  have htext := isOfText_of_ofText h
  rintro hkind
  cases fault with
  | cycle => cases htext
  | unsettled => cases htext
  | failed failure => exact kind_failed_ne failure hkind
  | _ => cases hkind

/-- Only the ranges of a text make it one that cannot be cut. -/
theorem isUncuttable_of_ofText [Engine] (h : ofText cs = .error .uncuttable) :
    isUncuttable cs = true := by
  unfold ofText at h
  split at h
  · rename_i hf
    cases h
    rw [isUncuttable, hf]
  · dsimp only [compile] at h
    split at h
    · rename_i hf
      cases h
      cases isOfLowering_of_lowerFrom hf
    · split at h <;> cases h

end

section
variable [Engine] {ω : Occasion} {cs : List Char} {own : Position} {l : List Reading}
    {r : Resolution}

theorem TextDialogue.ending (h : TextDialogue ω cs own l r) : Ending own l r := by
  cases h with
  | blank _ => exact .value (l := []) (by simp)
  | refused _ hf => exact .failure (l := []) (by simp) (kind_of_ofText hf)
  | compiled _ _ hl => exact hl.ending

/-- A formula does not read its own cell. -/
theorem Dialogue.cell_ne {f : Compiled} {n : Nat} {b : Bindings} (h : Dialogue ω f own n b l r) :
    ∀ x ∈ l, x.cell ≠ own := by
  induction h with
  | refused _ _ _ hne => simpa using hne
  | answered _ _ _ hne _ ih => simpa using ⟨hne, ih⟩
  | _ => simp

theorem TextDialogue.cell_ne (h : TextDialogue ω cs own l r) : ∀ x ∈ l, x.cell ≠ own := by
  cases h with
  | compiled _ _ hl => exact hl.cell_ne
  | _ => simp

/-- A fault that neither an evaluation nor the resolution itself comes to is an answer. -/
theorem Dialogue.answer_of_fault {f : Compiled} {n : Nat} {b : Bindings} {fault : Fault}
    (h : Dialogue ω f own n b l r) (hattempt : ∀ ω b, f.attempt ω b ≠ .failed fault)
    (hunresolved : ∀ name, fault ≠ .failed (.unresolved name))
    (hunrecognized : ∀ name, fault ≠ .unrecognized name) (hcycle : ∀ path, fault ≠ .cycle path)
    (ho : r.outcome = .error fault) : ∃ x ∈ l, x.answer = .error fault := by
  induction h with
  | resolved => cases ho
  | @failed _ b _ hf =>
    cases ho
    exact absurd hf (hattempt _ b)
  | repeated | exhausted =>
    cases ho
    exact absurd rfl (hunresolved _)
  | unrecognized =>
    cases ho
    exact absurd rfl (hunrecognized _)
  | itself =>
    cases ho
    exact absurd rfl (hcycle _)
  | refused =>
    cases ho
    exact ⟨_, List.mem_cons_self, rfl⟩
  | answered _ _ _ _ _ ih =>
    obtain ⟨x, hx, ha⟩ := ih ho
    exact ⟨x, List.mem_cons_of_mem _ hx, ha⟩

/-- A formula that cannot be cut has such a range in its text, or it read one that has. -/
theorem TextDialogue.of_uncuttable (h : TextDialogue ω cs own l r)
    (ho : r.outcome = .error .uncuttable) :
    isUncuttable cs = true ∨ ∃ x ∈ l, x.answer = .error .uncuttable := by
  cases h with
  | blank _ => cases ho
  | refused _ hf =>
    cases ho
    exact .inl (isUncuttable_of_ofText hf)
  | compiled _ _ hl =>
    refine .inr (hl.answer_of_fault (fun _ b hb => ?_) nofun nofun nofun ho)
    obtain ⟨failure, hfault⟩ := attempt_fault hb
    cases hfault

end

end Spreadsheet.Formula

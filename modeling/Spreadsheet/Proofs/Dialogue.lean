import Spreadsheet.Formula.Resolution

/-!
# The dialogue of a resolution

A resolution asks its source for cells, one after the other, and the answers
decide how it goes on. The dialogue records the cells with their answers and
says what comes of them. It does not mention the source, so two sources that
give the same answers lead to the same resolution, whatever their states. What
comes of an attempt may hang on the occasion. A formula whose attempts come to
the same on every occasion has the same dialogue on all of them.
-/
namespace Spreadsheet.Formula
open Text

variable [Engine]

/-! ## Attempts -/

section
variable {f : Compiled} {ω : Occasion} {b : Bindings}

theorem evaluate_of_needs {name : String} (h : f.attempt ω b = .needs name) :
    Engine.evaluate ω f.script b = .error (.needs name) := by
  unfold Compiled.attempt at h
  split at h
  · unfold Attempt.ofDatum at h
    split at h <;> cases h
  · rename_i hneeds
    cases h
    exact hneeds
  · cases h

/-- An attempt fails as its evaluation does, or because what comes of that is no value. -/
theorem evaluate_of_failed {fault : Fault} (h : f.attempt ω b = .failed fault) :
    (∃ failure, fault = .failed failure ∧
      Engine.evaluate ω f.script b = .error (.failed failure)) ∨
      ∃ type, fault = .failed (.unsupportedResult type) := by
  unfold Compiled.attempt at h
  split at h
  · unfold Attempt.ofDatum at h
    split at h <;> cases h
    exact .inr ⟨_, rfl⟩
  · cases h
  · rename_i hfailed
    cases h
    exact .inl ⟨_, rfl, hfailed⟩

end

/-! ## Dialogues -/

/-- A cell that was asked for and the answer of the source. -/
structure Reading where
  cell : Position
  answer : Except Fault Value

/-- The readings of a compiled formula from some bindings on, and what comes of them. The cases are
those of `resolveFrom`. -/
inductive Dialogue (ω : Occasion) (f : Compiled) (own : Position) :
    Nat → Bindings → List Reading → Resolution → Prop
  | resolved {n : Nat} {b : Bindings} {v : Value} : f.attempt (ω.stage b.length) b = .resolved v →
      Dialogue ω f own n b [] ⟨.ok v, []⟩
  | failed {n : Nat} {b : Bindings} {fault : Fault} :
      f.attempt (ω.stage b.length) b = .failed fault →
      Dialogue ω f own n b [] ⟨.error fault, []⟩
  | repeated {n : Nat} {b : Bindings} {name : String} :
      f.attempt (ω.stage b.length) b = .needs name → (b.lookup name).isSome = true →
      Dialogue ω f own n b [] ⟨.error (.failed (.unresolved name)), []⟩
  | unrecognized {n : Nat} {b : Bindings} {name : String} :
      f.attempt (ω.stage b.length) b = .needs name → (b.lookup name).isSome = false →
      Position.ofName? name.toList = none →
      Dialogue ω f own n b [] ⟨.error (.unrecognized name), []⟩
  | exhausted {b : Bindings} {name : String} {q : Position} :
      f.attempt (ω.stage b.length) b = .needs name → (b.lookup name).isSome = false →
      Position.ofName? name.toList = some q →
      Dialogue ω f own 0 b [] ⟨.error (.failed (.unresolved name)), []⟩
  | itself {n : Nat} {b : Bindings} {name : String} :
      f.attempt (ω.stage b.length) b = .needs name → (b.lookup name).isSome = false →
      Position.ofName? name.toList = some own →
      Dialogue ω f own (n + 1) b [] ⟨.error (.cycle [own, own]), [own]⟩
  | refused {n : Nat} {b : Bindings} {name : String} {q : Position} {fault : Fault} :
      f.attempt (ω.stage b.length) b = .needs name → (b.lookup name).isSome = false →
      Position.ofName? name.toList = some q → q ≠ own →
      Dialogue ω f own (n + 1) b [⟨q, .error fault⟩] ⟨.error fault, [q]⟩
  | answered {n : Nat} {b : Bindings} {name : String} {q : Position} {v : Value}
      {l : List Reading} {r : Resolution} :
      f.attempt (ω.stage b.length) b = .needs name → (b.lookup name).isSome = false →
      Position.ofName? name.toList = some q → q ≠ own →
      Dialogue ω f own n ((name, v) :: b) l r →
      Dialogue ω f own (n + 1) b (⟨q, .ok v⟩ :: l) (r.after q)

/-- The source gives these answers, one after the other. -/
inductive Answers {σ : Type} (operands : Operands σ) : σ → List Reading → σ → Prop
  | nil (s : σ) : Answers operands s [] s
  | cons {s u t : σ} {q : Position} {o : Except Fault Value} {l : List Reading} :
      operands q s = (o, u) → Answers operands u l t → Answers operands s (⟨q, o⟩ :: l) t

section
variable {σ : Type} {operands : Operands σ} {ω : Occasion} {f : Compiled} {own : Position}

theorem exists_dialogue_from (ω : Occasion) (operands : Operands σ) (f : Compiled)
    (own : Position) (n : Nat) (b : Bindings) (s : σ) :
    ∃ l, Dialogue ω f own n b l (resolveFrom ω f own operands n b s).1 ∧
      Answers operands s l (resolveFrom ω f own operands n b s).2 := by
  induction n generalizing b s with
  | zero =>
    refine ⟨[], ?_⟩
    unfold resolveFrom
    split
    · rename_i v hv
      exact ⟨.resolved hv, .nil s⟩
    · rename_i fault hf
      exact ⟨.failed hf, .nil s⟩
    · rename_i name hn
      split
      · rename_i hb
        exact ⟨.repeated hn hb, .nil s⟩
      · rename_i hb
        rw [Bool.not_eq_true] at hb
        cases hq : Position.ofName? name.toList with
        | none => exact ⟨.unrecognized hn hb hq, .nil s⟩
        | some q => exact ⟨.exhausted hn hb hq, .nil s⟩
  | succ n ih =>
    unfold resolveFrom
    split
    · rename_i v hv
      exact ⟨[], .resolved hv, .nil s⟩
    · rename_i fault hf
      exact ⟨[], .failed hf, .nil s⟩
    · rename_i name hn
      split
      · rename_i hb
        exact ⟨[], .repeated hn hb, .nil s⟩
      · rename_i hb
        rw [Bool.not_eq_true] at hb
        cases hq : Position.ofName? name.toList with
        | none => exact ⟨[], .unrecognized hn hb hq, .nil s⟩
        | some q =>
          dsimp only
          split
          · rename_i he
            subst he
            exact ⟨[], .itself hn hb hq, .nil s⟩
          · rename_i hne
            split
            · rename_i fault u ho
              exact ⟨[⟨q, .error fault⟩], .refused hn hb hq hne, .cons ho (.nil u)⟩
            · rename_i v u ho
              obtain ⟨l, hl, ha⟩ := ih ((name, v) :: b) u
              exact ⟨⟨q, .ok v⟩ :: l, .answered hn hb hq hne hl, .cons ho ha⟩

/-- A dialogue decides the resolution by any source that gives its answers. -/
theorem Dialogue.resolveFrom_eq {n : Nat} {b : Bindings} {l : List Reading} {r : Resolution}
    (h : Dialogue ω f own n b l r) {s t : σ} (ha : Answers operands s l t) :
    resolveFrom ω f own operands n b s = (r, t) := by
  induction h generalizing s with
  | resolved hv =>
    cases ha
    simp [resolveFrom, hv]
  | failed hf =>
    cases ha
    simp [resolveFrom, hf]
  | repeated hn hb =>
    cases ha
    simp [resolveFrom, hn, hb]
  | unrecognized hn hb hq =>
    cases ha
    simp [resolveFrom, hn, hb, hq]
  | exhausted hn hb hq =>
    cases ha
    simp [resolveFrom, hn, hb, hq]
  | itself hn hb hq =>
    cases ha
    simp [resolveFrom, hn, hb, hq]
  | refused hn hb hq hne =>
    cases ha with
    | cons ho ha =>
      cases ha
      simp [resolveFrom, hn, hb, hq, hne, ho]
  | answered hn hb hq hne _ ih =>
    cases ha with
    | cons ho ha => simp [resolveFrom, hn, hb, hq, hne, ho, ih ha]

end

/-- The readings of a formula's text and what comes of them. -/
inductive TextDialogue (ω : Occasion) (cs : List Char) (own : Position) :
    List Reading → Resolution → Prop
  | blank : (trim cs).isEmpty = true → TextDialogue ω cs own [] ⟨.ok Value.blank, []⟩
  | refused {fault : Fault} : (trim cs).isEmpty = false → ofText cs = .error fault →
      TextDialogue ω cs own [] ⟨.error fault, []⟩
  | compiled {f : Compiled} {l : List Reading} {r : Resolution} : (trim cs).isEmpty = false →
      ofText cs = .ok f → Dialogue ω f own (Engine.names f.script).length [] l r →
      TextDialogue ω cs own l r

section
variable {σ : Type} {operands : Operands σ} {ω : Occasion} {cs : List Char} {own : Position}

/-- Every resolution has a dialogue, whose answers its source gives. -/
theorem exists_dialogue (ω : Occasion) (cs : List Char) (own : Position) (operands : Operands σ)
    (s : σ) :
    ∃ l, TextDialogue ω cs own l (resolve ω cs own operands s).1 ∧
      Answers operands s l (resolve ω cs own operands s).2 := by
  unfold resolve
  split
  · rename_i hb
    exact ⟨[], .blank hb, .nil s⟩
  · rename_i hb
    rw [Bool.not_eq_true] at hb
    split
    · rename_i fault hf
      exact ⟨[], .refused hb hf, .nil s⟩
    · rename_i f hf
      obtain ⟨l, hl, ha⟩ :=
        exists_dialogue_from ω operands f own (Engine.names f.script).length [] s
      exact ⟨l, .compiled hb hf hl, ha⟩

theorem TextDialogue.resolve_eq {l : List Reading} {r : Resolution}
    (h : TextDialogue ω cs own l r) {s t : σ} (ha : Answers operands s l t) :
    resolve ω cs own operands s = (r, t) := by
  unfold resolve
  cases h with
  | blank hb =>
    cases ha
    rw [if_pos hb]
  | refused hb hf =>
    cases ha
    simp [hb, hf]
  | compiled hb hf hl => simpa [hb, hf, Compiled.resolve] using hl.resolveFrom_eq ha

end

omit [Engine] in
theorem Answers.exists_of_mem {σ : Type} {operands : Operands σ} {s t : σ} {l : List Reading}
    (h : Answers operands s l t) {x : Reading} (hx : x ∈ l) :
    ∃ u, (operands x.cell u).1 = x.answer := by
  induction h with
  | nil => cases hx
  | @cons s _ _ _ _ _ ho _ ih =>
    rcases List.mem_cons.1 hx with rfl | hx
    · exact ⟨s, by rw [ho]⟩
    · exact ih hx

omit [Engine] in
/-- What every single answer keeps of its source, all answers keep. -/
theorem Answers.related {σ : Type} {operands : Operands σ} {R : σ → σ → Prop}
    (refl : ∀ s, R s s) (trans : ∀ {s t u}, R s t → R t u → R s u)
    (step : ∀ q s, R s (operands q s).2) {s t : σ} {l : List Reading}
    (h : Answers operands s l t) : R s t := by
  induction h with
  | nil s => exact refl s
  | @cons s u t q o l ho _ ih =>
    have hu : R s u := by
      have := step q s
      rwa [ho] at this
    exact trans hu ih

/-! ## Sources that answer alike -/

section
variable {σ τ : Type} {operands : Operands σ} {others : Operands τ} {R : σ → τ → Prop}

omit [Engine] in
theorem Answers.simulate
    (step : ∀ q s u, R s u →
      (operands q s).1 = (others q u).1 ∧ R (operands q s).2 (others q u).2)
    {s t : σ} {l : List Reading} (h : Answers operands s l t) {u : τ} (hR : R s u) :
    ∃ w, Answers others u l w ∧ R t w := by
  induction h generalizing u with
  | nil s => exact ⟨u, .nil u, hR⟩
  | @cons s s₁ t q o l ho _ ih =>
    obtain ⟨ha, hR'⟩ := step q s u hR
    rw [ho] at ha hR'
    obtain ⟨w, hw, hRw⟩ := ih hR'
    exact ⟨w, .cons (Prod.ext ha.symm rfl) hw, hRw⟩

/-- Two sources whose states stay related give the same resolution. -/
theorem resolve_simulate (operands : Operands σ) (others : Operands τ)
    (step : ∀ q s u, R s u →
      (operands q s).1 = (others q u).1 ∧ R (operands q s).2 (others q u).2)
    {s : σ} {u : τ} (hR : R s u) (ω : Occasion) (cs : List Char) (own : Position) :
    (resolve ω cs own operands s).1 = (resolve ω cs own others u).1 ∧
      R (resolve ω cs own operands s).2 (resolve ω cs own others u).2 := by
  obtain ⟨l, hl, ha⟩ := exists_dialogue ω cs own operands s
  obtain ⟨w, hw, hRw⟩ := ha.simulate step hR
  rw [hl.resolve_eq hw]
  exact ⟨rfl, hRw⟩

end

/-! ## Formulas that come to the same on every occasion -/

/-- Every attempt comes to the same on all occasions. -/
def Compiled.IsRepeatable (f : Compiled) : Prop :=
  ∀ (ω ω' : Occasion) (b : Bindings), f.attempt ω b = f.attempt ω' b

/-- The formula depends on no occasion: it draws no number and asks for no time. -/
def IsRepeatable (cs : List Char) : Prop := ∀ f, ofText cs = .ok f → f.IsRepeatable

section
variable {ω : Occasion}

theorem Dialogue.onOccasion {f : Compiled} {own : Position} {n : Nat} {b : Bindings}
    {l : List Reading} {r : Resolution} (h : Dialogue ω f own n b l r) (hf : f.IsRepeatable)
    (ω' : Occasion) : Dialogue ω' f own n b l r := by
  induction h with
  | resolved hv => exact .resolved ((hf _ _ _).trans hv)
  | failed he => exact .failed ((hf _ _ _).trans he)
  | repeated hn hb => exact .repeated ((hf _ _ _).trans hn) hb
  | unrecognized hn hb hq => exact .unrecognized ((hf _ _ _).trans hn) hb hq
  | exhausted hn hb hq => exact .exhausted ((hf _ _ _).trans hn) hb hq
  | itself hn hb hq => exact .itself ((hf _ _ _).trans hn) hb hq
  | refused hn hb hq hne => exact .refused ((hf _ _ _).trans hn) hb hq hne
  | answered hn hb hq hne _ ih => exact .answered ((hf _ _ _).trans hn) hb hq hne ih

theorem TextDialogue.onOccasion {cs : List Char} {own : Position} {l : List Reading}
    {r : Resolution} (h : TextDialogue ω cs own l r) (hcs : IsRepeatable cs) (ω' : Occasion) :
    TextDialogue ω' cs own l r := by
  cases h with
  | blank hb => exact .blank hb
  | refused hb hf => exact .refused hb hf
  | compiled hb hf hl => exact .compiled hb hf (hl.onOccasion (hcs _ hf) ω')

/-- A formula that depends on no occasion is resolved alike on all of them. -/
theorem IsRepeatable.resolve_eq {cs : List Char} (h : IsRepeatable cs) (ω ω' : Occasion) {σ : Type}
    (own : Position) (operands : Operands σ) (s : σ) :
    resolve ω cs own operands s = resolve ω' cs own operands s := by
  obtain ⟨l, hl, ha⟩ := exists_dialogue ω cs own operands s
  rw [(hl.onOccasion h ω').resolve_eq ha]

end

end Spreadsheet.Formula

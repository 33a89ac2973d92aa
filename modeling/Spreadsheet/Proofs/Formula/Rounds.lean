import Spreadsheet.Proofs.Expression.Arity
import Spreadsheet.Proofs.Formula.Calculation

/-!
# The rounds of a resolution

A resolution goes in rounds. In each it evaluates its formula, and in each but the
last it gives a value to one more name. Nothing but this ends it: an evaluation
asks only for names that stand in the expression and have no value yet, whatever
the source of the values answers, and there are only so many of them. A name that
is asked for again would end the resolution with a failure of its own, which never
comes about.
-/
namespace Spreadsheet
open Text

/-! ## What a formula asks for -/

/-- The functions of the library that the expression calls never fail as the resolution itself does
for a name that is asked for twice. -/
def Tree.SparesNames [Library] (t : Tree) : Prop := ∀ name ∈ t.calls, ∀ ω b ds n,
  Library.call ω b name ds ≠ some (.error (.failed (.unresolved n)))

theorem Tree.SparesNames.admits [Library] {t : Tree} (h : t.SparesNames) :
    Tree.Admits (fun i => ∀ n, i ≠ .failed (.unresolved n)) t.calls where
  needs _ := nofun
  raised failure hraised n hn := by
    cases hn
    cases hraised
  library name hname ω b ds outcome hcall i hi n hn := by
    rw [hi, hn] at hcall
    exact h name hname ω b ds n hcall

/-- The common functions fail in ways of their own. -/
theorem StandardLibrary.sparesNames (t : Tree) : t.SparesNames := by
  intro name _ ω b ds n hcall
  obtain ⟨x, hx, horFailed⟩ := Option.map_eq_some_iff.1 hcall
  cases x with
  | ok d => cases horFailed
  | error failure =>
    cases horFailed
    cases raises_call hx _ rfl

namespace Formula
open Expression

section
variable {b : Bindings} {n : String} {q : Position}

/-- Only names of cells are bound. -/
def BindsCells (b : Bindings) : Prop := ∀ e ∈ b, ∃ q, Position.ofName? e.1.toList = some q

theorem BindsCells.cons (hb : BindsCells b) (hq : Position.ofName? n.toList = some q) (v : Value) :
    BindsCells ((n, v) :: b) := List.forall_mem_cons.2 ⟨⟨q, hq⟩, hb⟩

variable [Library] {f : Compiled} {ω : Occasion}

/-- A name that is asked for is not bound. -/
theorem lookup_of_needs (hasks : Tree.AsksAsWritten f.script) (hb : BindsCells b)
    (h : f.attempt ω b = .needs n) : b.lookup n = none := by
  by_contra hbound
  have hcolon := (Tree.asks_of_needs hasks (evaluate_of_needs h)).2.resolve_left hbound
  obtain ⟨e, he, rfl⟩ := exists_mem_of_lookup_ne_none hbound
  obtain ⟨q, hq⟩ := hb e he
  exact absurd (Position.isAlphanum_of_ofName hq _ hcolon) (by decide)

theorem attempt_ne_unresolved (hspares : Tree.SparesNames f.script) (ω : Occasion) (b : Bindings)
    (n : String) : f.attempt ω b ≠ .failed (.failed (.unresolved n)) := by
  intro h
  rcases evaluate_of_failed h with ⟨failure, hfault, hfailed⟩ | ⟨type, hfault⟩
  · cases hfault
    exact hspares.admits.evaluate f.script (List.Subset.refl _) (.inr fun _ => nofun) ω b _ hfailed
      n rfl
  · cases hfault

end

/-! ## Rounds -/

/-- What one round comes to: the resolution ends, or one more name gets the value of a cell. The
source is left in a new state. -/
inductive Round (σ : Type) where
  | ends (r : Resolution) (s : σ)
  | binds (name : String) (cell : Position) (value : Value) (s : σ)

section
variable {σ : Type}

section
variable [Engine]

/-- One round with the given bindings. A name that is asked for is looked up among them first. -/
def round (ω : Occasion) (f : Compiled) (own : Position) (operands : Operands σ) (b : Bindings)
    (s : σ) : Round σ :=
  match f.attempt (ω.stage b.length) b with
  | .resolved v => .ends ⟨.ok v, []⟩ s
  | .failed fault => .ends ⟨.error fault, []⟩ s
  | .needs n =>
    if (b.lookup n).isSome then .ends ⟨.error (.failed (.unresolved n)), []⟩ s
    else
      match Position.ofName? n.toList with
      | none => .ends ⟨.error (.unrecognized n), []⟩ s
      | some q =>
        if q = own then .ends ⟨.error (.cycle [own, own]), [q]⟩ s
        else
          match operands q s with
          | (.error fault, u) => .ends ⟨.error fault, [q]⟩ u
          | (.ok v, u) => .binds n q v u

/-- Round after round, with no bound on them: how many there are from some bindings and some state
of the source on, which names get a value, what comes of it, and the state that is left. -/
inductive Rounds (ω : Occasion) (f : Compiled) (own : Position) (operands : Operands σ) :
    Bindings → σ → Nat → List String → Resolution → σ → Prop
  | last {b : Bindings} {s t : σ} {r : Resolution} : round ω f own operands b s = .ends r t →
      Rounds ω f own operands b s 1 [] r t
  | next {b : Bindings} {s u t : σ} {n : String} {q : Position} {v : Value} {k : Nat}
      {names : List String} {r : Resolution} : round ω f own operands b s = .binds n q v u →
      Rounds ω f own operands ((n, v) :: b) u k names r t →
      Rounds ω f own operands b s (k + 1) (n :: names) (r.after q) t

variable {ω : Occasion} {f : Compiled} {own : Position} {operands : Operands σ} {b : Bindings}
  {s t u : σ} {n : String} {q : Position} {v : Value} {r : Resolution}

theorem of_round_binds (h : round ω f own operands b s = .binds n q v u) :
    f.attempt (ω.stage b.length) b = .needs n ∧ b.lookup n = none ∧
      Position.ofName? n.toList = some q ∧ q ≠ own ∧ operands q s = (.ok v, u) := by
  unfold round at h
  split at h
  · cases h
  · cases h
  rename_i hneeds
  split at h
  · cases h
  rename_i hnone
  split at h
  · cases h
  rename_i hq
  split at h
  · cases h
  rename_i hne
  split at h <;> cases h
  rename_i hanswer
  exact ⟨hneeds, Option.not_isSome_iff_eq_none.1 hnone, hq, hne, hanswer⟩

/-! ## Rounds and the bounded resolution -/

section
variable {bound : Nat} (hlisted : f.AsksListed) (hbound : (f.unbound b).length ≤ bound)
include hlisted hbound

/-- While names are asked for that are not bound, the bound is not used up. -/
theorem exists_succ_of_needs (h : f.attempt ω b = .needs n) (hnone : b.lookup n = none) :
    ∃ m, bound = m + 1 := by
  have hmem := Compiled.mem_unbound.2 ⟨hlisted h, hnone⟩
  exact Nat.exists_eq_succ_of_ne_zero
    (Nat.ne_of_gt (Nat.lt_of_lt_of_le (List.length_pos_of_mem hmem) hbound))

theorem resolveFrom_of_ends (h : round ω f own operands b s = .ends r t) :
    resolveFrom ω f own operands bound b s = (r, t) := by
  unfold round at h
  split at h
  · rename_i hresolved
    cases h
    simp [resolveFrom, hresolved]
  · rename_i hfailed
    cases h
    simp [resolveFrom, hfailed]
  rename_i hneeds
  split at h
  · rename_i hagain
    cases h
    simp [resolveFrom, hneeds, hagain]
  rename_i hnone
  rw [Option.not_isSome_iff_eq_none] at hnone
  obtain ⟨m, rfl⟩ := exists_succ_of_needs hlisted hbound hneeds hnone
  split at h
  · rename_i hq
    cases h
    simp [resolveFrom, hneeds, hnone, hq]
  rename_i hq
  split at h
  · rename_i hown
    cases h
    simp [resolveFrom, hneeds, hnone, hq, hown]
  rename_i hne
  split at h <;> cases h
  rename_i hanswer
  simp [resolveFrom, hneeds, hnone, hq, hne, hanswer]

theorem exists_of_binds (h : round ω f own operands b s = .binds n q v u) : ∃ m, bound = m + 1 ∧
    resolveFrom ω f own operands bound b s =
      ((resolveFrom ω f own operands m ((n, v) :: b) u).1.after q,
        (resolveFrom ω f own operands m ((n, v) :: b) u).2) := by
  obtain ⟨hneeds, hnone, hq, hne, hanswer⟩ := of_round_binds h
  obtain ⟨m, rfl⟩ := exists_succ_of_needs hlisted hbound hneeds hnone
  refine ⟨m, rfl, ?_⟩
  rw [resolveFrom, hneeds]
  simp only [hnone, Option.isSome_none, Bool.false_eq_true, if_false, hq, if_neg hne, hanswer]

/-- The rounds end, and the resolution is what comes of them. The induction is on the bound, and the
names that are not bound yet stay below it. -/
theorem exists_rounds_from : ∃ k names, Rounds ω f own operands b s k names
    (resolveFrom ω f own operands bound b s).1 (resolveFrom ω f own operands bound b s).2 := by
  induction bound using Nat.strongRecOn generalizing b s with
  | _ bound ih =>
    cases hround : round ω f own operands b s with
    | ends r t =>
      rw [resolveFrom_of_ends hlisted hbound hround]
      exact ⟨1, [], .last hround⟩
    | binds n q v u =>
      obtain ⟨m, rfl, hresolve⟩ := exists_of_binds hlisted hbound hround
      obtain ⟨hneeds, hnone, -⟩ := of_round_binds hround
      have hless := Compiled.length_unbound_lt (Compiled.mem_unbound.2 ⟨hlisted hneeds, hnone⟩) v
      obtain ⟨k, names, hrounds⟩ := @ih m m.lt_succ_self ((n, v) :: b) u (by omega)
      rw [hresolve]
      exact ⟨k + 1, n :: names, .next hround hrounds⟩

end

namespace Rounds
variable {k : Nat} {names : List String}

/-- The formula and the source decide the rounds. -/
theorem unique (h : Rounds ω f own operands b s k names r t) {k' : Nat} {names' : List String}
    {r' : Resolution} {t' : σ} (h' : Rounds ω f own operands b s k' names' r' t') :
    k' = k ∧ names' = names ∧ r' = r ∧ t' = t := by
  induction h generalizing k' names' r' t' with
  | last hround =>
    cases h' with
    | last hround' =>
      cases hround.symm.trans hround'
      exact ⟨rfl, rfl, rfl, rfl⟩
    | next hround' => cases hround.symm.trans hround'
  | next hround _ ih =>
    cases h' with
    | last hround' => cases hround.symm.trans hround'
    | next hround' hrest =>
      cases hround.symm.trans hround'
      obtain ⟨rfl, rfl, rfl, rfl⟩ := ih hrest
      exact ⟨rfl, rfl, rfl, rfl⟩

/-- Every round but the last binds a name. -/
theorem eq_length (h : Rounds ω f own operands b s k names r t) : k = names.length + 1 := by
  induction h with
  | last => rfl
  | next _ _ ih => rw [ih, List.length_cons]

/-- The names that are bound are names of cells that were not bound before. -/
theorem unbound (h : Rounds ω f own operands b s k names r t) :
    ∀ n ∈ names, b.lookup n = none ∧ (∃ ω b, f.attempt ω b = .needs n) ∧
      ∃ q, Position.ofName? n.toList = some q := by
  induction h with
  | last => exact List.forall_mem_nil _
  | @next b _ _ _ n q v _ names _ hround _ ih =>
    obtain ⟨hneeds, hnone, hq, -⟩ := of_round_binds hround
    refine List.forall_mem_cons.2 ⟨⟨hnone, ⟨_, _, hneeds⟩, q, hq⟩, fun m hm => ?_⟩
    obtain ⟨hlookup, hasked, hcell⟩ := ih m hm
    refine ⟨?_, hasked, hcell⟩
    rw [List.lookup_cons] at hlookup
    split at hlookup
    · cases hlookup
    · exact hlookup

theorem nodup (h : Rounds ω f own operands b s k names r t) : names.Nodup := by
  induction h with
  | last => exact List.nodup_nil
  | next _ hrest ih =>
    refine List.nodup_cons.2 ⟨fun hmem => ?_, ih⟩
    have hlookup := (hrest.unbound _ hmem).1
    rw [List.lookup_cons_self] at hlookup
    cases hlookup

end Rounds

/-! ## The rounds of a text -/

/-- The rounds of a formula's text. A text that is blank or cannot be compiled takes none. -/
inductive TextRounds (ω : Occasion) (cs : List Char) (own : Position) (operands : Operands σ)
    (s : σ) : Nat → List String → Resolution → σ → Prop
  | blank : (trim cs).isEmpty = true → TextRounds ω cs own operands s 0 [] ⟨.ok Value.blank, []⟩ s
  | refused {fault : Fault} : (trim cs).isEmpty = false → ofText cs = .error fault →
      TextRounds ω cs own operands s 0 [] ⟨.error fault, []⟩ s
  | compiled {f : Compiled} {t : σ} {k : Nat} {names : List String} {r : Resolution} :
      (trim cs).isEmpty = false → ofText cs = .ok f → Rounds ω f own operands [] s k names r t →
      TextRounds ω cs own operands s k names r t

namespace TextRounds
variable {cs : List Char} {k : Nat} {names : List String}

theorem unique (h : TextRounds ω cs own operands s k names r t) {k' : Nat} {names' : List String}
    {r' : Resolution} {t' : σ} (h' : TextRounds ω cs own operands s k' names' r' t') :
    k' = k ∧ names' = names ∧ r' = r ∧ t' = t := by
  cases h with
  | blank hblank =>
    cases h' with
    | blank => exact ⟨rfl, rfl, rfl, rfl⟩
    | refused hfull => cases hblank.symm.trans hfull
    | compiled hfull => cases hblank.symm.trans hfull
  | refused hfull hfault =>
    cases h' with
    | blank hblank => cases hblank.symm.trans hfull
    | refused _ hfault' =>
      cases hfault.symm.trans hfault'
      exact ⟨rfl, rfl, rfl, rfl⟩
    | compiled _ hf => cases hfault.symm.trans hf
  | compiled hfull hf hrounds =>
    cases h' with
    | blank hblank => cases hblank.symm.trans hfull
    | refused _ hfault => cases hfault.symm.trans hf
    | compiled _ hf' hrounds' =>
      cases hf.symm.trans hf'
      exact hrounds.unique hrounds'

theorem length_eq (h : TextRounds ω cs own operands s k names r t) : names.length = k - 1 := by
  cases h with
  | blank => rfl
  | refused => rfl
  | compiled _ _ hrounds => rw [hrounds.eq_length, Nat.add_sub_cancel]

theorem nodup (h : TextRounds ω cs own operands s k names r t) : names.Nodup := by
  cases h with
  | blank => exact List.nodup_nil
  | refused => exact List.nodup_nil
  | compiled _ _ hrounds => exact hrounds.nodup

end TextRounds

/-- Every resolution is what comes of its rounds, if its formula asks only for listed names. -/
theorem exists_rounds {cs : List Char} (hlisted : ∀ f, ofText cs = .ok f → f.AsksListed)
    (ω : Occasion) (own : Position) (operands : Operands σ) (s : σ) :
    ∃ k names, TextRounds ω cs own operands s k names (resolve ω cs own operands s).1
      (resolve ω cs own operands s).2 := by
  unfold resolve
  split
  · rename_i hblank
    exact ⟨0, [], .blank hblank⟩
  · rename_i hfull
    rw [Bool.not_eq_true] at hfull
    split
    · rename_i hfault
      exact ⟨0, [], .refused hfull hfault⟩
    · rename_i f hf
      have hbound : (f.unbound []).length ≤ (Engine.names f.script).length :=
        List.length_filter_le _ _
      obtain ⟨k, names, hrounds⟩ := @exists_rounds_from σ _ ω f own operands [] s _
        (hlisted f hf) hbound
      exact ⟨k, names, .compiled hfull hf hrounds⟩

end

/-! ## Names that are asked for once -/

section
variable [Library] {ω : Occasion} {cs : List Char} {f : Compiled} {own : Position}
  {operands : Operands σ} {b : Bindings} {s t : σ} {n : String} {q : Position} {r : Resolution}
  {k : Nat} {names : List String}

/-- The functions of the library that a formula calls never fail as the resolution itself does for a
name that is asked for twice. -/
def SparesNames (cs : List Char) : Prop := ∀ f, ofText cs = .ok f → Tree.SparesNames f.script

section
variable (hasks : Tree.AsksAsWritten f.script) (hspares : Tree.SparesNames f.script)
include hasks hspares

/-- A round ends with the failure for a name asked for twice only if the source answers so. -/
theorem answer_of_round_ends (hb : BindsCells b) (h : round ω f own operands b s = .ends r t)
    (ho : r.outcome = .error (.failed (.unresolved n))) :
    ∃ q ∈ r.dependsOn, ∃ u, (operands q u).1 = .error (.failed (.unresolved n)) := by
  unfold round at h
  split at h
  · cases h
    cases ho
  · rename_i hfailed
    cases h
    cases ho
    exact absurd hfailed (attempt_ne_unresolved hspares _ b n)
  rename_i hneeds
  rw [lookup_of_needs hasks hb hneeds, Option.isSome_none, if_neg Bool.false_ne_true] at h
  split at h
  · cases h
    cases ho
  rename_i q _
  split at h
  · cases h
    cases ho
  split at h <;> cases h
  rename_i hanswer
  cases ho
  exact ⟨q, List.mem_singleton_self q, s, by rw [hanswer]⟩

/-- No name is asked for twice, unless the source says so. -/
theorem Rounds.answer_of_unresolved (h : Rounds ω f own operands b s k names r t)
    (hb : BindsCells b) (ho : r.outcome = .error (.failed (.unresolved n))) :
    ∃ q ∈ r.dependsOn, ∃ u, (operands q u).1 = .error (.failed (.unresolved n)) := by
  induction h with
  | last hround => exact answer_of_round_ends hasks hspares hb hround ho
  | next hround _ ih =>
    obtain ⟨p, hp, hanswer⟩ := ih (hb.cons (of_round_binds hround).2.2.1 _) ho
    exact ⟨p, List.mem_cons_of_mem _ hp, hanswer⟩

end

/-- The names in the text of an expression, in its order and each as often as it is written. -/
def identifiers (source : List Char) : List String :=
  ((tokens? source).getD []).filterMap fun
    | .name n => some n
    | _ => none

/-- The names in the expression that a formula is lowered to. -/
def loweredIdentifiers (cs : List Char) : List String :=
  match ofText cs with
  | .ok f => identifiers f.source
  | .error _ => []

theorem mem_identifiers_of_ofText (h : ofText cs = .ok f) (hn : n ∈ Tree.names f.script)
    (hq : Position.ofName? n.toList = some q) : n ∈ identifiers f.source := by
  obtain ⟨_, tokens, -, -, htokens, -, hfrom⟩ := exists_tokens_of_ofText h
  rw [identifiers, htokens]
  exact List.mem_filterMap.2 ⟨_, name_mem_of_isFrom (hfrom n hn) hq, rfl⟩

theorem TextRounds.subset (hasks : AsksAsWritten cs)
    (h : TextRounds ω cs own operands s k names r t) : names ⊆ loweredIdentifiers cs := by
  cases h with
  | blank => exact List.nil_subset _
  | refused => exact List.nil_subset _
  | compiled _ hf hrounds =>
    intro n hn
    obtain ⟨-, ⟨_, _, hneeds⟩, q, hq⟩ := hrounds.unbound n hn
    rw [loweredIdentifiers, hf]
    exact mem_identifiers_of_ofText hf (mem_names_of_attempt (hasks _ hf) hneeds) hq

theorem TextRounds.answer_of_unresolved (hasks : AsksAsWritten cs) (hspares : SparesNames cs)
    (h : TextRounds ω cs own operands s k names r t)
    (ho : r.outcome = .error (.failed (.unresolved n))) :
    ∃ q ∈ r.dependsOn, ∃ u, (operands q u).1 = .error (.failed (.unresolved n)) := by
  cases h with
  | blank => cases ho
  | refused _ hfault =>
    cases ho
    cases isOfText_of_ofText hfault
  | compiled _ hf hrounds =>
    exact hrounds.answer_of_unresolved (hasks _ hf) (hspares _ hf) (List.forall_mem_nil _) ho

/-- Round after round, with no bound on them, a resolution ends, whatever its source answers, if the
functions that the formula calls ask only for names of the expression that have no value. Each round
but the last gives a value to a name of the expression that had none, so that there is at most one
more of them than there are such names. A name that has a value is never asked for again: the
failure for that is the outcome only if the source answers with it. -/
theorem rounds_of_resolve (hasks : AsksAsWritten cs) (hspares : SparesNames cs) (ω : Occasion)
    (own : Position) (operands : Operands σ) (s : σ) :
    ∃ k names,
      (∀ k' names' r t, TextRounds ω cs own operands s k' names' r t ↔
        k' = k ∧ names' = names ∧ (r, t) = resolve ω cs own operands s) ∧
      names.length = k - 1 ∧ names.Nodup ∧ names ⊆ loweredIdentifiers cs ∧
      k ≤ (loweredIdentifiers cs).dedup.length + 1 ∧
      ∀ n, (resolve ω cs own operands s).1.outcome = .error (.failed (.unresolved n)) →
        ∃ q ∈ (resolve ω cs own operands s).1.dependsOn, ∃ u,
          (operands q u).1 = .error (.failed (.unresolved n)) := by
  obtain ⟨k, names, hrounds⟩ := exists_rounds
    (fun f hf => Compiled.asksListed (hasks f hf)) ω own operands s
  refine ⟨k, names, fun k' names' r t => ⟨fun h => ?_, ?_⟩, hrounds.length_eq, hrounds.nodup,
    hrounds.subset hasks, ?_, fun n => hrounds.answer_of_unresolved hasks hspares⟩
  · obtain ⟨rfl, rfl, rfl, rfl⟩ := hrounds.unique h
    exact ⟨rfl, rfl, rfl⟩
  · rintro ⟨rfl, rfl, hresolve⟩
    rw [← hresolve] at hrounds
    exact hrounds
  · have hsubset : names ⊆ (loweredIdentifiers cs).dedup := fun n hn =>
      List.mem_dedup.2 (hrounds.subset hasks hn)
    have hle := (hrounds.nodup.subperm hsubset).length_le
    have hlength := hrounds.length_eq
    omega

end

section
open scoped StandardLibrary

/-- A source that answers otherwise each time is asked once for a name that is written twice. -/
theorem rounds_of_resolve_changing : ∃ (cs : List Char) (operands : Operands Nat) (k : Nat)
    (names : List String) (r : Resolution) (t : Nat),
    cs = "a1 + A1 + A2".toList ∧ AsksAsWritten cs ∧ SparesNames cs ∧
    TextRounds .start cs ⟨4, 4⟩ operands 1 k names r t ∧ names.Nodup ∧ k ≤ 3 ∧
    r.outcome = .ok (.text "xxxx") := by
  obtain ⟨cs, hcs⟩ : ∃ cs : List Char, cs = "a1 + A1 + A2".toList := ⟨_, rfl⟩
  obtain ⟨operands, hoperands⟩ : ∃ operands : Operands Nat, operands = fun _ n =>
    (.ok (.text (String.ofList (List.replicate n 'x'))), n + 1) := ⟨_, rfl⟩
  have hasks := asksAsWritten cs
  have hspares : SparesNames cs := fun f _ => StandardLibrary.sparesNames f.script
  obtain ⟨k, names, hrounds, -, hnodup, -, hbound, -⟩ :=
    rounds_of_resolve hasks hspares .start ⟨4, 4⟩ operands 1
  have hcount : (loweredIdentifiers cs).dedup.length = 2 := by
    rw [hcs]
    decide +kernel
  have houtcome : (resolve .start cs ⟨4, 4⟩ operands 1).1.outcome = .ok (.text "xxxx") := by
    rw [hcs, hoperands]
    decide +kernel
  rw [hcount] at hbound
  exact ⟨cs, operands, k, names, _, _, hcs, hasks, hspares, (hrounds k names _ _).2 ⟨rfl, rfl, rfl⟩,
    hnodup, hbound, houtcome⟩

end

end

end Formula
end Spreadsheet

import Spreadsheet.Proofs.Dialogue
import Spreadsheet.Proofs.Expression.Rebinding
import Spreadsheet.Proofs.Position.Insertion

/-!
# Formulas whose cells have moved

A formula follows its cells if it asks for the cell where the other one has
moved whenever the old one asks for a cell, and with the same values makes the
same of them. Two resolutions by formulas of which one follows the other go side
by side, each cell that the one reads being that of the other after its move. So
they end alike, with one value or with faults of one kind.
-/
namespace Spreadsheet

/-- One value, or two faults of one kind. -/
inductive SameOutcome : Except Fault Value → Except Fault Value → Prop
  | value (v : Value) : SameOutcome (.ok v) (.ok v)
  | fault {a b : Fault} : a.kind = b.kind → SameOutcome (.error a) (.error b)

theorem SameOutcome.refl (x : Except Fault Value) : SameOutcome x x := by
  cases x with
  | error fault => exact .fault rfl
  | ok v => exact .value v

namespace Formula
open Position

/-- An attempt with another name for what is asked for. -/
def Attempt.rename (f : String → String) : Attempt → Attempt
  | needs n => needs (f n)
  | attempt => attempt

variable [Engine]

/-- A formula that asks for the cells where they have moved and makes the same of their values, on
whatever occasions. The old formula asks for the cells by their names as cells are written. -/
structure Compiled.Follows (move : Position → Position) (f f' : Compiled) : Prop where
  length_names : (Engine.names f'.script).length = (Engine.names f.script).length
  attempt : ∀ (ω ω' : Occasion) (b : Bindings),
    f'.attempt ω' (b.rename (movedName move)) = (f.attempt ω b).rename (movedName move)
  canonical : ∀ (ω : Occasion) (b : Bindings) (n : String), f.attempt ω b = .needs n →
    ∀ p, ofName? n.toList = some p → n = p.nameText

/-- Two formulas of which one follows the cells of the other, or two faults of one kind. -/
inductive FollowsCompiled (move : Position → Position) :
    Except Fault Compiled → Except Fault Compiled → Prop
  | formula {f f' : Compiled} : f.Follows move f' → FollowsCompiled move (.ok f) (.ok f')
  | fault {a b : Fault} : a.kind = b.kind → FollowsCompiled move (.error a) (.error b)

/-- A text that means for the cells where they have moved what another means for the cells. -/
structure Follows (move : Position → Position) (cs cs' : List Char) : Prop where
  blank : (Text.trim cs').isEmpty = (Text.trim cs).isEmpty
  compiled : FollowsCompiled move (ofText cs) (ofText cs')

section
variable {f : String → String}

theorem attempt_asksFor {c c' : Compiled} {ω ω' : Occasion} {b b' : Bindings}
    (h : Engine.evaluate ω' c'.script b' = asksFor f (Engine.evaluate ω c.script b)) :
    c'.attempt ω' b' = (c.attempt ω b).rename f := by
  simp only [Compiled.attempt, h]
  cases Engine.evaluate ω c.script b with
  | ok d =>
    simp only [asksFor, Except.mapError, Attempt.ofDatum]
    split <;> rfl
  | error e => cases e <;> rfl

end

/-! ## Resolutions side by side -/

section
variable {σ τ : Type} {operands : Operands σ} {others : Operands τ} {R : σ → τ → Prop}
  {move : Position → Position} (hmove : Function.Injective move)
  (step : ∀ q s u, R s u →
    SameOutcome (operands q s).1 (others (move q) u).1 ∧ R (operands q s).2 (others (move q) u).2)
include hmove step

theorem resolveFrom_follows {f f' : Compiled} (h : f.Follows move f') (ω ω' : Occasion)
    (own : Position) (bound : Nat) (b : Bindings) {s : σ} {u : τ} (hR : R s u) :
    SameOutcome (resolveFrom ω f own operands bound b s).1.outcome
        (resolveFrom ω' f' (move own) others bound (b.rename (movedName move)) u).1.outcome ∧
      R (resolveFrom ω f own operands bound b s).2
        (resolveFrom ω' f' (move own) others bound (b.rename (movedName move)) u).2 := by
  have hlookup := lookup_rename (movedName_injective hmove)
  induction bound generalizing b s u with
  | zero =>
    rw [resolveFrom, resolveFrom, h.attempt (ω.stage b.length)]
    cases hattempt : f.attempt (ω.stage b.length) b with
    | resolved v => exact ⟨.value v, hR⟩
    | failed fault => exact ⟨.fault rfl, hR⟩
    | needs n =>
      dsimp only [Attempt.rename]
      rw [hlookup, ofName?_movedName (h.canonical _ b n hattempt)]
      split
      · exact ⟨.fault rfl, hR⟩
      · cases ofName? n.toList <;> exact ⟨.fault rfl, hR⟩
  | succ bound ih =>
    rw [resolveFrom, resolveFrom, h.attempt (ω.stage b.length)]
    cases hattempt : f.attempt (ω.stage b.length) b with
    | resolved v => exact ⟨.value v, hR⟩
    | failed fault => exact ⟨.fault rfl, hR⟩
    | needs n =>
      dsimp only [Attempt.rename]
      rw [hlookup, ofName?_movedName (h.canonical _ b n hattempt)]
      split
      · exact ⟨.fault rfl, hR⟩
      cases hn : ofName? n.toList with
      | none => exact ⟨.fault rfl, hR⟩
      | some cell =>
        dsimp only [Option.map_some]
        by_cases hown : cell = own
        · rw [if_pos hown, if_pos (congrArg move hown)]
          exact ⟨.fault rfl, hR⟩
        · rw [if_neg hown, if_neg fun he => hown (hmove he)]
          obtain ⟨hsame, hR'⟩ := step cell s u hR
          -- Both sources give one value, or neither gives any.
          generalize operands cell s = answered at hsame hR' ⊢
          generalize others (move cell) u = answered' at hsame hR' ⊢
          obtain ⟨answer, s'⟩ := answered
          obtain ⟨answer', u'⟩ := answered'
          cases hsame with
          | fault hkind => exact ⟨.fault hkind, hR'⟩
          | value v => exact ih ((n, v) :: b) hR'

/-- A text that follows the cells resolves to the same from the cells where they have moved. -/
theorem resolve_follows {cs cs' : List Char} (h : Follows move cs cs') (ω ω' : Occasion)
    (own : Position) {s : σ} {u : τ} (hR : R s u) :
    SameOutcome (resolve ω cs own operands s).1.outcome
        (resolve ω' cs' (move own) others u).1.outcome ∧
      R (resolve ω cs own operands s).2 (resolve ω' cs' (move own) others u).2 := by
  rw [resolve, resolve, h.blank]
  split
  · exact ⟨.value _, hR⟩
  · have hcompiled := h.compiled
    generalize ofText cs = compiled at hcompiled
    generalize ofText cs' = compiled' at hcompiled
    cases hcompiled with
    | fault hkind => exact ⟨.fault hkind, hR⟩
    | @formula f f' hfollows =>
      dsimp only
      rw [Compiled.resolve, Compiled.resolve, hfollows.length_names]
      exact resolveFrom_follows hmove step hfollows ω ω' own _ [] hR

end

end Formula
end Spreadsheet

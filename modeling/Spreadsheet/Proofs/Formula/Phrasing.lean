import Spreadsheet.Proofs.Expression.Climbing
import Spreadsheet.Proofs.Formula.Marks

/-!
# Calculations as phrases

The marks of a calculation are the tokens of a phrase. A sign belongs to the first
number after it, and a percent sign is a product and a quotient that follow what is
before it. So the left operand of a product is within the right one, in front of
the percent signs that end it; the phrase of a quantity is made from what is done to
its first operand.
-/
namespace Spreadsheet

namespace Expression.Phrase

/-- A phrase with a minus in front, which belongs to a number. -/
def negated : Phrase → Phrase
  | number x => number (-x)
  | p => minus p

/-- A phrase with the product and the quotient that are written for a percent sign. -/
def hundredth (p : Phrase) : Phrase :=
  binary .dividedBy (binary .times p (number 1)) (number 100)

/-- A phrase in parentheses, if there have to be any. -/
def enclosed (isEnclosed : Bool) (p : Phrase) : Phrase := if isEnclosed then group p else p

end Expression.Phrase

namespace Formula
open Text Expression

def Operation.operator : Operation → Operator
  | plus => .plus
  | minus => .minus
  | times => .times
  | dividedBy => .dividedBy

/-- The operator that a comparison is written with in an expression. -/
def comparisonOperator : Comparison → Operator
  | .equal => .equal
  | .unequal => .unequal
  | .less => .less
  | .atMost => .atMost
  | .greater => .greater
  | .atLeast => .atLeast

/-- The phrase of a quantity, to whose first operand something is done. -/
def Quantity.phraseWith : Quantity → (Phrase → Phrase) → Phrase
  | literal n, f => f (.number n.value)
  | cell name, f => f (.name name.meaning.nameText)
  | minus q, f =>
    if q.rank < 3 then f (Phrase.negated (.group (phraseWith q id)))
    else phraseWith q fun p => f p.negated
  | percent q, f =>
    .hundredth (if q.rank < 4 then f (.group (phraseWith q id)) else phraseWith q f)
  | combined op l r, f =>
    let rank := if op.isProduct then 2 else 1
    let joined := Phrase.binary op.operator ((phraseWith l id).enclosed (l.rank < rank))
    if op.isProduct ∧ 2 < r.rank then f (phraseWith r joined)
    else f (joined ((phraseWith r id).enclosed (r.rank ≤ rank)))

def Quantity.phrase (q : Quantity) : Phrase := q.phraseWith id

def Calculation.phrase : Calculation → Phrase
  | quantity q => q.phrase
  | comparison c l r => .binary (comparisonOperator c) l.phrase r.phrase

/-! ## Tokens -/

/-- What is done to the first operand of a phrase, and what that puts in front of its tokens. -/
structure Fronts (f : Phrase → Phrase) (g : List Token → List Token) : Prop where
  tokens : ∀ {p : Phrase}, p.strength? = none → (f p).tokens = g p.tokens
  append : ∀ {ts : List Token}, ts ≠ [] → ∀ us, g (ts ++ us) = g ts ++ us

section
variable {f : Phrase → Phrase} {g : List Token → List Token} {p : Phrase} {ms : List Mark}

theorem strength?_negated (p : Phrase) : p.negated.strength? = none := by
  cases p <;> rfl

theorem tokens_negated (hp : p.strength? = none) : p.negated.tokens = Mark.signed p.tokens := by
  cases p with
  | binary => cases hp
  | _ => rfl

theorem tokens_hundredth (p : Phrase) : p.hundredth.tokens = p.tokens ++ Mark.hundredth := by
  simp [Phrase.hundredth, Phrase.tokens, Mark.hundredth]

theorem signed_append {ts : List Token} (hts : ts ≠ []) (us : List Token) :
    Mark.signed (ts ++ us) = Mark.signed ts ++ us := by
  cases ts with
  | nil => exact absurd rfl hts
  | cons t ts =>
    cases t with
    | literal d => cases d <;> rfl
    | _ => rfl

theorem signed_ne_nil (ts : List Token) : Mark.signed ts ≠ [] := by
  unfold Mark.signed
  split <;> exact List.cons_ne_nil _ _

theorem fronts_id : Fronts id id := ⟨fun _ => rfl, fun _ _ => rfl⟩

theorem Fronts.negated (h : Fronts f g) :
    Fronts (fun p => f p.negated) (fun ts => g (Mark.signed ts)) where
  tokens hp := by rw [h.tokens (strength?_negated _), tokens_negated hp]
  append hts us := by rw [signed_append hts, h.append (signed_ne_nil _)]

theorem fronts_binary (op : Operator) (l : Phrase) :
    Fronts (.binary op l) (fun ts => l.tokens ++ .connective (.operator op) :: ts) :=
  ⟨fun _ => rfl, fun _ us => by simp⟩

theorem Fronts.append_tokens (h : Fronts f g) (hp : p.strength? = none) {us : List Token}
    (hne : p.tokens ≠ []) : g (p.tokens ++ us) = (f p).tokens ++ us := by
  rw [h.append hne, h.tokens hp]

theorem connective_sign (op : Operation) : op.sign.connective = .operator op.operator := by
  cases op <;> rfl

theorem connective_comparisonSign (c : Comparison) :
    (comparisonSign c).connective = .operator (comparisonOperator c) := by
  cases c <;> rfl

/-- The tokens of a quantity that is written in parentheses, if there have to be any. -/
theorem tokens_enclosed {q : Quantity}
    (hq : ∀ ms, Mark.tokens (q.marks ++ ms) = q.phrase.tokens ++ Mark.tokens ms) (isEnclosed : Bool)
    (ms : List Mark) : Mark.tokens (enclosed isEnclosed q.marks ++ ms) =
      (q.phrase.enclosed isEnclosed).tokens ++ Mark.tokens ms := by
  cases isEnclosed with
  | false => exact hq ms
  | true => simp [enclosed, Phrase.enclosed, Mark.tokens, Phrase.tokens, hq]

/-- The tokens of the marks of a quantity are those of its phrase. Only what stands without
parentheses after something else has something done to its first operand. -/
theorem Quantity.tokens_marks (q : Quantity) (h : Fronts f g) (hrank : q.rank < 3 → f = id ∧ g = id)
    (ms : List Mark) :
    g (Mark.tokens (q.marks ++ ms)) = (q.phraseWith f).tokens ++ Mark.tokens ms := by
  induction q generalizing f g ms with
  | literal n => exact h.append_tokens (p := .number n.value) rfl (List.cons_ne_nil _ _)
  | cell name =>
    exact h.append_tokens (p := .name name.meaning.nameText) rfl (List.cons_ne_nil _ _)
  | minus q ih =>
    rw [marks, phraseWith, List.cons_append, Mark.tokens]
    by_cases hq : q.rank < 3
    · have hgroup := tokens_enclosed (ih fronts_id fun _ => ⟨rfl, rfl⟩) true ms
      rw [decide_eq_true hq, hgroup, if_pos hq]
      exact h.negated.append_tokens (p := .group q.phrase) rfl (List.cons_ne_nil _ _)
    · rw [decide_eq_false hq, if_neg hq]
      exact ih h.negated (fun hlt => absurd hlt hq) ms
  | percent q ih =>
    have hpercent : ∀ ms, Mark.tokens (.percent :: ms) = Mark.hundredth ++ Mark.tokens ms :=
      fun _ => rfl
    rw [marks, phraseWith, tokens_hundredth, List.append_assoc, List.append_assoc, ← hpercent]
    by_cases hq : q.rank < 4
    · have hgroup := tokens_enclosed (ih fronts_id fun _ => ⟨rfl, rfl⟩) true (.percent :: ms)
      rw [decide_eq_true hq, if_pos hq]
      exact (congrArg g hgroup).trans
        (h.append_tokens (p := .group q.phrase) rfl (List.cons_ne_nil _ _))
    · rw [decide_eq_false hq, if_neg hq]
      exact ih h (fun hlt => absurd (Nat.lt_succ_of_lt hlt) hq) (.percent :: ms)
  | combined op l r ihl ihr =>
    have hop : (combined op l r).rank < 3 := by
      rw [rank]
      split <;> decide
    obtain ⟨rfl, rfl⟩ := hrank hop
    have hleft := tokens_enclosed (ihl fronts_id fun _ => ⟨rfl, rfl⟩)
    have hright := tokens_enclosed (ihr fronts_id fun _ => ⟨rfl, rfl⟩)
    rw [marks, phraseWith, List.append_assoc, List.cons_append, id, hleft, Mark.tokens,
      connective_sign]
    by_cases hr : op.isProduct = true ∧ 2 < r.rank
    · obtain ⟨hproduct, hr⟩ := hr
      simp only [hproduct, if_pos, decide_eq_false (Nat.not_le.2 hr), hr, true_and]
      exact ihr (fronts_binary _ _) (fun hlt => absurd (Nat.le_of_lt_succ hlt) (Nat.not_le.2 hr)) ms
    · rw [if_neg hr, hright]
      simp [Phrase.tokens, phrase]

theorem Calculation.tokens_marks (c : Calculation) : Mark.tokens c.marks = c.phrase.tokens := by
  have hquantity : ∀ (q : Quantity) (ms : List Mark),
      Mark.tokens (q.marks ++ ms) = q.phrase.tokens ++ Mark.tokens ms :=
    fun q => q.tokens_marks fronts_id fun _ => ⟨rfl, rfl⟩
  have hwhole : ∀ q : Quantity, Mark.tokens q.marks = q.phrase.tokens := by
    intro q
    rw [← List.append_nil q.marks, hquantity, Mark.tokens, List.append_nil]
  cases c with
  | quantity q => exact hwhole q
  | comparison c l r =>
    rw [marks, hquantity, Mark.tokens, hwhole, connective_comparisonSign]
    rfl

/-! ## Strengths -/

/-- A phrase whose operators group it as it is, and are as strong as the given strength. -/
def Holds (s : Nat) (p : Phrase) : Prop := p.IsClimbing ∧ ∀ t ∈ p.strength?, s ≤ t

theorem Holds.mono {s t : Nat} (h : Holds t p) (hst : s ≤ t) : Holds s p :=
  ⟨h.1, fun u hu => Nat.le_trans hst (h.2 u hu)⟩

theorem Holds.of_strength {s : Nat} (hp : p.strength? = none) (h : p.IsClimbing) : Holds s p :=
  ⟨h, by simp [hp]⟩

/-- What is joined by an operator holds as strongly as the operator. -/
theorem Holds.binary (op : Operator) {l r : Phrase} (hop : op ≠ .power) (hl : Holds op.strength l)
    (hr : Holds (op.strength + 1) r) : Holds op.strength (.binary op l r) :=
  ⟨⟨hop, hl.2, hr.2, hl.1, hr.1⟩, fun _ ht => Option.mem_some.1 ht ▸ Nat.le_refl _⟩

theorem Holds.negated {s : Nat} (hp : p.strength? = none) (h : p.IsClimbing) :
    Holds s p.negated := by
  refine .of_strength (strength?_negated p) ?_
  cases p with
  | number x => trivial
  | _ => exact ⟨hp, h⟩

theorem Holds.hundredth (h : Holds 180 p) : Holds 180 p.hundredth :=
  .binary .dividedBy (by decide)
    (.binary .times (by decide) h (.of_strength rfl trivial)) (.of_strength rfl trivial)

theorem Holds.enclosed {s t : Nat} {isEnclosed : Bool} (h : Holds t p)
    (hs : isEnclosed = false → s ≤ t) : Holds s (p.enclosed isEnclosed) := by
  cases isEnclosed with
  | false => exact h.mono (hs rfl)
  | true => exact .of_strength rfl h.1

theorem Operation.operator_ne_power (op : Operation) : op.operator ≠ .power := by
  cases op <;> decide

theorem Operation.strength_operator (op : Operation) :
    op.operator.strength = if op.isProduct then 180 else 150 := by
  cases op <;> rfl

/-- The strength of the weakest operator that a quantity may have outside of parentheses. -/
def Quantity.strength (q : Quantity) : Nat := if q.rank < 2 then 150 else 180

theorem Quantity.strength_of_le {q : Quantity} (h : 2 ≤ q.rank) : q.strength = 180 :=
  if_neg (Nat.not_lt.2 h)

theorem Quantity.le_strength (q : Quantity) : 150 ≤ q.strength := by
  rw [strength]
  split <;> decide

/-- The operators of the phrase of a quantity group it as its marks are grouped. -/
theorem Quantity.holds (q : Quantity)
    (hf : ∀ {p : Phrase}, p.strength? = none → p.IsClimbing → Holds 180 (f p))
    (hrank : q.rank < 3 → f = id) : Holds q.strength (q.phraseWith f) := by
  have hid : ∀ {p : Phrase}, p.strength? = none → p.IsClimbing → Holds 180 (id p) :=
    fun hp h => .of_strength hp h
  induction q generalizing f with
  | literal n => exact hf rfl trivial
  | cell name => exact hf rfl trivial
  | minus q ih =>
    have hnegated : ∀ {p : Phrase}, p.strength? = none → p.IsClimbing → Holds 180 (f p.negated) :=
      fun hp h => hf (strength?_negated _) (Holds.negated (s := 180) hp h).1
    rw [phraseWith, strength_of_le (q := minus q) (by decide : 2 ≤ 3)]
    split
    · exact hnegated (p := .group _) rfl (ih hid fun _ => rfl).1
    · rename_i hq
      rw [← strength_of_le (Nat.le_of_succ_le (Nat.not_lt.1 hq))]
      exact ih hnegated fun hlt => absurd hlt hq
  | percent q ih =>
    rw [phraseWith, strength_of_le (q := percent q) (by decide : 2 ≤ 4)]
    refine Holds.hundredth ?_
    split
    · exact hf (p := .group _) rfl (ih hid fun _ => rfl).1
    · rename_i hq
      have hle : 4 ≤ q.rank := Nat.not_lt.1 hq
      rw [← strength_of_le (by omega : 2 ≤ q.rank)]
      exact ih hf fun hlt => absurd hlt (by omega)
  | combined op l r ihl ihr =>
    have hl := ihl hid fun _ => rfl
    have hr := ihr hid fun _ => rfl
    have hf : f = id := hrank (by rw [rank]; split <;> decide)
    subst hf
    have hstrength : (combined op l r).strength = op.operator.strength := by
      rw [strength, rank, op.strength_operator]
      cases op.isProduct <;> rfl
    rw [phraseWith, hstrength, id]
    cases hproduct : op.isProduct with
    | true =>
      have hop : op.operator.strength = 180 := by rw [op.strength_operator, hproduct]; rfl
      have hleft : Holds op.operator.strength ((l.phraseWith id).enclosed (decide (l.rank < 2))) :=
        hl.enclosed fun hrank => by
          rw [strength_of_le (Nat.not_lt.1 (of_decide_eq_false hrank)), hop]
      simp only [if_true, true_and]
      split
      · rename_i hlt
        have hright := ihr
          (f := .binary op.operator ((l.phraseWith id).enclosed (decide (l.rank < 2))))
          (fun hp h => hop ▸ Holds.binary _ op.operator_ne_power hleft (.of_strength hp h))
          fun hle => absurd hle (Nat.not_lt.2 hlt)
        rwa [strength_of_le (Nat.le_of_lt hlt), ← hop] at hright
      · rename_i hle
        refine .binary _ op.operator_ne_power hleft (hr.enclosed fun hrank => ?_)
        exact absurd (Nat.not_le.1 (of_decide_eq_false hrank)) hle
    | false =>
      have hop : op.operator.strength = 150 := by rw [op.strength_operator, hproduct]; rfl
      simp only [Bool.false_eq_true, if_false, false_and]
      refine .binary _ op.operator_ne_power (hl.enclosed fun _ => ?_) (hr.enclosed fun hrank => ?_)
      · rw [hop]
        exact l.le_strength
      · rw [strength_of_le (Nat.not_le.1 (of_decide_eq_false hrank)), hop]
        decide

theorem Calculation.isClimbing_phrase (c : Calculation) : c.phrase.IsClimbing := by
  have hquantity : ∀ q : Quantity, Holds 150 q.phrase := fun q =>
    (q.holds (f := id) (fun hp h => .of_strength hp h) fun _ => rfl).mono q.le_strength
  cases c with
  | quantity q => exact (hquantity q).1
  | comparison c l r =>
    have hweak : (comparisonOperator c).strength < 150 ∧ comparisonOperator c ≠ .power := by
      cases c <;> decide
    exact (Holds.binary _ hweak.2 ((hquantity l).mono (Nat.le_of_lt hweak.1))
      ((hquantity r).mono hweak.1)).1

end

end Formula

end Spreadsheet

import Spreadsheet.Proofs.Formula.Lexeme
import Spreadsheet.Proofs.Number.Exact

/-!
# Arithmetic in a formula

A quantity is made of decimal numbers and cells by signs, percent signs and the
four operations; a calculation is a quantity or a comparison of two. They are
written without blanks and with the parentheses that the precedence of the
operators asks for: percent signs bind most, then signs, then products, then sums.
In a formula a percent sign is a product and a quotient, so one that ends the right
operand of a product divides the whole product by a hundred. This is how a quantity
is regrouped. Where no right operand of a product ends so, its value stays.
-/
namespace Spreadsheet.Formula
open Text

/-! ## Trees and their values -/

namespace Numeral

/-- The power of ten by which a number is multiplied. -/
def power (n : Numeral) : Int :=
  match n.exponent with
  | none => 0
  | some x => if x.sign = ['-'] then -(Decimal.value x.digits : Int) else Decimal.value x.digits

/-- The nearest number to a decimal; a side of the point without digits counts as a zero. -/
def value (n : Numeral) : Float :=
  let fraction := orZero (n.fraction.getD [])
  Number.nearest (Decimal.value (orZero n.whole ++ fraction)) (n.power - fraction.length)

end Numeral

inductive Operation where
  | plus | minus | times | dividedBy
deriving DecidableEq, Repr

namespace Operation

def sign : Operation → Infix
  | plus => .plus
  | minus => .minus
  | times => .times
  | dividedBy => .dividedBy

def apply : Operation → Float → Float → Float
  | plus, x, y => x + y
  | minus, x, y => x - y
  | times, x, y => x * y
  | dividedBy, x, y => x / y

def isProduct : Operation → Bool
  | times | dividedBy => true
  | plus | minus => false

end Operation

inductive Quantity where
  | literal (n : Numeral)
  | cell (name : Spelling Position.ofName?)
  | minus (q : Quantity)
  | percent (q : Quantity)
  | combined (op : Operation) (l r : Quantity)

/-- A quantity, or whether a comparison of two holds. -/
inductive Calculation where
  | quantity (q : Quantity)
  | comparison (c : Comparison) (l r : Quantity)

namespace Quantity

/-- The value of a quantity, given the numbers in the cells. -/
def value (x : Position → Float) : Quantity → Float
  | literal n => n.value
  | cell name => x name.meaning
  | minus q => -value x q
  | percent q => value x q / 100
  | combined op l r => op.apply (value x l) (value x r)

def cells : Quantity → List Position
  | literal _ => []
  | cell name => [name.meaning]
  | minus q | percent q => cells q
  | combined _ l r => cells l ++ cells r

/-- How strongly a quantity binds as it is written. -/
def rank : Quantity → Nat
  | literal _ | cell _ | percent _ => 4
  | minus _ => 3
  | combined op _ _ => if op.isProduct then 2 else 1

end Quantity

namespace Calculation

def value (x : Position → Float) : Calculation → Float
  | quantity q => q.value x
  | comparison c l r => if Number.compare (l.value x) (r.value x) c then 1 else 0

def cells : Calculation → List Position
  | quantity q => q.cells
  | comparison _ l r => l.cells ++ r.cells

end Calculation

/-! ## Writing -/

/-- A part of a calculation that is not divided. -/
inductive Mark where
  | literal (n : Numeral)
  | cell (name : Spelling Position.ofName?)
  | sign
  | percent
  | between (op : Infix)
  | opened
  | closed

namespace Mark

def text : Mark → List Char
  | literal n => n.text
  | cell name => name.text
  | sign => ['-']
  | percent => ['%']
  | between op => op.text
  | opened => ['(']
  | closed => [')']

end Mark

/-- Marks in parentheses, if there have to be any. -/
def enclosed (isEnclosed : Bool) (ms : List Mark) : List Mark :=
  if isEnclosed then .opened :: (ms ++ [.closed]) else ms

/-- The sign of a comparison. -/
def comparisonSign : Comparison → Infix
  | .equal => .equal
  | .unequal => .differs
  | .less => .less
  | .atMost => .atMost
  | .greater => .greater
  | .atLeast => .atLeast

def Quantity.marks : Quantity → List Mark
  | literal n => [.literal n]
  | cell name => [.cell name]
  | minus q => .sign :: enclosed (q.rank < 3) (marks q)
  | percent q => enclosed (q.rank < 4) (marks q) ++ [.percent]
  | combined op l r =>
    let rank := if op.isProduct then 2 else 1
    enclosed (l.rank < rank) (marks l) ++
      .between op.sign :: enclosed (r.rank ≤ rank) (marks r)

namespace Calculation

def marks : Calculation → List Mark
  | quantity q => q.marks
  | comparison c l r => l.marks ++ .between (comparisonSign c) :: r.marks

def text (c : Calculation) : List Char := c.marks.flatMap Mark.text

end Calculation

/-! ## Percent signs after products -/

namespace Quantity

/-- A quantity regrouped, to which something is done before the percent signs that end it. -/
def regroup : Quantity → (Quantity → Quantity) → Quantity
  | literal n, f => f (literal n)
  | cell name, f => f (cell name)
  | minus q, f => regroup q fun r => f (minus r)
  | percent q, f => percent (if q.rank < 4 then f (regroup q id) else regroup q f)
  | combined op l r, f =>
    if op.isProduct then f (regroup r (combined op (regroup l id)))
    else f (combined op (regroup l id) (regroup r id))

/-- A quantity in which percent signs come after the products and the signs before them. -/
def regrouped (q : Quantity) : Quantity := q.regroup id

/-- Whether a quantity ends with a percent sign, as it is written. -/
def endsInPercent : Quantity → Bool
  | percent _ => true
  | minus q => endsInPercent q
  | _ => false

/-- Whether no right operand of a product ends with a percent sign. -/
def isPlain : Quantity → Bool
  | literal _ | cell _ => true
  | minus q | percent q => isPlain q
  | combined op l r => isPlain l && isPlain r && !(op.isProduct && r.endsInPercent)

end Quantity

namespace Calculation

def regrouped : Calculation → Calculation
  | quantity q => quantity q.regrouped
  | comparison c l r => comparison c l.regrouped r.regrouped

def isPlain : Calculation → Bool
  | quantity q => q.isPlain
  | comparison _ l r => l.isPlain && r.isPlain

end Calculation

section
variable {x : Position → Float}

/-- Regrouping keeps the value of a quantity as long as no product is in front of percent signs. -/
theorem Quantity.value_regroup {f : Quantity → Quantity} {q : Quantity} (hq : q.isPlain = true)
    (hf : ∀ r s : Quantity, r.value x = s.value x → (f r).value x = (f s).value x)
    (hpercent : q.endsInPercent = true → ∀ r, (f (percent r)).value x = (percent (f r)).value x) :
    (q.regroup f).value x = (f q).value x := by
  induction q generalizing f with
  | literal n => rfl
  | cell name => rfl
  | minus q ih =>
    refine ih hq (fun r s h => hf _ _ (congrArg (-·) h)) fun hends r => ?_
    rw [← hpercent hends (minus r)]
    exact hf _ _ (Number.neg_div _ _).symm
  | percent q ih =>
    rw [hpercent rfl q, regroup]
    refine congrArg (· / 100) ?_
    split
    · exact hf _ _ (ih hq (fun _ _ h => h) fun _ _ => rfl)
    · exact ih hq hf fun _ => hpercent rfl
  | combined op l r ihl ihr =>
    simp only [isPlain, Bool.and_eq_true, Bool.not_eq_true', Bool.and_eq_false_iff] at hq
    obtain ⟨⟨hl, hr⟩, hends⟩ := hq
    have hvalue : (l.regroup id).value x = l.value x := ihl hl (fun _ _ h => h) fun _ _ => rfl
    rw [regroup]
    split
    · rename_i hproduct
      have hnone : r.endsInPercent = false := hends.resolve_left (by simp [hproduct])
      have hright : (r.regroup (combined op (l.regroup id))).value x =
          (combined op (l.regroup id) r).value x :=
        ihr hr (fun _ _ h => congrArg (op.apply _) h) fun h => absurd h (by simp [hnone])
      refine hf _ _ (hright.trans ?_)
      rw [value, value, hvalue]
    · have hright : (r.regroup id).value x = r.value x :=
        ihr hr (fun _ _ h => h) fun _ _ => rfl
      refine hf _ _ ?_
      rw [value, value, hvalue, hright]

theorem Quantity.value_regrouped {q : Quantity} (hq : q.isPlain = true) :
    q.regrouped.value x = q.value x :=
  value_regroup hq (fun _ _ h => h) fun _ _ => rfl

theorem Calculation.value_regrouped {c : Calculation} (hc : c.isPlain = true) :
    c.regrouped.value x = c.value x := by
  cases c with
  | quantity q => exact Quantity.value_regrouped hc
  | comparison c l r =>
    obtain ⟨hl, hr⟩ := Bool.and_eq_true_iff.1 hc
    rw [regrouped, value, value, Quantity.value_regrouped hl, Quantity.value_regrouped hr]

end

/-! ## The order of the marks -/

/-- Marks in which operands and operators alternate, from where an operand comes next or not. -/
inductive Alternates : Bool → List Mark → Prop
  | nil : Alternates false []
  | literal {n : Numeral} {ms : List Mark} :
      Alternates false ms → Alternates true (.literal n :: ms)
  | cell {name : Spelling Position.ofName?} {ms : List Mark} :
      Alternates false ms → Alternates true (.cell name :: ms)
  | sign {ms : List Mark} : Alternates true ms → Alternates true (.sign :: ms)
  | opened {ms : List Mark} : Alternates true ms → Alternates true (.opened :: ms)
  | closed {ms : List Mark} : Alternates false ms → Alternates false (.closed :: ms)
  | percent {ms : List Mark} : Alternates false ms → Alternates false (.percent :: ms)
  | between {op : Infix} {ms : List Mark} :
      Alternates true ms → Alternates false (.between op :: ms)

/-- Whether a sign after a mark would make one symbol with it. -/
def Mark.joinsSign : Mark → Bool
  | sign | between .minus | between .less => true
  | _ => false

/-- Marks that are never joined with a sign. -/
def AreSeparate (ms : List Mark) : Prop :=
  ms.IsChain fun a b => a.joinsSign = true → b.text ≠ ['-']

/-- A text in which no minus comes right after a minus or a less-than sign. -/
def IsSeparate (cs : List Char) : Prop := ¬['-', '-'] <:+: cs ∧ ¬['<', '-'] <:+: cs

section
variable {ms rest : List Mark}

theorem alternates_enclosed (isEnclosed : Bool)
    (h : ∀ rest, Alternates false rest → Alternates true (ms ++ rest))
    (hrest : Alternates false rest) : Alternates true (enclosed isEnclosed ms ++ rest) := by
  cases isEnclosed with
  | false => exact h rest hrest
  | true =>
    have hms := h (.closed :: rest) (.closed hrest)
    simpa [enclosed] using Alternates.opened hms

theorem Quantity.alternates (q : Quantity) (h : Alternates false rest) :
    Alternates true (q.marks ++ rest) := by
  induction q generalizing rest with
  | literal n => exact .literal h
  | cell name => exact .cell h
  | minus q ih => exact .sign (alternates_enclosed _ (fun _ => ih) h)
  | percent q ih =>
    rw [marks, List.append_assoc]
    exact alternates_enclosed _ (fun _ => ih) (.percent h)
  | combined op l r ihl ihr =>
    rw [marks, List.append_assoc]
    exact alternates_enclosed _ (fun _ => ihl) (.between (alternates_enclosed _ (fun _ => ihr) h))

theorem Calculation.alternates (c : Calculation) : Alternates true c.marks := by
  cases c with
  | quantity q =>
    have h := q.alternates .nil
    rwa [List.append_nil] at h
  | comparison c l r =>
    have h := r.alternates .nil
    rw [List.append_nil] at h
    exact l.alternates (.between h)

theorem areSeparate_of_isSeparate (h : IsSeparate (ms.flatMap Mark.text)) : AreSeparate ms := by
  induction ms with
  | nil => exact .nil
  | cons a ms ih =>
    have hsuffix : ms.flatMap Mark.text <:+: (a :: ms).flatMap Mark.text :=
      (List.suffix_append a.text _).isInfix
    have hms := ih ⟨fun hm => h.1 (hm.trans hsuffix), fun hm => h.2 (hm.trans hsuffix)⟩
    cases ms with
    | nil => exact .singleton a
    | cons b ms =>
      refine .cons_cons (fun hjoins htext => ?_) hms
      have hinfix : a.text ++ ['-'] <:+: (a :: b :: ms).flatMap Mark.text := by
        refine ⟨[], ms.flatMap Mark.text, ?_⟩
        simp [htext]
      cases a with
      | sign => exact h.1 hinfix
      | between op =>
        cases op with
        | minus => exact h.1 hinfix
        | less => exact h.2 hinfix
        | _ => cases hjoins
      | _ => cases hjoins

end

end Spreadsheet.Formula

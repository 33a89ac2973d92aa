import Spreadsheet.Proofs.Attempt
import Spreadsheet.Proofs.Formula.Phrasing
import Spreadsheet.Proofs.Formula.Regular
import Spreadsheet.Proofs.Text.Trimming

/-!
# The value of a calculation

A calculation in a formula comes to its value when it is regrouped: a percent sign
is written out as a product and a quotient, and ends the whole product that it
follows. Constants are computed before the evaluation, and the cells are asked for
one after the other, each for one name of the expression. So the names suffice, and
the last evaluation has the values of all cells.
-/
namespace Spreadsheet

namespace Tree

variable [Library]

/-- On every occasion an expression is evaluated to a datum, or asks for one of some cells that is
not bound. -/
def ComesTo (b : Bindings) (cells : List Position) (t : Tree) (d : Datum) : Prop :=
  ∀ ω, t.evaluate ω b = .ok d ∨
    ∃ p ∈ cells, b.lookup p.nameText = none ∧ t.evaluate ω b = .error (.needs p.nameText)

section
variable {b : Bindings} {cells : List Position} {t l r : Tree} {d e : Datum}

theorem comesTo_of_ok (h : ∀ ω, t.evaluate ω b = .ok d) : t.ComesTo b cells d := fun ω => .inl (h ω)

theorem comesTo_congr (h : ∀ ω, t.evaluate ω b = l.evaluate ω b) :
    t.ComesTo b cells d ↔ l.ComesTo b cells d :=
  forall_congr' fun ω => by rw [h ω]

theorem evaluate_foldBinary (op : Operator) (l r : Tree) (ω : Occasion) :
    (foldBinary op l r).evaluate ω b = (binary op l r).evaluate ω b := by
  unfold foldBinary
  split
  · split
    · rename_i hfoldable
      split
      · rename_i d hd
        have hop : ¬(op = .within ∨ op = .notWithin) := by
          rintro (rfl | rfl) <;> cases hfoldable
        rw [evaluate, evaluate, if_neg hop, evaluate, evaluate]
        exact (congrArg orFailed hd).symm
      · rfl
    · rfl
  · rfl

theorem evaluate_foldSign (s : Sign) (t : Tree) (ω : Occasion) :
    (foldSign s t).evaluate ω b = (sign s t).evaluate ω b := by
  unfold foldSign
  split
  · split
    · rename_i d hd
      rw [evaluate, evaluate, evaluate]
      exact (congrArg orFailed hd).symm
    · rfl
  · rfl

/-- Operands come to what they come to before their operator does. -/
theorem ComesTo.binary {op : Operator} {c : Datum} (hop : op ≠ .within ∧ op ≠ .notWithin)
    (hl : l.ComesTo b cells d) (hr : r.ComesTo b cells e) (h : Datum.apply op d e = .ok c) :
    (binary op l r).ComesTo b cells c := by
  intro ω
  have hevaluate : (Tree.binary op l r).evaluate ω b = l.evaluate (ω.stage 0) b >>= fun d =>
      r.evaluate (ω.stage 1) b >>= fun e => orFailed (Datum.apply op d e) := by
    rw [evaluate, if_neg (by simp [hop])]
  rcases hl (ω.stage 0) with hl | ⟨p, hp, hnone, hl⟩
  · rcases hr (ω.stage 1) with hr | ⟨p, hp, hnone, hr⟩
    · refine .inl ?_
      rw [hevaluate, hl, hr]
      exact congrArg orFailed h
    · refine .inr ⟨p, hp, hnone, ?_⟩
      rw [hevaluate, hl, hr]
      rfl
  · refine .inr ⟨p, hp, hnone, ?_⟩
    rw [hevaluate, hl]
    rfl

theorem ComesTo.sign {s : Sign} (ht : t.ComesTo b cells d) (h : d.applySign s = .ok e) :
    (sign s t).ComesTo b cells e := by
  intro ω
  rcases ht ω with ht | ⟨p, hp, hnone, ht⟩
  · refine .inl ?_
    rw [evaluate, ht]
    exact congrArg orFailed h
  · refine .inr ⟨p, hp, hnone, ?_⟩
    rw [evaluate, ht]
    rfl

/-- A number with a minus in front comes to the negative number, whether it is written there or
not. -/
theorem ComesTo.signed {x : Float} (h : t.simplify.ComesTo b cells (.number x)) :
    (t.signed .minus).simplify.ComesTo b cells (.number (-x)) := by
  have hsign : (Tree.sign .minus t).simplify.ComesTo b cells (.number (-x)) := by
    rw [simplify, comesTo_congr (evaluate_foldSign _ _)]
    exact h.sign rfl
  cases t with
  | constant d =>
    have hd : d = .number x := by
      rcases h .start with h | ⟨p, _, _, h⟩ <;> cases h
      rfl
    subst hd
    exact comesTo_of_ok fun _ => rfl
  | _ => exact hsign

omit [Library] in
theorem calls_foldBinary (op : Operator) (hl : l.calls = []) (hr : r.calls = []) :
    (foldBinary op l r).calls = [] := by
  have hbinary : (binary op l r).calls = [] := by rw [calls, hl, hr, List.append_nil]
  unfold foldBinary
  split
  · split
    · split
      · rfl
      · exact hbinary
    · exact hbinary
  · exact hbinary

omit [Library] in
theorem calls_foldSign (s : Sign) (ht : t.calls = []) : (foldSign s t).calls = [] := by
  unfold foldSign
  split
  · split
    · rfl
    · exact ht
  · exact ht

omit [Library] in
theorem calls_simplify_signed (s : Sign) (ht : t.simplify.calls = []) :
    (t.signed s).simplify.calls = [] := by
  unfold signed
  split
  · rfl
  · split <;> rfl
  · rfl
  · rfl
  · exact calls_foldSign s ht

end

end Tree

namespace Formula
open Text Expression

/-! ## Values of phrases -/

@[simp] theorem tree_enclosed (isEnclosed : Bool) (p : Phrase) :
    (p.enclosed isEnclosed).tree = p.tree := by
  cases isEnclosed <;> rfl

theorem tree_negated (p : Phrase) : p.negated.tree = p.tree.signed .minus := by
  cases p <;> rfl

/-- Only a quantity that does not bind weakly lets what is done to it into its products. -/
theorem Quantity.regroup_of_rank {q : Quantity} (hq : q.rank < 3) (f : Quantity → Quantity) :
    q.regroup f = f (q.regroup id) := by
  cases q with
  | combined op l r =>
    rw [regroup, regroup]
    split <;> rfl
  | minus q => exact absurd (show 3 < 3 from hq) (by decide)
  | _ => exact absurd (show 4 < 3 from hq) (by decide)

/-- A phrase calls nothing. -/
theorem calls_simplify_tree (p : Phrase) : p.tree.simplify.calls = [] := by
  induction p with
  | number => rfl
  | name => rfl
  | group p ih => exact ih
  | minus p ih => exact Tree.calls_simplify_signed .minus ih
  | binary op l r ihl ihr => exact Tree.calls_foldBinary op ihl ihr

section
variable [Library] {b : Bindings} {cells : List Position} {x : Position → Float}

/-- A phrase comes to a number. -/
def ComesTo (b : Bindings) (cells : List Position) (p : Phrase) (x : Float) : Prop :=
  p.tree.simplify.ComesTo b cells (.number x)

theorem ComesTo.negated {p : Phrase} {y : Float} (h : ComesTo b cells p y) :
    ComesTo b cells p.negated (-y) := by
  rw [ComesTo, tree_negated]
  exact h.signed

theorem ComesTo.binary (op : Operation) {l r : Phrase} {y z : Float} (hl : ComesTo b cells l y)
    (hr : ComesTo b cells r z) : ComesTo b cells (.binary op.operator l r) (op.apply y z) := by
  have hop : op.operator ≠ .within ∧ op.operator ≠ .notWithin := by cases op <;> decide
  rw [ComesTo, Phrase.tree, Tree.simplify, Tree.comesTo_congr (Tree.evaluate_foldBinary _ _ _)]
  refine Tree.ComesTo.binary hop hl hr ?_
  cases op <;> rfl

theorem ComesTo.hundredth {p : Phrase} {y : Float} (h : ComesTo b cells p y) :
    ComesTo b cells p.hundredth (y / 100) := by
  have hone : ComesTo b cells (.binary Operation.times.operator p (.number 1)) (y * 1) :=
    h.binary .times (Tree.comesTo_of_ok fun _ => rfl)
  rw [Number.mul_one] at hone
  exact hone.binary .dividedBy (Tree.comesTo_of_ok fun _ => rfl)

/-- The phrase of a quantity comes to the value of the regrouped quantity, when what is done to
its first operand does so. -/
theorem Quantity.comesTo (hb : ∀ p ∈ cells, ComesTo b cells (.name p.nameText) (x p))
    {q : Quantity} (hq : q.cells ⊆ cells) {f : Phrase → Phrase} {g : Quantity → Quantity}
    (hfg : ∀ (p : Phrase) (r : Quantity), ComesTo b cells p (r.value x) →
      ComesTo b cells (f p) ((g r).value x)) :
    ComesTo b cells (q.phraseWith f) ((q.regroup g).value x) := by
  induction q generalizing f g with
  | literal n => exact hfg _ (literal n) (Tree.comesTo_of_ok fun _ => rfl)
  | cell name => exact hfg _ (cell name) (hb _ (hq List.mem_cons_self))
  | minus q ih =>
    have hnegated : ∀ (p : Phrase) (r : Quantity), ComesTo b cells p (r.value x) →
        ComesTo b cells (f p.negated) ((g (minus r)).value x) :=
      fun p r h => hfg p.negated (minus r) h.negated
    rw [phraseWith, regroup]
    split
    · rename_i hrank
      rw [regroup_of_rank hrank]
      exact hnegated (.group _) _ (ih hq fun _ _ h => h)
    · exact ih hq hnegated
  | percent q ih =>
    rw [phraseWith, regroup, value]
    refine ComesTo.hundredth ?_
    split
    · exact hfg (.group _) _ (ih hq fun _ _ h => h)
    · exact ih hq hfg
  | combined op l r ihl ihr =>
    obtain ⟨hl, hr⟩ := List.append_subset.1 hq
    have hjoined : ∀ (isEnclosed : Bool) (p : Phrase) (s : Quantity),
        ComesTo b cells p (s.value x) →
        ComesTo b cells (.binary op.operator ((l.phraseWith id).enclosed isEnclosed) p)
          ((combined op (l.regroup id) s).value x) := by
      intro isEnclosed p s h
      refine ComesTo.binary _ ?_ h
      rw [ComesTo, tree_enclosed]
      exact ihl hl fun _ _ h => h
    have hright : ∀ isEnclosed : Bool,
        ComesTo b cells ((r.phraseWith id).enclosed isEnclosed) ((r.regroup id).value x) := by
      intro isEnclosed
      rw [ComesTo, tree_enclosed]
      exact ihr hr fun _ _ h => h
    rw [phraseWith, regroup]
    cases op.isProduct with
    | true =>
      simp only [if_true, true_and]
      split
      · exact hfg _ _ (ihr hr (hjoined _))
      · rename_i hrank
        rw [regroup_of_rank (Nat.lt_succ_of_le (Nat.not_lt.1 hrank))]
        exact hfg _ _ (hjoined _ _ _ (hright _))
    | false =>
      simp only [Bool.false_eq_true, if_false, false_and]
      exact hfg _ _ (hjoined _ _ _ (hright _))

/-- The phrase of a calculation evaluates to the value of the regrouped calculation. -/
theorem Calculation.attempt (hb : ∀ p ∈ cells, ComesTo b cells (.name p.nameText) (x p))
    {c : Calculation} (hc : c.cells ⊆ cells) (source : List Char) (ω : Occasion) :
    Compiled.attempt ⟨source, c.phrase.tree.simplify⟩ ω b =
        .resolved (.number (c.regrouped.value x)) ∨
      ∃ p ∈ cells, b.lookup p.nameText = none ∧
        Compiled.attempt ⟨source, c.phrase.tree.simplify⟩ ω b = .needs p.nameText := by
  have hquantity : ∀ q : Quantity, q.cells ⊆ cells →
      ComesTo b cells q.phrase (q.regrouped.value x) :=
    fun q hq => Quantity.comesTo hb hq fun _ _ h => h
  have hattempt : ∀ {t : Tree} {d : Datum}, t.ComesTo b cells d →
      Compiled.attempt ⟨source, t⟩ ω b = .ofDatum d ∨
        ∃ p ∈ cells, b.lookup p.nameText = none ∧
          Compiled.attempt ⟨source, t⟩ ω b = .needs p.nameText := by
    intro t d h
    rcases h ω with h | ⟨p, hp, hnone, h⟩
    · exact .inl (by rw [Compiled.attempt, show Engine.evaluate ω t b = .ok d from h])
    · exact .inr ⟨p, hp, hnone, by
        rw [Compiled.attempt, show Engine.evaluate ω t b = .error (.needs p.nameText) from h]⟩
  cases c with
  | quantity q => exact hattempt (hquantity q hc)
  | comparison c l r =>
    obtain ⟨hl, hr⟩ := List.append_subset.1 hc
    have hop : comparisonOperator c ≠ .within ∧ comparisonOperator c ≠ .notWithin := by
      cases c <;> decide
    have hcompare : Datum.apply (comparisonOperator c) (.number (l.regrouped.value x))
        (.number (r.regrouped.value x)) =
        .ok (.truth (Number.compare (l.regrouped.value x) (r.regrouped.value x) c)) := by
      cases c <;> rfl
    refine hattempt (d := .truth _) ?_
    rw [phrase, Phrase.tree, Tree.simplify, Tree.comesTo_congr (Tree.evaluate_foldBinary _ _ _)]
    exact Tree.ComesTo.binary hop (hquantity l hl) (hquantity r hr) hcompare

end

/-! ## The text of a calculation -/

/-- The text of a calculation is compiled to its phrase, unless it is nested too deeply. -/
theorem Calculation.ofText_text [Library] {c : Calculation} (h : IsSeparate c.text) :
    ofText c.text = if c.phrase.levels ≤ Library.levelLimit
      then .ok ⟨c.marks.flatMap Mark.written, c.phrase.tree.simplify⟩ else .error .malformed := by
  have hexpanded : withoutPercents c.text = c.marks.flatMap Mark.expanded := withoutPercents_text _
  have hranges : expandRanges c.text = .ok (c.marks.flatMap Mark.expanded) := by
    rw [expandRanges_of_no_range (hexpanded ▸ no_range_expanded c.alternates), hexpanded]
  have hquote : '"' ∉ c.marks.flatMap Mark.expanded := by
    rw [← hexpanded]
    exact no_quote_withoutPercents (no_quote_text _)
  have hlower : lower [] (c.marks.flatMap Mark.expanded) = .ok (c.marks.flatMap Mark.written) :=
    lowerFrom_expanded c.alternates (List.forall_mem_nil _)
  have htokens : tokens? (c.marks.flatMap Mark.written) = some c.phrase.tokens := by
    rw [← c.tokens_marks]
    exact tokensFrom_written c.alternates (areSeparate_of_isSeparate h) rfl rfl
  have hcompile : Engine.compile (c.marks.flatMap Mark.written) =
      if c.phrase.levels ≤ Library.levelLimit then some c.phrase.tree.simplify else none := by
    change compile? _ = _
    rw [compile?, htokens, Option.bind_some, ofTokens?_tokens c.isClimbing_phrase, apply_ite
      (Option.map Tree.simplify), Option.map_some, Option.map_none]
  simp only [ofText, hranges, extractLiterals, extractFrom_of_no_quote hquote, compile, hlower,
    hcompile]
  by_cases hlevels : c.phrase.levels ≤ Library.levelLimit
  · simp only [if_pos hlevels]
  · simp only [if_neg hlevels]

theorem Calculation.isEmpty_trim_text (c : Calculation) : (trim c.text).isEmpty = false := by
  have hblank : ∀ d ∈ c.text, isBlank d = false := by
    intro d hd
    obtain ⟨m, -, hm⟩ := List.mem_flatMap.1 hd
    have htable : ∀ d ∈ ".+-*/&|=<>!()%".toList, isBlank d = false := by decide
    exact (Mark.mem_text hm).elim isBlank_of_isAlphanum (htable d)
  have hne : c.text ≠ [] := by
    intro hnil
    have halternates := c.alternates
    rw [text] at hnil
    generalize c.marks = ms at halternates hnil
    cases halternates with
    | literal =>
      obtain ⟨d, ds, hn, -⟩ := Numeral.exists_begin _ _
      exact List.cons_ne_nil d ds (hn.symm.trans hnil)
    | @cell name =>
      exact (isIdentifier_of_ofName name.reads).ne_nil (List.append_eq_nil_iff.1 hnil).1
    | sign => cases hnil
    | opened => cases hnil
  obtain ⟨d, ds, hd⟩ := List.exists_cons_of_ne_nil hne
  rw [isEmpty_trim, hd, List.all_cons, hblank d (by rw [hd]; exact List.mem_cons_self),
    Bool.false_and]

section
variable [Engine] {f : Compiled} {b : Bindings} {name : String}

/-- Every evaluation of a formula asks for one of the names that its script may ask for. -/
def Compiled.AsksListed (f : Compiled) : Prop :=
  ∀ {ω b name}, f.attempt ω b = .needs name → name ∈ Engine.names f.script

/-- The names that a formula may ask for and that are not bound. -/
def Compiled.unbound (f : Compiled) (b : Bindings) : List String :=
  (Engine.names f.script).filter fun name => (b.lookup name).isNone

theorem Compiled.mem_unbound :
    name ∈ f.unbound b ↔ name ∈ Engine.names f.script ∧ b.lookup name = none := by
  rw [unbound, List.mem_filter, Option.isNone_iff_eq_none]

/-- A name that is bound is unbound no longer, and no other one is unbound again. -/
theorem Compiled.length_unbound_lt (h : name ∈ f.unbound b) (v : Value) :
    (f.unbound ((name, v) :: b)).length < (f.unbound b).length := by
  have hlater : f.unbound ((name, v) :: b) = (f.unbound b).filter (· != name) := by
    rw [unbound, unbound, List.filter_filter]
    refine List.filter_congr fun other _ => ?_
    rw [List.lookup_cons]
    cases hsame : other == name <;> simp [bne, hsame]
  rw [hlater, List.length_filter_lt_length_iff_exists]
  exact ⟨name, h, by simp⟩

end

section
variable [Library]

theorem Compiled.asksListed {f : Compiled} (hasks : Tree.AsksAsWritten f.script) : f.AsksListed :=
  fun h => List.mem_append_left _ (mem_names_of_attempt hasks h)

/-- A resolution comes to a value if every evaluation does, or asks for a cell that is not bound
yet and can be read. -/
theorem Dialogue.outcome_of_ready {g : Grid} {f : Compiled} {ω : Occasion} {own : Position}
    {n : Nat} {b : Bindings} {l : List Reading} {r : Resolution} {v : Value}
    (h : Dialogue ω f own n b l r) (hasks : Tree.AsksAsWritten f.script)
    (hready : ∀ (ω : Occasion) (b : Bindings), (∀ e ∈ b, ∃ q, g.Supplies f e q) →
      f.attempt ω b = .resolved v ∨
        ∃ p, b.lookup p.nameText = none ∧ f.attempt ω b = .needs p.nameText ∧ p ≠ own ∧
          ∃ w, g.reading p = .ok w)
    (hb : ∀ e ∈ b, ∃ q, g.Supplies f e q)
    (hbound : (f.unbound b).length ≤ n)
    (hl : ∀ x ∈ l, x.answer = g.reading x.cell) : r.outcome = .ok v := by
  have hneeds : ∀ {ω : Occasion} {b : Bindings} {name : String},
      (∀ e ∈ b, ∃ q, g.Supplies f e q) → f.attempt ω b = .needs name →
        b.lookup name = none ∧ ∃ p ≠ own,
          Position.ofName? name.toList = some p ∧ ∃ w, g.reading p = .ok w := by
    intro ω b name hb hname
    rcases hready ω b hb with hv | ⟨p, hnone, hp, hown, hread⟩
    · rw [hname] at hv
      cases hv
    · rw [hname] at hp
      cases hp
      exact ⟨hnone, p, hown, Position.ofName?_nameText p, hread⟩
  induction h with
  | resolved hv =>
    rcases hready _ _ hb with hv' | ⟨p, _, hp, _⟩
    · rw [hv] at hv'
      cases hv'
      rfl
    · rw [hv] at hp
      cases hp
  | failed hf =>
    rcases hready _ _ hb with hv | ⟨p, _, hp, _⟩
    · rw [hf] at hv
      cases hv
    · rw [hf] at hp
      cases hp
  | repeated hname hagain =>
    rw [(hneeds hb hname).1] at hagain
    cases hagain
  | @exhausted b name q hname =>
    have hmem := Compiled.mem_unbound.2 ⟨Compiled.asksListed hasks hname, (hneeds hb hname).1⟩
    exact absurd hbound (Nat.not_le.2 (List.length_pos_of_mem hmem))
  | unrecognized hname _ hnone =>
    obtain ⟨-, p, -, hp, -⟩ := hneeds hb hname
    rw [hnone] at hp
    cases hp
  | itself hname _ hq =>
    obtain ⟨-, p, hown, hp, -⟩ := hneeds hb hname
    rw [hq] at hp
    exact absurd (Option.some.inj hp).symm hown
  | refused hname _ hq _ =>
    obtain ⟨-, p, -, hp, w, hw⟩ := hneeds hb hname
    cases hq.symm.trans hp
    have hanswer := hl _ List.mem_cons_self
    rw [hw] at hanswer
    cases hanswer
  | @answered n b name q w l r hname _ hq _ _ ih =>
    obtain ⟨hnone, -⟩ := hneeds hb hname
    obtain ⟨hanswer, hl⟩ := List.forall_mem_cons.1 hl
    have hless := Compiled.length_unbound_lt
      (Compiled.mem_unbound.2 ⟨Compiled.asksListed hasks hname, hnone⟩) w
    refine ih ?_ (Nat.le_of_lt_succ (Nat.lt_of_lt_of_le hless hbound)) hl
    exact List.forall_mem_cons.2 ⟨⟨q, mem_names_of_attempt hasks hname, hq, hanswer.symm⟩, hb⟩

end

end Formula

namespace Grid
open Formula

section
variable [Library] {g : Grid} {own : Position} {x : Position → Float}

/-- The name of a cell is bound to what is read there, or asked for. -/
theorem comesTo_name {f : Compiled} {b : Bindings} {cells : List Position}
    (hcells : ∀ p ∈ cells, p ≠ own ∧ g.reading p = .ok (.number (x p)))
    (hb : ∀ e ∈ b, ∃ q, g.Supplies f e q) :
    ∀ p ∈ cells, ComesTo b cells (.name p.nameText) (x p) := by
  have hconstant : ∀ c ∈ Constant.all, Position.ofName? c.name.toList = none := by decide
  intro p hp
  cases hlookup : b.lookup p.nameText with
  | some v =>
    obtain ⟨q, -, hq, hread⟩ := hb _ (mem_of_lookup hlookup)
    cases (Position.ofName?_nameText p).symm.trans hq
    cases (hcells p hp).2.symm.trans hread
    refine Tree.comesTo_of_ok fun _ => ?_
    change b.value p.nameText = _
    rw [Bindings.value, Bindings.value?, hlookup]
    rfl
  | none =>
    refine fun _ => .inr ⟨p, hp, hlookup, ?_⟩
    change b.value p.nameText = _
    rw [Bindings.value, Bindings.value?, hlookup]
    cases hfind : Constant.all.find? fun c => c.name == p.nameText with
    | none => rfl
    | some c =>
      have hname := hconstant c (List.mem_of_find?_eq_some hfind)
      have hsame := List.find?_some hfind
      rw [eq_of_beq hsame, Position.ofName?_nameText] at hname
      cases hname

/-- A formula that is written as a calculation, with no minus after a minus or a less-than sign,
gives the value of the regrouped calculation, where the cells hold numbers and the library allows
the levels of its nesting. Where no right operand of a product ends with a percent sign, this is the
value of the calculation itself. -/
theorem resolution_calculation {c : Calculation} (hseparate : IsSeparate c.text)
    (hcells : ∀ p ∈ c.cells, p ≠ own ∧ g.reading p = .ok (.number (x p))) (ω : Occasion) :
    (g.resolution ω own c.text).outcome =
      (if c.phrase.levels ≤ Library.levelLimit then .ok (.number (c.regrouped.value x))
        else .error .malformed) ∧
    (c.isPlain = true → c.regrouped.value x = c.value x) := by
  refine ⟨?_, Calculation.value_regrouped⟩
  obtain ⟨l, hl, ha⟩ := exists_dialogue ω c.text own operand g
  change TextDialogue ω c.text own l (g.resolution ω own c.text) at hl
  have hanswers := (answers_operand ha).1
  have htext := Calculation.ofText_text hseparate
  generalize g.resolution ω own c.text = r at hl
  cases hl with
  | blank hblank =>
    rw [c.isEmpty_trim_text] at hblank
    cases hblank
  | refused _ hrefused =>
    rw [hrefused] at htext
    split at htext <;> cases htext
    rename_i hlevels
    rw [if_neg hlevels]
  | @compiled f _ _ _ hf hdialogue =>
    rw [hf] at htext
    split at htext <;> cases htext
    rename_i hlevels
    rw [if_pos hlevels]
    have hasks : Tree.AsksAsWritten c.phrase.tree.simplify := fun name hname => by
      rw [calls_simplify_tree] at hname
      cases hname
    refine hdialogue.outcome_of_ready hasks (fun ω b hb => ?_) (List.forall_mem_nil _) ?_ hanswers
    · rcases Calculation.attempt (comesTo_name hcells hb) (List.Subset.refl _) _ ω with
        hvalue | ⟨p, hp, hnone, hneeds⟩
      · exact .inl hvalue
      · obtain ⟨hown, hread⟩ := hcells p hp
        exact .inr ⟨p, hnone, hneeds, hown, _, hread⟩
    · exact List.length_filter_le _ _

end

section
open scoped StandardLibrary

/-- A comparison of a sum with a quotient, where a cell holds three and another fifty. -/
theorem resolution_calculation_comparison : ∃ (g : Grid) (c : Calculation),
    g = Table.ofList [(⟨0, 0⟩, Cell.number ['3'] 3), (⟨0, 1⟩, Cell.number ['5', '0'] 50)] ∧
    c.text = "-a1*2+B1%<=2/4".toList ∧
    (g.resolution .start ⟨4, 4⟩ "-a1*2+B1%<=2/4".toList).outcome = .ok (.number 1) := by
  obtain ⟨g, hg⟩ : ∃ g : Grid, g = Table.ofList
      [(⟨0, 0⟩, Cell.number ['3'] 3), (⟨0, 1⟩, Cell.number ['5', '0'] 50)] := ⟨_, rfl⟩
  obtain ⟨c, hc⟩ : ∃ c : Calculation, c = .comparison .atMost
      (.combined .plus
        (.combined .times (.minus (.cell ⟨['a', '1'], ⟨0, 0⟩, by decide⟩))
          (.literal ⟨['2'], none, none, by decide, by simp, .inl (by decide)⟩))
        (.percent (.cell ⟨['B', '1'], ⟨0, 1⟩, by decide⟩)))
      (.combined .dividedBy (.literal ⟨['2'], none, none, by decide, by simp, .inl (by decide)⟩)
        (.literal ⟨['4'], none, none, by decide, by simp, .inl (by decide)⟩)) := ⟨_, rfl⟩
  obtain ⟨x, hx⟩ : ∃ x : Position → Float, x = fun p => if p = ⟨0, 0⟩ then 3 else 50 := ⟨_, rfl⟩
  have htext : c.text = "-a1*2+B1%<=2/4".toList := by
    rw [hc]
    decide
  have hseparate : IsSeparate c.text := by
    rw [htext]
    exact ⟨by decide, by decide⟩
  have hcells : ∀ p ∈ c.cells, p ≠ ⟨4, 4⟩ ∧ g.reading p = .ok (.number (x p)) := by
    rw [hc, hg, hx]
    decide +kernel
  obtain ⟨houtcome, hvalue⟩ := resolution_calculation hseparate hcells .start
  refine ⟨g, c, hg, htext, ?_⟩
  rw [← htext, houtcome, hvalue (by rw [hc]; rfl), if_pos (by rw [hc]; decide)]
  rw [hc, hx]
  decide +kernel

/-- A percent sign that ends a divisor divides the quotient, and signs that are joined with what is
before them are refused. -/
theorem exists_calculation_unlike_value :
    (∃ c : Calculation, c.text = "6/3%".toList ∧ c.phrase.levels ≤ Library.levelLimit ∧
      c.cells = [] ∧ c.value (fun _ => 0) = 200 ∧
      (resolution .empty .start ⟨0, 0⟩ c.text).outcome = .ok (.number 0.02)) ∧
    (∃ c : Calculation, c.text = "2--1".toList ∧ c.phrase.levels ≤ Library.levelLimit ∧
      c.cells = [] ∧ c.value (fun _ => 0) = 3 ∧
      (resolution .empty .start ⟨0, 0⟩ c.text).outcome = .error .malformed) ∧
    ∃ c : Calculation, c.text = "1<-1".toList ∧ c.phrase.levels ≤ Library.levelLimit ∧
      c.cells = [] ∧ c.value (fun _ => 0) = 0 ∧
      (resolution .empty .start ⟨0, 0⟩ c.text).outcome = .error .malformed := by
  refine ⟨⟨.quantity (.combined .dividedBy
      (.literal ⟨['6'], none, none, by decide, by simp, .inl (by decide)⟩)
      (.percent (.literal ⟨['3'], none, none, by decide, by simp, .inl (by decide)⟩))),
      rfl, by decide, rfl, by decide +kernel, by decide +kernel⟩,
    ⟨.quantity (.combined .minus
      (.literal ⟨['2'], none, none, by decide, by simp, .inl (by decide)⟩)
      (.minus (.literal ⟨['1'], none, none, by decide, by simp, .inl (by decide)⟩))),
      rfl, by decide, rfl, by decide +kernel, by decide +kernel⟩,
    ⟨.comparison .less (.literal ⟨['1'], none, none, by decide, by simp, .inl (by decide)⟩)
      (.minus (.literal ⟨['1'], none, none, by decide, by simp, .inl (by decide)⟩)),
      rfl, by decide, rfl, by decide +kernel, by decide +kernel⟩⟩

end

end Grid

end Spreadsheet

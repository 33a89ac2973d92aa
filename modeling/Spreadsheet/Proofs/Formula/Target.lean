import Spreadsheet.Proofs.Formula.Grammar

/-!
# What a formula stands for

A formula stands for the text of an expression: its numbers have a point, its
names are in capitals, a call has its arguments in a list, and a choice by
condition is a condition with two branches. Lowering writes this text, up to
blanks outside literals, unless a call has a wrong number of arguments; then the
call that is closed first among these is the fault.
-/
namespace Spreadsheet.Formula
open Text

namespace Term

/-- Arguments with commas between them. -/
def separated : List (List Char) → List Char
  | [] => []
  | [cs] => cs
  | cs :: rest => cs ++ ',' :: separated rest

/-- The text of the expression that a formula stands for. -/
def target : Term → List Char
  | number n => n.written
  | cell name => name.meaning.name
  | constant name => name.meaning.name.toList
  | literal _ _ text => quote text
  | group t => '(' :: target t ++ [')']
  | minus t => '-' :: target t
  | negation t => '!' :: target t
  | binary op l r => target l ++ (op.written ++ target r)
  | call name arguments =>
    match name.meaning, targetAll arguments with
    | .iif, [condition, yes, no] =>
      "(if truthy(".toList ++ condition ++ ") \x7b".toList ++ yes ++ "\x7d else \x7b".toList ++ no ++
        "\x7d)".toList
    | function, texts => function.name.toList ++ '(' :: '[' :: separated texts ++ [']', ')']
where
  targetAll : List Term → List (List Char)
    | [] => []
    | t :: ts => target t :: targetAll ts

end Term

/-! ## Blanks -/

/-- A text without the blanks outside its literals, given where it begins. -/
def withoutBlanks (q : Quoting) : List Char → List Char
  | [] => []
  | c :: cs =>
    let others := withoutBlanks (q.next true c) cs
    if q = .outside ∧ isBlank c = true then others else c :: others

/-- Two texts with all literals closed that are the same but for blanks outside them. -/
structure SameButBlanks (u v : List Char) : Prop where
  closed : quotingAfter true .outside u = .outside ∧ quotingAfter true .outside v = .outside
  eq : withoutBlanks .outside u = withoutBlanks .outside v

section
variable {q : Quoting} {u v u' v' cs : List Char}

theorem withoutBlanks_append (q : Quoting) (u v : List Char) : withoutBlanks q (u ++ v) =
    withoutBlanks q u ++ withoutBlanks (quotingAfter true q u) v := by
  induction u generalizing q with
  | nil => rfl
  | cons c u ih =>
    rw [List.cons_append, withoutBlanks, withoutBlanks, ih]
    split <;> rfl

theorem SameButBlanks.refl (h : quotingAfter true .outside u = .outside) : SameButBlanks u u :=
  ⟨⟨h, h⟩, rfl⟩

theorem SameButBlanks.of_no_quote (h : '"' ∉ u) : SameButBlanks u u :=
  .refl (quotingAfter_outside h)

theorem SameButBlanks.append (h : SameButBlanks u v) (h' : SameButBlanks u' v') :
    SameButBlanks (u ++ u') (v ++ v') := by
  refine ⟨⟨?_, ?_⟩, ?_⟩
  · rw [quotingAfter_append, h.closed.1, h'.closed.1]
  · rw [quotingAfter_append, h.closed.2, h'.closed.2]
  · rw [withoutBlanks_append, withoutBlanks_append, h.closed.1, h.closed.2, h.eq, h'.eq]

theorem SameButBlanks.space (h : SameButBlanks u v) : SameButBlanks (' ' :: u) v :=
  ⟨h.closed, h.eq⟩

theorem quotingAfter_quote (cs : List Char) : quotingAfter true .outside (quote cs) = .outside := by
  have hescape : ∀ c, quotingAfter true .inside (escape c) = .inside := by
    intro c
    unfold escape
    split
    case h_6 hslash hquote _ _ _ =>
      have hc : c ≠ '"' ∧ c ≠ '\\' := ⟨hquote, hslash⟩
      simp [Quoting.next, hc]
    all_goals rfl
  have hinside : quotingAfter true .inside (cs.flatMap escape) = .inside := by
    induction cs with
    | nil => rfl
    | cons c cs ih => rw [List.flatMap_cons, quotingAfter_append, hescape, ih]
  rw [quote, List.cons_append, quotingAfter_cons, quotingAfter_append]
  change quotingAfter true (quotingAfter true .inside (cs.flatMap escape)) ['"'] = .outside
  rw [hinside]
  rfl

end

namespace Term

section
variable {t : Term}

theorem isNumeral_written (n : Numeral) : IsNumeral n.written := by
  have hsplit := splitNumber_text n endsOperand_nil
  have hnumeral := (splitNumber_spec (n.text ++ [])).2
  rwa [hsplit] at hnumeral

theorem no_quote_of_isAlphanum {cs : List Char} (h : ∀ c ∈ cs, c.isAlphanum = true) : '"' ∉ cs :=
  fun hq => absurd (h _ hq) (by decide)

/-- The calls of a part are calls of the whole. -/
theorem calls_subset {ls : List Lexeme} (h : ∀ l ∈ ls, l ∈ t.lexemes) :
    ls.filterMap Lexeme.closes ⊆ t.calls := by
  intro call hcall
  obtain ⟨l, hl, hcloses⟩ := List.mem_filterMap.1 hcall
  exact List.mem_filterMap.2 ⟨l, h l hl, hcloses⟩

theorem lexemes_subset_all {ts : List Term} (ht : t ∈ ts) :
    ∀ l ∈ t.lexemes, l ∈ lexemes.lexemesAll ts := by
  intro l hl
  induction ts with
  | nil => cases ht
  | cons u us ih =>
    rw [lexemes.lexemesAll, List.mem_append]
    rcases List.mem_cons.1 ht with rfl | ht
    · exact .inl hl
    · have hne : us.isEmpty = false := by
        cases us with
        | nil => cases ht
        | cons => rfl
      rw [hne]
      exact .inr (List.mem_cons_of_mem _ (ih ht))

theorem outputAll_sameButBlanks {ts : List Term}
    (h : ∀ t ∈ ts, SameButBlanks t.output t.target) (commas : Nat) :
    SameButBlanks (output.outputAll false commas ts) (separated (target.targetAll ts)) := by
  induction ts generalizing commas with
  | nil => exact .of_no_quote List.not_mem_nil
  | cons t ts ih =>
    obtain ⟨ht, hts⟩ := List.forall_mem_cons.1 h
    cases ts with
    | nil => simpa [output.outputAll, target.targetAll, separated] using ht
    | cons u us =>
      have hcomma : SameButBlanks (' ' :: separator false (commas + 1)) [','] :=
        .space (.of_no_quote (u := [',']) (by decide))
      exact ht.append (hcomma.append (ih hts (commas + 1)))

/-- A choice is written with its branches in curly brackets, any other call with a list. -/
theorem call_sameButBlanks {name : Spelling Builtin.find?} {ts : List Term}
    (h : ∀ t ∈ ts, SameButBlanks t.output t.target)
    (haccepts : name.meaning.arity.accepts ts.length = true) :
    SameButBlanks (call name ts).output (call name ts).target := by
  have hletter : ∀ {cs : List Char}, '"' ∉ cs → SameButBlanks (' ' :: cs) cs := fun h =>
    .space (.of_no_quote h)
  by_cases hiif : name.meaning = .iif
  · rw [hiif] at haccepts
    obtain ⟨condition, yes, no, rfl⟩ := List.length_eq_three.1 (beq_iff_eq.1 haccepts)
    simp only [List.forall_mem_cons] at h
    obtain ⟨hcondition, hyes, hno, _⟩ := h
    have houtput : (call name [condition, yes, no]).output =
        ' ' :: opening .iif ++ (condition.output ++ (' ' :: separator true 1 ++ (yes.output ++
          (' ' :: separator true 2 ++ (no.output ++ ' ' :: closing .iif))))) := by
      simp [output, output.outputAll, hiif]
    have htarget : (call name [condition, yes, no]).target =
        opening .iif ++ (condition.target ++ (separator true 1 ++ (yes.target ++
          (separator true 2 ++ (no.target ++ closing .iif))))) := by
      simp only [target, target.targetAll, hiif, List.append_assoc]
      rfl
    rw [houtput, htarget]
    exact (hletter (by decide)).append (hcondition.append ((hletter (by decide)).append
      (hyes.append ((hletter (by decide)).append (hno.append (hletter (by decide)))))))
  · have hname : '"' ∉ opening name.meaning ∧ '"' ∉ closing name.meaning := by
      cases name.meaning <;> decide
    have houtput : (call name ts).output = ' ' :: opening name.meaning ++
        (output.outputAll false 0 ts ++ ' ' :: closing name.meaning) := by
      rw [output, beq_false_of_ne hiif]
    have htarget : (call name ts).target =
        opening name.meaning ++ (separated (target.targetAll ts) ++ closing name.meaning) := by
      rw [target]
      split
      · rename_i hmeaning _
        exact absurd hmeaning hiif
      · simp [opening, closing, hiif]
    rw [houtput, htarget]
    exact (hletter hname.1).append ((outputAll_sameButBlanks h 0).append (hletter hname.2))

/-- What is written for a formula is the text that it stands for, if its calls are accepted. -/
theorem output_sameButBlanks (t : Term) (h : ∀ call ∈ t.calls, accepts call = true) :
    SameButBlanks t.output t.target := by
  induction t using inductionOn with
  | number n =>
    refine .space (.of_no_quote fun hq => ?_)
    exact absurd (isCalm_of_isNumeral (isNumeral_written n) _ hq) (by decide)
  | cell name =>
    exact .space (.of_no_quote (no_quote_of_isAlphanum fun _ => Position.isAlphanum_of_mem_name))
  | constant name =>
    refine .space (.of_no_quote ?_)
    cases name.meaning <;> decide
  | literal name index text => exact .space (.refl (quotingAfter_quote text))
  | group t ih =>
    have ht := ih fun call hcall => h call (calls_subset (by simp +contextual [lexemes]) hcall)
    have hopened : SameButBlanks [' ', '('] ['('] := .space (.of_no_quote (by decide))
    have hclosed : SameButBlanks [' ', ')'] [')'] := .space (.of_no_quote (by decide))
    exact hopened.append (ht.append hclosed)
  | minus t ih =>
    have ht := ih fun call hcall => h call (calls_subset (by simp +contextual [lexemes]) hcall)
    have hminus : SameButBlanks [' ', '-'] ['-'] := .space (.of_no_quote (by decide))
    exact hminus.append ht
  | negation t ih =>
    have ht := ih fun call hcall => h call (calls_subset (by simp +contextual [lexemes]) hcall)
    have hnot : SameButBlanks [' ', '!'] ['!'] := .space (.of_no_quote (by decide))
    exact hnot.append ht
  | binary op l r ihl ihr =>
    have hl := ihl fun call hcall => h call (calls_subset (by simp +contextual [lexemes]) hcall)
    have hr := ihr fun call hcall => h call (calls_subset (by simp +contextual [lexemes]) hcall)
    have hop : SameButBlanks (' ' :: op.written) op.written :=
      .space (.of_no_quote (by cases op <;> decide))
    exact hl.append (hop.append hr)
  | call name arguments ih =>
    have harguments : ∀ t ∈ arguments, SameButBlanks t.output t.target := by
      intro t ht
      refine ih t ht fun call hcall => h call (calls_subset (fun l hl => ?_) hcall)
      simp [lexemes, lexemes_subset_all ht l hl]
    have haccepts : name.meaning.arity.accepts arguments.length = true :=
      h (name.meaning, arguments.length) (by simp [calls, lexemes])
    exact call_sameButBlanks harguments haccepts

end

theorem space_text (t : Term) : ' ' :: t.text = spaced t.lexemes := by
  have hspaced : ∀ (l : Lexeme) (ls : List Lexeme),
      ' ' :: [' '].intercalate ((l :: ls).map Lexeme.text) = spaced (l :: ls) := by
    intro l ls
    induction ls generalizing l with
    | nil => simp [List.intercalate]
    | cons m ls ih =>
      rw [spaced_cons, ← ih m]
      simp [List.intercalate]
  obtain ⟨l, ls, hls⟩ := List.exists_cons_of_ne_nil t.lexemes_ne_nil
  rw [text, hls]
  exact hspaced l ls

/-- Lowering a formula. It succeeds exactly if each call has a number of arguments that its function
accepts, and then what it writes is the text that the formula stands for, up to blanks outside
literals. Else the fault is that of the first call with a wrong number of arguments, in the order
in which calls are closed. -/
theorem lower_eq_target {literals : List (List Char)} (t : Term) (h : t.WellFormed literals) :
    ((∃ written, lower literals t.text = .ok written) ↔ ∀ call ∈ t.calls, accepts call = true) ∧
    (∀ written, lower literals t.text = .ok written →
      withoutBlanks .outside written = withoutBlanks .outside t.target) ∧
    ∀ call, t.calls.find? (fun call => !accepts call) = some call →
      ∃ fault, lower literals t.text = .error fault ∧ fault.kind = .parameterCount ∧
        fault.message = call.1.arityMessage := by
  have hlower : before [' '] (lower literals t.text) = guarded t.lexemes t.output (.ok []) := by
    have hlowered := t.isLowered h [] [] endsOperand_nil
    rw [List.append_nil, ← space_text, lowerFrom_space, markArgument, lowerFrom] at hlowered
    exact hlowered
  rw [guarded, firstRejected?, ← calls] at hlower
  cases hfind : t.calls.find? fun call => !accepts call with
  | none =>
    have haccepts : ∀ call ∈ t.calls, accepts call = true := by simpa using hfind
    rw [hfind] at hlower
    cases hwritten : lower literals t.text with
    | error fault =>
      rw [hwritten] at hlower
      cases hlower
    | ok written =>
      rw [hwritten] at hlower
      have houtput : ' ' :: written = t.output :=
        (Except.ok.inj hlower).trans (List.append_nil t.output)
      refine ⟨⟨fun _ => haccepts, fun _ => ⟨written, rfl⟩⟩, ?_, fun _ hnone => by cases hnone⟩
      rintro _ ⟨⟩
      exact (houtput ▸ output_sameButBlanks t haccepts).eq
  | some rejected =>
    rw [hfind] at hlower
    have hrejected : ¬∀ call ∈ t.calls, accepts call = true := fun haccepts => by
      have hnot := List.find?_some hfind
      rw [haccepts rejected (List.mem_of_find?_eq_some hfind)] at hnot
      cases hnot
    cases hwritten : lower literals t.text with
    | error fault =>
      rw [hwritten] at hlower
      cases hlower
      refine ⟨⟨fun hok => ?_, fun haccepts => absurd haccepts hrejected⟩,
        (fun _ hok => by cases hok), ?_⟩
      · obtain ⟨_, hok⟩ := hok
        cases hok
      · rintro _ ⟨⟩
        exact ⟨_, rfl, rfl, rfl⟩
    | ok written =>
      rw [hwritten] at hlower
      cases hlower

/-- In a choice with one branch that calls `RAND` wrongly, that call is the fault. -/
theorem lower_eq_target_rejected : ∃ t : Term, t.WellFormed ["a b".toList] ∧
    t.text = "IIF ( a1 <> Pi , SUM ( .5 , str ( 0 ) ) , rand ( 2 ) )".toList ∧
    ∃ fault, lower ["a b".toList] t.text = .error fault ∧ fault.kind = .parameterCount ∧
      fault.message = Builtin.rand.arityMessage := by
  obtain ⟨t, ht⟩ : ∃ t : Term, t = call ⟨"IIF".toList, .iif, by decide⟩
      [binary .differs (cell ⟨"a1".toList, ⟨0, 0⟩, by decide⟩)
        (constant ⟨"Pi".toList, .pi, by decide⟩),
      call ⟨"SUM".toList, .sum, by decide⟩
        [number ⟨[], some ['5'], none, by decide, by simp, .inr ⟨['5'], rfl, by decide⟩⟩,
        literal ⟨"str".toList, .str, by decide⟩ ⟨['0'], 0, by decide⟩ "a b".toList],
      call ⟨"rand".toList, .rand, by decide⟩
        [number ⟨['2'], none, none, by decide, by simp, .inl (by decide)⟩]] := ⟨_, rfl⟩
  have hformed : t.WellFormed ["a b".toList] := by
    rw [ht]
    simp [WellFormed, WellFormed.wellFormedAll, isIndex]
  have hrejected : t.calls.find? (fun call => !accepts call) = some (.rand, 1) := by
    rw [ht]
    rfl
  refine ⟨t, hformed, by rw [ht]; rfl, ?_⟩
  exact (lower_eq_target t hformed).2.2 _ hrejected

end Term

end Spreadsheet.Formula

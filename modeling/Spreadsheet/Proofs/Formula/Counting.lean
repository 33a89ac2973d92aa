import Spreadsheet.Proofs.Expression.Counting
import Spreadsheet.Proofs.Formula.LoweredCounterpart

/-!
# Commas in a formula and in its expression

In the text that is written for a formula the arguments of a function stand in a
list, and the commas in the list are those between the function's parentheses in
the formula. This needs that every comma of the formula parts arguments: none is
hidden in a comment or in quotes, none belongs to a list, a record or the
parameters of a function that the formula writes out, and none comes before a
closing parenthesis. And a function must be called with its parentheses only.
-/
namespace Spreadsheet.Formula
open Text Expression

/-- Whether a text, which is given from its end, ends in the name of a function, but for blanks. -/
def endsIn (f : Builtin) (before : List Char) : Bool :=
  f.name.toList.reverse.isPrefixOf (trimLeft before)

/-- Whether a name of a function at the front of a text is followed by its parenthesis, or by what
leaves it the name of an operand. -/
def callsPlainly (cs : List Char) : Bool :=
  !(Builtin.all.any fun f => endsIn f (canonicalName (cs.takeWhile isAsciiWord)).reverse) ||
    (afterParenthesis? (cs.dropWhile isAsciiWord)).isSome || endsName (cs.dropWhile isAsciiWord)

/-- Whether a character, given what follows it, keeps arguments countable. -/
def isCountableAt (c : Char) (cs : List Char) : Bool :=
  !("[]\x7b\x7d\"|#".toList.contains c) && !hides c cs &&
    (c != ',' || (trimLeft cs).head? != some ')') && callsPlainly (c :: cs)

/-- Whether the arguments in the text of a formula can be counted by their commas. A bar must be
one of two. -/
def isCountable : List Char → Bool
  | [] => true
  | '|' :: '|' :: cs => isCountable cs
  | c :: cs => isCountableAt c cs && isCountable cs

/-- The characters that are more than parts of arguments. -/
def marks : List Char := "()[]\x7b\x7d,\"|!#".toList

/-- What is written for a formula, after the given text, which is given from its end. -/
inductive CountedText : List Char → List Enclosure → List Char → Prop
  | nil {before : List Char} {around : List Enclosure} : CountedText before around []
  | blank {before text : List Char} {around : List Enclosure} {c : Char} : isBlank c = true →
      CountedText (c :: before) around text → CountedText before around (c :: text)
  | part {before text : List Char} {around : List Enclosure} {c : Char} : isBlank c = false →
      c ∉ marks → hides c text = false →
      CountedText (c :: before) (mark around) text → CountedText before around (c :: text)
  | bars {before text : List Char} {around : List Enclosure} :
      CountedText ('|' :: '|' :: before) (mark around) text →
      CountedText before around ('|' :: '|' :: text)
  | negation {before text : List Char} {around : List Enclosure} :
      text.head? = some '=' ∨ (∀ f, endsIn f before = false) →
      CountedText ('!' :: before) (mark around) text → CountedText before around ('!' :: text)
  | opened {before text : List Char} {around : List Enclosure} : (∀ f, endsIn f before = false) →
      CountedText ('(' :: before) (.group :: mark around) text →
      CountedText before around ('(' :: text)
  | called {before text : List Char} {around : List Enclosure} {f : Builtin} :
      endsIn f before = true →
      CountedText ('[' :: '(' :: before) (.arguments f 0 false false :: mark around) text →
      CountedText before around ('(' :: '[' :: text)
  | closed {before text : List Char} {around : List Enclosure} :
      CountedText (')' :: before) around text →
      CountedText before (.group :: around) (')' :: text)
  | complete {before text : List Char} {around : List Enclosure} {f : Builtin} {commas : Nat}
      {hasArguments : Bool} : f.arity.accepts (argumentCount commas hasArguments) = true →
      CountedText (')' :: ']' :: before) around text →
      CountedText before (.arguments f commas hasArguments false :: around) (']' :: ')' :: text)
  | openedBlock {before text : List Char} {around : List Enclosure} :
      CountedText ('\x7b' :: before) (.block :: around) text →
      CountedText before around ('\x7b' :: text)
  | closedBlock {before text : List Char} {around : List Enclosure} :
      CountedText ('\x7d' :: before) around text →
      CountedText before (.block :: around) ('\x7d' :: text)
  | comma {before text : List Char} {around : List Enclosure} :
      CountedText (',' :: before) (parted around) text → CountedText before around (',' :: text)
  | literal {before text t : List Char} {around : List Enclosure} :
      CountedText ['"'] (mark around) text →
      CountedText before around ('"' :: (t.flatMap escape ++ '"' :: text))
  | surplus {before text : List Char} : CountedText before [] (')' :: text)

/-! ## The end of a text -/

section
variable {f : Builtin} {before : List Char} {c : Char}

theorem endsIn_iff : endsIn f before = true ↔ f.name.toList.reverse <+: trimLeft before :=
  List.isPrefixOf_iff_prefix

theorem endsIn_cons_of_isBlank (hc : isBlank c = true) :
    endsIn f (c :: before) = endsIn f before := by
  rw [endsIn, endsIn, trimLeft, trimLeft, List.dropWhile_cons_of_pos hc]

/-- The characters of a function's name: capitals, with digits at the end. -/
theorem name_spec (f : Builtin) : (∃ d ∈ f.name.toList.head?, d.isDigit = false) ∧
    (∀ d ∈ f.name.toList, isAsciiWord d = true ∧ d ∉ ".e+-".toList) ∧
    f.name.toList.IsChain (fun d e => d.isDigit = true → e.isDigit = true) := by
  have htable : f.name.toList.head?.any (fun d => !d.isDigit) = true ∧
      (∀ d ∈ f.name.toList, isAsciiWord d = true ∧ d ∉ ".e+-".toList) ∧
      f.name.toList.IsChain (fun d e => d.isDigit = true → e.isDigit = true) := by
    cases f <;> decide
  obtain ⟨hhead, hname⟩ := htable
  obtain ⟨d, hd, hdigit⟩ := (Option.any_eq_true ..).1 hhead
  exact ⟨⟨d, hd, by simpa using hdigit⟩, hname⟩

theorem exists_reverse_name (f : Builtin) : ∃ d ds, f.name.toList.reverse = d :: ds ∧
    isAsciiWord d = true := by
  obtain ⟨⟨e, he, -⟩, hword, -⟩ := name_spec f
  obtain ⟨d, ds, hreverse⟩ := List.exists_cons_of_ne_nil (l := f.name.toList.reverse) (by
    rintro hnil
    rw [List.reverse_eq_nil_iff.1 hnil] at he
    cases he)
  refine ⟨d, ds, hreverse, (hword d ?_).1⟩
  rw [← List.mem_reverse, hreverse]
  exact List.mem_cons_self

theorem endsIn_cons_of_symbol (hc : isAsciiWord c = false) (hb : isBlank c = false) :
    endsIn f (c :: before) = false := by
  obtain ⟨d, ds, hname, hd⟩ := exists_reverse_name f
  rw [endsIn, trimLeft, List.dropWhile_cons_of_neg (by simp [hb]), hname, List.isPrefixOf]
  have hne : d ≠ c := by
    rintro rfl
    rw [hc] at hd
    cases hd
  simp [hne]

theorem endsIn_nil : endsIn f [] = false := by
  obtain ⟨d, ds, hname, -⟩ := exists_reverse_name f
  rw [endsIn, hname]
  rfl

theorem isBlank_of_isAsciiWord (hc : isAsciiWord c = true) : isBlank c = false := by
  by_contra hb
  rw [isAsciiWord_eq_false_of_isBlank (by simpa using hb)] at hc
  cases hc

theorem trimLeft_reverse_append {w : List Char} (hne : w ≠ [])
    (hw : ∀ c ∈ w, isAsciiWord c = true) :
    trimLeft (w.reverse ++ before) = w.reverse ++ before := by
  obtain ⟨d, ds, hd⟩ := List.exists_cons_of_ne_nil (List.reverse_ne_nil_iff.2 hne)
  have hdw : isAsciiWord d = true := hw d (List.mem_reverse.1 (hd ▸ List.mem_cons_self))
  rw [hd, List.cons_append, trimLeft, List.dropWhile_cons_of_neg]
  simp [isBlank_of_isAsciiWord hdw]

/-- A number ends in the digits after its last mark. -/
theorem IsNumeral.exists_digits {text : List Char} (h : IsNumeral text) : ∃ xs d ds,
    text = xs ++ d :: ds ∧ d ∈ ".e+-".toList ∧ ds ≠ [] ∧ ∀ e ∈ ds, e.isDigit = true := by
  cases h with
  | fraction _ _ hne hds => exact ⟨_, '.', _, rfl, by decide, hne, hds⟩
  | @exponent mantissa sign digits _ hsign hne hds =>
    simp only [List.mem_cons, List.not_mem_nil, or_false] at hsign
    rcases hsign with rfl | rfl | rfl
    · exact ⟨mantissa, 'e', digits, rfl, by decide, hne, hds⟩
    · exact ⟨mantissa ++ ['e'], '+', digits, by simp, by decide, hne, hds⟩
    · exact ⟨mantissa ++ ['e'], '-', digits, by simp, by decide, hne, hds⟩

theorem IsNumeral.isDigit_last {text : List Char} (h : IsNumeral text) :
    ∀ d ∈ (text.reverse ++ before).head?, d.isDigit = true := by
  obtain ⟨xs, c, ds, rfl, -, hne, hds⟩ := h.exists_digits
  obtain ⟨e, es, hes⟩ := List.exists_cons_of_ne_nil (List.reverse_ne_nil_iff.2 hne)
  intro d hd
  rw [List.reverse_append, List.reverse_cons, hes] at hd
  cases hd
  exact hds e (List.mem_reverse.1 (hes ▸ List.mem_cons_self))

/-- A number ends in no name. -/
theorem IsNumeral.endsIn_eq_false {text : List Char} (h : IsNumeral text) (f : Builtin) :
    endsIn f (text.reverse ++ before) = false := by
  obtain ⟨xs, c, ds, rfl, hc, hne, hds⟩ := h.exists_digits
  obtain ⟨⟨e, he, hletter⟩, hname, -⟩ := name_spec f
  have hmem : e ∈ f.name.toList := List.mem_of_mem_head? he
  by_contra hends
  rw [Bool.not_eq_false, endsIn_iff] at hends
  have htext : (xs ++ c :: ds).reverse ++ before =
      ds.reverse ++ ([c] ++ (xs.reverse ++ before)) := by
    simp
  rw [htext, trimLeft_reverse_append hne fun d hd => isAsciiWord_of_isDigit (hds d hd),
    ← List.append_assoc] at hends
  rcases List.prefix_or_prefix_of_prefix hends (List.prefix_append _ _) with hends' | hends'
  · rcases List.mem_append.1 (hends'.subset (List.mem_reverse.2 hmem)) with hd | hd
    · rw [hds e (List.mem_reverse.1 hd)] at hletter
      cases hletter
    · rw [List.mem_singleton.1 hd] at hmem
      exact (hname c hmem).2 hc
  · have hmem := hends'.subset (List.mem_append_right _ (List.mem_singleton_self c))
    exact (hname c (List.mem_reverse.1 hmem)).2 hc

/-- A word does not make a name with what is before it, which could only be a digit. -/
theorem endsIn_of_append {w : List Char} (hne : w ≠ []) (hw : ∀ c ∈ w, isAsciiWord c = true)
    (hhead : ∀ c ∈ w.head?, c.isDigit = false)
    (hbefore : ∀ d ∈ before.head?, isAsciiWord d = true → d.isDigit = true)
    (h : endsIn f (w.reverse ++ before) = true) : endsIn f w.reverse = true := by
  have htrim : trimLeft (w.reverse ++ []) = w.reverse ++ [] := trimLeft_reverse_append hne hw
  rw [List.append_nil] at htrim
  rw [endsIn_iff, trimLeft_reverse_append hne hw] at h
  rw [endsIn_iff, htrim]
  rcases List.prefix_or_prefix_of_prefix h (List.prefix_append _ _) with hends | ⟨ys, hys⟩
  · exact hends
  rw [← hys, List.prefix_append_right_inj] at h
  cases ys with
  | nil =>
    rw [List.append_nil] at hys
    exact hys ▸ List.prefix_rfl
  | cons d ys =>
    obtain ⟨tail, htail⟩ := h
    obtain ⟨c, w, rfl⟩ := List.exists_cons_of_ne_nil hne
    have hname : f.name.toList = ys.reverse ++ (d :: c :: w) := by
      rw [← List.reverse_inj, ← hys]
      simp
    obtain ⟨-, hword, hchain⟩ := name_spec f
    have hd : d.isDigit = true := by
      refine hbefore d (by rw [← htail]; rfl) (hword d ?_).1
      rw [hname]
      simp
    rw [hname, List.isChain_append] at hchain
    have hc := hhead c rfl
    rw [(List.isChain_cons_cons.1 hchain.2.1).1 hd] at hc
    cases hc

end

/-! ## Open parentheses -/

/-- What is written for an open parenthesis encloses. A choice has its condition in two pairs of
round brackets, and each branch in curly ones within the outer pair. -/
def Frame.enclosures (afterComma : Bool) (f : Frame) : List Enclosure :=
  match f.function with
  | none => [.group]
  | some .iif => if f.commas = 0 then [.group, .group] else [.block, .group]
  | some function => [.arguments function f.commas f.hasArguments afterComma]

/-- What encloses the text that is written after open parentheses, given whether the last thing was
a comma in the innermost one. -/
def enclosures (afterComma : Bool) : List Frame → List Enclosure
  | [] => []
  | f :: fs => f.enclosures afterComma ++ fs.flatMap (Frame.enclosures false)

section
variable {literals : List (List Char)} {frames : List Frame} {before text : List Char}
  {afterComma : Bool}

theorem enclosures_false (frames : List Frame) :
    enclosures false frames = frames.flatMap (Frame.enclosures false) := by
  cases frames <;> rfl

theorem Frame.enclosures_of_ne {f : Builtin} (hf : f ≠ .iif) (commas : Nat) (hasArguments : Bool) :
    (⟨some f, commas, hasArguments⟩ : Frame).enclosures afterComma =
      [.arguments f commas hasArguments afterComma] := by
  cases f <;> first | rfl | exact absurd rfl hf

theorem enclosures_markArgument (afterComma : Bool) (frames : List Frame) :
    enclosures false (markArgument frames) = mark (enclosures afterComma frames) := by
  rcases frames with _ | ⟨⟨function, commas, hasArguments⟩, fs⟩
  · rfl
  · rcases function with _ | f
    · rfl
    by_cases hf : f = .iif
    · subst hf
      by_cases hcommas : commas = 0 <;>
        simp [markArgument, enclosures, Frame.enclosures, hcommas, mark]
    · simp [markArgument, enclosures, Frame.enclosures_of_ne hf, mark]

/-- Characters that are parts of arguments wherever they stand. -/
def isPart (c : Char) : Bool := isAsciiWord c || ".+-=<>*&?:".toList.contains c

theorem isPart_spec {c : Char} (hc : isPart c = true) (text : List Char) : isBlank c = false ∧
    c ∉ marks ∧ hides c text = false := by
  have hno : ∀ d ∈ marks ++ [backtick, '\'', '#', '/'], isPart d = false := by decide
  have hne : ∀ d ∈ marks ++ [backtick, '\'', '#', '/'], c ≠ d := by
    rintro d hd rfl
    rw [hno c hd] at hc
    cases hc
  refine ⟨?_, fun hmem => hne c (List.mem_append_left _ hmem) rfl, ?_⟩
  · rcases (Bool.or_eq_true ..).mp hc with hword | hmem
    · exact isBlank_of_isAsciiWord hword
    · have hlist : ∀ d ∈ ".+-=<>*&?:".toList, isBlank d = false := by decide
      exact hlist c (List.contains_iff_mem.1 hmem)
  · simp [hides, hne backtick (by decide), hne '\'' (by decide), hne '#' (by decide),
      hne '/' (by decide)]

theorem CountedText.of_isPart {c : Char} {around : List Enclosure} (hc : isPart c = true)
    (h : CountedText (c :: before) (mark around) text) : CountedText before around (c :: text) := by
  obtain ⟨hblank, hmem, hhides⟩ := isPart_spec hc text
  exact .part hblank hmem hhides h

/-- Parts of an argument. -/
theorem CountedText.append (xs : List Char) {around : List Enclosure} (hne : xs ≠ [])
    (hxs : ∀ c ∈ xs, isPart c = true)
    (h : CountedText (xs.reverse ++ before) (mark around) text) :
    CountedText before around (xs ++ text) := by
  induction xs generalizing before around with
  | nil => exact absurd rfl hne
  | cons c xs ih =>
    rw [List.forall_mem_cons] at hxs
    rw [List.reverse_cons, List.append_assoc, List.singleton_append] at h
    refine .of_isPart hxs.1 ?_
    cases xs with
    | nil => exact h
    | cons d xs => exact ih (List.cons_ne_nil d xs) hxs.2 (by rwa [mark_mark])

/-- A comma, after which the arguments go on. -/
theorem countedText_separator {f : Frame} {fs : List Frame}
    (h : CountedText ((separator f.isChoice (f.commas + 1)).reverse ++ before)
      (enclosures true (⟨f.function, f.commas + 1, f.hasArguments⟩ :: fs)) text) :
    CountedText before (enclosures afterComma (f :: fs))
      (separator f.isChoice (f.commas + 1) ++ text) := by
  obtain ⟨function, commas, hasArguments⟩ := f
  rcases function with _ | f
  · exact .comma h
  by_cases hf : f = .iif
  · subst hf
    match commas, h with
    | 0, h => exact .closed (.blank (by decide) (.openedBlock h))
    | 1, h =>
      refine .closedBlock (.blank (by decide) ?_)
      exact .append "else".toList (by decide) (by decide)
        (.blank (by decide) (.openedBlock h))
    | commas + 2, h => exact .comma h
  · have hchoice : (⟨some f, commas, hasArguments⟩ : Frame).isChoice = false := by
      simp [Frame.isChoice, hf]
    rw [hchoice] at h ⊢
    simp only [enclosures, Frame.enclosures_of_ne hf, List.singleton_append] at h ⊢
    exact .comma h

/-- The closing parenthesis of a function that takes the arguments. -/
theorem countedText_closing {function : Builtin} {f : Frame} {fs : List Frame}
    (hf : f.function = some function) (haccepts : function.arity.accepts f.argumentCount = true)
    (h : CountedText ((closing function).reverse ++ before) (enclosures false fs) text) :
    CountedText before (enclosures false (f :: fs)) (closing function ++ text) := by
  obtain ⟨_, commas, hasArguments⟩ := f
  cases hf
  rw [enclosures_false] at h
  by_cases hiif : function = .iif
  · subst hiif
    have hcommas : commas ≠ 0 := by
      rintro rfl
      cases hasArguments <;> exact absurd haccepts (by decide)
    simp only [enclosures, Frame.enclosures, hcommas, if_false, List.cons_append, List.nil_append]
    exact .closedBlock (.closed h)
  · rw [closing, if_neg hiif] at h ⊢
    simp only [enclosures, Frame.enclosures_of_ne hiif, List.singleton_append]
    exact .complete haccepts h

/-- The name of a function with its open parenthesis. -/
theorem countedText_opening {function : Builtin}
    (hbefore : function = .iif → ∀ f, endsIn f before = false)
    (h : CountedText ((opening function).reverse ++ before)
      (enclosures false (⟨some function, 0, false⟩ :: markArgument frames)) text) :
    CountedText before (enclosures afterComma frames) (opening function ++ text) := by
  rw [enclosures, ← enclosures_false, enclosures_markArgument afterComma] at h
  by_cases hiif : function = .iif
  · subst hiif
    refine .opened (hbefore rfl) ?_
    refine .append "if".toList (by decide) (by decide) (.blank (by decide) ?_)
    refine .append "truthy".toList (by decide) (by decide) (.opened ?_ h)
    intro f
    cases f <;> rfl
  · rw [Frame.enclosures_of_ne hiif, List.singleton_append] at h
    rw [opening, if_neg hiif] at h ⊢
    obtain ⟨⟨d, hd, -⟩, hname, -⟩ := name_spec function
    have hne : function.name.toList ≠ [] := by
      rintro hnil
      rw [hnil] at hd
      cases hd
    rw [List.append_assoc]
    refine .append _ hne (fun c hc => by simp [isPart, (hname c hc).1])
      (.called (f := function) ?_ ?_)
    · rw [endsIn_iff, trimLeft_reverse_append hne fun c hc => (hname c hc).1]
      exact List.prefix_append _ _
    · simpa using h

end

/-! ## One step -/

/-- How a text that is written goes with the rest of its formula: only a digit may stand before a
word that follows at once, a function's name that was no call is not called by what follows, and no
closing parenthesis follows a comma. -/
structure Continues (before : List Char) (afterComma : Bool) (cs : List Char) : Prop where
  word : ∀ c ∈ cs.head?, isAsciiWord c = true → ∀ d ∈ before.head?, isAsciiWord d = true →
    d.isDigit = true
  function : ∀ f, endsIn f before = true → endsName cs = true
  comma : afterComma = true → (trimLeft cs).head? ≠ some ')'

section
variable {before cs : List Char} {c : Char} {afterComma : Bool}

theorem Continues.of_symbol (hc : isAsciiWord c = false) (hb : isBlank c = false)
    (hcomma : afterComma = true → (trimLeft cs).head? ≠ some ')') :
    Continues (c :: before) afterComma cs where
  word _ _ _ d hd hw := by
    cases hd
    rw [hc] at hw
    cases hw
  function f hf := by
    rw [endsIn_cons_of_symbol hc hb] at hf
    cases hf
  comma := hcomma

/-- Any text goes on after a mark other than a comma. -/
theorem Continues.of_mark (hc : isAsciiWord c = false) (hb : isBlank c = false) :
    Continues (c :: before) false cs :=
  .of_symbol hc hb (absurd · Bool.false_ne_true)

theorem Continues.nil (cs : List Char) : Continues [] false cs where
  word _ _ _ _ hd := by cases hd
  function f hf := by
    rw [endsIn_nil] at hf
    cases hf
  comma ha := absurd ha Bool.false_ne_true

theorem Continues.of_blank (hb : isBlank c = true) (h : Continues before afterComma (c :: cs)) :
    Continues (c :: before) afterComma cs where
  word _ _ _ d hd hw := by
    cases hd
    rw [isAsciiWord_eq_false_of_isBlank hb] at hw
    cases hw
  function f hf := by
    rw [endsIn_cons_of_isBlank hb] at hf
    exact (endsName_cons_of_isBlank hb).symm.trans (h.function f hf)
  comma ha := by
    have hcomma := h.comma ha
    rwa [trimLeft, List.dropWhile_cons_of_pos hb] at hcomma

/-- What calls a name does not follow that of a function that was no call. -/
theorem Continues.endsIn_eq_false (h : Continues before afterComma (c :: cs))
    (hends : endsName (c :: cs) = false) (f : Builtin) : endsIn f before = false := by
  by_contra hf
  rw [h.function f (by simpa using hf)] at hends
  cases hends

theorem isCountable_of_cons (h : isCountable (c :: cs) = true) (hc : c ≠ '|') :
    isCountableAt c cs = true ∧ isCountable cs = true := by
  rw [isCountable] at h
  · exact Bool.and_eq_true_iff.1 h
  · rintro _ rfl -
    exact hc rfl

theorem isCountable_of_takesNo {rest : List Char} (h : isCountable cs = true)
    (hrest : TakesNo '|' cs rest) : isCountable rest = true := by
  obtain ⟨used, rfl, hused⟩ := hrest
  induction used with
  | nil => exact h
  | cons d used ih =>
    rw [List.mem_cons, not_or] at hused
    exact ih hused.2 (isCountable_of_cons h (Ne.symm hused.1)).2

/-- What a step leaves of a text is countable if the text is. -/
theorem Lowers.isCountable {literals : List (List Char)} {written rest : List Char}
    (h : Lowers literals (c :: cs) written rest) (hcs : Formula.isCountable (c :: cs) = true)
    (hc : c ≠ '|') : Formula.isCountable rest = true := by
  rcases h.takesNo (d := '|') (by decide) (by decide) (by decide) with ⟨_, he, -⟩ | htakes |
    ⟨-, rfl, -⟩
  · cases he
    exact (isCountable_of_cons hcs hc).2
  · exact isCountable_of_takesNo hcs htakes
  · rfl

theorem isPart_of_isNumeral {text : List Char} (h : IsNumeral text) :
    ∀ c ∈ text, isPart c = true := by
  have hdigits : ∀ {ds : List Char}, (∀ d ∈ ds, d.isDigit = true) → ∀ d ∈ ds, isPart d = true :=
    fun hds d hd => by simp [isPart, isAsciiWord_of_isDigit (hds d hd)]
  induction h with
  | fraction _ hwhole _ hfraction =>
    exact List.forall_mem_append.2 ⟨hdigits hwhole, List.forall_mem_cons.2
      ⟨by decide, hdigits hfraction⟩⟩
  | exponent _ hsign _ hds ih =>
    refine List.forall_mem_append.2 ⟨ih, List.forall_mem_cons.2 ⟨by decide,
      List.forall_mem_append.2 ⟨?_, hdigits hds⟩⟩⟩
    have htable : ∀ sign ∈ [[], ['+'], ['-']], ∀ d ∈ sign, isPart d = true := by decide
    exact htable _ hsign

theorem canonicalName_isAsciiWord {name : List Char} (hname : ∀ c ∈ name, isAsciiWord c = true) :
    ∀ c ∈ canonicalName name, isAsciiWord c = true := by
  unfold canonicalName
  split
  · rename_i constant _
    cases constant <;> decide
  · split
    · intro c hc
      simp [isAsciiWord, Position.isAlphanum_of_mem_name hc]
    · exact hname

theorem isDigit_head_canonicalName {name : List Char}
    (hhead : ∀ c ∈ name.head?, c.isDigit = false) :
    ∀ c ∈ (canonicalName name).head?, c.isDigit = false := by
  unfold canonicalName
  split
  · rename_i constant _
    intro c hc
    cases constant <;> cases hc <;> rfl
  · split
    · rename_i p _
      exact fun c hc => isDigit_of_isAlpha
        (Position.isAlpha_head_of_ofName (Position.ofName?_name p) c hc)
    · exact hhead

/-- The text after a step is counted with the parentheses that the step leaves open, after any text
that goes with the rest of the formula. -/
def CountsRest (s : Step) (after : List Char) : Prop :=
  ∀ {before afterComma}, Continues before afterComma s.rest →
    CountedText before (enclosures afterComma s.frames) after

variable {literals : List (List Char)} {frames : List Frame} {after : List Char} {s : Step}

theorem countedText_stepComma (hcs : isCountable (',' :: cs) = true)
    (h : CountsRest (stepComma frames cs) after) : CountedText before (enclosures afterComma frames)
      ((stepComma frames cs).written ++ after) := by
  have hcomma : (trimLeft cs).head? ≠ some ')' := by
    have hat := (isCountable_of_cons hcs (by decide)).1
    simp only [isCountableAt, Bool.and_eq_true, Bool.or_eq_true, bne_iff_ne] at hat
    exact hat.1.2.resolve_left fun hne => hne rfl
  cases frames with
  | nil =>
    exact .comma (@h _ true (.of_symbol (by decide) (by decide) fun _ => hcomma))
  | cons f fs =>
    refine countedText_separator (h ?_)
    have hsymbol : ∀ x : List Char, Continues (',' :: x) true cs := fun x =>
      .of_symbol (by decide) (by decide) fun _ => hcomma
    have hblock : ∀ x : List Char, Continues ('\x7b' :: x) true cs := fun x =>
      .of_symbol (by decide) (by decide) fun _ => hcomma
    unfold separator
    split
    · exact hblock _
    · exact hblock _
    · exact hsymbol _

theorem countedText_stepClose (hc : Continues before afterComma (')' :: cs))
    (hstep : stepClose frames cs = .ok s) (h : CountsRest s after) :
    CountedText before (enclosures afterComma frames) (s.written ++ after) := by
  have hcomma : afterComma = false := by
    by_contra ha
    exact hc.comma (by simpa using ha) rfl
  subst hcomma
  unfold stepClose at hstep
  split at hstep
  · cases hstep
    exact .surplus
  · rename_i f fs
    split at hstep
    · rename_i hf
      cases hstep
      have hrest : CountedText (')' :: before) (enclosures false fs) after :=
        h (.of_mark (by decide) (by decide))
      rw [enclosures_false] at hrest
      simp only [enclosures, Frame.enclosures, hf]
      exact .closed hrest
    · rename_i function hf
      split at hstep
      · rename_i haccepts
        cases hstep
        refine countedText_closing hf haccepts (h ?_)
        unfold closing
        split
        · exact .of_mark (by decide) (by decide)
        · exact .of_mark (by decide) (by decide)
      · cases hstep

theorem countedText_number
    (h : CountsRest
      ⟨(splitNumber (c :: cs)).1, markArgument frames, (splitNumber (c :: cs)).2⟩ after) :
    CountedText before (enclosures afterComma frames) ((splitNumber (c :: cs)).1 ++ after) := by
  have hnumeral := (splitNumber_spec (c :: cs)).2
  refine .append _ hnumeral.ne_nil (isPart_of_isNumeral hnumeral) ?_
  rw [← enclosures_markArgument]
  refine h ⟨fun _ _ _ d hd _ => hnumeral.isDigit_last d hd, fun f hf => ?_,
    (absurd · Bool.false_ne_true)⟩
  rw [hnumeral.endsIn_eq_false] at hf
  cases hf

theorem countedText_stepCall {name rest : List Char} (hbefore : ∀ f, endsIn f before = false)
    (hstep : stepCall literals (markArgument frames) name rest = .ok s) (h : CountsRest s after) :
    CountedText before (enclosures afterComma frames) (s.written ++ after) := by
  unfold stepCall at hstep
  split at hstep
  · cases hstep
  · split at hstep
    · split at hstep <;> cases hstep
      rename_i literal _
      have hliteral : CountedText before (enclosures afterComma frames)
          ('"' :: (literal.flatMap escape ++ '"' :: after)) := by
        refine .literal ?_
        rw [← enclosures_markArgument]
        exact h (.of_mark (by decide) (by decide))
      simpa [quote] using hliteral
    · cases hstep
      refine countedText_opening (fun _ => hbefore) (h ?_)
      unfold opening
      split
      · exact .of_mark (by decide) (by decide)
      · rw [List.reverse_append]
        exact .of_mark (by decide) (by decide)

/-- A name that is not called. What ends in it is no function, unless by itself. -/
theorem countedText_name {name rest : List Char} (hne : name ≠ [])
    (hname : ∀ d ∈ name, isAsciiWord d = true) (hhead : ∀ d ∈ name.head?, d.isDigit = false)
    (hrest : ∀ d ∈ rest.head?, isAsciiWord d = false)
    (hbefore : ∀ d ∈ before.head?, isAsciiWord d = true → d.isDigit = true)
    (hfunction : ∀ f, endsIn f (canonicalName name).reverse = true → endsName rest = true)
    (h : CountsRest ⟨canonicalName name, markArgument frames, rest⟩ after) :
    CountedText before (enclosures afterComma frames) (canonicalName name ++ after) := by
  have hword := canonicalName_isAsciiWord hname
  have hne' := (canonicalName_spec hne hname).1
  refine .append _ hne' (fun c hc => by simp [isPart, hword c hc]) ?_
  rw [← enclosures_markArgument]
  refine h ⟨fun e he hw => ?_, fun f hf => ?_, (absurd · Bool.false_ne_true)⟩
  · rw [hrest e he] at hw
    cases hw
  · exact hfunction f (endsIn_of_append hne' hword (isDigit_head_canonicalName hhead) hbefore hf)

theorem countedText_stepName (hletter : (c.isAlpha || c == '_') = true)
    (hcs : isCountable (c :: cs) = true) (hc : Continues before afterComma (c :: cs))
    (hstep : stepName literals (markArgument frames) ((c :: cs).takeWhile isAsciiWord)
      ((c :: cs).dropWhile isAsciiWord) = .ok s) (h : CountsRest s after) :
    CountedText before (enclosures afterComma frames) (s.written ++ after) := by
  have hword : isAsciiWord c = true := isAsciiWord_of_begins hletter
  have hdigit : c.isDigit = false := by
    rcases (Bool.or_eq_true ..).mp hletter with halpha | hscore
    · exact isDigit_of_isAlpha halpha
    · rw [beq_iff_eq.1 hscore]
      rfl
  have hends : endsName (c :: cs) = false := by
    rw [endsName_cons (isBlank_of_isAsciiWord hword), isWord_of_isAsciiWord hword]
    rfl
  unfold stepName at hstep
  split at hstep
  · exact countedText_stepCall (hc.endsIn_eq_false hends) hstep h
  · rename_i hparenthesis
    cases hstep
    have hplain : callsPlainly (c :: cs) = true := by
      have hbar : c ≠ '|' := by
        rintro rfl
        cases hword
      have hat := (isCountable_of_cons hcs hbar).1
      exact (Bool.and_eq_true_iff.1 hat).2
    refine countedText_name (by simp [hword]) (List.all_eq_true.1 List.all_takeWhile)
      (by simp [hword, hdigit]) (fun d hd => ?_) (hc.word c rfl hword) (fun f hf => ?_) h
    · have hnot := List.head?_dropWhile_not isAsciiWord (c :: cs)
      rw [Option.mem_def.1 hd] at hnot
      simpa using hnot
    · simp only [callsPlainly, hparenthesis, Option.isSome_none, Bool.or_false, Bool.or_eq_true,
        Bool.not_eq_true', List.any_eq_false] at hplain
      refine hplain.resolve_left fun hno => hno f ?_ hf
      cases f <;> decide

/-- What is written for two characters or one, which are parts of arguments. -/
theorem countedText_operator {rest : List Char} (d e : Char)
    (hd : isPart d = true ∨ d = '!' ∧ e = '=')
    (he : isPart e = true) (hword : isAsciiWord e = false)
    (h : CountsRest ⟨[d, e], markArgument frames, rest⟩ after) :
    CountedText before (enclosures afterComma frames) ([d, e] ++ after) := by
  have hrest : CountedText (e :: d :: before) (enclosures false (markArgument frames)) after :=
    h (.of_mark hword (isPart_spec he []).1)
  rw [enclosures_markArgument afterComma, ← mark_mark] at hrest
  rcases hd with hd | ⟨rfl, rfl⟩
  · exact .of_isPart hd (.of_isPart he hrest)
  · exact .negation (.inl rfl) (.of_isPart he hrest)

theorem countedText_stepSymbol (hcs : isCountable (c :: cs) = true) (hbar : c ≠ '|')
    (hblank : isBlank c = false) (hcomma : c ≠ ',') (hclose : c ≠ ')')
    (hword : isAsciiWord c = false) (hc : Continues before afterComma (c :: cs))
    (hafter : lowerFrom literals (stepSymbol (markArgument frames) (c :: cs)).frames
      (stepSymbol (markArgument frames) (c :: cs)).rest = .ok after)
    (h : CountsRest (stepSymbol (markArgument frames) (c :: cs)) after) :
    CountedText before (enclosures afterComma frames)
      ((stepSymbol (markArgument frames) (c :: cs)).written ++ after) := by
  have hat := (isCountable_of_cons hcs hbar).1
  simp only [isCountableAt, Bool.and_eq_true, Bool.not_eq_true'] at hat
  obtain ⟨⟨⟨hmark, hhides⟩, -⟩, -⟩ := hat
  generalize htext : c :: cs = text at *
  revert hafter h
  fun_cases stepSymbol (markArgument frames) text <;> intro hafter h
  case case1 => cases htext
  case case2 rest =>
    cases htext
    have hrest : CountedText ('(' :: before)
        (enclosures false (⟨none, 0, false⟩ :: markArgument frames)) after :=
      h (.of_mark (by decide) (by decide))
    rw [enclosures, ← enclosures_false, enclosures_markArgument afterComma] at hrest
    exact .opened (hc.endsIn_eq_false rfl) hrest
  case case3 =>
    cases htext
    cases hmark
  case case4 => exact countedText_operator '=' '=' (.inl (by decide)) (by decide) (by decide) h
  case case5 => exact countedText_operator '=' '=' (.inl (by decide)) (by decide) (by decide) h
  case case6 => exact countedText_operator '!' '=' (.inr ⟨rfl, rfl⟩) (by decide) (by decide) h
  case case7 => exact countedText_operator '<' '=' (.inl (by decide)) (by decide) (by decide) h
  case case8 => exact countedText_operator '>' '=' (.inl (by decide)) (by decide) (by decide) h
  case case9 => exact countedText_operator '!' '=' (.inr ⟨rfl, rfl⟩) (by decide) (by decide) h
  case case10 d rest hopen hquote _ _ _ _ _ hnot =>
    cases htext
    have hrest : CountedText (c :: before) (enclosures false (markArgument frames)) after :=
      h (.of_mark hword hblank)
    rw [enclosures_markArgument afterComma] at hrest
    by_cases hbang : c = '!'
    · subst hbang
      refine .negation (.inr (hc.endsIn_eq_false ?_)) hrest
      rw [endsName_cons (by decide)]
      have hequal : cs.head? ≠ some '=' := by
        intro hhead
        obtain ⟨tail, rfl⟩ := List.head?_eq_some_iff.1 hhead
        exact hnot tail rfl rfl
      simp [hequal]
    · refine .part hblank (fun hmem => ?_) (Bool.eq_false_iff.2 fun hh => ?_) hrest
      · have htable : ∀ d ∈ marks, d ∈ ['(', ')', ',', '|', '!'] ∨
            "[]\x7b\x7d\"|#".toList.contains d = true := by decide
        rcases htable c hmem with hd | hd
        · simp only [List.mem_cons, List.not_mem_nil, or_false] at hd
          rcases hd with hd | hd | hd | hd | hd
          · exact hopen hd
          · exact hclose hd
          · exact hcomma hd
          · exact hbar hd
          · exact hbang hd
        · rw [hmark] at hd
          cases hd
      · rw [hides_of_lowerFrom hafter hh] at hhides
        cases hhides

theorem countedText_step (hcs : isCountable (c :: cs) = true) (hbar : c ≠ '|')
    (hc : Continues before afterComma (c :: cs)) (hstep : step literals frames c cs = .ok s)
    (hafter : lowerFrom literals s.frames s.rest = .ok after) (h : CountsRest s after) :
    CountedText before (enclosures afterComma frames) (s.written ++ after) := by
  unfold step at hstep
  split at hstep
  · rename_i hblank
    cases hstep
    exact .blank hblank (h (hc.of_blank hblank))
  rename_i hblank
  split at hstep
  · rename_i hcomma
    subst hcomma
    cases hstep
    exact countedText_stepComma hcs h
  rename_i hcomma
  split at hstep
  · rename_i hclose
    subst hclose
    exact countedText_stepClose hc hstep h
  rename_i hclose
  unfold stepArgument at hstep
  split at hstep
  · cases hstep
    exact countedText_number h
  rename_i hnumber
  split at hstep
  · rename_i hletter
    exact countedText_stepName hletter hcs hc hstep h
  rename_i hletter
  split at hstep
  · cases hstep
  · cases hstep
    refine countedText_stepSymbol hcs hbar (by simpa using hblank) hcomma hclose ?_ hc hafter h
    have hdigit : c.isDigit = false := by
      by_contra hd
      simp [beginsNumber, hd] at hnumber
    simpa [isAsciiWord, Char.isAlphanum, hdigit] using hletter

/-- Two bars. -/
theorem lowerFrom_bars {written : List Char}
    (h : lowerFrom literals frames ('|' :: '|' :: cs) = .ok written) :
    ∃ after, lowerFrom literals (markArgument frames) cs = .ok after ∧
      written = '|' :: '|' :: after := by
  have hbar : ∀ {frames cs written}, lowerFrom literals frames ('|' :: cs) = .ok written →
      ∃ after, lowerFrom literals (markArgument frames) cs = .ok after ∧
        written = '|' :: after := by
    intro frames cs written h
    obtain ⟨s, after, hstep, hafter, rfl⟩ := lowerFrom_cons h
    cases hstep
    exact ⟨after, hafter, rfl⟩
  obtain ⟨tail, htail, rfl⟩ := hbar h
  obtain ⟨after, hafter, rfl⟩ := hbar htail
  have hmark : markArgument (markArgument frames) = markArgument frames := by
    cases frames <;> rfl
  exact ⟨after, hmark ▸ hafter, rfl⟩

/-- What is written for a text whose arguments can be counted by commas is counted so. -/
theorem countedText_of_lowerFrom {written : List Char} (hcs : isCountable cs = true)
    (hc : Continues before afterComma cs) (h : lowerFrom literals frames cs = .ok written) :
    CountedText before (enclosures afterComma frames) written := by
  induction hn : cs.length using Nat.strongRecOn
    generalizing cs frames before afterComma written with
  | _ n ih =>
  subst hn
  fun_cases isCountable cs
  case case1 =>
    rw [lowerFrom] at h
    cases h
    exact .nil
  case case2 cs =>
    obtain ⟨after, hafter, rfl⟩ := lowerFrom_bars h
    rw [isCountable] at hcs
    refine .bars ?_
    rw [← enclosures_markArgument]
    have hless : cs.length < ('|' :: '|' :: cs).length := by
      rw [List.length_cons, List.length_cons]
      omega
    exact ih _ hless hcs (.of_mark (by decide) (by decide)) hafter rfl
  case case3 c cs hbars =>
    have hbar : c ≠ '|' := by
      rintro rfl
      rw [isCountable] at hcs
      · cases hcs
      · exact fun rest _ he => hbars rest rfl he
    obtain ⟨s, after, hstep, hafter, rfl⟩ := lowerFrom_cons h
    have hrest : isCountable s.rest = true := (lowers_of_step hstep).isCountable hcs hbar
    exact countedText_step hcs hbar hc hstep hafter fun hc =>
      ih _ (length_rest_lt hstep) hrest hc hafter rfl

end

end Spreadsheet.Formula

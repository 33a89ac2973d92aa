import Spreadsheet.Formula.Lowering
import Spreadsheet.Proofs.Expression.Words
import Spreadsheet.Proofs.Position.Name

/-!
# The words of a formula as an expression

Writing a formula as an expression goes on step by step, and each step writes a
text in the place of what it reads. The cell names in the expression come from
names in the formula, but for those of functions and those to which a number is
joined. What hides text in an expression does so in the formula too.
-/
namespace Spreadsheet.Formula
open Text Expression

/-- The symbols that are written otherwise than they are read. -/
def rewrittenSymbols : List (List Char × List Char) :=
  [([','], ") \x7b".toList), ([','], "\x7d else \x7b".toList), ([')'], "\x7d)".toList),
    ([')'], [']', ')']), (['='], ['=', '=']), (['=', '='], ['=', '=']), (['<', '>'], ['!', '=']),
    (['<', '='], ['<', '=']), (['>', '='], ['>', '=']), (['!', '='], ['!', '='])]

/-- What a step reads at the front of a text, what it writes and what is left. -/
inductive Lowers (literals : List (List Char)) : List Char → List Char → List Char → Prop
  | kept {c : Char} {rest : List Char} : c ≠ '"' → isAsciiWord c = false →
      Lowers literals (c :: rest) [c] rest
  | symbol {used written rest : List Char} : (used, written) ∈ rewrittenSymbols →
      Lowers literals (used ++ rest) written rest
  | number {c : Char} {cs : List Char} : beginsNumber c cs = true →
      Lowers literals (c :: cs) (splitNumber (c :: cs)).1 (splitNumber (c :: cs)).2
  | name {name rest : List Char} : name ≠ [] → (∀ c ∈ name, isAsciiWord c = true) →
      (∀ c ∈ rest.head?, isAsciiWord c = false) → afterParenthesis? rest = none →
      Lowers literals (name ++ rest) (canonicalName name) rest
  | opening {name blanks rest : List Char} (function : Builtin) : name ≠ [] →
      (∀ c ∈ name, isAsciiWord c = true) → (∀ c ∈ blanks, isBlank c = true) →
      Lowers literals (name ++ (blanks ++ '(' :: rest)) (opening function) rest
  | literal {name blanks inside rest text : List Char} : name ≠ [] →
      (∀ c ∈ name, isAsciiWord c = true) → (∀ c ∈ blanks, isBlank c = true) →
      (∀ c ∈ inside, isBlank c = true ∨ c.isDigit = true ∨ c = '+') → text ∈ literals →
      Lowers literals (name ++ (blanks ++ '(' :: (inside ++ ')' :: rest))) (quote text) rest
  | unclosed {rest : List Char} : Lowers literals ('"' :: rest) ('"' :: rest) []

section
variable {literals : List (List Char)} {frames : List Frame} {c : Char} {cs : List Char} {s : Step}

theorem isAsciiWord_eq_false_of_isBlank (h : isBlank c = true) : isAsciiWord c = false := by
  by_contra hw
  have hbounds : 48 ≤ c.toNat ∧ c.toNat ≤ 122 := by
    unfold isAsciiWord Char.isAlphanum Char.isAlpha Char.isUpper Char.isLower Char.isDigit at hw
    simp only [Bool.or_eq_true, Bool.and_eq_true, decide_eq_true_eq, beq_iff_eq,
      Bool.not_eq_false, ge_iff_le, UInt32.le_iff_toNat_le] at hw
    rcases hw with ((h | h) | h) | rfl
    · exact ⟨Nat.le_trans (by decide) h.1, Nat.le_trans h.2 (by decide)⟩
    · exact ⟨Nat.le_trans (by decide) h.1, Nat.le_trans h.2 (by decide)⟩
    · exact ⟨Nat.le_trans (by decide) h.1, Nat.le_trans h.2 (by decide)⟩
    · decide
  simp only [isBlank, Bool.or_eq_true, Bool.and_eq_true, decide_eq_true_eq, beq_iff_eq] at h
  omega

theorem mem_dropWhile {p : Char → Bool} (hc : c ∈ cs) (hp : p c = false) : c ∈ cs.dropWhile p := by
  rw [← List.takeWhile_append_dropWhile (p := p) (l := cs), List.mem_append] at hc
  rcases hc with hc | hc
  · rw [List.all_eq_true.1 List.all_takeWhile c hc] at hp
    cases hp
  · exact hc

theorem mem_trim (hc : c ∈ cs) (hb : isBlank c = false) : c ∈ trim cs := by
  have h := mem_dropWhile (List.mem_reverse.2 (mem_dropWhile hc hb)) hb
  exact List.mem_reverse.2 h

/-- A number is written in digits, after a plus sign and between blanks. -/
theorem mem_of_word {n : UInt64} (h : Decimal.word? (trim cs) = some n) (hc : c ∈ cs) :
    isBlank c = true ∨ c.isDigit = true ∨ c = '+' := by
  by_cases hb : isBlank c = true
  · exact .inl hb
  have hmem := mem_trim hc (by simpa using hb)
  have hdigit : ∀ {digits : List Char}, Decimal.isNatural digits = true → c ∈ digits →
      c.isDigit = true := by
    intro digits hdigits hd
    simp only [Decimal.isNatural, Bool.and_eq_true, List.all_eq_true] at hdigits
    exact hdigits.2 c hd
  unfold Decimal.word? at h
  dsimp only at h
  split at h
  · rename_i rest htrim
    split at h
    · rename_i hnatural
      rw [Bool.and_eq_true] at hnatural
      rw [htrim] at hmem
      rcases List.mem_cons.1 hmem with hplus | hrest
      · exact .inr (.inr hplus)
      · exact .inr (.inl (hdigit hnatural.1 hrest))
    · cases h
  · split at h
    · rename_i hnatural
      rw [Bool.and_eq_true] at hnatural
      exact .inr (.inl (hdigit hnatural.1 hmem))
    · cases h

/-- The number of a literal holds blanks, digits and a plus sign. -/
theorem cut_of_literalIndex {rest : List Char} {index : UInt64}
    (h : literalIndex? cs = some (index, rest)) : ∃ inside, cs = inside ++ ')' :: rest ∧
      ∀ c ∈ inside, isBlank c = true ∨ c.isDigit = true ∨ c = '+' := by
  simp only [literalIndex?, Option.bind_eq_bind, Option.bind_eq_some_iff] at h
  obtain ⟨⟨inside, after⟩, hcut, number, hnumber, he⟩ := h
  cases he
  obtain ⟨d, hd, rfl⟩ := eq_of_cut hcut
  rw [beq_iff_eq] at hd
  subst hd
  exact ⟨inside, rfl, fun c => mem_of_word hnumber⟩

theorem Lowers.ofSymbol (used written rest : List Char)
    (h : (used, written) ∈ rewrittenSymbols) : Lowers literals (used ++ rest) written rest :=
  .symbol h

theorem lowers_of_stepSymbol (hc : isAsciiWord c = false) :
    Lowers literals (c :: cs) (stepSymbol frames (c :: cs)).written
      (stepSymbol frames (c :: cs)).rest := by
  generalize hcs : c :: cs = text
  fun_cases stepSymbol frames text
  case case1 => cases hcs
  case case2 => exact .kept (by decide) (by decide)
  case case3 => exact .unclosed
  case case4 => exact .ofSymbol ['=', '='] ['=', '='] _ (by decide)
  case case5 => exact .ofSymbol ['='] ['=', '='] _ (by decide)
  case case6 => exact .ofSymbol ['<', '>'] ['!', '='] _ (by decide)
  case case7 => exact .ofSymbol ['<', '='] ['<', '='] _ (by decide)
  case case8 => exact .ofSymbol ['>', '='] ['>', '='] _ (by decide)
  case case9 => exact .ofSymbol ['!', '='] ['!', '='] _ (by decide)
  case case10 hquote _ _ _ _ _ _ =>
    cases hcs
    exact .kept hquote hc

theorem blanks_of_afterParenthesis {inside : List Char}
    (h : afterParenthesis? cs = some inside) :
    ∃ blanks, cs = blanks ++ '(' :: inside ∧ ∀ c ∈ blanks, isBlank c = true := by
  unfold afterParenthesis? at h
  split at h
  · rename_i rest hrest
    cases h
    refine ⟨cs.takeWhile isBlank, ?_, List.all_eq_true.1 List.all_takeWhile⟩
    rw [← hrest]
    exact List.takeWhile_append_dropWhile.symm
  · cases h

theorem lowers_of_stepName {name rest : List Char} (hne : name ≠ [])
    (hname : ∀ c ∈ name, isAsciiWord c = true) (hrest : ∀ c ∈ rest.head?, isAsciiWord c = false)
    (h : stepName literals frames name rest = .ok s) :
    Lowers literals (name ++ rest) s.written s.rest := by
  unfold stepName at h
  split at h
  · rename_i inside hinside
    obtain ⟨blanks, rfl, hblanks⟩ := blanks_of_afterParenthesis hinside
    unfold stepCall at h
    split at h
    · cases h
    · split at h
      · rename_i index after hindex
        split at hindex
        · split at h <;> cases h
          rename_i literal hliteral
          obtain ⟨inside, rfl, hnumber⟩ := cut_of_literalIndex hindex
          exact .literal hne hname hblanks hnumber (List.mem_of_getElem? hliteral)
        · cases hindex
      · cases h
        exact .opening _ hne hname hblanks
  · cases h
    exact .name hne hname hrest ‹_›

theorem lowers_of_step (h : step literals frames c cs = .ok s) :
    Lowers literals (c :: cs) s.written s.rest := by
  unfold step at h
  split at h
  · rename_i hblank
    cases h
    exact .kept (by rintro rfl; exact absurd hblank (by decide))
      (isAsciiWord_eq_false_of_isBlank hblank)
  split at h
  · rename_i hc
    subst hc
    cases h
    unfold stepComma
    split
    · exact .kept (by decide) (by decide)
    · rename_i f fs
      unfold separator
      dsimp only
      split
      · exact .ofSymbol [','] _ _ (by decide)
      · exact .ofSymbol [','] _ _ (by decide)
      · exact .kept (by decide) (by decide)
  split at h
  · rename_i hc
    subst hc
    unfold stepClose at h
    split at h
    · cases h
      exact .kept (by decide) (by decide)
    · split at h
      · cases h
        exact .kept (by decide) (by decide)
      · split at h <;> cases h
        unfold closing
        split
        · exact .ofSymbol [')'] "\x7d)".toList _ (by decide)
        · exact .ofSymbol [')'] [']', ')'] _ (by decide)
  unfold stepArgument at h
  split at h
  · rename_i hnumber
    cases h
    exact .number hnumber
  rename_i hnumber
  split at h
  · rename_i hletter
    have hc : isAsciiWord c = true := isAsciiWord_of_begins hletter
    have hne : (c :: cs).takeWhile isAsciiWord ≠ [] := by simp [hc]
    have hlowers := lowers_of_stepName hne (List.all_eq_true.1 List.all_takeWhile)
      (fun d hd => by
        have := List.head?_dropWhile_not isAsciiWord (c :: cs)
        rw [Option.mem_def.1 hd] at this
        simpa using this) h
    rwa [List.takeWhile_append_dropWhile] at hlowers
  rename_i hletter
  split at h
  · cases h
  · cases h
    refine lowers_of_stepSymbol ?_
    have hdigit : c.isDigit = false := by
      by_contra hd
      simp [beginsNumber, hd] at hnumber
    simp only [isAsciiWord, Char.isAlphanum, hdigit, Bool.or_false]
    simpa using hletter

end

/-! ## What is written -/

/-- A number as an expression writes it. -/
inductive IsNumeral : List Char → Prop
  | fraction {whole fraction : List Char} : whole ≠ [] → (∀ c ∈ whole, c.isDigit = true) →
      fraction ≠ [] → (∀ c ∈ fraction, c.isDigit = true) → IsNumeral (whole ++ '.' :: fraction)
  | exponent {mantissa sign digits : List Char} : IsNumeral mantissa →
      sign ∈ [[], ['+'], ['-']] → digits ≠ [] → (∀ c ∈ digits, c.isDigit = true) →
      IsNumeral (mantissa ++ 'e' :: (sign ++ digits))

section
variable {c : Char} {cs : List Char}

theorem orZero_spec (hcs : ∀ c ∈ cs, c.isDigit = true) :
    orZero cs ≠ [] ∧ ∀ c ∈ orZero cs, c.isDigit = true := by
  unfold orZero
  split
  · exact ⟨by decide, by decide⟩
  · rename_i h
    exact ⟨by simpa using h, hcs⟩

theorem takeWhile_isDigit (cs : List Char) : ∀ c ∈ cs.takeWhile Char.isDigit, c.isDigit = true :=
  List.all_eq_true.1 List.all_takeWhile

theorem takesNo_splitFraction {d : Char} (hd : d.isDigit = false) (hpoint : d ≠ '.')
    (cs : List Char) : TakesNo d cs (splitFraction cs).2 := by
  unfold splitFraction
  split
  · exact (takesNo_dropWhile hd _).cons hpoint.symm
  · exact .refl _ _

/-- Of an exponent its mark, a sign and digits are taken. -/
theorem takesNo_splitExponent {d : Char} (hd : d.isDigit = false)
    (hmark : d ∉ ['e', 'E', '+', '-']) (cs : List Char) : TakesNo d cs (splitExponent cs).2 := by
  simp only [List.mem_cons, List.not_mem_nil, or_false, not_or] at hmark
  unfold splitExponent
  split
  · exact .refl _ _
  · rename_i mark rest
    split
    rename_i sign tail hsign
    have htail : TakesNo d rest tail := by
      split at hsign <;> cases hsign
      · exact (TakesNo.refl _ _).cons (Ne.symm hmark.2.2.1)
      · exact (TakesNo.refl _ _).cons (Ne.symm hmark.2.2.2)
      · exact .refl _ _
    dsimp only
    split
    · rename_i h
      simp only [Bool.and_eq_true, Bool.or_eq_true, beq_iff_eq] at h
      refine (htail.trans (takesNo_dropWhile hd _)).cons ?_
      rcases h.1 with rfl | rfl
      · exact Ne.symm hmark.1
      · exact Ne.symm hmark.2.1
    · exact .refl _ _

theorem takesNo_splitNumber {d : Char} (hd : d.isDigit = false)
    (hmark : d ∉ ['.', 'e', 'E', '+', '-']) (cs : List Char) :
    TakesNo d cs (splitNumber cs).2 := by
  rw [List.mem_cons, not_or] at hmark
  exact ((takesNo_dropWhile hd _).trans (takesNo_splitFraction hd hmark.1 _)).trans
    (takesNo_splitExponent hd hmark.2 _)

theorem isDigit_splitFraction (cs : List Char) : ∀ c ∈ (splitFraction cs).1, c.isDigit = true := by
  unfold splitFraction
  split
  · exact takeWhile_isDigit _
  · simp

theorem splitExponent_spec (cs : List Char) : (splitExponent cs).1 = [] ∨
    ∃ sign digits, (splitExponent cs).1 = 'e' :: (sign ++ digits) ∧
      sign ∈ [[], ['+'], ['-']] ∧ digits ≠ [] ∧ ∀ c ∈ digits, c.isDigit = true := by
  unfold splitExponent
  split
  · exact .inl rfl
  · rename_i mark rest
    split
    rename_i sign tail hsign
    have hmem : sign ∈ [[], ['+'], ['-']] := by
      split at hsign <;> cases hsign <;> decide
    dsimp only
    split
    · rename_i h
      simp only [Bool.and_eq_true, Bool.not_eq_true', List.isEmpty_eq_false_iff] at h
      exact .inr ⟨sign, _, rfl, hmem, h.2, takeWhile_isDigit _⟩
    · exact .inl rfl

theorem splitNumber_spec (cs : List Char) :
    IsUnquoted cs (splitNumber cs).2 ∧ IsNumeral (splitNumber cs).1 := by
  obtain ⟨hwhole, hwhole'⟩ := orZero_spec (takeWhile_isDigit cs)
  obtain ⟨hne, hdigits⟩ := orZero_spec (isDigit_splitFraction (cs.dropWhile Char.isDigit))
  refine ⟨takesNo_splitNumber (by decide) (by decide) cs, ?_⟩
  have hmantissa := IsNumeral.fraction hwhole hwhole' hne hdigits
  rcases splitExponent_spec (splitFraction (cs.dropWhile Char.isDigit)).2 with
    he | ⟨sign, digits, he, hsign, hne', hdigits'⟩
  · simpa [splitNumber, he] using hmantissa
  · simpa [splitNumber, he] using hmantissa.exponent hsign hne' hdigits'

/-- A number that begins with its point is written with a zero in front. -/
theorem splitNumber_point {d : Char} (hd : d.isDigit = true) :
    ∃ more, (splitNumber ('.' :: d :: cs)).1 = '0' :: '.' :: d :: more := by
  refine ⟨cs.takeWhile Char.isDigit ++ (splitExponent (cs.dropWhile Char.isDigit)).1, ?_⟩
  simp [splitNumber, splitFraction, orZero, hd]

end

section
variable {afterWord : Bool} {ys : List Char} {x : List Char × List Char}

theorem runs_digits {digits : List Char} (hne : digits ≠ [])
    (hd : ∀ c ∈ digits, c.isDigit = true) :
    runs true afterWord .outside (digits ++ ys) = runs true true .outside ys := by
  have hword : ∀ c ∈ digits, isWord c = true := fun c hc => isWord_of_isDigit (hd c hc)
  rw [runs_append_of_no_letter fun c hc => isAlpha_of_isDigit (hd c hc),
    quotingAfter_outside fun hq => ne_quote_of_isWord (hword _ hq) rfl,
    endsInWord_eq_true hne hword]

/-- No word begins in a number. -/
theorem runs_numeral {text : List Char} (h : IsNumeral text) :
    runs true afterWord .outside (text ++ ys) = runs true true .outside ys := by
  induction h generalizing afterWord ys with
  | fraction hwhole hwhole' hfraction hfraction' =>
    rw [List.append_assoc, runs_digits hwhole hwhole', List.cons_append,
      runs_cons_of_not_isAlpha (by decide)]
    exact runs_digits hfraction hfraction'
  | @exponent mantissa sign digits _ hsign hne hdigits ih =>
    rw [List.append_assoc, ih, List.cons_append, List.append_assoc]
    have hmark : runs true true .outside ('e' :: (sign ++ (digits ++ ys))) =
        runs true true .outside (sign ++ (digits ++ ys)) := by
      simp [runs, next_outside, isWord_of_isAlpha]
    rw [hmark]
    simp only [List.mem_cons, List.not_mem_nil, or_false] at hsign
    rcases hsign with rfl | rfl | rfl
    · exact runs_digits hne hdigits
    · exact (runs_cons_of_not_isAlpha (by decide)).trans (runs_digits hne hdigits)
    · exact (runs_cons_of_not_isAlpha (by decide)).trans (runs_digits hne hdigits)

theorem runs_escape (afterWord : Bool) (c : Char) : ∃ w, ∀ ys,
    runs true afterWord .inside (escape c ++ ys) = runs true w .inside ys := by
  unfold escape
  split
  case h_6 hslash hquote _ _ _ =>
    have hc : c ≠ '"' ∧ c ≠ '\\' := ⟨hquote, hslash⟩
    exact ⟨isWord c, fun ys => by simp [runs, Quoting.next, hc]⟩
  all_goals exact ⟨_, fun ys => by simp [runs, Quoting.next]; rfl⟩

/-- No word begins in a literal. -/
theorem runs_quote (text : List Char) :
    runs true afterWord .outside (quote text ++ ys) = runs true false .outside ys := by
  have hinside : ∀ afterWord, runs true afterWord .inside (text.flatMap escape ++ '"' :: ys) =
      runs true false .outside ys := by
    induction text with
    | nil =>
      intro afterWord
      exact runs_cons_of_not_isAlpha (by decide)
    | cons c text ih =>
      intro afterWord
      obtain ⟨w, hw⟩ := runs_escape afterWord c
      rw [List.flatMap_cons, List.append_assoc, hw, ih]
  rw [quote, List.append_assoc, List.cons_append, runs_cons_of_not_isAlpha (by decide)]
  exact hinside _

/-- A word that something else follows is a word of its own. -/
theorem mem_runs_word_cons {word : List Char} {d : Char} (hne : word ≠ [])
    (hword : ∀ c ∈ word, isWord c = true) (hd : isWord d = false) (hq : d ≠ '"')
    (hx : x ∈ runs true afterWord .outside (word ++ d :: ys)) :
    x.1 = word ∨ x ∈ runs true false .outside ys := by
  have hletter := isAlpha_of_not_isWord hd
  rcases mem_runs_word_append hne hword hx with ⟨_, rfl⟩ | hx
  · exact .inl (by simp [hd])
  · rw [runs_cons_of_not_isAlpha hletter, next_outside hq, hd] at hx
    exact .inr hx

variable {q : Position}

theorem mem_runs_symbol {used written : List Char} (h : (used, written) ∈ rewrittenSymbols)
    (hx : x ∈ runs true afterWord .outside (written ++ ys)) (hq : Position.ofName? x.1 = some q) :
    x ∈ runs true false .outside ys := by
  have htable : ∀ entry ∈ rewrittenSymbols, entry.2 = "\x7d else \x7b".toList ∨
      (∀ c ∈ entry.2, c.isAlpha = false) ∧ '"' ∉ entry.2 ∧ ∀ w, endsInWord w entry.2 = false := by
    decide
  rcases htable _ h with he | ⟨hletter, hquote, hend⟩
  · dsimp only at he
    rw [he] at hx
    rw [show "\x7d else \x7b".toList ++ ys = '\x7d' :: ' ' :: ("else".toList ++ ' ' :: '\x7b' :: ys)
      from rfl, runs_cons_of_not_isAlpha (by decide), runs_cons_of_not_isAlpha (by decide)] at hx
    rcases mem_runs_word_cons (by decide) (by decide) (by decide) (by decide) hx with he | hx
    · rw [he, show Position.ofName? "else".toList = none by decide] at hq
      cases hq
    · rwa [runs_cons_of_not_isAlpha (by decide)] at hx
  · rwa [runs_append_of_no_letter hletter, hend, quotingAfter_outside hquote] at hx

theorem mem_runs_opening {function : Builtin}
    (hx : x ∈ runs true afterWord .outside (opening function ++ ys))
    (hq : Position.ofName? x.1 = some q) :
    x ∈ runs true false .outside ys ∨ Builtin.isName q.name = true := by
  unfold opening at hx
  split at hx
  · rw [show "(if truthy(".toList ++ ys =
        '(' :: ("if".toList ++ ' ' :: ("truthy".toList ++ '(' :: ys))
      from rfl, runs_cons_of_not_isAlpha (by decide)] at hx
    rcases mem_runs_word_cons (by decide) (by decide) (by decide) (by decide) hx with he | hx
    · rw [he, show Position.ofName? "if".toList = none by decide] at hq
      cases hq
    rcases mem_runs_word_cons (by decide) (by decide) (by decide) (by decide) hx with he | hx
    · rw [he, show Position.ofName? "truthy".toList = none by decide] at hq
      cases hq
    · exact .inl hx
  · have hfunction : ∀ b ∈ Builtin.all, b.name.toList ≠ [] ∧
        (∀ c ∈ b.name.toList, isWord c = true) ∧ Builtin.isName b.name.toList = true := by
      decide
    have hmem : function ∈ Builtin.all := by cases function <;> decide
    obtain ⟨hne, hword, hname⟩ := hfunction function hmem
    rw [List.append_assoc] at hx
    rcases mem_runs_word_cons hne hword (by decide) (by decide) hx with he | hx
    · rw [he] at hq
      exact .inr (Position.isName_of_ofName hname hq)
    · have hx : x ∈ runs true false .outside ('[' :: ys) := hx
      exact .inl (by rwa [runs_cons_of_not_isAlpha (by decide)] at hx)

theorem canonicalName_spec {name : List Char} (hne : name ≠ [])
    (hname : ∀ c ∈ name, isAsciiWord c = true) :
    canonicalName name ≠ [] ∧ ∀ c ∈ canonicalName name, isWord c = true := by
  unfold canonicalName
  split
  · rename_i constant _
    cases constant <;> exact ⟨by decide, by decide⟩
  · split
    · exact ⟨Position.name_ne_nil _, fun c hc => isWord_of_isAlphanum
        (Position.isAlphanum_of_mem_name hc)⟩
    · exact ⟨hne, fun c hc => isWord_of_isAsciiWord (hname c hc)⟩

/-- A name that is written as a cell name is one. -/
theorem ofName_of_canonicalName {name : List Char}
    (h : Position.ofName? (canonicalName name) = some q) : Position.ofName? name = some q := by
  unfold canonicalName at h
  split at h
  · rename_i constant _
    have hnone : Position.ofName? constant.name.toList = none := by cases constant <;> decide
    rw [hnone] at h
    cases h
  · split at h
    · rename_i cell hcell
      rw [Position.ofName?_name] at h
      rw [hcell, h]
    · exact h

end

/-! ## The words of the whole -/

section
variable {literals : List (List Char)} {frames : List Frame} {text cs written rest ys : List Char}

/-- What begins with no ASCII word character is written with the same character in front, or with
another that belongs to no word, or it is a number without whole digits. -/
theorem Lowers.head (h : Lowers literals text written rest)
    (htext : ∀ c ∈ text.head?, isAsciiWord c = false) :
    text.head? = (written ++ ys).head? ∨ (∀ c ∈ text.head?, isWord c = false) ∧
      ((∀ c ∈ (written ++ ys).head?, isWord c = false) ∨
        ∃ d more, written ++ ys = '0' :: '.' :: d :: more ∧ d.isDigit = true) := by
  have hno : ∀ {name tail : List Char}, name ≠ [] → (∀ c ∈ name, isAsciiWord c = true) →
      ¬∀ c ∈ (name ++ tail).head?, isAsciiWord c = false := by
    intro name tail hne hname hhead
    obtain ⟨c, name, rfl⟩ := List.exists_cons_of_ne_nil hne
    have := hhead c rfl
    rw [hname c List.mem_cons_self] at this
    cases this
  cases h with
  | kept => exact .inl rfl
  | symbol h =>
    have htable : ∀ entry ∈ rewrittenSymbols, entry.1 ≠ [] ∧ entry.2 ≠ [] ∧
        entry.1.head?.any isWord = false ∧ entry.2.head?.any isWord = false := by
      decide
    obtain ⟨hne, hne', hused, hwritten⟩ := htable _ h
    obtain ⟨c, used, rfl⟩ := List.exists_cons_of_ne_nil hne
    obtain ⟨d, written, rfl⟩ := List.exists_cons_of_ne_nil hne'
    exact .inr ⟨by simpa using hused, .inl (by simpa using hwritten)⟩
  | @number c cs hbegins =>
    have hc := htext c rfl
    have hdigit : c.isDigit = false := by
      by_contra hd
      simp [isAsciiWord, Char.isAlphanum, hd] at hc
    rw [beginsNumber, hdigit, Bool.false_or, Bool.and_eq_true, beq_iff_eq] at hbegins
    obtain ⟨rfl, hnext⟩ := hbegins
    cases cs with
    | nil => cases hnext
    | cons d cs =>
      have hd : d.isDigit = true := hnext
      obtain ⟨more, hmore⟩ := splitNumber_point hd
      exact .inr ⟨fun c hc => by cases hc; decide, .inr ⟨d, more ++ ys, by rw [hmore]; rfl, hd⟩⟩
  | name hne hname => exact absurd htext (hno hne hname)
  | opening _ hne hname => exact absurd htext (hno hne hname)
  | literal hne hname => exact absurd htext (hno hne hname)
  | unclosed => exact .inl rfl

/-- A cell name in what a step and the rest have written belongs to the rest, is the name of a
function, or begins with a name that the step has read. -/
theorem Lowers.mem_runs {afterWord : Bool} {x : List Char × List Char} {q : Position}
    (h : Lowers literals text written rest) (hcount : text.count '"' ≤ 1)
    (hys : rest = [] → ys = []) (hx : x ∈ runs true afterWord .outside (written ++ ys))
    (hq : Position.ofName? x.1 = some q) :
    (∃ used w, text = used ++ rest ∧ '"' ∉ used ∧ (∀ v, endsInWord v used = true → w = true) ∧
      x ∈ runs true w .outside ys) ∨ Builtin.isName q.name = true ∨
    ∃ name, text = name ++ rest ∧ name ≠ [] ∧ (∀ c ∈ name, isAsciiWord c = true) ∧
      (∀ c ∈ rest.head?, isAsciiWord c = false) ∧ afterParenthesis? rest = none ∧
      afterWord = false ∧
      x = (canonicalName name ++ ys.takeWhile isWord, ys.dropWhile isWord) := by
  cases h with
  | @kept c rest hc hword =>
    have hletter : c.isAlpha = false :=
      eq_false_of_ne_true (mt isAsciiWord_of_isAlpha (ne_true_of_eq_false hword))
    rw [List.singleton_append, runs_cons_of_not_isAlpha hletter, next_outside hc] at hx
    exact .inl ⟨[c], isWord c, rfl, by simpa using Ne.symm hc, fun v hv => hv, hx⟩
  | @symbol used _ _ h =>
    have htable : ∀ entry ∈ rewrittenSymbols, '"' ∉ entry.1 ∧
        ∀ v, endsInWord v entry.1 = false := by
      decide
    obtain ⟨hquote, hend⟩ := htable _ h
    exact .inl ⟨used, false, rfl, hquote, fun v hv => absurd hv (by simp [hend v]),
      mem_runs_symbol h hx hq⟩
  | @number c cs _ =>
    obtain ⟨⟨used, hused, hquote⟩, hnumeral⟩ := splitNumber_spec (c :: cs)
    rw [runs_numeral hnumeral] at hx
    exact .inl ⟨used, true, hused, hquote, fun _ _ => rfl, hx⟩
  | @name name rest hne hchars hrest hparen =>
    obtain ⟨hne', hword⟩ := canonicalName_spec hne hchars
    rcases mem_runs_word_append hne' hword hx with ⟨hafter, rfl⟩ | hx
    · exact .inr (.inr ⟨name, rfl, hne, hchars, hrest, hparen, hafter, rfl⟩)
    · have hquote := not_mem_of_eq_false hchars (by decide : isAsciiWord '"' = false)
      exact .inl ⟨name, true, rfl, hquote, fun _ _ => rfl, hx⟩
  | @opening name blanks rest function hne hchars hblanks =>
    rcases mem_runs_opening hx hq with hx | hb
    · refine .inl ⟨name ++ (blanks ++ ['(']), false, by simp, ?_, fun v hv => ?_, hx⟩
      · simp [not_mem_of_eq_false hchars (by decide : isAsciiWord '"' = false),
          not_mem_of_eq_false hblanks (by decide : isBlank '"' = false)]
      · rw [endsInWord_append, endsInWord_append, endsInWord_cons, endsInWord_nil] at hv
        exact absurd hv (by decide)
    · exact .inr (.inl hb)
  | @literal name blanks inside rest _ hne hchars hblanks hnumber _ =>
    rw [runs_quote] at hx
    refine .inl ⟨name ++ (blanks ++ '(' :: (inside ++ [')'])), false, by simp, ?_,
      fun v hv => ?_, hx⟩
    · have hquote : '"' ∉ inside := fun hq => absurd (hnumber _ hq) (by decide)
      simp [not_mem_of_eq_false hchars (by decide : isAsciiWord '"' = false),
        not_mem_of_eq_false hblanks (by decide : isBlank '"' = false), hquote]
    · rw [endsInWord_append, endsInWord_append, endsInWord_cons, endsInWord_append,
        endsInWord_cons, endsInWord_nil] at hv
      exact absurd hv (by decide)
  | @unclosed rest =>
    have hrest : '"' ∉ rest := by
      rw [List.count_cons_self] at hcount
      exact List.count_eq_zero.1 (by omega)
    rw [hys rfl, List.append_nil, runs_cons_of_not_isAlpha (by decide),
      runs_eq_nil (by decide) hrest] at hx
    cases hx

theorem head_of_lowerFrom (h : lowerFrom literals frames cs = .ok written)
    (hcs : ∀ c ∈ cs.head?, isAsciiWord c = false) :
    cs.head? = written.head? ∨ (∀ c ∈ cs.head?, isWord c = false) ∧
      ((∀ c ∈ written.head?, isWord c = false) ∨
        ∃ d more, written = '0' :: '.' :: d :: more ∧ d.isDigit = true) := by
  cases cs with
  | nil =>
    rw [lowerFrom] at h
    cases h
    exact .inl rfl
  | cons c cs =>
    rw [lowerFrom] at h
    split at h
    · cases h
    · rename_i s hstep
      split at h <;> cases h
      exact (lowers_of_step hstep).head hcs

/-- After a name nothing is written that would belong to the same cell name. -/
theorem takeWhile_of_lowerFrom (h : lowerFrom literals frames cs = .ok written)
    (hcs : ∀ c ∈ cs.head?, isAsciiWord c = false)
    (hf : beginsFraction (written.dropWhile isWord) = false)
    (halnum : ∀ c ∈ written.takeWhile isWord, c.isAlphanum = true) :
    written.takeWhile isWord = [] ∧ ∀ c ∈ cs.head?, isWord c = false := by
  rcases head_of_lowerFrom h hcs with hsame | ⟨htext, hwritten | ⟨d, more, rfl, hd⟩⟩
  · cases written with
    | nil =>
      rw [hsame]
      exact ⟨rfl, by simp⟩
    | cons c written =>
      have hc : isWord c = false := by
        by_contra hw
        have := halnum c (by simp [hw])
        have hascii := hcs c (by rw [hsame]; rfl)
        simp [isAsciiWord, this] at hascii
      rw [hsame]
      exact ⟨by simp [hc], by simpa using hc⟩
  · refine ⟨?_, htext⟩
    cases written with
    | nil => rfl
    | cons c written => simp [hwritten c rfl]
  · have hzero : isWord '0' = true := by decide
    have hpoint : isWord '.' = false := by decide
    simp [hzero, hpoint, beginsFraction, hd] at hf

/-- A cell name at the front of a text is a word there. -/
theorem mem_runs_front {escapes afterWord : Bool} {name : List Char} {q : Position}
    (hq : Position.ofName? name = some q) (hname : ∀ c ∈ name, isAsciiWord c = true)
    (hrest : ∀ c ∈ rest.head?, isWord c = false) (hafter : afterWord = false) :
    (name, rest) ∈ runs escapes afterWord .outside (name ++ rest) := by
  obtain ⟨c, name, rfl⟩ := List.exists_cons_of_ne_nil (Position.ne_nil_of_ofName hq)
  have hc := Position.isAlpha_head_of_ofName hq c rfl
  have hword : ∀ d ∈ name, isWord d = true := fun d hd =>
    isWord_of_isAsciiWord (hname d (List.mem_cons_of_mem _ hd))
  have hstop : rest.takeWhile isWord = [] ∧ rest.dropWhile isWord = rest := by
    cases rest with
    | nil => exact ⟨rfl, rfl⟩
    | cons d rest => simp [hrest d rfl]
  rw [List.cons_append, runs, if_pos ⟨rfl, hafter, hc⟩, List.takeWhile_append_of_pos hword,
    List.dropWhile_append_of_pos hword, hstop.1, hstop.2, List.append_nil]
  exact List.mem_cons_self

/-- A cell name among the words of the expression is a name in the formula that no parenthesis
follows, or the name of a function. -/
theorem mem_runs_of_lowerFrom {afterWord afterText : Bool} {n after : List Char} {q : Position}
    (h : lowerFrom literals frames cs = .ok written) (hcs : cs.count '"' ≤ 1)
    (hword : afterText = true → afterWord = true)
    (hn : (n, after) ∈ runs true afterWord .outside written) (hf : beginsFraction after = false)
    (hq : Position.ofName? n = some q) :
    Builtin.isName q.name = true ∨ ∃ w rest, (w, rest) ∈ runs false afterText .outside cs ∧
      afterParenthesis? rest = none ∧ Position.ofName? w = some q := by
  fun_induction lowerFrom literals frames cs generalizing afterWord afterText written with
  | case1 => 
    cases h
    cases hn
  | case2 => cases h
  | case3 => cases h
  | case4 frames c cs s hstep rest hrest ih =>
    cases h
    have hlowers := lowers_of_step hstep
    have hys : s.rest = [] → rest = [] := by
      intro hs
      rw [hs, lowerFrom] at hrest
      cases hrest
      rfl
    rcases hlowers.mem_runs hcs hys hn hq with ⟨used, w, hused, hquote, hend, hx⟩ | hb | hname
    · rw [hused] at hcs ⊢
      have hcount : s.rest.count '"' ≤ 1 := by
        rw [List.count_append] at hcs
        omega
      rcases @ih rest w (endsInWord afterText used) hrest hcount (hend _) hx with hb | hw
      · exact .inl hb
      · obtain ⟨w, tail, hmem, hw⟩ := hw
        have hsub := runs_subset_append false afterText .outside used s.rest
        rw [quotingAfter_outside hquote] at hsub
        exact .inr ⟨w, tail, hsub hmem, hw⟩
    · exact .inl hb
    · obtain ⟨name, htext, hne, hchars, hhead, hparen, hafter, hx⟩ := hname
      obtain ⟨rfl, rfl⟩ := Prod.mk.inj hx
      have halnum := Position.isAlphanum_of_ofName hq
      obtain ⟨hstop, hend⟩ := takeWhile_of_lowerFrom hrest hhead hf fun c hc =>
        halnum c (List.mem_append_right _ hc)
      rw [hstop, List.append_nil] at hq
      have hcell := ofName_of_canonicalName hq
      rw [htext]
      exact .inr ⟨name, s.rest, mem_runs_front hcell hchars hend (by
        cases afterText with
        | false => rfl
        | true => rw [hafter] at hword; cases hword rfl), hparen, hcell⟩

end

/-! ## What hides text -/

/-- Whether a character is no quote and cannot begin anything that hides text. -/
def isCalm (c : Char) : Bool := !(['"', backtick, '\'', '#', '/', '*'].contains c)

section
variable {literals : List (List Char)} {frames : List Frame}
  {text cs written rest xs ys : List Char}
  {c : Char}

theorem isCalm_of_isWord (h : isWord c = true) : isCalm c = true := by
  by_contra hc
  simp only [isCalm, Bool.not_eq_true', Bool.not_eq_false, List.contains_iff_mem, List.mem_cons,
    List.not_mem_nil, or_false] at hc
  rcases hc with rfl | rfl | rfl | rfl | rfl | rfl <;> exact absurd h (by decide)

theorem ne_of_isCalm (h : isCalm c = true) :
    c ≠ '"' ∧ c ≠ backtick ∧ c ≠ '\'' ∧ c ≠ '#' ∧ c ≠ '/' ∧ c ≠ '*' := by
  simpa [isCalm] using h

theorem isPlain_append_of_isCalm {escapes : Bool} (h : ∀ c ∈ xs, isCalm c = true) :
    isPlain escapes .outside (xs ++ ys) = isPlain escapes .outside ys := by
  induction xs with
  | nil => rfl
  | cons x xs ih =>
    obtain ⟨hx, hxs⟩ := List.forall_mem_cons.1 h
    have hne := ne_of_isCalm hx
    simp [isPlain, hides, hne, next_outside, ih hxs]

theorem isPlain_cons_of_ne_outside {escapes : Bool} {q : Quoting} (hq : q ≠ .outside) :
    isPlain escapes q (c :: cs) = isPlain escapes (q.next escapes c) cs := by
  simp [isPlain, hq]

theorem isPlain_of_ne_outside {escapes : Bool} {q : Quoting} (hq : q ≠ .outside) (h : '"' ∉ cs) :
    isPlain escapes q cs = true := by
  induction cs generalizing q with
  | nil => rfl
  | cons c cs ih =>
    rw [List.mem_cons, not_or] at h
    rw [isPlain_cons_of_ne_outside hq, ih (next_ne_outside hq (Ne.symm h.1)) h.2]

theorem isPlain_escape (c : Char) (ys : List Char) :
    isPlain true .inside (escape c ++ ys) = isPlain true .inside ys := by
  unfold escape
  split
  case h_6 hslash hquote _ _ _ =>
    have hc : c ≠ '"' ∧ c ≠ '\\' := ⟨hquote, hslash⟩
    simp [isPlain_cons_of_ne_outside, Quoting.next, hc]
  all_goals simp [isPlain_cons_of_ne_outside, Quoting.next]

theorem isPlain_quote (text ys : List Char) :
    isPlain true .outside (quote text ++ ys) = isPlain true .outside ys := by
  have hinside : isPlain true .inside (text.flatMap escape ++ '"' :: ys) =
      isPlain true .outside ys := by
    induction text with
    | nil => simp [isPlain, Quoting.next]
    | cons c text ih => rw [List.flatMap_cons, List.append_assoc, isPlain_escape, ih]
  rw [quote, List.append_assoc, List.cons_append]
  simpa [isPlain, hides, backtick, Quoting.next] using hinside

theorem IsNumeral.ne_nil (h : IsNumeral text) : text ≠ [] := by
  cases h <;> simp

theorem isCalm_of_isNumeral (h : IsNumeral text) : ∀ c ∈ text, isCalm c = true := by
  have hdigit : ∀ {digits : List Char}, (∀ c ∈ digits, c.isDigit = true) →
      ∀ c ∈ digits, isCalm c = true :=
    fun h c hc => isCalm_of_isWord (isWord_of_isDigit (h c hc))
  intro c hc
  induction h with
  | fraction _ hwhole _ hfraction =>
    rcases List.mem_append.1 hc with hc | hc
    · exact hdigit hwhole c hc
    rcases List.mem_cons.1 hc with rfl | hc
    · decide
    · exact hdigit hfraction c hc
  | @exponent _ sign _ _ hsign _ hdigits ih =>
    rcases List.mem_append.1 hc with hc | hc
    · exact ih hc
    rcases List.mem_cons.1 hc with rfl | hc
    · decide
    rcases List.mem_append.1 hc with hc | hc
    · have hsigns : ∀ sign ∈ [[], ['+'], ['-']], ∀ c ∈ sign, isCalm c = true := by decide
      exact hsigns sign hsign c hc
    · exact hdigit hdigits c hc

theorem opening_ne_nil (function : Builtin) : opening function ≠ [] := by
  cases function <;> decide

theorem isCalm_opening (function : Builtin) : ∀ c ∈ opening function, isCalm c = true := by
  cases function <;> decide

theorem isCalm_symbol {used : List Char} (h : (used, written) ∈ rewrittenSymbols) :
    ∀ c ∈ written, isCalm c = true := by
  have htable : ∀ entry ∈ rewrittenSymbols, ∀ c ∈ entry.2, isCalm c = true := by decide
  exact htable _ h

/-- What is written but a literal and what stays as it is hides no text. -/
theorem Lowers.calm_or (h : Lowers literals text written rest) :
    (∀ c ∈ written, isCalm c = true) ∨ (∃ c, c ≠ '"' ∧ text = c :: rest ∧ written = [c]) ∨
      (∃ literal ∈ literals, written = quote literal) ∨
      written = text ∧ rest = [] ∧ text.head? = some '"' := by
  cases h with
  | kept hc => exact .inr (.inl ⟨_, hc, rfl, rfl⟩)
  | symbol h => exact .inl (isCalm_symbol h)
  | number => exact .inl (isCalm_of_isNumeral (splitNumber_spec _).2)
  | name hne hname =>
    exact .inl fun c hc => isCalm_of_isWord ((canonicalName_spec hne hname).2 c hc)
  | opening function => exact .inl (isCalm_opening function)
  | literal _ _ _ _ hmem => exact .inr (.inr (.inl ⟨_, hmem, rfl⟩))
  | unclosed => exact .inr (.inr (.inr ⟨rfl, rfl, rfl⟩))

/-- A step takes one character, or words, blanks, numbers and symbols, or all that follows a quote
which is never closed. -/
theorem Lowers.takesNo {d : Char} (h : Lowers literals text written rest)
    (hword : isAsciiWord d = false) (hblank : isBlank d = false)
    (hd : d ∉ "()+-.,=<>!".toList) :
    (∃ c, text = c :: rest ∧ c ≠ '"') ∨ TakesNo d text rest ∨
      written = text ∧ rest = [] ∧ text.head? = some '"' := by
  have hdigit : d.isDigit = false := by
    by_contra hdigit
    simp [isAsciiWord, Char.isAlphanum, hdigit] at hword
  cases h with
  | kept hc => exact .inl ⟨_, rfl, hc⟩
  | @symbol used _ _ h =>
    have htable : ∀ entry ∈ rewrittenSymbols, ∀ c ∈ entry.1, c ∈ "()+-.,=<>!".toList := by decide
    exact .inr (.inl ⟨used, rfl, fun hmem => hd (htable _ h d hmem)⟩)
  | number =>
    have hmark : d ∉ ['.', 'e', 'E', '+', '-'] := fun hmem => by
      have htable : ∀ c ∈ ['.', 'e', 'E', '+', '-'],
          isAsciiWord c = true ∨ c ∈ "()+-.,=<>!".toList := by decide
      exact (htable d hmem).elim (by simp [hword]) hd
    exact .inr (.inl (takesNo_splitNumber hdigit hmark _))
  | @name name _ _ hchars => exact .inr (.inl ⟨name, rfl, not_mem_of_eq_false hchars hword⟩)
  | @opening name blanks _ _ _ hchars hblanks =>
    have hopened : d ≠ '(' := fun he => hd (he ▸ by decide)
    refine .inr (.inl ⟨name ++ (blanks ++ ['(']), by simp, ?_⟩)
    simp [not_mem_of_eq_false hchars hword, not_mem_of_eq_false hblanks hblank, hopened]
  | @literal name blanks inside _ _ _ hchars hblanks hnumber =>
    have hopened : d ≠ '(' := fun he => hd (he ▸ by decide)
    have hclosed : d ≠ ')' := fun he => hd (he ▸ by decide)
    have hinside : d ∉ inside := fun hmem => by
      rcases hnumber d hmem with h | h | rfl
      · exact absurd h (by simp [hblank])
      · exact absurd h (by simp [hdigit])
      · exact hd (by decide)
    refine .inr (.inl ⟨name ++ (blanks ++ '(' :: (inside ++ [')'])), by simp, ?_⟩)
    simp [not_mem_of_eq_false hchars hword, not_mem_of_eq_false hblanks hblank, hopened, hclosed,
      hinside]
  | unclosed => exact .inr (.inr ⟨rfl, rfl, rfl⟩)

theorem Lowers.isUnquoted (h : Lowers literals text written rest) :
    IsUnquoted text rest ∨ written = text ∧ rest = [] ∧ text.head? = some '"' := by
  rcases h.takesNo (d := '"') (by decide) (by decide) (by decide) with ⟨c, rfl, hc⟩ | h | h
  · exact .inl ((TakesNo.refl _ _).cons hc)
  · exact .inl h
  · exact .inr h

/-- Without quotes in the formula there are none in the expression. -/
theorem no_quote_of_lowerFrom (h : lowerFrom [] frames cs = .ok written) (hcs : '"' ∉ cs) :
    '"' ∉ written := by
  generalize hliterals : ([] : List (List Char)) = literals at h
  fun_induction lowerFrom literals frames cs generalizing written with
  | case1 =>
    cases h
    exact hcs
  | case2 => cases h
  | case3 => cases h
  | case4 frames c cs s hstep rest hrest ih =>
    cases h
    subst hliterals
    have hlowers := lowers_of_step hstep
    have hsrest : '"' ∉ s.rest := by
      rcases hlowers.isUnquoted with ⟨used, hused, _⟩ | ⟨_, hnil, _⟩
      · rw [hused, List.mem_append, not_or] at hcs
        exact hcs.2
      · simp [hnil]
    rw [List.mem_append, not_or]
    refine ⟨?_, ih hsrest hrest⟩
    rcases hlowers.calm_or with hcalm | ⟨d, hd, _, hw⟩ | ⟨literal, hmem, _⟩ | ⟨_, _, hhead⟩
    · exact fun hq => absurd (hcalm _ hq) (by decide)
    · simp [hw, Ne.symm hd]
    · cases hmem
    · cases hhead
      exact absurd List.mem_cons_self hcs

theorem hides_of_head {d e : Char} (hd : xs.head? = some d) (he : ys.head? = some e)
    (hd' : d ≠ '\x7b') (he' : e ≠ '/' ∧ e ≠ '*') (h : hides c ys = true) :
    hides c xs = true := by
  simp only [hides, hd, he, Bool.or_eq_true, Bool.and_eq_true, beq_iff_eq, bne_iff_ne, ne_eq,
    Option.some.injEq] at h ⊢
  tauto

/-- What hides text before what a step writes does so before what it reads. -/
theorem Lowers.hides_of_hides (h : Lowers literals text written rest)
    (hc : hides c (written ++ ys) = true) : hides c text = true := by
  have hword : ∀ {name tail : List Char}, name ≠ [] → (∀ c ∈ name, isAsciiWord c = true) →
      ∃ d, (name ++ tail).head? = some d ∧ d ≠ '\x7b' := by
    intro name tail hne hname
    obtain ⟨d, name, rfl⟩ := List.exists_cons_of_ne_nil hne
    refine ⟨d, rfl, ?_⟩
    rintro rfl
    exact absurd (hname _ List.mem_cons_self) (by decide)
  have hcalm : written ≠ [] → (∀ d ∈ written, isCalm d = true) →
      (∃ d, text.head? = some d ∧ d ≠ '\x7b') → hides c text = true := by
    intro hne hwritten ⟨d, hd, hd'⟩
    obtain ⟨e, more, rfl⟩ := List.exists_cons_of_ne_nil hne
    have he := ne_of_isCalm (hwritten e List.mem_cons_self)
    exact hides_of_head hd rfl hd' ⟨he.2.2.2.2.1, he.2.2.2.2.2⟩ hc
  cases h with
  | kept => simpa [hides] using hc
  | symbol h =>
    have htable : ∀ entry ∈ rewrittenSymbols, entry.1 ≠ [] ∧ entry.2 ≠ [] ∧
        entry.1.head? ≠ some '\x7b' := by decide
    obtain ⟨hne, hne', hhead⟩ := htable _ h
    obtain ⟨d, used, rfl⟩ := List.exists_cons_of_ne_nil hne
    exact hcalm hne' (isCalm_symbol h) ⟨d, rfl, fun hd => hhead (by rw [hd]; rfl)⟩
  | @number d cs hbegins =>
    have hnumeral := (splitNumber_spec (d :: cs)).2
    refine hcalm hnumeral.ne_nil (isCalm_of_isNumeral hnumeral) ⟨d, rfl, ?_⟩
    rintro rfl
    simp [beginsNumber] at hbegins
  | name hne hname =>
    obtain ⟨hne', hwritten⟩ := canonicalName_spec hne hname
    exact hcalm hne' (fun d hd => isCalm_of_isWord (hwritten d hd)) (hword hne hname)
  | opening function hne hname =>
    exact hcalm (opening_ne_nil function) (isCalm_opening function) (hword hne hname)
  | literal hne hname =>
    obtain ⟨d, hd, hd'⟩ := hword hne hname
    exact hides_of_head hd rfl hd' (by decide) hc
  | unclosed => simpa [hides] using hc

theorem hides_of_lowerFrom (h : lowerFrom literals frames cs = .ok written)
    (hc : hides c written = true) : hides c cs = true := by
  cases cs with
  | nil =>
    rw [lowerFrom] at h
    cases h
    exact hc
  | cons d cs =>
    rw [lowerFrom] at h
    split at h
    · cases h
    · rename_i s hstep
      split at h <;> cases h
      exact (lowers_of_step hstep).hides_of_hides hc

/-- Where nothing but quotes hides text in a formula with one quote at most, so it is in the
expression. -/
theorem isPlain_of_lowerFrom (h : lowerFrom literals frames cs = .ok written)
    (hcount : cs.count '"' ≤ 1) (hcs : isPlain false .outside cs = true) :
    isPlain true .outside written = true := by
  fun_induction lowerFrom literals frames cs generalizing written with
  | case1 =>
    cases h
    rfl
  | case2 => cases h
  | case3 => cases h
  | case4 frames c cs s hstep rest hrest ih =>
    cases h
    have hlowers := lowers_of_step hstep
    have hplain : isPlain false .outside s.rest = true ∧ s.rest.count '"' ≤ 1 := by
      rcases hlowers.isUnquoted with ⟨used, hused, hquote⟩ | ⟨_, hnil, _⟩
      · rw [hused, List.count_append] at hcount
        rw [hused] at hcs
        have hplain := isPlain_of_append hcs
        rw [quotingAfter_outside hquote] at hplain
        exact ⟨hplain, by omega⟩
      · simp [hnil, isPlain]
    have hrest' := ih hrest hplain.2 hplain.1
    rcases hlowers.calm_or with hcalm | ⟨d, hd, htext, hw⟩ | ⟨literal, _, hw⟩ |
      ⟨hw, hnil, hhead⟩
    · rw [isPlain_append_of_isCalm hcalm, hrest']
    · rw [htext, isPlain, next_outside hd] at hcs
      have hhides : hides d rest = false := by
        by_contra hhides
        rw [hides_of_lowerFrom hrest (by simpa using hhides)] at hcs
        cases hcs
      simp [hw, isPlain, next_outside hd, hrest', hhides]
    · rw [hw, isPlain_quote, hrest']
    · rw [hnil, lowerFrom] at hrest
      cases hrest
      cases hhead
      rw [List.count_cons_self] at hcount
      have hquote : '"' ∉ cs := List.count_eq_zero.1 (by omega)
      rw [hw, List.append_nil, isPlain]
      exact isPlain_of_ne_outside (by decide) hquote

end

end Spreadsheet.Formula

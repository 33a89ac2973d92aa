import Spreadsheet.Proofs.Expression.Adjacency
import Spreadsheet.Proofs.Text.Runs
import Spreadsheet.Expression.Token

/-!
# The words that become names

Every name among the tokens of an expression is a word of its text outside the
quotes, or it touches a number in a way in which no expression can be read. This
needs that the reader of tokens and the quotes go together: either there are no
quotes, or nothing else in the text hides what is in it, be it a comment, a
template, a single character or a text between number signs.
-/
namespace Spreadsheet.Expression
open Text

/-- Whether a character begins something, other than a quoted text, whose characters do not stand
for themselves. -/
def hides (c : Char) (cs : List Char) : Bool :=
  c == backtick || c == '\'' || (c == '#' && cs.head? != some '\x7b') ||
    (c == '/' && (cs.head? == some '/' || cs.head? == some '*'))

/-- Whether nothing in a text hides what follows but its quotes. -/
def isPlain (escapes : Bool) (q : Quoting) : List Char → Bool
  | [] => true
  | c :: cs => (q != .outside || !hides c cs) && isPlain escapes (q.next escapes c) cs

/-- Whether quotes mean the same wherever they stand: there are none, or nothing else hides text. -/
def IsInStep (escapes : Bool) (cs : List Char) : Prop :=
  '"' ∉ cs ∨ isPlain escapes .outside cs = true

instance (escapes : Bool) (cs : List Char) : Decidable (IsInStep escapes cs) :=
  inferInstanceAs (Decidable (_ ∨ _))

/-! ## What is taken from a text -/

section
variable {cs text rest : List Char}

theorem suffix_of_readTemplate {isOpen : Bool} (h : readTemplate cs = some (text, isOpen, rest)) :
    rest <:+ cs ∧ (isOpen = true → rest.head? = some '\x7b') := by
  fun_induction readTemplate cs generalizing text with
  | case1 => cases h
  | case2 c cs hc =>
    cases h
    exact ⟨List.suffix_cons .., fun _ => hc.2⟩
  | case3 c cs _ _ ih => exact ⟨(ih h).1.trans (List.suffix_cons ..), (ih h).2⟩
  | case4 =>
    cases h
    exact ⟨List.nil_suffix, (absurd · Bool.false_ne_true)⟩
  | case5 after _ _ ih =>
    obtain ⟨⟨_, _, _⟩, hr, he⟩ := Option.map_eq_some_iff.1 h
    cases he
    exact ⟨(ih hr).1.trans ((List.suffix_cons ..).trans (List.suffix_cons ..)), (ih hr).2⟩
  | case6 =>
    cases h
    exact ⟨List.suffix_cons .., (absurd · Bool.false_ne_true)⟩
  | case7 c cs _ _ _ ih =>
    obtain ⟨⟨_, _, _⟩, hr, he⟩ := Option.map_eq_some_iff.1 h
    cases he
    exact ⟨(ih hr).1.trans (List.suffix_cons ..), (ih hr).2⟩

theorem dropLineEnd_suffix (cs : List Char) : dropLineEnd cs <:+ cs := by
  unfold dropLineEnd
  split
  · exact (List.suffix_cons ..).trans (List.suffix_cons ..)
  · exact List.suffix_cons ..
  · exact List.suffix_cons ..
  · exact List.suffix_refl _

theorem suffix_of_readRaw {marks : List Char} (h : readRaw marks cs = some (text, rest)) :
    rest <:+ cs := by
  induction cs generalizing text with
  | nil => cases h
  | cons c cs ih =>
    rw [readRaw] at h
    split at h
    · rename_i after hafter
      cases h
      split at hafter
      · rw [eq_of_dropLead hafter]
        exact (List.suffix_append ..).trans (List.suffix_cons ..)
      · cases hafter
    · obtain ⟨⟨_, _⟩, hr, he⟩ := Option.map_eq_some_iff.1 h
      cases he
      exact (ih hr).trans (List.suffix_cons ..)

/-- A comment ends with a slash unless it reaches to the end of the text. -/
theorem skipComment_used (depth : Nat) (cs : List Char) :
    ∃ used, cs = used ++ skipComment depth cs ∧
    (skipComment depth cs = [] ∨ ∀ w, endsInWord w used = false) := by
  fun_induction skipComment depth cs with
  | case1 rest => exact ⟨['*', '/'], rfl, .inr fun _ => rfl⟩
  | case2 rest depth ih =>
    obtain ⟨used, hcs, hend⟩ := ih
    exact ⟨'*' :: '/' :: used, by rw [List.cons_append, List.cons_append, ← hcs],
      hend.imp_right fun h _ => h _⟩
  | case3 depth rest ih =>
    obtain ⟨used, hcs, hend⟩ := ih
    exact ⟨'/' :: '*' :: used, by rw [List.cons_append, List.cons_append, ← hcs],
      hend.imp_right fun h _ => h _⟩
  | case4 depth c rest _ _ ih =>
    obtain ⟨used, hcs, hend⟩ := ih
    exact ⟨c :: used, by rw [List.cons_append, ← hcs], hend.imp_right fun h _ => h _⟩
  | case5 => exact ⟨[], rfl, .inl rfl⟩

/-- What was taken from the first text up to the second does not hold the character. -/
def TakesNo (d : Char) (cs rest : List Char) : Prop := ∃ used, cs = used ++ rest ∧ d ∉ used

abbrev IsUnquoted (cs rest : List Char) : Prop := TakesNo '"' cs rest

theorem TakesNo.refl (d : Char) (cs : List Char) : TakesNo d cs cs := ⟨[], rfl, List.not_mem_nil⟩

theorem TakesNo.cons {c d : Char} (h : TakesNo d cs rest) (hc : c ≠ d) :
    TakesNo d (c :: cs) rest := by
  obtain ⟨used, rfl, hused⟩ := h
  exact ⟨c :: used, rfl, by simp [hused, Ne.symm hc]⟩

/-- If anything was taken, it was so from the rest of the text. -/
theorem TakesNo.of_cons {c d : Char} (h : TakesNo d (c :: cs) rest)
    (hlength : rest.length < (c :: cs).length) : TakesNo d cs rest := by
  obtain ⟨used, htext, hused⟩ := h
  cases used with
  | nil =>
    rw [List.nil_append] at htext
    rw [htext] at hlength
    exact absurd hlength (Nat.lt_irrefl _)
  | cons e used =>
    rw [List.mem_cons, not_or] at hused
    exact ⟨used, (List.cons.inj htext).2, hused.2⟩

theorem TakesNo.trans {d : Char} {middle : List Char} (h : TakesNo d cs middle)
    (k : TakesNo d middle rest) : TakesNo d cs rest := by
  obtain ⟨used, rfl, hused⟩ := h
  obtain ⟨more, rfl, hmore⟩ := k
  exact ⟨used ++ more, (List.append_assoc ..).symm, by simp [hused, hmore]⟩

theorem takesNo_dropWhile {p : Char → Bool} {d : Char} (hp : p d = false) (cs : List Char) :
    TakesNo d cs (cs.dropWhile p) := by
  refine ⟨cs.takeWhile p, List.takeWhile_append_dropWhile.symm, fun h => ?_⟩
  rw [List.all_eq_true.1 List.all_takeWhile _ h] at hp
  cases hp

/-- What was taken from the first text up to the second has the given characters only. -/
def TakesOnly (p : Char → Bool) (cs rest : List Char) : Prop :=
  ∃ used, cs = used ++ rest ∧ ∀ c ∈ used, p c = true

theorem TakesOnly.refl (p : Char → Bool) (cs : List Char) : TakesOnly p cs cs :=
  ⟨[], rfl, List.forall_mem_nil _⟩

theorem TakesOnly.cons {p : Char → Bool} {c : Char} (h : TakesOnly p cs rest) (hc : p c = true) :
    TakesOnly p (c :: cs) rest := by
  obtain ⟨used, rfl, hused⟩ := h
  exact ⟨c :: used, rfl, List.forall_mem_cons.2 ⟨hc, hused⟩⟩

theorem TakesOnly.trans {p : Char → Bool} {middle : List Char} (h : TakesOnly p cs middle)
    (k : TakesOnly p middle rest) : TakesOnly p cs rest := by
  obtain ⟨used, rfl, hused⟩ := h
  obtain ⟨more, rfl, hmore⟩ := k
  exact ⟨used ++ more, (List.append_assoc ..).symm, List.forall_mem_append.2 ⟨hused, hmore⟩⟩

theorem TakesOnly.mono {p q : Char → Bool} (h : TakesOnly p cs rest)
    (hq : ∀ c, p c = true → q c = true) : TakesOnly q cs rest := by
  obtain ⟨used, hcs, hused⟩ := h
  exact ⟨used, hcs, fun c hc => hq c (hused c hc)⟩

theorem TakesOnly.takesNo {p : Char → Bool} {d : Char} (h : TakesOnly p cs rest)
    (hd : p d = false) : TakesNo d cs rest := by
  obtain ⟨used, hcs, hused⟩ := h
  refine ⟨used, hcs, fun hmem => ?_⟩
  rw [hused d hmem] at hd
  cases hd

theorem takesOnly_dropWhile (p : Char → Bool) (cs : List Char) : TakesOnly p cs (cs.dropWhile p) :=
  ⟨cs.takeWhile p, List.takeWhile_append_dropWhile.symm, List.all_eq_true.1 List.all_takeWhile⟩

/-- Whether a character may stand in a number after its first digit. -/
def isInNumeral (c : Char) : Bool := isAsciiWord c || ".+-".toList.contains c

theorem isAsciiWord_of_isDigit {c : Char} (h : c.isDigit = true) : isAsciiWord c = true := by
  simp [isAsciiWord, Char.isAlphanum, h]

theorem isInNumeral_of_isAsciiWord {c : Char} (h : isAsciiWord c = true) :
    isInNumeral c = true := by
  rw [isInNumeral, h, Bool.true_or]

theorem takesOnly_splitDigits (hasPoint hasExponent : Bool) (cs : List Char) :
    TakesOnly isInNumeral cs (splitDigits hasPoint hasExponent cs).2 := by
  have digit : ∀ {c : Char}, c.isDigit = true → isInNumeral c = true := fun h =>
    isInNumeral_of_isAsciiWord (isAsciiWord_of_isDigit h)
  fun_induction splitDigits hasPoint hasExponent cs with
  | case2 _ _ _ _ hd _ _ heq ih =>
    rw [heq] at ih
    exact ih.cons (digit hd)
  | case3 _ _ _ _ ih => exact ih.cons (by decide)
  | case5 _ _ _ _ _ hpoint _ _ _ _ _ heq ih =>
    rw [heq] at ih
    exact ih.cons (by rw [hpoint.1]; decide)
  | case7 _ _ _ _ _ hpoint _ _ _ _ _ _ heq ih =>
    rw [heq] at ih
    exact ih.cons (by rw [hpoint.1]; decide)
  | case9 _ _ _ _ _ _ hmark d _ hd _ _ heq ih =>
    rw [heq] at ih
    refine (ih.cons ?_).cons ?_
    · simp only [Bool.or_eq_true, decide_eq_true_eq] at hd
      rcases hd with (hd | rfl) | rfl
      · exact digit hd
      · decide
      · decide
    · rcases hmark.1 with rfl | rfl <;> decide
  | _ => exact .refl _ _

theorem takesOnly_of_splitBase {base : Nat} (h : splitBase? cs = some (base, rest)) :
    TakesOnly isInNumeral cs rest := by
  unfold splitBase? at h
  have hdrop : TakesOnly isInNumeral cs (cs.dropWhile (· == '_')) :=
    (takesOnly_dropWhile (· == '_') cs).mono fun c hc => by
      rw [beq_iff_eq.1 hc]
      decide
  split at h
  · cases h
  · rename_i c after hafter
    obtain ⟨b, hb, he⟩ := Option.map_eq_some_iff.1 h
    cases he
    have hc : isInNumeral c = true := by
      unfold base? at hb
      split at hb
      all_goals first | decide | cases hb
    rw [hafter] at hdrop
    exact hdrop.trans ((TakesOnly.refl _ _).cons hc)

theorem isAsciiWord_of_isNumeralChar {base : Nat} {c : Char} (h : isNumeralChar base c = true) :
    isAsciiWord c = true := by
  simp only [isNumeralChar, Radix.isDigitOf, Radix.isHexDigit, Bool.or_eq_true, Bool.and_eq_true,
    beq_iff_eq, decide_eq_true_eq] at h
  rcases h with rfl | ⟨(hd | hlower) | hupper, -⟩
  · decide
  · exact isAsciiWord_of_isDigit hd
  · refine isAsciiWord_of_isAlpha ?_
    have hc : c.isLower = true := by
      unfold Char.isLower
      simp only [Bool.and_eq_true, decide_eq_true_eq]
      exact ⟨hlower.1, Nat.le_trans hlower.2 (by decide)⟩
    unfold Char.isAlpha
    rw [hc, Bool.or_true]
  · refine isAsciiWord_of_isAlpha ?_
    have hc : c.isUpper = true := by
      unfold Char.isUpper
      simp only [decide_eq_true_eq]
      exact ⟨hupper.1, Nat.le_trans hupper.2 (by decide)⟩
    unfold Char.isAlpha
    rw [hc, Bool.true_or]

theorem takesOnly_of_readNumeral {isNegative : Bool} {c : Char} {d : Datum}
    (h : readNumeral isNegative c cs = some (d, rest)) : TakesOnly isInNumeral cs rest := by
  unfold readNumeral at h
  split at h
  · rename_i base after hbase
    split at h
    · cases h
    · obtain ⟨_, _, he⟩ := Option.map_eq_some_iff.1 h
      cases he
      split at hbase
      · exact (takesOnly_of_splitBase hbase).trans ((takesOnly_dropWhile _ _).mono fun _ hc =>
          isInNumeral_of_isAsciiWord (isAsciiWord_of_isNumeralChar hc))
      · cases hbase
  · obtain ⟨_, _, he⟩ := Option.map_eq_some_iff.1 h
    cases he
    exact takesOnly_splitDigits ..

/-! ## Quoted texts -/

theorem used_dropBlanks (n : Nat) (cs : List Char) : ∃ used, cs = used ++ dropBlanks n cs ∧
    quotingAfter true .inside used = .inside := by
  fun_induction dropBlanks n cs with
  | case1 n c cs hc ih =>
    obtain ⟨used, hcs, hused⟩ := ih
    refine ⟨c :: used, by rw [List.cons_append, ← hcs], ?_⟩
    have hne : c ≠ '"' ∧ c ≠ '\\' := by
      constructor <;> rintro rfl <;> exact absurd hc (by decide)
    simpa [Quoting.next, hne] using hused
  | case2 => exact ⟨[], rfl, rfl⟩
  | case3 => exact ⟨[], rfl, rfl⟩

theorem quotingAfter_of_isHexDigit (h : ∀ c ∈ cs, Radix.isHexDigit c = true) :
    quotingAfter true .inside cs = .inside := by
  induction cs with
  | nil => rfl
  | cons c cs ih =>
    rw [List.forall_mem_cons] at h
    have hne : c ≠ '"' ∧ c ≠ '\\' := by
      constructor <;> rintro rfl <;> exact absurd h.1 (by decide)
    simpa [Quoting.next, hne] using ih h.2

theorem used_of_character {size : Nat} {c : Char} (h : Radix.character? size cs = some (c, rest)) :
    ∃ used, cs = used ++ rest ∧ quotingAfter true .inside used = .inside := by
  dsimp only [Radix.character?] at h
  split at h
  · rename_i hd
    cases h
    simp only [Bool.and_eq_true, List.all_eq_true] at hd
    exact ⟨cs.take size, (List.take_append_drop ..).symm, quotingAfter_of_isHexDigit hd.1.2⟩
  · cases h

/-- An escape ends within the quotes. -/
theorem used_of_splitEscape {terminator : Char} {margin : Option Nat}
    (h : splitEscape? terminator margin cs = some (text, rest)) :
    ∃ used, cs = used ++ rest ∧ quotingAfter true .escaped used = .inside := by
  unfold splitEscape? at h
  split at h
  case h_7 => cases h
  case h_4 cs =>
    obtain ⟨n, _, he⟩ := Option.map_eq_some_iff.1 h
    cases he
    obtain ⟨used, hcs, hused⟩ := used_dropBlanks n cs
    exact ⟨'\r' :: '\n' :: used, by rw [List.cons_append, List.cons_append, ← hcs], hused⟩
  case h_5 cs =>
    obtain ⟨n, _, he⟩ := Option.map_eq_some_iff.1 h
    cases he
    obtain ⟨used, hcs, hused⟩ := used_dropBlanks n cs
    exact ⟨'\n' :: used, by rw [List.cons_append, ← hcs], hused⟩
  case h_6 c cs _ _ _ _ _ =>
    obtain ⟨_, _, he⟩ := Option.map_eq_some_iff.1 h
    cases he
    exact ⟨[c], rfl, rfl⟩
  all_goals
    obtain ⟨⟨_, _⟩, hr, he⟩ := Option.map_eq_some_iff.1 h
    cases he
    obtain ⟨used, rfl, hused⟩ := used_of_character hr
    exact ⟨_ :: used, rfl, hused⟩

theorem suffix_of_readQuoted {terminator : Char} {margin : Option Nat}
    (h : readQuoted terminator margin cs = some (text, rest)) : rest <:+ cs := by
  fun_induction readQuoted terminator margin cs generalizing text with
  | case1 => cases h
  | case2 => cases h
  | case3 => cases h
  | case4 _ c after hescape _ ih =>
    obtain ⟨⟨_, _⟩, hr, he⟩ := Option.map_eq_some_iff.1 h
    cases he
    obtain ⟨used, rfl, _⟩ := used_of_splitEscape hescape
    exact (ih hr).trans ((List.suffix_append ..).trans (List.suffix_cons ..))
  | case5 =>
    cases h
    exact List.nil_suffix
  | case6 after _ _ ih =>
    obtain ⟨⟨_, _⟩, hr, he⟩ := Option.map_eq_some_iff.1 h
    cases he
    exact (ih hr).trans ((List.suffix_cons ..).trans (List.suffix_cons ..))
  | case7 =>
    cases h
    exact List.suffix_cons ..
  | case8 c after _ _ _ ih =>
    obtain ⟨⟨_, _⟩, hr, he⟩ := Option.map_eq_some_iff.1 h
    cases he
    exact (ih hr).trans (List.suffix_cons ..)

/-- A quoted text ends where its quotes do. -/
theorem used_of_readQuoted {margin : Option Nat}
    (h : readQuoted '"' margin cs = some (text, rest)) :
    ∃ used, cs = used ++ rest ∧ quotingAfter true .inside used = .outside := by
  generalize hterm : '"' = terminator at h
  fun_induction readQuoted terminator margin cs generalizing text with
  | case1 => cases h
  | case2 => cases h
  | case3 => cases h
  | case4 _ middle after hescape _ ih =>
    obtain ⟨⟨_, _⟩, hr, he⟩ := Option.map_eq_some_iff.1 h
    cases he
    obtain ⟨used, rfl, hused⟩ := used_of_splitEscape hescape
    obtain ⟨more, rfl, hmore⟩ := ih hr
    refine ⟨'\\' :: (used ++ more), by simp, ?_⟩
    rw [quotingAfter_cons, quotingAfter_append]
    exact (congrArg (quotingAfter true · more) hused).trans hmore
  | case5 =>
    cases h
    exact ⟨[_], rfl, by rw [← hterm]; rfl⟩
  | case6 after _ _ ih =>
    obtain ⟨⟨_, _⟩, hr, he⟩ := Option.map_eq_some_iff.1 h
    cases he
    obtain ⟨used, rfl, hused⟩ := ih hr
    exact ⟨_ :: _ :: used, rfl, by rw [← hterm]; exact hused⟩
  | case7 =>
    cases h
    exact ⟨[_], rfl, by rw [← hterm]; rfl⟩
  | case8 c after _ hne₁ hne₂ ih =>
    obtain ⟨⟨_, _⟩, hr, he⟩ := Option.map_eq_some_iff.1 h
    cases he
    obtain ⟨used, rfl, hused⟩ := ih hr
    refine ⟨c :: used, rfl, ?_⟩
    have hq : c ≠ '"' := hterm ▸ hne₂
    simpa [Quoting.next, hq, hne₁] using hused

end

/-! ## One step -/

/-- What one step of the reading of tokens takes and finds: a word, or something else. After
something else a word may follow only if it ends in no word character, or if it is a literal. -/
inductive Scanned (p : Place) (c : Char) (cs : List Char) : List Token → List Char → Prop
  | word {token : Token} : (c.isAlpha || c == '_') = true →
      wordToken? (c :: cs.takeWhile isAsciiWord) = some token →
      Scanned p c cs [token] (cs.dropWhile isAsciiWord)
  | other {found : List Token} {used rest : List Char} : cs = used ++ rest →
      (isWord c = true → isAsciiWord c = true) → (∀ t ∈ found, t.isName = false) →
      (p.depths = [] → hides c cs = false → ∀ t ∈ found, t.depths [] = []) →
      ('"' ∉ c :: cs ∨ p.depths = [] ∧ hides c cs = false →
        quotingAfter true .outside (c :: used) = .outside) →
      (endsInWord (isWord c) used = false ∨ (∀ d ∈ rest.head?, isAsciiWord d = false) ∨
        ∃ v, found.getLast? = some (.literal v)) →
      Scanned p c cs found rest

section
variable {p : Place} {c : Char} {cs rest : List Char} {found : List Token}

theorem isWord_of_isAsciiBlank (h : isAsciiBlank c = true) : isWord c = false := by
  simp only [isAsciiBlank, Bool.or_eq_true, beq_iff_eq] at h
  rcases h with (((h | h) | h) | h) | h <;>
    rw [← Char.ofNat_toNat c, h] <;> decide

/-- Symbols hold no word characters and no quotes, and stand for no names. -/
theorem symbols_spec : ∀ entry ∈ symbols, entry.1.toList ≠ [] ∧
    (∀ d ∈ entry.1.toList, isWord d = false ∧ d ≠ '"') ∧
      ∀ t ∈ entry.2, t.isName = false ∧ t.depths [] = [] := by
  decide

theorem scanned_of_unquoted {v : Datum} (h : IsUnquoted cs rest) (hc : c ≠ '"')
    (hword : isWord c = true → isAsciiWord c = true) : Scanned p c cs [.literal v] rest := by
  obtain ⟨used, hcs, hused⟩ := h
  refine .other hcs hword (by simp [Token.isName]) (by simp [Token.depths]) (fun _ => ?_)
    (.inr (.inr ⟨v, rfl⟩))
  exact quotingAfter_outside (by simp [hused, Ne.symm hc])

/-- What hides other text is read only where there are no quotes. -/
theorem scanned_of_suffix (h : rest <:+ cs) (hc : hides c cs = true ∨ p.depths ≠ [])
    (hword : isWord c = true → isAsciiWord c = true) (hfound : ∀ t ∈ found, t.isName = false)
    (hend : (∀ d ∈ rest.head?, isAsciiWord d = false) ∨
      ∃ v, found.getLast? = some (.literal v)) : Scanned p c cs found rest := by
  obtain ⟨used, hcs⟩ := h
  have hno : p.depths = [] → hides c cs = true := fun hd => hc.resolve_right fun hne => hne hd
  refine .other hcs.symm hword hfound (fun hd hh => ?_) (fun hstep => ?_) (.inr hend)
  · rw [hno hd] at hh
    cases hh
  rcases hstep with hq | ⟨hd, hh⟩
  · refine quotingAfter_outside fun hmem => hq ?_
    rw [← hcs]
    exact List.cons_subset_cons c (List.subset_append_left ..) hmem
  · rw [hno hd] at hh
    cases hh

theorem scanned_of_scanNumber {isNegative : Bool} {d : Char}
    (h : scanNumber isNegative d cs = some (found, rest)) :
    IsUnquoted cs rest ∧ ∃ v, found = [.literal v] := by
  obtain ⟨⟨v, _⟩, hr, he⟩ := Option.map_eq_some_iff.1 h
  cases he
  exact ⟨(takesOnly_of_readNumeral hr).takesNo (by decide), v, rfl⟩

theorem scanned_of_scanSymbol (h : scanSymbol c cs = some (found, rest)) :
    Scanned p c cs found rest := by
  unfold scanSymbol at h
  split at h
  · rename_i after hafter
    cases h
    split at hafter
    · rename_i hc
      subst hc
      simp only [beginsWithin, Option.bind_eq_bind, Option.bind_eq_some_iff] at hafter
      obtain ⟨after, hlead, hrest⟩ := hafter
      split at hrest <;> cases hrest
      rename_i hhead
      refine .other (eq_of_dropLead hlead) (by decide) (by simp [Token.isName])
        (by simp [Token.depths]) (fun _ => rfl) (.inr (.inl fun d hd => ?_))
      rw [Option.mem_def.1 hd] at hhead
      simpa using hhead
    · cases hafter
  · split at h
    · rename_i token after hsymbol
      cases h
      obtain ⟨⟨text, t⟩, hmem, hfound⟩ := List.exists_of_findSome?_eq_some hsymbol
      obtain ⟨_, hlead, he⟩ := Option.map_eq_some_iff.1 hfound
      cases he
      obtain ⟨hne, hchars, htoken⟩ := symbols_spec _ hmem
      have hcs := eq_of_dropLead hlead
      dsimp only at hne hchars htoken hcs
      obtain ⟨x, used, htext⟩ := List.exists_cons_of_ne_nil hne
      rw [htext] at hchars hcs
      cases hcs
      obtain ⟨hx, hused⟩ := List.forall_mem_cons.1 hchars
      refine .other rfl (fun hw => ?_) (by simpa using (htoken token rfl).1)
        (fun _ _ => by simpa using (htoken token rfl).2) (fun _ => ?_) (.inl ?_)
      · rw [hx.1] at hw
        cases hw
      · refine quotingAfter_outside fun hq => ?_
        rcases List.mem_cons.1 hq with hq | hq
        · exact hx.2 hq.symm
        · exact (hused _ hq).2 rfl
      · exact endsInWord_eq_false hx.1 fun d hd => (hused d hd).1
    · cases h

theorem scanned_of_scanMinus (h : scanMinus cs = some (found, rest)) :
    Scanned p '-' cs found rest := by
  unfold scanMinus at h
  split at h
  · exact scanned_of_scanSymbol h
  · split at h
    · rename_i d tail hd
      obtain ⟨hused, v, rfl⟩ := scanned_of_scanNumber h
      exact scanned_of_unquoted (hused.cons (ne_quote_of_isWord (isWord_of_isDigit hd)))
        (by decide) (by decide)
    · exact scanned_of_scanSymbol h

theorem scanned_of_scanTemplate {text : List Char} (htext : text <:+ cs)
    (hc : hides c cs = true ∨ p.depths ≠ []) (hword : isWord c = true → isAsciiWord c = true)
    (h : scanTemplate text = some (found, rest)) (lead : List Token)
    (hlead : ∀ t ∈ lead, t.isName = false) : Scanned p c cs (lead ++ found) rest := by
  obtain ⟨⟨part, isOpen, _⟩, hr, he⟩ := Option.map_eq_some_iff.1 h
  cases he
  obtain ⟨hsuffix, hopen⟩ := suffix_of_readTemplate hr
  refine scanned_of_suffix (hsuffix.trans htext) hc hword ?_ ?_
  · intro t ht
    rcases List.mem_append.1 ht with ht | ht
    · exact hlead t ht
    · rw [List.mem_singleton.1 ht]
      split <;> rfl
  · cases isOpen with
    | true =>
      refine .inl fun d hd => ?_
      rw [hopen rfl] at hd
      cases hd
      rfl
    | false => exact .inr ⟨.text (String.ofList part), by simp [textToken]⟩

theorem scanned_of_isAsciiBlank (hblank : isAsciiBlank c = true) : Scanned p c cs [] cs := by
  have hword := isWord_of_isAsciiBlank hblank
  have hquote : c ≠ '"' := by
    rintro rfl
    exact absurd hblank (by decide)
  refine .other (List.nil_append _).symm (fun hw => ?_) (by simp) (by simp)
    (fun _ => quotingAfter_outside (by simpa using Ne.symm hquote)) (.inl hword)
  rw [hword] at hw
  cases hw

theorem scanned_of_readQuoted {text : List Char} {margin : Option Nat}
    (h : readQuoted '"' margin cs = some (text, rest)) :
    Scanned p '"' cs [textToken text] rest := by
  obtain ⟨used, hcs, hused⟩ := used_of_readQuoted h
  exact .other hcs (by decide) (by simp [textToken, Token.isName])
    (by simp [textToken, Token.depths]) (fun _ => hused) (.inr (.inr ⟨_, rfl⟩))

theorem scanned_of_scanGlyph (h : scanGlyph cs = some (found, rest)) :
    Scanned p '\'' cs found rest := by
  unfold scanGlyph at h
  split at h
  · cases h
  · obtain ⟨⟨text, _⟩, hr, he⟩ := Option.bind_eq_some_iff.1 h
    split at he <;> cases he
    exact scanned_of_suffix (suffix_of_readQuoted hr) (.inl rfl) (by decide)
      (by simp [Token.isName]) (.inr ⟨_, rfl⟩)

theorem scanned_of_scanRaw (hhides : hides '#' cs = true)
    (h : scanRaw cs = some (found, rest)) : Scanned p '#' cs found rest := by
  unfold scanRaw at h
  split at h
  · rename_i after hafter
    obtain ⟨⟨text, _⟩, hr, he⟩ := Option.map_eq_some_iff.1 h
    cases he
    have hsuffix : after <:+ cs := by
      refine (List.suffix_cons '"' after).trans ?_
      rw [← hafter]
      exact List.dropWhile_suffix _
    exact scanned_of_suffix ((suffix_of_readRaw hr).trans hsuffix) (.inl hhides) (by decide)
      (by simp [textToken, Token.isName]) (.inr ⟨_, rfl⟩)
  · cases h

theorem scanned_lineComment (hhead : cs.head? = some '/') :
    Scanned p '/' cs [] (cs.dropWhile fun c => c != '\n' && c != '\r') := by
  refine scanned_of_suffix (List.dropWhile_suffix _) (.inl (by simp [hides, hhead])) (by decide)
    (by simp) (.inl fun d hd => ?_)
  have hline := List.head?_dropWhile_not (fun c => c != '\n' && c != '\r') cs
  rw [Option.mem_def.1 hd] at hline
  have hd : d = '\n' ∨ d = '\r' := by
    by_cases h : d = '\n' <;> simp_all
  rcases hd with rfl | rfl <;> decide

theorem scanned_blockComment (tail : List Char) :
    Scanned p '/' ('*' :: tail) [] (skipComment 0 tail) := by
  obtain ⟨used, hcs, hend⟩ := skipComment_used 0 tail
  rcases hend with hend | hend
  · rw [hend]
    exact scanned_of_suffix List.nil_suffix (.inl rfl) (by decide) (by simp) (.inl (by simp))
  · refine .other (show '*' :: tail = '*' :: used ++ _ from congrArg _ hcs) (by decide) (by simp)
      (by simp) (fun hstep => ?_) (.inl (hend _))
    rcases hstep with hq | ⟨_, hh⟩
    · refine quotingAfter_outside fun hmem => hq ?_
      rw [hcs, ← List.cons_append, ← List.cons_append]
      exact List.mem_append_left _ hmem
    · cases hh

/-- The cases are those of `scanOne`, which tells what to read by the first character. -/
theorem scanned_of_scanOne (h : scanOne p c cs = some (found, rest)) :
    Scanned p c cs found rest := by
  unfold scanOne at h
  split at h
  · rename_i hblank
    cases h
    exact scanned_of_isAsciiBlank hblank
  split at h
  · rename_i hdigit
    have hword : isAsciiWord c = true := by simp [isAsciiWord, Char.isAlphanum, hdigit]
    obtain ⟨hused, v, rfl⟩ := scanned_of_scanNumber h
    exact scanned_of_unquoted hused (ne_quote_of_isWord (isWord_of_isDigit hdigit)) fun _ => hword
  split at h
  · rename_i halpha
    obtain ⟨token, htoken, he⟩ := Option.map_eq_some_iff.1 h
    cases he
    exact .word halpha htoken
  split at h
  · rename_i hq
    subst hq
    obtain ⟨⟨text, _⟩, hr, he⟩ := Option.map_eq_some_iff.1 h
    cases he
    exact scanned_of_readQuoted hr
  split at h
  · rename_i hc
    subst hc
    exact scanned_of_scanTemplate (dropLineEnd_suffix cs) (.inl rfl) (by decide) h [] (by simp)
  split at h
  · rename_i hc
    subst hc
    exact scanned_of_scanGlyph h
  split at h
  · rename_i hc
    obtain ⟨rfl, hhead⟩ := hc
    exact scanned_of_scanRaw (by simp [hides, hhead]) h
  split at h
  · rename_i hc
    obtain ⟨rfl, hhead⟩ := hc
    cases h
    exact scanned_lineComment hhead
  split at h
  · rename_i hc
    obtain ⟨rfl, hhead⟩ := hc
    cases h
    obtain ⟨tail, rfl⟩ := List.head?_eq_some_iff.1 hhead
    exact scanned_blockComment tail
  split at h
  · rename_i hc
    obtain ⟨rfl, _⟩ := hc
    exact scanned_of_scanMinus h
  · exact scanned_of_scanSymbol h

/-- Every step of the reading takes a word or something else. -/
theorem scanned_of_scan (h : scan p c cs = some (found, rest)) : Scanned p c cs found rest := by
  unfold scan at h
  split at h
  · rename_i hc
    obtain ⟨⟨_, _⟩, hr, he⟩ := Option.map_eq_some_iff.1 h
    cases he
    have hdepths : p.depths ≠ [] := by
      intro hd
      simp [Place.endsPart, hd] at hc
    refine scanned_of_scanTemplate (List.suffix_refl _) (.inr hdepths) ?_ hr [.closed .curly] ?_
    · rw [hc.1]
      decide
    · simp [Token.isName]
  · exact scanned_of_scanOne h

theorem isAsciiWord_of_begins (h : (c.isAlpha || c == '_') = true) : isAsciiWord c = true := by
  rcases (Bool.or_eq_true ..).mp h with h | h
  · exact isAsciiWord_of_isAlpha h
  · rw [beq_iff_eq.1 h]
    rfl

theorem Scanned.isAsciiWord (h : Scanned p c cs found rest) (hc : isWord c = true) :
    isAsciiWord c = true := by
  cases h with
  | word halpha _ => exact isAsciiWord_of_begins halpha
  | other _ hword => exact hword hc

theorem isPlain_of_append {escapes : Bool} {q : Quoting} {xs ys : List Char}
    (h : isPlain escapes q (xs ++ ys) = true) :
    isPlain escapes (quotingAfter escapes q xs) ys = true := by
  induction xs generalizing q with
  | nil => exact h
  | cons x xs ih =>
    rw [List.cons_append, isPlain, Bool.and_eq_true] at h
    exact ih h.2

theorem depths_of_wordToken {word : List Char} {token : Token}
    (h : wordToken? word = some token) : token.depths [] = [] := by
  unfold wordToken? at h
  split at h
  · cases h
    rfl
  · cases h
    rfl
  · cases h
    rfl
  · cases h
    rfl
  · cases h
    rfl
  · split at h
    · cases h
      rfl
    · split at h <;> cases h
      rfl

theorem eq_of_wordToken {word : List Char} {n : String} (h : wordToken? word = some (.name n)) :
    n = String.ofList word := by
  unfold wordToken? at h
  split at h
  case h_6 =>
    split at h
    · cases h
    · split at h <;> cases h
      rfl
  all_goals cases h

/-! ## The names among the tokens -/

/-- Whether a text goes on with a point and a digit. -/
def beginsFraction : List Char → Bool
  | '.' :: d :: _ => d.isDigit
  | _ => false

/-- A point before a digit is a token of its own, and so is the number after it. -/
theorem tokensFrom_fraction {d : Char} {ts : List Token} (hd : d.isDigit = true)
    (h : tokensFrom p ('.' :: d :: cs) = some ts) :
    ∃ v others, ts = .point false :: .literal v :: others := by
  have hdot : ∀ q : Place, scan q '.' (d :: cs) = some ([.point false], d :: cs) := by
    intro q
    have hne : d ≠ '.' := by
      rintro rfl
      exact absurd hd (by decide)
    have hsymbol : splitSymbol? ('.' :: d :: cs) = some (some (.point false), d :: cs) := by
      simp [splitSymbol?, symbols, List.findSome?, dropLead?, hne.symm]
    simp [scan, scanOne, scanSymbol, isAsciiBlank, backtick, hsymbol]
  rw [tokensFrom] at h
  split at h
  · cases h
  · rename_i found rest hscan
    rw [hdot] at hscan
    cases hscan
    obtain ⟨ts', hts', rfl⟩ := Option.map_eq_some_iff.1 h
    rw [tokensFrom] at hts'
    split at hts'
    · cases hts'
    · rename_i found rest hscan
      obtain ⟨others, _, rfl⟩ := Option.map_eq_some_iff.1 hts'
      have hword := isWord_of_isDigit hd
      have hbracket : d ≠ '\x7d' := by
        rintro rfl
        exact absurd hd (by decide)
      have hblank : isAsciiBlank d = false :=
        eq_false_of_ne_true (mt isWord_of_isAsciiBlank (ne_false_of_eq_true hword))
      have hnumber : scanNumber false d cs = some (found, rest) := by
        simpa [scan, scanOne, hbracket, hblank, hd] using hscan
      obtain ⟨_, v, rfl⟩ := scanned_of_scanNumber hnumber
      exact ⟨v, others, rfl⟩

theorem foldl_depths {ts : List Token} (h : ∀ t ∈ ts, t.depths [] = []) :
    ts.foldl (fun around token => token.depths around) [] = [] := by
  induction ts with
  | nil => rfl
  | cons t ts ih =>
    rw [List.forall_mem_cons] at h
    rw [List.foldl_cons, h.1, ih h.2]

/-- After a step the quotes and the reading still go together. -/
theorem Scanned.inStep (h : Scanned p c cs found rest)
    (hstep : '"' ∉ c :: cs ∨ p.depths = [] ∧ isPlain true .outside (c :: cs) = true) :
    ∃ used, cs = used ++ rest ∧ quotingAfter true .outside (c :: used) = .outside ∧
      ('"' ∉ rest ∨ (p.after c found rest).depths = [] ∧ isPlain true .outside rest = true) ∧
      (endsInWord (isWord c) used = false ∨ (∀ d ∈ rest.head?, Text.isAsciiWord d = false) ∨
        ∃ v, found.getLast? = some (.literal v)) := by
  have hhides : p.depths = [] ∧ isPlain true .outside (c :: cs) = true →
      hides c cs = false := by
    rintro ⟨_, hp⟩
    rw [isPlain, Bool.and_eq_true] at hp
    simpa using hp.1
  -- What remains to be shown once it is known what was taken.
  have hrest : ∀ {used}, cs = used ++ rest →
      quotingAfter true .outside (c :: used) = .outside →
      (p.depths = [] → hides c cs = false → ∀ t ∈ found, t.depths [] = []) →
      '"' ∉ rest ∨ (p.after c found rest).depths = [] ∧ isPlain true .outside rest = true := by
    intro used hcs hq hd
    rcases hstep with hno | hplain
    · refine .inl fun hmem => hno (List.mem_cons_of_mem _ ?_)
      rw [hcs]
      exact List.mem_append_right _ hmem
    · refine .inr ⟨?_, ?_⟩
      · rw [Place.after, hplain.1]
        exact foldl_depths (hd hplain.1 (hhides hplain))
      · have hplain := hplain.2
        rw [hcs, ← List.cons_append] at hplain
        rw [← hq]
        exact isPlain_of_append hplain
  cases h with
  | word halpha htoken =>
    have hcs : cs = cs.takeWhile Text.isAsciiWord ++ cs.dropWhile Text.isAsciiWord :=
      List.takeWhile_append_dropWhile.symm
    have hc : isWord c = true := isWord_of_isAsciiWord (isAsciiWord_of_begins halpha)
    have hq : quotingAfter true .outside (c :: cs.takeWhile Text.isAsciiWord) = .outside := by
      refine quotingAfter_outside fun hmem => ?_
      rcases List.mem_cons.1 hmem with rfl | hmem
      · exact absurd hc (by decide)
      · exact absurd (List.all_eq_true.1 List.all_takeWhile _ hmem) (by decide)
    refine ⟨_, hcs, hq, hrest hcs hq fun _ _ => ?_, .inr (.inl fun d hd => ?_)⟩
    · simpa using depths_of_wordToken htoken
    · have := List.head?_dropWhile_not Text.isAsciiWord cs
      rw [Option.mem_def.1 hd] at this
      simpa using this
  | other hused hascii hfound hdepths hquoting hend =>
    have hq := hquoting (hstep.imp_right fun hp => ⟨hp.1, hhides hp⟩)
    exact ⟨_, hused, hq, hrest hused hq hdepths, hend⟩

section
variable {afterWord : Bool} {ts : List Token}

theorem chain_after (c : Char) (rest : List Char)
    (hchain : (p.previous.toList ++ (found ++ ts)).IsChain Token.MayPrecede) :
    ((p.after c found rest).previous.toList ++ ts).IsChain Token.MayPrecede := by
  unfold Place.after
  dsimp only
  rcases List.eq_nil_or_concat found with rfl | ⟨before, last, rfl⟩
  · exact hchain
  · rw [List.concat_eq_append, List.append_assoc, ← List.append_assoc] at hchain
    simpa using (List.isChain_append.1 hchain).2.1

/-- The head of a text that can be read is an ASCII character if it belongs to a word. -/
theorem isWord_of_tokensFrom (h : tokensFrom p cs = some ts)
    (hcs : ∀ d ∈ cs.head?, Text.isAsciiWord d = false) : ∀ d ∈ cs.head?, isWord d = false := by
  intro d hd
  obtain ⟨cs, rfl⟩ := List.head?_eq_some_iff.1 hd
  rw [tokensFrom] at h
  split at h
  · cases h
  · rename_i hscan
    by_contra hword
    have := (scanned_of_scan hscan).isAsciiWord (by simpa using hword)
    rw [hcs d rfl] at this
    cases this

theorem beginsFraction_of_tokensFrom (h : tokensFrom p cs = some ts)
    (hchain : ts.IsChain Token.MayPrecede) : beginsFraction cs = false := by
  unfold beginsFraction
  split
  · rename_i d cs
    by_contra hd
    obtain ⟨v, others, rfl⟩ := tokensFrom_fraction (by simpa using hd) h
    have := (List.isChain_cons_cons.1 hchain).1.2 rfl
    cases this
  · rfl

/-- A name that can belong to a tree is a word outside the quotes. -/
theorem mem_runs_of_tokensFrom {n : String} (h : tokensFrom p cs = some ts)
    (hstep : '"' ∉ cs ∨ p.depths = [] ∧ isPlain true .outside cs = true)
    (hword : afterWord = false ∨ (∀ d ∈ cs.head?, Text.isAsciiWord d = false) ∨
      ∃ v, p.previous = some (.literal v))
    (hchain : (p.previous.toList ++ ts).IsChain Token.MayPrecede) (hn : .name n ∈ ts)
    (hletter : ∀ d ∈ n.toList.head?, d.isAlpha = true) :
    ∃ rest, (n.toList, rest) ∈ runs true afterWord .outside cs ∧ beginsFraction rest = false := by
  fun_induction tokensFrom p cs generalizing ts afterWord with
  | case1 p =>
    cases h
    cases hn
  | case2 => cases h
  | case3 p c cs found rest hscan ih =>
    obtain ⟨others, hothers, rfl⟩ := Option.map_eq_some_iff.1 h
    have hscanned := scanned_of_scan hscan
    obtain ⟨used, hcs, hq, hstep', hend⟩ := hscanned.inStep hstep
    rcases List.mem_append.1 hn with hn | hn
    · cases hscanned with
      | other _ _ hfound => exact absurd (hfound _ hn) (by simp [Token.isName])
      | word halpha htoken =>
        cases List.mem_singleton.1 hn
        have hn := eq_of_wordToken htoken
        subst hn
        rw [String.toList_ofList] at hletter ⊢
        have hc : c.isAlpha = true := hletter c rfl
        -- A number before it would touch the name.
        have hafter : afterWord = false := by
          rcases hword with h | h | ⟨v, hv⟩
          · exact h
          · have := h c rfl
            rw [isAsciiWord_of_isAlpha hc] at this
            cases this
          · rw [hv] at hchain
            have := (List.isChain_cons_cons.1 hchain).1.1 rfl
            cases this
        have hnext := isWord_of_tokensFrom hothers fun d hd => by
          have := List.head?_dropWhile_not Text.isAsciiWord cs
          rw [Option.mem_def.1 hd] at this
          simpa using this
        obtain ⟨htake, hdrop⟩ := takeWhile_isWord (fun _ => isWord_of_isAsciiWord) hnext
        refine ⟨cs.dropWhile Text.isAsciiWord, ?_, beginsFraction_of_tokensFrom hothers
          (List.isChain_append.1 (List.isChain_append.1 hchain).2.1).2.1⟩
        rw [runs, if_pos ⟨rfl, hafter, hc⟩, htake, hdrop]
        exact List.mem_cons_self
    · obtain ⟨after, hafter, hfraction⟩ := @ih (endsInWord (isWord c) used) others hothers hstep'
        (hend.imp_right fun h => h.imp_right (Exists.imp fun v hv => by simp [Place.after, hv]))
        (chain_after c rest hchain) hn
      refine ⟨after, ?_, hfraction⟩
      have hsub := runs_subset_append true afterWord .outside (c :: used) rest
      rw [hq] at hsub
      rw [hcs]
      exact hsub hafter

end

end

/-- The names among the tokens of an expression that can be read are words of its text. -/
theorem mem_runs_of_tokens {cs : List Char} {ts : List Token} {n : String}
    (h : tokens? cs = some ts) (hstep : IsInStep true cs)
    (hchain : ts.IsChain Token.MayPrecede) (hn : .name n ∈ ts)
    (hletter : ∀ d ∈ n.toList.head?, d.isAlpha = true) :
    ∃ rest, (n.toList, rest) ∈ runs true false .outside cs ∧ beginsFraction rest = false :=
  mem_runs_of_tokensFrom h (hstep.imp_right fun hp => ⟨rfl, hp⟩) (.inl rfl) hchain hn hletter

end Spreadsheet.Expression

import Spreadsheet.Proofs.Formula.CompiledCounterpart

/-!
# Counterparts as they are written

A formula as it is written has its literals in quotes and its percent signs. If
one such text is the counterpart of another, so it is without its literals, which
are the same in both. Both hold ranges or neither does, and without ranges the
one text follows the cells of the other.
-/
namespace Spreadsheet
open Position Text Expression

namespace Formula

/-! ## Literals -/

/-- The script of a formula with its literals. -/
def Script.source : Script where
  writes w p := ofName? w = some p
  calls := Builtin.isName
  block b := ∃ literal, '"' ∉ literal ∧ b = '"' :: (literal ++ ['"'])
  ofName_of_writes h := h
  head_of_block h := by
    obtain ⟨literal, -, rfl⟩ := h
    rfl

section
variable {number : Nat} {c : Char} {cs cs' w : List Char}

theorem extractFrom_eq (number : Nat) (cs : List Char) : extractFrom number cs =
    match cut isQuote cs with
    | none => ⟨cs, []⟩
    | some (before, rest) =>
      match cut isQuote rest with
      | none => ⟨cs, []⟩
      | some (literal, after) =>
        ⟨before ++ placeholder number ++ (extractFrom (number + 1) after).text,
          literal :: (extractFrom (number + 1) after).literals⟩ := by
  rw [extractFrom]
  split
  · rename_i hopened
    rw [hopened]
  · rename_i hopened
    rw [hopened]
    dsimp only
    split
    · rename_i hclosed
      rw [hclosed]
    · rename_i hclosed
      rw [hclosed]

theorem extractFrom_cons (hc : c ≠ '"') (number : Nat) (cs : List Char) :
    extractFrom number (c :: cs) =
      ⟨c :: (extractFrom number cs).text, (extractFrom number cs).literals⟩ := by
  have hcut : cut isQuote (c :: cs) = (cut isQuote cs).map fun r => (c :: r.1, r.2) :=
    cut_cons (by simpa [isQuote] using hc) cs
  rw [extractFrom_eq, extractFrom_eq number cs, hcut]
  cases cut isQuote cs with
  | none => rfl
  | some found =>
    dsimp only [Option.map_some]
    cases cut isQuote found.2 <;> rfl

theorem extractFrom_append (hw : '"' ∉ w) (number : Nat) (cs : List Char) :
    extractFrom number (w ++ cs) =
      ⟨w ++ (extractFrom number cs).text, (extractFrom number cs).literals⟩ := by
  induction w with
  | nil => rfl
  | cons c w ih =>
    rw [List.mem_cons, not_or] at hw
    rw [List.cons_append, extractFrom_cons (Ne.symm hw.1), ih hw.2]
    rfl

theorem cut_literal {literal : List Char} (h : '"' ∉ literal) (cs : List Char) :
    cut isQuote (literal ++ '"' :: cs) = some (literal, cs) := by
  have hall : ∀ c ∈ literal, isQuote c = false := by
    intro c hc
    refine beq_false_of_ne ?_
    rintro rfl
    exact h hc
  rw [cut_append hall]
  simp [cut, isQuote]

theorem extractFrom_literal {literal : List Char} (h : '"' ∉ literal) (number : Nat)
    (cs : List Char) : extractFrom number ('"' :: (literal ++ '"' :: cs)) =
      ⟨placeholder number ++ (extractFrom (number + 1) cs).text,
        literal :: (extractFrom (number + 1) cs).literals⟩ := by
  rw [extractFrom_eq]
  simp only [cut, isQuote, beq_self_eq_true, if_true]
  rw [cut_literal h]
  rfl

theorem extractFrom_unclosed (h : '"' ∉ cs) (number : Nat) :
    extractFrom number ('"' :: cs) = ⟨'"' :: cs, []⟩ := by
  have hnone : cut isQuote cs = none := by
    cases hcut : cut isQuote cs with
    | none => rfl
    | some found =>
      rw [(quoted_of_cut hcut).1] at h
      exact absurd (List.mem_append_right _ List.mem_cons_self) h
  rw [extractFrom_eq]
  simp only [cut, isQuote, beq_self_eq_true, if_true]
  rw [hnone]

/-- A text without its literals begins as before, or with a placeholder. -/
theorem front_extractFrom (number : Nat) (cs : List Char) :
    (extractFrom number cs).text.head? = cs.head? ∨
      cs.head? = some '"' ∧ ∃ rest, (extractFrom number cs).text = "STR".toList ++ '(' :: rest := by
  cases cs with
  | nil => exact .inl (by rw [extractFrom_of_no_quote List.not_mem_nil])
  | cons c cs =>
    by_cases hc : c = '"'
    · subst hc
      cases hclosed : cut isQuote cs with
      | none => exact .inl (by rw [extractFrom_unclosed (no_quote_of_cut_eq_none hclosed)])
      | some found =>
        obtain ⟨hcs, hliteral⟩ := quoted_of_cut hclosed
        rw [hcs, extractFrom_literal hliteral, placeholder_append]
        exact .inr ⟨rfl, _, rfl⟩
    · rw [extractFrom_cons hc]
      exact .inl rfl

theorem hides_of_head_eq {d : Char} (h : cs.head? = cs'.head?) : hides d cs = hides d cs' := by
  unfold hides
  rw [h]

theorem isPassed_extractFrom (number : Nat) (h : isPassed c cs = true) :
    isPassed c (extractFrom number cs).text = true := by
  by_cases hlost : (dropLead? lostReference (c :: cs)).isSome = true
  · obtain ⟨rfl, rest, rfl⟩ := eq_of_lostReference hlost
    have hlead := extractFrom_append (w := ['R', 'E', 'F', '!']) (by decide) number rest
    rw [List.cons_append, List.cons_append, List.cons_append, List.singleton_append] at hlead
    rw [hlead]
    rfl
  · have hhides : hides c (extractFrom number cs).text = hides c cs := by
      rcases front_extractFrom number cs with hhead | ⟨hquote, rest, htext⟩
      · exact hides_of_head_eq hhead
      · have hhead : (extractFrom number cs).text.head? = some 'S' := by rw [htext]; rfl
        simp only [hides, hquote, hhead]
        rfl
    rw [Bool.not_eq_true] at hlost
    rw [isPassed, hlost, Bool.or_false] at h
    rw [isPassed, hhides, Bool.and_eq_true, Bool.or_eq_true]
    rw [Bool.and_eq_true] at h
    exact ⟨h.1, .inl h.2⟩

theorem afterParenthesis_of_blanks {blanks rest : List Char}
    (h : ∀ c ∈ blanks, isBlank c = true) :
    afterParenthesis? (blanks ++ '(' :: rest) = some rest := by
  rw [afterParenthesis?, trimLeft, List.dropWhile_append_of_pos h,
    List.dropWhile_cons_of_neg (by decide)]
  rfl

theorem isSome_afterParenthesis_extractFrom (number : Nat)
    (h : (afterParenthesis? cs).isSome = true) :
    (afterParenthesis? (extractFrom number cs).text).isSome = true := by
  obtain ⟨rest, hrest⟩ := Option.isSome_iff_exists.1 h
  obtain ⟨blanks, rfl, hblanks⟩ := blanks_of_afterParenthesis hrest
  have hquote : '"' ∉ blanks := fun hq => absurd (hblanks _ hq) (by decide)
  rw [extractFrom_append hquote, extractFrom_cons (by decide), afterParenthesis_of_blanks hblanks]
  rfl

/-- A word that a literal follows has the letters of a placeholder joined to it. -/
theorem staysWord_extractFrom (number : Nat) (h : Script.source.staysWord cs = true) :
    Script.formula.staysWord (extractFrom number cs).text = true := by
  have hword : ∀ c ∈ cs.takeWhile isWord, isWord c = true := List.all_eq_true.1 List.all_takeWhile
  have hquote : '"' ∉ cs.takeWhile isWord := fun hq => ne_quote_of_isWord (hword _ hq) rfl
  have hhead := List.head?_dropWhile_not isWord cs
  have hcs : cs = cs.takeWhile isWord ++ cs.dropWhile isWord :=
    List.takeWhile_append_dropWhile.symm
  rw [Script.staysWord] at h
  generalize cs.takeWhile isWord = w at h hword hquote hcs
  generalize cs.dropWhile isWord = rest at h hhead hcs
  rw [hcs, extractFrom_append hquote]
  simp only [Bool.and_eq_true, Bool.or_eq_true, bne_iff_ne, ne_eq, Option.isNone_iff_eq_none] at h
  obtain ⟨htest, hcell⟩ := h
  rcases front_extractFrom number rest with hsame | ⟨-, after, htext⟩
  · refine Script.staysWord_append hword (fun d hd => ?_) htest
      (hcell.imp_right fun hcall => ⟨hcall.1, isSome_afterParenthesis_extractFrom number hcall.2⟩)
    rw [hsame] at hd
    rw [Option.mem_def.1 hd] at hhead
    simpa using hhead
  · rw [htext, ← List.append_assoc]
    have hlast : (w ++ "STR".toList).getLast? = some 'R' :=
      List.getLast?_append_of_ne_nil _ (by decide)
    refine Script.staysWord_append (fun c hc => ?_) (fun c hc => by cases hc; decide) (fun he => ?_)
      (.inl ?_)
    · rcases List.mem_append.1 hc with hc | hc
      · exact hword c hc
      · have hall : ∀ c ∈ "STR".toList, isWord c = true := by decide
        exact hall c hc
    · rw [he] at hlast
      exact absurd hlast (by decide)
    · cases hname : ofName? (w ++ "STR".toList) with
      | none => rfl
      | some p => exact absurd (isDigit_last_of_ofName hname 'R' hlast) (by decide)

theorem endsName_extractFrom (number : Nat) (h : endsName cs = true) :
    endsName (extractFrom number cs).text = true := by
  induction cs with
  | nil =>
    rw [extractFrom_of_no_quote List.not_mem_nil]
    rfl
  | cons c cs ih =>
    by_cases hb : isBlank c = true
    · have hquote : c ≠ '"' := by
        rintro rfl
        exact absurd hb (by decide)
      rw [endsName_cons_of_isBlank hb] at h
      rw [extractFrom_cons hquote, endsName_cons_of_isBlank hb]
      exact ih h
    · rw [Bool.not_eq_true] at hb
      rw [endsName_cons hb] at h
      have hquote : c ≠ '"' := by
        rintro rfl
        simp at h
      rw [extractFrom_cons hquote, endsName_cons hb]
      simp only [Bool.and_eq_true, Bool.or_eq_true, beq_iff_eq] at h ⊢
      refine ⟨h.1, h.2.imp_right fun hequal => ?_⟩
      rcases front_extractFrom number cs with hsame | ⟨hquote, -⟩
      · exact hsame.trans hequal
      · rw [hequal] at hquote
        cases hquote

/-- Counterparts have the same literals, and without them they are counterparts. -/
theorem Counterpart.extractFrom {move : Position → Position} {s : Spot}
    (h : Counterpart .source move s cs cs') (number : Nat) :
    (extractFrom number cs).literals = (extractFrom number cs').literals ∧
      Counterpart .formula move s (Formula.extractFrom number cs).text
        (Formula.extractFrom number cs').text := by
  induction h generalizing number with
  | nil =>
    rw [extractFrom_of_no_quote List.not_mem_nil]
    exact ⟨rfl, .nil⟩
  | char hc hc' hword _ ih =>
    rename_i c cs cs' _
    have hquote : c ≠ '"' := by
      rintro rfl
      cases hc
    obtain ⟨hliterals, hcs⟩ := ih number
    rw [extractFrom_cons hquote, extractFrom_cons hquote]
    refine ⟨hliterals, .char (isPassed_extractFrom number hc) (isPassed_extractFrom number hc')
      (fun hw hs => ?_) hcs⟩
    obtain ⟨hstay, hstay'⟩ := hword hw hs
    have hstay := staysWord_extractFrom number hstay
    have hstay' := staysWord_extractFrom number hstay'
    rw [extractFrom_cons hquote] at hstay hstay'
    exact ⟨hstay, hstay'⟩
  | @name p w w' cs cs' hw hw' hend hend' _ ih =>
    have hquote : ∀ {w : List Char} {p : Position}, Script.source.writes w p → '"' ∉ w :=
      fun hw hq => absurd (isAlphanum_of_ofName hw _ hq) (by decide)
    obtain ⟨hliterals, hcs⟩ := ih number
    rw [extractFrom_append (hquote hw), extractFrom_append (hquote hw')]
    exact ⟨hliterals, .name hw hw' (endsName_extractFrom number hend)
      (endsName_extractFrom number hend') hcs⟩
  | @block s b cs cs' hb _ ih =>
    obtain ⟨literal, hliteral, rfl⟩ := hb
    have htext : ∀ cs : List Char,
        '"' :: (literal ++ ['"']) ++ cs = '"' :: (literal ++ '"' :: cs) := by
      simp
    obtain ⟨hliterals, hcs⟩ := ih (number + 1)
    rw [htext, htext, extractFrom_literal hliteral, extractFrom_literal hliteral, hliterals]
    refine ⟨rfl, ?_⟩
    dsimp only
    rw [placeholder_append, placeholder_append]
    refine .plainWord_append (w := "STR".toList) (by decide) (by decide) (by decide) (by decide)
      (by decide) ?_
    refine .symbol (by decide) (by decide) ?_
    change Counterpart _ _ _ ((Decimal.digits number ++ [')']) ++ _)
      ((Decimal.digits number ++ [')']) ++ _)
    rw [List.append_assoc, List.append_assoc]
    exact .digits_append (Decimal.digits_ne_nil _) (fun _ => Decimal.isDigit_of_mem_digits)
      (.symbol (by decide) (by decide) hcs)
  | unclosed hcs =>
    rw [extractFrom_unclosed hcs]
    exact ⟨rfl, .unclosed hcs⟩

end

/-! ## Ranges and blanks -/

section
variable {k : Script} {move : Position → Position} {s : Spot} {c : Char} {cs cs' : List Char}

theorem range_cons : ['.', '.'] <:+: c :: cs ↔
    c = '.' ∧ cs.head? = some '.' ∨ ['.', '.'] <:+: cs := by
  rw [List.infix_cons_iff, List.cons_prefix_cons, eq_comm]
  refine or_congr_left (and_congr_right fun _ => ?_)
  cases cs with
  | nil => simp
  | cons d cs => simp [eq_comm]

theorem range_append_congr (hhead : cs.head? = some '.' ↔ cs'.head? = some '.')
    (h : ['.', '.'] <:+: cs ↔ ['.', '.'] <:+: cs') (b : List Char) :
    ['.', '.'] <:+: b ++ cs ↔ ['.', '.'] <:+: b ++ cs' := by
  induction b with
  | nil => exact h
  | cons c b ih =>
    rw [List.cons_append, List.cons_append, range_cons, range_cons, ih]
    refine or_congr_left (and_congr_right fun _ => ?_)
    cases b with
    | nil => exact hhead
    | cons => exact .rfl

theorem range_append_of_not_mem {w : List Char} (hw : '.' ∉ w) :
    ['.', '.'] <:+: w ++ cs ↔ ['.', '.'] <:+: cs := by
  induction w with
  | nil => exact .rfl
  | cons c w ih =>
    rw [List.mem_cons, not_or] at hw
    rw [List.cons_append, range_cons, ih hw.2]
    exact or_iff_right fun h => hw.1 h.1.symm

/-- Counterparts hold ranges alike. -/
theorem Counterpart.range_iff (h : Counterpart k move s cs cs') :
    ['.', '.'] <:+: cs ↔ ['.', '.'] <:+: cs' := by
  induction h with
  | nil => exact .rfl
  | char _ _ _ hcs ih => exact range_append_congr (hcs.head_eq_some (by decide)) ih [_]
  | name hw hw' _ _ _ ih =>
    have hpoint : ∀ {w : List Char} {p : Position}, k.writes w p → '.' ∉ w := fun hw hp =>
      absurd (isAlphanum_of_ofName (k.ofName_of_writes hw) _ hp) (by decide)
    rw [range_append_of_not_mem (hpoint hw), range_append_of_not_mem (hpoint hw'), ih]
  | block hb hcs ih => exact range_append_congr (hcs.head_eq_some (by decide)) ih _
  | unclosed => exact .rfl

/-- Counterparts are blank alike. -/
theorem Counterpart.all_isBlank (h : Counterpart k move s cs cs') :
    cs.all isBlank = cs'.all isBlank := by
  induction h with
  | nil => rfl
  | char _ _ _ _ ih => rw [List.all_cons, List.all_cons, ih]
  | name hw hw' =>
    have hname : ∀ {w : List Char} {p : Position}, k.writes w p →
        ∀ cs, (w ++ cs).all isBlank = false := by
      intro w p hw cs
      obtain ⟨c, w, rfl, hc⟩ := Script.exists_cons ⟨p, hw⟩
      have hb : isBlank c = false := by
        by_contra hb
        rw [isAlpha_of_isBlank (by simpa using hb)] at hc
        cases hc
      rw [List.cons_append, List.all_cons, hb, Bool.false_and]
    rw [hname hw, hname hw']
  | block _ _ ih => rw [List.all_append, List.all_append, ih]
  | unclosed => rfl

theorem isEmpty_trim (cs : List Char) : (trim cs).isEmpty = cs.all isBlank := by
  rw [Bool.eq_iff_iff, List.isEmpty_iff, List.all_eq_true]
  constructor
  · intro h c hc
    by_contra hb
    have := mem_trim hc (by simpa using hb)
    rw [h] at this
    cases this
  · intro h
    have hnil : (cs ++ []).dropWhile isBlank = [] := List.dropWhile_append_of_pos h
    rw [List.append_nil] at hnil
    change trimRight (cs.dropWhile isBlank) = []
    rw [hnil]
    rfl

/-- A text with its percent signs written out. -/
def withoutPercents (cs : List Char) : List Char := replaceChar '%' percent cs

theorem withoutPercents_append (xs ys : List Char) :
    withoutPercents (xs ++ ys) = withoutPercents xs ++ withoutPercents ys :=
  List.flatMap_append

theorem withoutPercents_cons (hc : c ≠ '%') (cs : List Char) :
    withoutPercents (c :: cs) = c :: withoutPercents cs := by
  rw [withoutPercents, replaceChar, List.flatMap_cons, if_neg hc]
  rfl

theorem withoutPercents_percent (cs : List Char) :
    withoutPercents ('%' :: cs) = percent ++ withoutPercents cs := rfl

theorem withoutPercents_of_not_mem (h : '%' ∉ cs) : withoutPercents cs = cs := by
  induction cs with
  | nil => rfl
  | cons c cs ih =>
    rw [List.mem_cons, not_or] at h
    rw [withoutPercents_cons (Ne.symm h.1), ih h.2]

theorem range_withoutPercents : ['.', '.'] <:+: withoutPercents cs ↔ ['.', '.'] <:+: cs := by
  induction cs with
  | nil => exact .rfl
  | cons c cs ih =>
    by_cases hc : c = '%'
    · subst hc
      rw [withoutPercents_percent, range_append_of_not_mem (by decide), ih, range_cons]
      exact (or_iff_right fun h => absurd h.1 (by decide)).symm
    · rw [withoutPercents_cons hc, range_cons, range_cons, ih]
      refine or_congr_left (and_congr_right fun _ => ?_)
      cases cs with
      | nil => exact .rfl
      | cons d cs =>
        by_cases hd : d = '%'
        · subst hd
          have hhead : (withoutPercents ('%' :: cs)).head? = some '*' := rfl
          rw [hhead]
          exact iff_of_false (by decide) (by simp)
        · rw [withoutPercents_cons hd]
          exact .rfl

theorem all_isBlank_withoutPercents (cs : List Char) :
    (withoutPercents cs).all isBlank = cs.all isBlank := by
  induction cs with
  | nil => rfl
  | cons c cs ih =>
    by_cases hc : c = '%'
    · subst hc
      rfl
    · rw [withoutPercents_cons hc, List.all_cons, List.all_cons, ih]

theorem expandAfter_of_no_range (before : List Char) (h : ¬['.', '.'] <:+: cs) :
    expandAfter before cs = .ok (before.reverse ++ cs) := by
  induction cs generalizing before with
  | nil => rw [expandAfter, List.append_nil]
  | cons c cs ih =>
    rw [range_cons, not_or] at h
    rw [expandAfter, ih _ h.2]
    · simp
    · rintro rest rfl rfl
      exact h.1 ⟨rfl, rfl⟩

theorem expandRanges_of_no_range (h : ¬['.', '.'] <:+: withoutPercents cs) :
    expandRanges cs = .ok (withoutPercents cs) :=
  expandAfter_of_no_range [] h

/-- A counterpart of a formula of plain functions follows its cells. -/
theorem follows_of_counterpart [Library] (hmove : Function.Injective move)
    (h : Counterpart .source move .free (withoutPercents cs) (withoutPercents cs'))
    (hrange : ¬['.', '.'] <:+: cs) (hplain : CallsPlain cs) : Follows move cs cs' := by
  have hexpanded : ¬['.', '.'] <:+: withoutPercents cs := mt range_withoutPercents.1 hrange
  have hexpanded' : ¬['.', '.'] <:+: withoutPercents cs' := mt h.range_iff.2 hexpanded
  refine ⟨?_, ?_⟩
  · rw [isEmpty_trim, isEmpty_trim, ← all_isBlank_withoutPercents cs', ← h.all_isBlank,
      all_isBlank_withoutPercents]
  · obtain ⟨hliterals, htext⟩ := h.extractFrom 0
    unfold CallsPlain at hplain
    rw [ofText, expandRanges_of_no_range hexpanded] at hplain ⊢
    rw [ofText, expandRanges_of_no_range hexpanded']
    dsimp only [extractLiterals] at hplain ⊢
    rw [hliterals] at hplain ⊢
    exact compile_follows hmove _ htext hplain

end

end Formula
end Spreadsheet

import Mathlib.Data.List.Forall2
import Spreadsheet.Proofs.Ending
import Spreadsheet.Proofs.Formula.CounterpartParts
import Spreadsheet.Proofs.Formula.Expansion
import Spreadsheet.Proofs.Formula.Lexeme
import Spreadsheet.Proofs.Formula.Regular

/-!
# What stands in quotes

A quote is no part of a range, so that quotes part the text of a formula into
literals and what is between them, and the percent signs and ranges of each part
are written out by themselves. This is done before the literals are taken out, in
them as well. Then a literal goes through a placeholder and the quotes of an
expression, and comes out of them as it went in.
-/
namespace Spreadsheet.Formula
open Text Expression

/-- A text between quotes. -/
def inQuotes (s : List Char) : List Char := '"' :: (s ++ ['"'])

section
variable {cs ds s t xs ys : List Char}

/-! ## Quotes part a text -/

/-- The names before a quote end there. -/
theorem expandAfter_append_quote (before xs ys : List Char) : expandAfter before (xs ++ '"' :: ys) =
    (expandAfter before xs).bind fun out => expandAfter ('"' :: out.reverse) ys := by
  have hword := takeWhile_append_cons (by decide : Char.isAlphanum '"' = false)
  fun_induction expandAfter before xs with
  | case1 before =>
    rw [List.nil_append, expandAfter]
    · simp [Except.bind]
    · rintro rest hdot -
      exact absurd hdot (by decide)
  | case2 before rest first outside hcut cells hcells ih =>
    rw [List.cons_append, List.cons_append, expandAfter]
    simp only [hword rest ys]
    rw [if_pos hcut, hcells]
    exact ih
  | case3 before rest first outside hcut fault hfault =>
    rw [List.cons_append, List.cons_append, expandAfter]
    simp only [hword rest ys]
    rw [if_pos hcut, hfault]
    rfl
  | case4 before rest outside hcut =>
    rw [List.cons_append, List.cons_append, expandAfter]
    exact if_neg hcut
  | case5 before c cs hdots ih =>
    rw [List.cons_append, expandAfter, ih]
    rintro rest rfl hrest
    cases cs with
    | nil => cases hrest
    | cons d cs =>
      cases hrest
      exact hdots cs rfl rfl

/-- The names after a quote begin there. -/
theorem expandAfter_after_quote (front before xs : List Char) :
    expandAfter (front ++ '"' :: before) xs =
      (expandAfter front xs).map fun out => before.reverse ++ '"' :: out := by
  have hword := takeWhile_append_cons (by decide : Char.isAlphanum '"' = false)
  have hcuttable : ∀ outside : List Char,
      isCuttable (outside ++ '"' :: before) = isCuttable outside := by
    intro outside
    cases outside <;> rfl
  fun_induction expandAfter front xs with
  | case1 front => simp [expandAfter, Except.map]
  | case2 front rest first outside hcut cells hcells ih =>
    rw [expandAfter]
    simp only [hword front before, hcuttable]
    rw [if_pos hcut, hcells, ← ih, List.append_assoc]
  | case3 front rest first outside hcut fault hfault =>
    rw [expandAfter]
    simp only [hword front before, hcuttable]
    rw [if_pos hcut, hfault]
    rfl
  | case4 front rest outside hcut =>
    rw [expandAfter]
    simp only [hword front before, hcuttable]
    exact if_neg hcut
  | case5 front c cs hdots ih =>
    rw [expandAfter, ← ih, List.cons_append]
    exact hdots

/-- What is before a quote and what is after it are written out by themselves. -/
theorem expandRanges_quote (xs ys : List Char) : expandRanges (xs ++ '"' :: ys) =
    (expandRanges xs).bind fun out => (expandRanges ys).map fun more => out ++ '"' :: more := by
  have htext : withoutPercents (xs ++ '"' :: ys) =
      withoutPercents xs ++ '"' :: withoutPercents ys := by
    rw [withoutPercents_append, withoutPercents_cons (by decide)]
  change expandAfter [] (withoutPercents (xs ++ '"' :: ys)) = _
  rw [htext, expandAfter_append_quote]
  refine congrArg _ (funext fun out => ?_)
  have h := expandAfter_after_quote [] out.reverse (withoutPercents ys)
  rw [List.nil_append, List.reverse_reverse] at h
  exact h

theorem exists_of_expandRanges_quote (h : expandRanges (xs ++ '"' :: ys) = .ok ds) :
    ∃ out more, expandRanges xs = .ok out ∧ expandRanges ys = .ok more ∧
      ds = out ++ '"' :: more := by
  rw [expandRanges_quote] at h
  cases hout : expandRanges xs with
  | error fault =>
    rw [hout] at h
    cases h
  | ok out =>
    cases hmore : expandRanges ys with
    | error fault =>
      rw [hout, hmore] at h
      cases h
    | ok more =>
      rw [hout, hmore] at h
      cases h
      exact ⟨out, more, rfl, rfl, rfl⟩

theorem no_quote_expandRanges (hcs : '"' ∉ cs) (h : expandRanges cs = .ok ds) : '"' ∉ ds := by
  obtain ⟨n, -, hexpands⟩ := exists_expands (withoutPercents cs)
  have hok : expandAfter [] (withoutPercents cs) = .ok ds := h
  rw [hok] at hexpands
  exact hexpands.not_mem (by decide) (by decide) (no_quote_withoutPercents hcs)

/-- A text stays as it is if it has neither a percent sign nor a range. -/
theorem expandRanges_eq_self_iff :
    expandRanges s = .ok s ↔ '%' ∉ s ∧ ¬['.', '.'] <:+: s := by
  constructor
  · intro h
    obtain ⟨n, -, hexpands⟩ := exists_expands (withoutPercents s)
    have hok : expandAfter [] (withoutPercents s) = .ok s := h
    rw [hok] at hexpands
    exact ⟨hexpands.not_mem (by decide) (by decide) (no_percent_withoutPercents s),
      hexpands.no_range⟩
  · rintro ⟨hpercent, hrange⟩
    have hsame := withoutPercents_of_not_mem hpercent
    rw [expandRanges_of_no_range] <;> rw [hsame]
    exact hrange

/-! ## Literals -/

/-- The literals that are taken out have been written out one by one. -/
theorem forall₂_literals (number : Nat) (h : expandRanges cs = .ok ds) :
    List.Forall₂ (fun l l' => expandRanges l = .ok l') (extractFrom number cs).literals
      (extractFrom number ds).literals := by
  induction hlength : cs.length using Nat.strongRecOn generalizing cs ds number with
  | _ n ih =>
    by_cases hquote : '"' ∈ cs
    · obtain ⟨front, rest, rfl, hfront⟩ := List.eq_append_cons_of_mem hquote
      obtain ⟨front', rest', hf, hr, rfl⟩ := exists_of_expandRanges_quote h
      have hfront' := no_quote_expandRanges hfront hf
      rw [extractFrom_append hfront, extractFrom_append hfront']
      by_cases hclosed : '"' ∈ rest
      · obtain ⟨literal, after, rfl, hliteral⟩ := List.eq_append_cons_of_mem hclosed
        obtain ⟨literal', after', hl, ha, rfl⟩ := exists_of_expandRanges_quote hr
        rw [extractFrom_literal hliteral, extractFrom_literal (no_quote_expandRanges hliteral hl)]
        have hless : after.length < n := by
          rw [← hlength]
          simp only [List.length_append, List.length_cons]
          omega
        exact .cons hl (ih _ hless (number + 1) ha rfl)
      · rw [extractFrom_unclosed hclosed, extractFrom_unclosed (no_quote_expandRanges hclosed hr)]
        exact .nil
    · rw [extractFrom_of_no_quote hquote, extractFrom_of_no_quote (no_quote_expandRanges hquote h)]
      exact .nil

/-- What is written for a text is read back as that text. -/
theorem tokens?_quote (t : List Char) : tokens? (quote t) = some [textToken t] := by
  have hread : ∀ margin, readQuoted '"' margin (t.flatMap escape ++ ['"']) = some (t, []) := by
    intro margin
    rw [readQuoted_quote, readQuoted_single _ (by decide), Option.map_some, List.append_nil]
  have hscan : scan (.front (quote t)) '"' (t.flatMap escape ++ ['"']) =
      some ([textToken t], []) := by
    rw [scan_of_depths rfl]
    change (readQuoted '"' _ _).map _ = _
    rw [hread]
    rfl
  rw [tokens?, quote, List.cons_append] at *
  rw [tokensFrom_of_some hscan, tokensFrom]
  rfl

theorem expandRanges_inQuotes (s : List Char) :
    expandRanges (inQuotes s) = (expandRanges s).map inQuotes := by
  have hnil : expandRanges [] = .ok [] := expandRanges_eq_self_iff.2 (by decide)
  rw [inQuotes, ← List.nil_append ('"' :: (s ++ ['"'])), expandRanges_quote, expandRanges_quote,
    hnil]
  cases expandRanges s <;> rfl

section
variable [Library] (hlevels : 2 ≤ Library.levelLimit)
include hlevels

/-- Two levels are enough for the text of a literal. -/
theorem compile_quote (t : List Char) :
    Engine.compile (quote t) = some (.constant (.text (String.ofList t)) : Tree) := by
  obtain ⟨levels, hlevels⟩ := Nat.exists_eq_add_of_le' hlevels
  change compile? (quote t) = _
  rw [compile?, tokens?_quote, hlevels]
  cases levels <;> rfl

/-- A literal by itself is its text, with percent signs and ranges written out. -/
theorem ofText_inQuotes (hs : '"' ∉ s) : ofText (inQuotes s) =
    (expandRanges s).map fun t => ⟨quote t, .constant (.text (String.ofList t))⟩ := by
  rw [ofText, expandRanges_inQuotes]
  cases h : expandRanges s with
  | error fault => rfl
  | ok t =>
    have hextracted : extractLiterals (inQuotes t) = ⟨"STR".toList ++ "(0)".toList, [t]⟩ := by
      rw [extractLiterals, inQuotes, extractFrom_literal (no_quote_expandRanges hs h),
        extractFrom_of_no_quote List.not_mem_nil, List.append_nil, placeholder, Decimal.digits,
        if_pos (by decide)]
      rfl
    have hlower : lower [t] ("STR".toList ++ "(0)".toList) = .ok (quote t) := by
      have hliteral : lowerFrom [t] [] ("STR".toList ++ "(0)".toList) =
          before (quote t) (lowerFrom [t] (markArgument []) []) :=
        lowerFrom_literal rfl rfl (fun c hc => Option.some.inj hc ▸ rfl) rfl rfl
      rw [lowerFrom] at hliteral
      rw [lower, hliteral, before, Except.map, List.append_nil]
    simp only [Except.map, hextracted, compile, hlower, compile_quote hlevels]

/-- A literal by itself has a value without any reading, or the fault of a range in it. -/
theorem resolve_inQuotes {σ : Type} (hs : '"' ∉ s) (ω : Occasion) (own : Position)
    (operands : Operands σ) (u : σ) : resolve ω (inQuotes s) own operands u =
      (⟨(expandRanges s).map fun t => .text (String.ofList t), []⟩, u) := by
  have hblank : (trim (inQuotes s)).isEmpty = false := by
    rw [isEmpty_trim]
    rfl
  have hof := ofText_inQuotes hlevels hs
  cases h : expandRanges s with
  | error fault =>
    rw [h] at hof
    simp only [resolve, hblank, hof]
    rfl
  | ok t =>
    rw [h] at hof
    simp only [resolve, hblank, hof, Compiled.resolve, Except.map]
    cases (Engine.names (.constant (.text (String.ofList t)) : Tree)).length <;> rfl

end

end

end Spreadsheet.Formula

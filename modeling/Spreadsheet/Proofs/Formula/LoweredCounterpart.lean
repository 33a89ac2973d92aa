import Spreadsheet.Proofs.Formula.Counterpart
import Spreadsheet.Proofs.Text.Splitting

/-!
# Counterparts as expressions

Of two formulas of which one is the counterpart of the other, either both fail to
be written as expressions, for one kind of reason, or the expressions are
counterparts again. In an expression cells are written in capitals and the
literals are back in their places.
-/
namespace Spreadsheet.Formula
open Text Expression

namespace Script

/-- The script of a formula without its literals, in which cells are written in any way. -/
def formula : Script where
  writes w p := Position.ofName? w = some p
  calls := Builtin.isName
  block _ := False
  ofName_of_writes h := h
  head_of_block := False.elim

/-- The script of an expression. -/
def expression : Script where
  writes w p := w = p.name
  calls w := Builtin.all.any fun b => b.name.toList == w
  block b := ∃ text, b = quote text
  ofName_of_writes h := h ▸ Position.ofName?_name _
  head_of_block h := by
    obtain ⟨text, rfl⟩ := h
    rfl

end Script

/-! ## Numbers -/

/-- The sign at the front of an exponent, and what follows it. -/
def splitSign (cs : List Char) : List Char × List Char :=
  match cs with
  | '+' :: rest => (['+'], rest)
  | '-' :: rest => (['-'], rest)
  | _ => ([], cs)

theorem splitExponent_cons (mark : Char) (rest : List Char) : splitExponent (mark :: rest) =
    if ((mark == 'e' || mark == 'E') && !((splitSign rest).2.takeWhile Char.isDigit).isEmpty) then
      ('e' :: (splitSign rest).1 ++ (splitSign rest).2.takeWhile Char.isDigit,
        (splitSign rest).2.dropWhile Char.isDigit)
    else ([], mark :: rest) := rfl

section
variable {k : Script} {move : Position → Position} {s : Spot} {cs cs' : List Char}

theorem splitSign_of_head (hplus : cs.head? ≠ some '+') (hminus : cs.head? ≠ some '-') :
    splitSign cs = ([], cs) := by
  unfold splitSign
  split
  · exact absurd rfl hplus
  · exact absurd rfl hminus
  · rfl

theorem Counterpart.splitSign (h : Counterpart k move s cs cs') :
    (splitSign cs).1 = (splitSign cs').1 ∧
      ∃ t, Counterpart k move t (Formula.splitSign cs).2 (Formula.splitSign cs').2 := by
  by_cases hplus : cs.head? = some '+'
  · obtain ⟨cs, rfl⟩ := List.head?_eq_some_iff.1 hplus
    obtain ⟨cs', rfl, -, -, -, hcs⟩ := h.of_cons (.inr (by decide)) (by decide)
    exact ⟨rfl, _, hcs⟩
  by_cases hminus : cs.head? = some '-'
  · obtain ⟨cs, rfl⟩ := List.head?_eq_some_iff.1 hminus
    obtain ⟨cs', rfl, -, -, -, hcs⟩ := h.of_cons (.inr (by decide)) (by decide)
    exact ⟨rfl, _, hcs⟩
  · have hplus' := mt (h.head_eq_some (c := '+') (by decide)).2 hplus
    have hminus' := mt (h.head_eq_some (c := '-') (by decide)).2 hminus
    rw [splitSign_of_head hplus hminus, splitSign_of_head hplus' hminus']
    exact ⟨rfl, s, h⟩

theorem Counterpart.splitExponent (h : Counterpart k move s cs cs') (hs : s ≠ .free) :
    (splitExponent cs).1 = (splitExponent cs').1 ∧
      ∃ t, t ≠ .free ∧
        Counterpart k move t (Formula.splitExponent cs).2 (Formula.splitExponent cs').2 := by
  cases cs with
  | nil =>
    rw [h.of_nil]
    exact ⟨rfl, s, hs, .nil⟩
  | cons mark rest =>
    by_cases hmark : mark = 'e' ∨ mark = 'E'
    · have hword : isWord mark = true := by rcases hmark with rfl | rfl <;> decide
      obtain ⟨rest', rfl, -, -, -, hrest⟩ := h.of_cons (.inl hs) (ne_quote_of_isWord hword)
      rw [Spot.next_of_isWord s hword] at hrest
      obtain ⟨hsign, t, htail⟩ := hrest.splitSign
      obtain ⟨hdigits, hdrop⟩ := htail.digits
      rw [splitExponent_cons, splitExponent_cons, hsign, hdigits]
      split
      · rename_i hne
        simp only [Bool.and_eq_true, Bool.not_eq_true'] at hne
        rw [hdigits, hne.2] at hdrop
        exact ⟨rfl, .word, by decide, hdrop⟩
      · exact ⟨rfl, s, hs, h⟩
    · have hnone : ∀ cs : List Char, cs.head? = some mark →
          Formula.splitExponent cs = ([], cs) := by
        intro cs hcs
        obtain ⟨rest, rfl⟩ := List.head?_eq_some_iff.1 hcs
        have hfalse : (mark == 'e' || mark == 'E') = false := by simpa using hmark
        rw [splitExponent_cons, hfalse]
        rfl
      rw [hnone (mark :: rest) rfl, hnone _ ((h.head_eq hs).symm.trans rfl)]
      exact ⟨rfl, s, hs, h⟩

theorem Counterpart.splitFraction (h : Counterpart k move s cs cs') :
    (splitFraction cs).1 = (splitFraction cs').1 ∧
      ∃ t, (s ≠ .free ∨ cs.head? = some '.' → t ≠ .free) ∧
        Counterpart k move t (Formula.splitFraction cs).2 (Formula.splitFraction cs').2 := by
  by_cases hpoint : cs.head? = some '.'
  · obtain ⟨cs, rfl⟩ := List.head?_eq_some_iff.1 hpoint
    obtain ⟨cs', rfl, -, -, -, hcs⟩ := h.of_cons (.inr (by decide)) (by decide)
    obtain ⟨htake, hdrop⟩ := hcs.digits
    refine ⟨htake, _, fun _ => ?_, hdrop⟩
    rw [Spot.next_point]
    split <;> decide
  · have hnone : ∀ {cs : List Char}, cs.head? ≠ some '.' →
        Formula.splitFraction cs = ([], cs) := by
      intro cs hcs
      unfold Formula.splitFraction
      split
      · exact absurd rfl hcs
      · rfl
    rw [hnone hpoint, hnone (mt (h.head_eq_some (by decide)).2 hpoint)]
    exact ⟨rfl, s, fun hs => hs.resolve_right hpoint, h⟩

/-- A number is the same in both texts, and no name begins right after it. -/
theorem Counterpart.splitNumber {c : Char} (h : Counterpart k move s (c :: cs) cs')
    (hc : beginsNumber c cs = true) :
    (splitNumber (c :: cs)).1 = (splitNumber cs').1 ∧
      ∃ t, t ≠ .free ∧
        Counterpart k move t (Formula.splitNumber (c :: cs)).2 (Formula.splitNumber cs').2 := by
  obtain ⟨hwhole, hrest⟩ := h.digits
  obtain ⟨hfraction, t, ht, hrest'⟩ := hrest.splitFraction
  have hne : t ≠ .free := by
    refine ht ?_
    by_cases hd : c.isDigit = true
    · left
      rw [List.takeWhile_cons_of_pos hd]
      nofun
    · right
      simp only [beginsNumber, hd, Bool.false_or, Bool.and_eq_true, beq_iff_eq] at hc
      rw [List.dropWhile_cons_of_neg hd, hc.1]
      rfl
  obtain ⟨hexponent, u, hu, hlast⟩ := hrest'.splitExponent hne
  refine ⟨?_, u, hu, hlast⟩
  simp only [Formula.splitNumber, hwhole, hfraction, hexponent]

end

/-! ## Numbered literals -/

section
variable {move : Position → Position} {s : Spot} {cs cs' : List Char}

/-- Whether a character cannot stand in the number of a literal. -/
def isOddInNumber (c : Char) : Bool := c.isAlpha || c == '"'

theorem literalIndex_eq_none {inside rest : List Char}
    (hcut : cut (· == ')') cs = some (inside, rest))
    (hodd : ∃ c ∈ inside, isOddInNumber c = true) : literalIndex? cs = none := by
  obtain ⟨c, hc, hodd⟩ := hodd
  have hword : Decimal.word? (trim inside) = none := by
    cases hnumber : Decimal.word? (trim inside) with
    | none => rfl
    | some n =>
      rw [isOddInNumber, Bool.or_eq_true, beq_iff_eq] at hodd
      rcases mem_of_word hnumber hc with hb | hd | rfl
      · rcases hodd with ha | rfl
        · rw [isAlpha_of_isBlank hb] at ha
          cases ha
        · exact absurd hb (by decide)
      · rcases hodd with ha | rfl
        · rw [isAlpha_of_isDigit hd] at ha
          cases ha
        · exact absurd hd (by decide)
      · exact absurd hodd (by decide)
  simp [literalIndex?, hcut, hword]

/-- How counterparts are cut at a parenthesis: neither of them, or both, and up to it they are the
same or hold what stands in no number. -/
inductive CutsAlike (move : Position → Position) :
    Option (List Char × List Char) → Option (List Char × List Char) → Prop
  | uncut : CutsAlike move none none
  | odd {inside inside' rest rest' : List Char} : (∃ c ∈ inside, isOddInNumber c = true) →
      (∃ c ∈ inside', isOddInNumber c = true) →
      CutsAlike move (some (inside, rest)) (some (inside', rest'))
  | same {inside rest rest' : List Char} : Counterpart .formula move .free rest rest' →
      CutsAlike move (some (inside, rest)) (some (inside, rest'))

section
variable {x y : Option (List Char × List Char)}

theorem CutsAlike.cons (c : Char) (h : CutsAlike move x y) :
    CutsAlike move (x.map fun r => (c :: r.1, r.2)) (y.map fun r => (c :: r.1, r.2)) := by
  cases h with
  | uncut => exact .uncut
  | odd hodd hodd' =>
    obtain ⟨d, hd, hodd⟩ := hodd
    obtain ⟨d', hd', hodd'⟩ := hodd'
    exact .odd ⟨d, List.mem_cons_of_mem _ hd, hodd⟩ ⟨d', List.mem_cons_of_mem _ hd', hodd'⟩
  | same h => exact .same h

theorem exists_isOddInNumber_append {w : List Char} {p : Position}
    (hw : Script.formula.writes w p) (inside : List Char) :
    ∃ c ∈ w ++ inside, isOddInNumber c = true := by
  obtain ⟨c, w, rfl, hc⟩ := Script.exists_cons ⟨_, hw⟩
  exact ⟨c, List.mem_cons_self, by rw [isOddInNumber, hc, Bool.true_or]⟩

/-- With a name before them, whatever they were, they hold what stands in no number. -/
theorem CutsAlike.name_append {w w' : List Char} {p q : Position}
    (hw : Script.formula.writes w p) (hw' : Script.formula.writes w' q)
    (h : CutsAlike move x y) :
    CutsAlike move (x.map fun r => (w ++ r.1, r.2)) (y.map fun r => (w' ++ r.1, r.2)) := by
  cases h with
  | uncut => exact .uncut
  | odd =>
    exact .odd (exists_isOddInNumber_append hw _) (exists_isOddInNumber_append hw' _)
  | same =>
    exact .odd (exists_isOddInNumber_append hw _) (exists_isOddInNumber_append hw' _)

end

/-- No name holds a parenthesis. -/
theorem cut_name_append {w : List Char} {p : Position} (hw : Script.formula.writes w p)
    (cs : List Char) :
    cut (· == ')') (w ++ cs) = (cut (· == ')') cs).map fun r => (w ++ r.1, r.2) := by
  refine cut_append (fun c hc => beq_false_of_ne ?_) cs
  rintro rfl
  exact absurd (Position.isAlphanum_of_ofName hw _ hc) (by decide)

theorem Counterpart.cut (h : Counterpart .formula move s cs cs') :
    CutsAlike move (cut (· == ')') cs) (Text.cut (· == ')') cs') := by
  induction h with
  | nil => exact .uncut
  | @char s c cs cs' _ _ _ hcs ih =>
    by_cases hc : c = ')'
    · subst hc
      exact .same hcs
    · rw [cut_cons (by simpa using hc), cut_cons (by simpa using hc)]
      exact ih.cons c
  | name hw hw' _ _ _ ih =>
    rw [cut_name_append hw, cut_name_append hw']
    exact ih.name_append hw hw'
  | block hb => exact hb.elim
  | @unclosed s cs _ =>
    rw [cut_cons (by decide)]
    cases Text.cut (· == ')') cs with
    | none => exact .uncut
    | some found =>
      exact .odd ⟨'"', List.mem_cons_self, rfl⟩ ⟨'"', List.mem_cons_self, rfl⟩

/-- The number of a literal is the same in both texts. -/
theorem Counterpart.literalIndex (h : Counterpart .formula move s cs cs') :
    literalIndex? cs = none ∧ literalIndex? cs' = none ∨
      ∃ index rest rest', literalIndex? cs = some (index, rest) ∧
        literalIndex? cs' = some (index, rest') ∧ Counterpart .formula move .free rest rest' := by
  have hcut := h.cut
  generalize hx : Text.cut (· == ')') cs = x at hcut
  generalize hy : Text.cut (· == ')') cs' = y at hcut
  cases hcut with
  | uncut => exact .inl ⟨by simp [literalIndex?, hx], by simp [literalIndex?, hy]⟩
  | odd hodd hodd' => exact .inl ⟨literalIndex_eq_none hx hodd, literalIndex_eq_none hy hodd'⟩
  | @same inside rest rest' hrest =>
    cases hnumber : Decimal.word? (trim inside) with
    | none =>
      exact .inl ⟨by simp [literalIndex?, hx, hnumber], by simp [literalIndex?, hy, hnumber]⟩
    | some index =>
      exact .inr ⟨index, rest, rest', by simp [literalIndex?, hx, hnumber],
        by simp [literalIndex?, hy, hnumber], hrest⟩

end

/-! ## What follows a name or a character in an expression -/

section
variable {literals : List (List Char)} {frames : List Frame} {c : Char}
  {cs written name rest : List Char}

theorem lowerFrom_cons (h : lowerFrom literals frames (c :: cs) = .ok written) :
    ∃ s after, step literals frames c cs = .ok s ∧
      lowerFrom literals s.frames s.rest = .ok after ∧ written = s.written ++ after := by
  rw [lowerFrom] at h
  split at h
  · cases h
  · rename_i s hstep
    split at h
    · cases h
    · rename_i after hafter
      cases h
      exact ⟨s, after, hstep, hafter, rfl⟩

theorem endsName_cons_of_isBlank (hc : isBlank c = true) : endsName (c :: cs) = endsName cs := by
  rw [endsName, endsName, trimLeft, trimLeft, List.dropWhile_cons_of_pos hc]

theorem endsName_cons (hc : isBlank c = false) : endsName (c :: cs) =
    (!isWord c && !(['(', '"', '.'].contains c) && (c != '!' || cs.head? == some '=')) := by
  rw [endsName, trimLeft, List.dropWhile_cons_of_neg (by simp [hc])]

/-- A symbol that is written otherwise leaves a name before it that of an operand. -/
theorem endsName_of_mem_rewrittenSymbols {used written : List Char}
    (h : (used, written) ∈ rewrittenSymbols) (ys : List Char) :
    endsName (written ++ ys) = true := by
  simp only [rewrittenSymbols, List.mem_cons, List.not_mem_nil, or_false, Prod.mk.injEq] at h
  rcases h with ⟨-, rfl⟩ | ⟨-, rfl⟩ | ⟨-, rfl⟩ | ⟨-, rfl⟩ | ⟨-, rfl⟩ | ⟨-, rfl⟩ | ⟨-, rfl⟩ |
    ⟨-, rfl⟩ | ⟨-, rfl⟩ | ⟨-, rfl⟩ <;> rfl

/-- What is written for a character that is neither in a word nor opens anything. -/
theorem endsName_of_lowers {rest after : List Char} (hword : isWord c = false)
    (hmem : (['(', '"', '.'].contains c) = false) (hb : isBlank c = false) (hnot : c ≠ '!')
    (h : Lowers literals (c :: cs) written rest) : endsName (written ++ after) = true := by
  have hno : ∀ {name tail : List Char}, name ≠ [] → (∀ d ∈ name, isAsciiWord d = true) →
      c :: cs ≠ name ++ tail := by
    intro name tail hne hname he
    obtain ⟨d, name, rfl⟩ := List.exists_cons_of_ne_nil hne
    cases he
    rw [isWord_of_isAsciiWord (hname c List.mem_cons_self)] at hword
    cases hword
  generalize htext : c :: cs = text at h
  cases h with
  | kept =>
    cases htext
    rw [List.singleton_append, endsName_cons hb, hword, hmem]
    simp [hnot]
  | symbol hsymbol => exact endsName_of_mem_rewrittenSymbols hsymbol after
  | number hnumber =>
    cases htext
    rw [beginsNumber, Bool.or_eq_true, Bool.and_eq_true, beq_iff_eq] at hnumber
    rcases hnumber with hd | ⟨rfl, -⟩
    · rw [isWord_of_isDigit hd] at hword
      cases hword
    · cases hmem
  | name hne hname => exact absurd htext (hno hne hname)
  | opening _ hne hname => exact absurd htext (hno hne hname)
  | literal hne hname => exact absurd htext (hno hne hname)
  | unclosed =>
    cases htext
    cases hmem

/-- What leaves a name that of an operand is written as something that does so. -/
theorem endsName_of_lowerFrom (hcs : endsName cs = true)
    (h : lowerFrom literals frames cs = .ok written) : endsName written = true := by
  induction cs generalizing frames written with
  | nil =>
    rw [lowerFrom] at h
    cases h
    rfl
  | cons c cs ih =>
    obtain ⟨s, after, hstep, hafter, rfl⟩ := lowerFrom_cons h
    by_cases hb : isBlank c = true
    · rw [step, if_pos hb] at hstep
      cases hstep
      rw [endsName_cons_of_isBlank hb] at hcs
      exact (endsName_cons_of_isBlank hb).trans (ih hcs hafter)
    rw [Bool.not_eq_true] at hb
    rw [endsName_cons hb] at hcs
    by_cases hnot : c = '!'
    · subst hnot
      have hhead : cs.head? = some '=' := by simp_all
      obtain ⟨cs, rfl⟩ := List.head?_eq_some_iff.1 hhead
      have hsymbol : step literals frames '!' ('=' :: cs) =
          .ok ⟨['!', '='], markArgument frames, cs⟩ := rfl
      rw [hsymbol] at hstep
      cases hstep
      rfl
    · simp only [Bool.and_eq_true, Bool.not_eq_true'] at hcs
      obtain ⟨⟨hword, hmem⟩, -⟩ := hcs
      exact endsName_of_lowers hword hmem hb hnot (lowers_of_step hstep)

theorem splitLetters_append_zero (cs : List Char) :
    (cs ++ ['0']).takeWhile Char.isAlpha = cs.takeWhile Char.isAlpha ∧
      (cs ++ ['0']).dropWhile Char.isAlpha = cs.dropWhile Char.isAlpha ++ ['0'] := by
  induction cs with
  | nil => exact ⟨rfl, rfl⟩
  | cons c cs ih =>
    by_cases hc : c.isAlpha = true
    · simp [hc, ih]
    · simp [hc]

/-- Where the tenfold of a number is that of a row, so is the number. -/
theorem exists_row_of_append_zero {digits : List Char} {row : UInt64}
    (hnatural : Decimal.isNatural (digits ++ ['0']) = true)
    (hrow : Position.ofOrdinal? (Decimal.value (digits ++ ['0'])) = some row) :
    Decimal.isNatural digits = true ∧
      ∃ row, Position.ofOrdinal? (Decimal.value digits) = some row := by
  have hvalue : Decimal.value (digits ++ ['0']) = 10 * Decimal.value digits := by
    rw [Decimal.value_append]
    rfl
  rw [hvalue, Position.ofOrdinal?, Position.coordinate?] at hrow
  split at hrow
  · rename_i hbound
    constructor
    · simp only [Decimal.isNatural, Bool.and_eq_true, Bool.not_eq_true',
        List.isEmpty_eq_false_iff, List.all_append] at hnatural ⊢
      refine ⟨fun hnil => ?_, hnatural.2.1⟩
      rw [hnil] at hbound
      simp [Decimal.value] at hbound
    · rw [Position.ofOrdinal?, Position.coordinate?, if_pos ⟨by omega, by omega⟩]
      exact ⟨_, rfl⟩
  · cases hrow

/-- A zero after a text that names no cell makes it name none. -/
theorem ofName?_append_zero (h : Position.ofName? cs = none) :
    Position.ofName? (cs ++ ['0']) = none := by
  cases hname : Position.ofName? (cs ++ ['0']) with
  | none => rfl
  | some p =>
    simp only [Position.ofName?, splitLetters_append_zero, Option.bind_eq_bind,
      Option.bind_eq_some_iff] at hname
    obtain ⟨col, hcol, hname⟩ := hname
    split at hname
    · rename_i hnatural
      obtain ⟨row, hrow, -⟩ := Option.bind_eq_some_iff.1 hname
      obtain ⟨hnatural', row, hrow'⟩ := exists_row_of_append_zero hnatural hrow
      simp [Position.ofName?, hcol, hnatural', hrow'] at h
    · cases hname

/-- After a name nothing goes on with it but a zero or what is outside ASCII. -/
theorem front_of_lowerFrom (h : lowerFrom literals frames rest = .ok written)
    (hrest : ∀ c ∈ rest.head?, isAsciiWord c = false) :
    (∃ c ∈ written.takeWhile isWord, isAsciiWord c = false) ∨
      (∀ c ∈ rest.head?, isWord c = false) ∧
        (written.takeWhile isWord = [] ∨ written.takeWhile isWord = ['0']) := by
  rcases head_of_lowerFrom h hrest with hsame | ⟨htext, hwritten | ⟨d, more, rfl, hd⟩⟩
  · cases written with
    | nil => exact .inr ⟨by simp [hsame], .inl rfl⟩
    | cons c written =>
      rw [hsame] at hrest ⊢
      by_cases hc : isWord c = true
      · refine .inl ⟨c, ?_, hrest c rfl⟩
        rw [List.takeWhile_cons_of_pos hc]
        exact List.mem_cons_self
      · refine .inr ⟨by simpa using hc, .inl ?_⟩
        rw [List.takeWhile_cons_of_neg hc]
  · refine .inr ⟨htext, .inl ?_⟩
    cases written with
    | nil => rfl
    | cons c written => simp [hwritten c rfl]
  · exact .inr ⟨htext, .inr rfl⟩

/-- A name that is the same in a counterpart is written as one, if it is not called. -/
theorem staysWord_of_lowerFrom (hne : name ≠ []) (hname : ∀ c ∈ name, isAsciiWord c = true)
    (hrest : ∀ c ∈ rest.head?, isAsciiWord c = false) (hparen : afterParenthesis? rest = none)
    (hstay : Script.formula.staysWord (name ++ rest) = true)
    (h : lowerFrom literals frames rest = .ok written) :
    Script.expression.staysWord (canonicalName name ++ written) = true := by
  obtain ⟨hne', hword⟩ := canonicalName_spec hne hname
  have htake : (canonicalName name ++ written).takeWhile isWord =
      canonicalName name ++ written.takeWhile isWord := List.takeWhile_append_of_pos hword
  suffices hplain : canonicalName name ++ written.takeWhile isWord ≠ "is_def_var".toList ∧
      Position.ofName? (canonicalName name ++ written.takeWhile isWord) = none by
    rw [Script.staysWord, htake, hplain.2, bne_iff_ne.2 hplain.1]
    rfl
  rcases front_of_lowerFrom h hrest with ⟨c, hc, hascii⟩ | ⟨hend, hfront⟩
  · -- What is outside ASCII makes the word a name of nothing.
    refine ⟨fun he => ?_, ?_⟩
    · have hall : ∀ d ∈ "is_def_var".toList, isAsciiWord d = true := by decide
      have := hall c (he ▸ List.mem_append_right _ hc)
      rw [hascii] at this
      cases this
    · cases hcell : Position.ofName? (canonicalName name ++ written.takeWhile isWord) with
      | none => rfl
      | some p =>
        have := Position.isAlphanum_of_ofName hcell c (List.mem_append_right _ hc)
        simp [isAsciiWord, this] at hascii
  · have hstop := takeWhile_append_of_head (fun c hc => isWord_of_isAsciiWord (hname c hc)) hend
    rw [Script.staysWord, hstop.1, hstop.2, hparen] at hstay
    simp only [Bool.and_eq_true, bne_iff_ne, ne_eq, Option.isSome_none, Bool.and_false,
      Bool.or_false, Option.isNone_iff_eq_none] at hstay
    have hcell : Position.ofName? (canonicalName name) = none := by
      cases hcell : Position.ofName? (canonicalName name) with
      | none => rfl
      | some p => rw [← hstay.2, ofName_of_canonicalName hcell]
    have htest : canonicalName name ≠ "is_def_var".toList := by
      unfold canonicalName
      split
      · rename_i constant _
        cases constant <;> decide
      · rw [hstay.2]
        exact hstay.1
    rcases hfront with hfront | hfront
    · rw [hfront, List.append_nil]
      exact ⟨htest, hcell⟩
    · rw [hfront]
      refine ⟨fun he => ?_, ofName?_append_zero hcell⟩
      have hlast := congrArg List.getLast? he
      rw [List.getLast?_append_of_ne_nil _ (by decide)] at hlast
      exact absurd hlast (by decide)

/-- A character that stays as it is hides nothing in the expression. -/
theorem isPassed_of_lowerFrom (hc : isPassed c cs = true)
    (hlost : (dropLead? lostReference (c :: cs)).isSome = false)
    (h : lowerFrom literals frames cs = .ok written) : isPassed c written = true := by
  rw [isPassed, hlost, Bool.or_false, Bool.and_eq_true] at hc
  have hhides : hides c written = false := by
    by_contra hhides
    rw [hides_of_lowerFrom h (by simpa using hhides)] at hc
    cases hc.2
  rw [isPassed, hhides, hc.1]
  rfl

end

/-! ## One step -/

/-- Two steps from counterparts: both fail for one kind of reason, or they leave counterparts, and
what they write makes counterparts with what is written after it. -/
inductive StepsAlike (literals : List (List Char)) (move : Position → Position) (s : Spot) :
    Except Fault Step → Except Fault Step → Prop
  | fault {a b : Fault} : a.kind = b.kind → StepsAlike literals move s (.error a) (.error b)
  | step {x y : Step} {t : Spot} : y.frames = x.frames →
      Counterpart .formula move t x.rest y.rest →
      (∀ {r r'}, lowerFrom literals x.frames x.rest = .ok r →
        lowerFrom literals x.frames y.rest = .ok r' →
        (∀ v, t.Admits v → Counterpart .expression move v r r') →
        ∀ u, s.Admits u → Counterpart .expression move u (x.written ++ r) (y.written ++ r')) →
      StepsAlike literals move s (.ok x) (.ok y)

theorem Script.staysWord_append {k : Script} {w rest : List Char} (hw : ∀ c ∈ w, isWord c = true)
    (hrest : ∀ c ∈ rest.head?, isWord c = false) (htest : w ≠ "is_def_var".toList)
    (hcell : Position.ofName? w = none ∨
      k.calls w = true ∧ (afterParenthesis? rest).isSome = true) :
    k.staysWord (w ++ rest) = true := by
  obtain ⟨htake, hdrop⟩ := takeWhile_append_of_head hw hrest
  rw [Script.staysWord, htake, hdrop, bne_iff_ne.2 htest]
  simpa using hcell

section
variable {literals : List (List Char)} {move : Position → Position} {frames : List Frame}
  {s u : Spot} {c : Char} {cs cs' r r' : List Char}

theorem Counterpart.plainWord_append {k : Script} {w : List Char} {d : Char} (hne : w ≠ [])
    (hw : ∀ c ∈ w, isWord c = true) (htest : w ≠ "is_def_var".toList)
    (hcell : Position.ofName? w = none) (hd : isWord d = false)
    (h : Counterpart k move .word (d :: r) (d :: r')) :
    Counterpart k move u (w ++ d :: r) (w ++ d :: r') := by
  have hstay : ∀ r, k.staysWord (w ++ d :: r) = true := fun r =>
    Script.staysWord_append hw (by simpa using hd) htest (.inl hcell)
  exact h.word_append hw hne fun _ => ⟨hstay r, hstay r'⟩

/-- A symbol that is written otherwise ends no word. -/
theorem Counterpart.symbol_append {used written : List Char}
    (hsymbol : (used, written) ∈ rewrittenSymbols) (h : Counterpart .expression move .free r r') :
    Counterpart .expression move u (written ++ r) (written ++ r') := by
  simp only [rewrittenSymbols, List.mem_cons, List.not_mem_nil, or_false, Prod.mk.injEq] at hsymbol
  rcases hsymbol with ⟨-, rfl⟩ | ⟨-, rfl⟩ | ⟨-, rfl⟩ | ⟨-, rfl⟩ | ⟨-, rfl⟩ | ⟨-, rfl⟩ | ⟨-, rfl⟩ |
    ⟨-, rfl⟩ | ⟨-, rfl⟩ | ⟨-, rfl⟩
  · exact .symbol (by decide) (by decide) (.symbol (by decide) (by decide)
      (.symbol (by decide) (by decide) h))
  · refine .symbol (by decide) (by decide) (.symbol (by decide) (by decide) ?_)
    refine .plainWord_append (w := "else".toList) (by decide) (by decide) (by decide) (by decide)
      (by decide) ?_
    exact .symbol (by decide) (by decide) (.symbol (by decide) (by decide) h)
  all_goals
    exact .symbol (by decide) (by decide) (.symbol (by decide) (by decide) h)

/-- The function of a call is no cell, even if it is named like one. -/
theorem Counterpart.opening_append (function : Builtin)
    (h : Counterpart .expression move .free r r') :
    Counterpart .expression move u (opening function ++ r) (opening function ++ r') := by
  unfold opening
  split
  · refine .symbol (by decide) (by decide) ?_
    refine .plainWord_append (w := "if".toList) (by decide) (by decide) (by decide) (by decide)
      (by decide) ?_
    refine .symbol (by decide) (by decide) ?_
    refine .plainWord_append (w := "truthy".toList) (by decide) (by decide) (by decide) (by decide)
      (by decide) ?_
    exact .symbol (by decide) (by decide) h
  · have hfunction : ∀ b ∈ Builtin.all, b.name.toList ≠ [] ∧
        (∀ c ∈ b.name.toList, isWord c = true) ∧ b.name.toList ≠ "is_def_var".toList ∧
        Script.expression.calls b.name.toList = true := by
      decide
    obtain ⟨hne, hword, htest, hname⟩ := hfunction function (by cases function <;> decide)
    rw [List.append_assoc, List.append_assoc]
    refine .word_append hword hne (fun _ => ⟨?_, ?_⟩)
      (.symbol (by decide) (by decide) (.symbol (by decide) (by decide) h))
    all_goals
      exact Script.staysWord_append hword (fun c hc => by cases hc; decide) htest
        (.inr ⟨hname, rfl⟩)

theorem StepsAlike.symbol (used : List Char) {written : List Char}
    (hsymbol : (used, written) ∈ rewrittenSymbols)
    (h : Counterpart .formula move .free cs cs') :
    StepsAlike literals move s (.ok ⟨written, frames, cs⟩) (.ok ⟨written, frames, cs'⟩) :=
  .step rfl h fun _ _ hr _ _ => .symbol_append hsymbol (hr .free (.refl _))

/-- A character that is written as it is read begins no name. -/
theorem StepsAlike.kept (hc : c.isAlpha = false) (hpassed : isPassed c cs = true)
    (hpassed' : isPassed c cs' = true)
    (hlost : (dropLead? lostReference (c :: cs)).isSome = false)
    (hlost' : (dropLead? lostReference (c :: cs')).isSome = false)
    (h : Counterpart .formula move (s.next c) cs cs') :
    StepsAlike literals move s (.ok ⟨[c], frames, cs⟩) (.ok ⟨[c], frames, cs'⟩) :=
  .step rfl h fun hw hw' hr _ hsu =>
    .char (isPassed_of_lowerFrom hpassed hlost hw) (isPassed_of_lowerFrom hpassed' hlost' hw')
      (fun _ _ => ⟨Script.staysWord_of_not_isAlpha hc _, Script.staysWord_of_not_isAlpha hc _⟩)
      (hr _ (hsu.next c))

theorem next_of_separator (hc : isWord c = false) (hpoint : c ≠ '.') (hb : isBlank c = false) :
    s.next c = .free := by
  simp [Spot.next, hc, hpoint, hb]

theorem stepComma_alike (h : Counterpart .formula move .free cs cs') :
    StepsAlike literals move s (.ok (stepComma frames cs)) (.ok (stepComma frames cs')) := by
  have hkept : ∀ {frames}, StepsAlike literals move s (.ok ⟨[','], frames, cs⟩)
      (.ok ⟨[','], frames, cs'⟩) :=
    .kept (by decide) (isPassed_of_not_mem (by decide) _) (isPassed_of_not_mem (by decide) _)
      rfl rfl
      (h.weaken ⟨fun _ => rfl, nofun⟩)
  cases frames with
  | nil => exact hkept
  | cons f fs =>
    unfold stepComma separator
    dsimp only
    split
    · exact .symbol [','] (by decide) h
    · exact .symbol [','] (by decide) h
    · exact hkept

theorem stepClose_alike (h : Counterpart .formula move .free cs cs') :
    StepsAlike literals move s (stepClose frames cs) (stepClose frames cs') := by
  have hkept : ∀ {frames}, StepsAlike literals move s (.ok ⟨[')'], frames, cs⟩)
      (.ok ⟨[')'], frames, cs'⟩) :=
    .kept (by decide) (isPassed_of_not_mem (by decide) _) (isPassed_of_not_mem (by decide) _)
      rfl rfl
      (h.weaken ⟨fun _ => rfl, nofun⟩)
  unfold stepClose
  split
  · exact hkept
  split
  · exact hkept
  split
  · unfold closing
    split
    · exact .symbol [')'] (by decide) h
    · exact .symbol [')'] (by decide) h
  · exact .fault rfl

/-- The symbols of two characters. -/
def pairedSymbols : List (Char × Char) :=
  [('=', '='), ('<', '>'), ('<', '='), ('>', '='), ('!', '=')]

theorem stepSymbol_of_unpaired (hparen : c ≠ '(') (hquote : c ≠ '"') (hequal : c ≠ '=')
    (hpair : ∀ d ∈ cs.head?, (c, d) ∉ pairedSymbols) :
    stepSymbol frames (c :: cs) = ⟨[c], frames, cs⟩ := by
  unfold stepSymbol
  split <;> simp_all [pairedSymbols]

/-- A lone equality sign is doubled. -/
theorem stepSymbol_of_equal (hpair : ∀ d ∈ cs.head?, ('=', d) ∉ pairedSymbols) :
    stepSymbol frames ('=' :: cs) = ⟨['=', '='], frames, cs⟩ := by
  cases cs with
  | nil => rfl
  | cons d cs =>
    have hd : d ≠ '=' := by
      rintro rfl
      exact hpair _ rfl (by decide)
    simp [stepSymbol, hd]

theorem of_mem_pairedSymbols {d : Char} (hd : (c, d) ∈ pairedSymbols) :
    d.isAlpha = false ∧ d ≠ '"' ∧ ∀ s : Spot, s.next d = .free := by
  have htable : ∀ entry ∈ pairedSymbols, entry.2.isAlpha = false ∧ entry.2 ≠ '"' ∧
      isWord entry.2 = false ∧ entry.2 ≠ '.' ∧ isBlank entry.2 = false := by
    decide
  obtain ⟨hd, hq, hw, hp, hb⟩ := htable _ hd
  exact ⟨hd, hq, fun s => next_of_separator hw hp hb⟩

/-- A symbol of two characters is one of two characters in both texts. -/
theorem stepPair_alike {d : Char} (hpair : (c, d) ∈ pairedSymbols)
    (h : Counterpart .formula move (s.next c) (d :: cs) cs') :
    StepsAlike literals move s (.ok (stepSymbol frames (c :: d :: cs)))
      (.ok (stepSymbol frames (c :: cs'))) := by
  obtain ⟨hd, hq, hnext⟩ := of_mem_pairedSymbols hpair
  obtain ⟨cs', rfl, -, -, -, hcs⟩ := h.of_cons (.inr hd) hq
  rw [hnext] at hcs
  simp only [pairedSymbols, List.mem_cons, List.not_mem_nil, or_false, Prod.mk.injEq] at hpair
  rcases hpair with ⟨rfl, rfl⟩ | ⟨rfl, rfl⟩ | ⟨rfl, rfl⟩ | ⟨rfl, rfl⟩ | ⟨rfl, rfl⟩
  · exact .symbol ['=', '='] (by decide) hcs
  · exact .symbol ['<', '>'] (by decide) hcs
  · exact .symbol ['<', '='] (by decide) hcs
  · exact .symbol ['>', '='] (by decide) hcs
  · exact .symbol ['!', '='] (by decide) hcs

theorem stepSymbol_alike (hc : c.isAlpha = false) (hquote : c ≠ '"')
    (hlost : (dropLead? lostReference (c :: cs)).isSome = false)
    (hlost' : (dropLead? lostReference (c :: cs')).isSome = false)
    (hpassed : isPassed c cs = true) (hpassed' : isPassed c cs' = true)
    (h : Counterpart .formula move (s.next c) cs cs') :
    StepsAlike literals move s (.ok (stepSymbol frames (c :: cs)))
      (.ok (stepSymbol frames (c :: cs'))) := by
  by_cases hpair : ∃ d, cs.head? = some d ∧ (c, d) ∈ pairedSymbols
  · obtain ⟨d, hd, hmem⟩ := hpair
    obtain ⟨cs, rfl⟩ := List.head?_eq_some_iff.1 hd
    exact stepPair_alike hmem h
  have hunpaired : ∀ d ∈ cs.head?, (c, d) ∉ pairedSymbols := fun d hd hmem =>
    hpair ⟨d, hd, hmem⟩
  have hunpaired' : ∀ d ∈ cs'.head?, (c, d) ∉ pairedSymbols := fun d hd hmem =>
    hpair ⟨d, (h.head_eq_some (of_mem_pairedSymbols hmem).1).2 hd, hmem⟩
  by_cases hparen : c = '('
  · subst hparen
    refine .step rfl h fun hw hw' hr _ hsu => ?_
    exact .symbol (by decide) (by decide) (hr _ (hsu.next '('))
  by_cases hequal : c = '='
  · subst hequal
    rw [stepSymbol_of_equal hunpaired, stepSymbol_of_equal hunpaired']
    rw [next_of_separator (by decide) (by decide) (by decide)] at h
    exact .symbol ['='] (by decide) h
  · rw [stepSymbol_of_unpaired hparen hquote hequal hunpaired,
      stepSymbol_of_unpaired hparen hquote hequal hunpaired']
    exact .kept hc hpassed hpassed' hlost hlost' h

theorem stepCall_alike (name : List Char) (h : Counterpart .formula move .free cs cs') :
    StepsAlike literals move s (stepCall literals frames name cs)
      (stepCall literals frames name cs') := by
  unfold stepCall
  split
  · exact .fault rfl
  rename_i function hfunction
  have hopening : StepsAlike literals move s
      (.ok ⟨opening function, ⟨some function, 0, false⟩ :: frames, cs⟩)
      (.ok ⟨opening function, ⟨some function, 0, false⟩ :: frames, cs'⟩) :=
    .step rfl h fun _ _ hr _ _ => .opening_append function (hr .free (.refl _))
  by_cases hstr : function = .str
  · rw [if_pos hstr, if_pos hstr]
    rcases h.literalIndex with ⟨hnone, hnone'⟩ | ⟨index, rest, rest', hsome, hsome', hrest⟩
    · rw [hnone, hnone']
      exact hopening
    · rw [hsome, hsome']
      dsimp only
      cases literals[index.toNat]? with
      | none => exact .fault rfl
      | some literal =>
        exact .step rfl hrest fun _ _ hr _ _ => .block ⟨literal, rfl⟩ (hr .free (.refl _))
  · rw [if_neg hstr, if_neg hstr]
    exact hopening

theorem isWord_of_letter (hc : (c.isAlpha || c == '_') = true) : isWord c = true := by
  rw [Bool.or_eq_true, beq_iff_eq] at hc
  rcases hc with hc | rfl
  · exact isWord_of_isAlpha hc
  · decide

theorem letter_of_not_isWord (h : isWord c = false) : (c.isAlpha || c == '_') = false :=
  eq_false_of_ne_true (mt isWord_of_letter (ne_true_of_eq_false h))

/-- A word that is the same in both texts. -/
theorem stepName_alike {w rest rest' : List Char} (hne : w ≠ [])
    (hw : ∀ c ∈ w, isAsciiWord c = true) (hrest : ∀ c ∈ rest.head?, isAsciiWord c = false)
    (hrest' : ∀ c ∈ rest'.head?, isAsciiWord c = false)
    (hstay : s ≠ .word → Script.formula.staysWord (w ++ rest) = true ∧
      Script.formula.staysWord (w ++ rest') = true)
    (h : Counterpart .formula move .word rest rest') :
    StepsAlike literals move s (stepName literals frames w rest)
      (stepName literals frames w rest') := by
  unfold stepName
  rcases h.afterParenthesis with ⟨hnone, hnone'⟩ | ⟨inside, inside', hsome, hsome', hinside⟩
  · rw [hnone, hnone']
    refine .step rfl h fun hr hr' hcounterpart u hsu => ?_
    obtain ⟨hne', hword⟩ := canonicalName_spec hne hw
    refine .word_append hword hne' (fun hu => ?_) (hcounterpart .word (.refl _))
    obtain ⟨hs, hs'⟩ := hstay fun hs => hu (hsu.2 hs)
    exact ⟨staysWord_of_lowerFrom hne hw hrest hnone hs hr,
      staysWord_of_lowerFrom hne hw hrest' hnone' hs' hr'⟩
  · rw [hsome, hsome']
    exact stepCall_alike w hinside

theorem head_of_endsName (h : endsName cs = true) : ∀ c ∈ cs.head?, isWord c = false := by
  cases cs with
  | nil => nofun
  | cons c cs =>
    intro d hd
    cases hd
    by_cases hb : isBlank c = true
    · exact isWord_eq_false_of_isBlank hb
    · rw [endsName_cons (by simpa using hb)] at h
      simp_all

/-- No constant is named like a cell. -/
theorem find?_constant_of_ofName {w : List Char} {p : Position}
    (h : Position.ofName? w = some p) : Constant.find? w = none := by
  cases hfind : Constant.find? w with
  | none => rfl
  | some constant =>
    have hfind : Constant.all.find? (fun c => c.name == String.ofList (w.map Char.toUpper)) =
        some constant := hfind
    have hsome := List.find?_some hfind
    have hname : w.map Char.toUpper = constant.name.toList := by
      rw [beq_iff_eq.1 hsome, String.toList_ofList]
    rw [← Position.ofName?_map_toUpper, hname] at h
    have hnone : Position.ofName? constant.name.toList = none := by cases constant <;> decide
    rw [hnone] at h
    cases h

/-- The name of a cell is written as that of the cell in its new place. -/
theorem stepName_moved {p : Position} {w w' : List Char} (hw : Position.ofName? w = some p)
    (hw' : Position.ofName? w' = some (move p)) (hcs : endsName cs = true)
    (hcs' : endsName cs' = true) (h : Counterpart .formula move .word cs cs') :
    StepsAlike literals move .free (stepName literals frames w cs)
      (stepName literals frames w' cs') := by
  have hname : ∀ {w : List Char} {p : Position} {cs : List Char}, Position.ofName? w = some p →
      endsName cs = true → stepName literals frames w cs = .ok ⟨p.name, frames, cs⟩ := by
    intro w p cs hw hcs
    have hparen : afterParenthesis? cs = none := by
      unfold afterParenthesis?
      split
      · rename_i hcs'
        rw [endsName, hcs'] at hcs
        cases hcs
      · rfl
    rw [stepName, hparen, canonicalName, find?_constant_of_ofName hw, hw]
  rw [hname hw hcs, hname hw' hcs']
  refine .step rfl h fun hr hr' hcounterpart u hu => ?_
  rw [hu.1 rfl]
  exact .name rfl rfl (endsName_of_lowerFrom hcs hr) (endsName_of_lowerFrom hcs' hr')
    (hcounterpart .word (.refl _))

theorem beginsNumber_eq (h : Counterpart .formula move (s.next c) cs cs') :
    beginsNumber c cs = beginsNumber c cs' := by
  have hany := h.any_head (p := Char.isDigit) fun _ => isDigit_of_isAlpha
  rw [beginsNumber, beginsNumber, hany]

/-- A character that is the same in both texts. -/
theorem stepArgument_alike (hpassed : isPassed c cs = true) (hpassed' : isPassed c cs' = true)
    (hword : isWord c = true → s ≠ .word →
      Script.formula.staysWord (c :: cs) = true ∧ Script.formula.staysWord (c :: cs') = true)
    (h : Counterpart .formula move (s.next c) cs cs') :
    StepsAlike literals move s (stepArgument literals frames c cs)
      (stepArgument literals frames c cs') := by
  unfold stepArgument
  rw [← beginsNumber_eq h, ← isSome_dropLead_lostReference hpassed hpassed' h]
  split
  · rename_i hnumber
    obtain ⟨hsame, t, ht, hrest⟩ := (Counterpart.char hpassed hpassed' hword h).splitNumber hnumber
    have hnumeral := (splitNumber_spec (c :: cs)).2
    rw [← hsame]
    exact .step rfl hrest fun _ _ hr _ _ =>
      .numeral_append hnumeral (hr .word ⟨fun hfree => absurd hfree ht, fun _ => rfl⟩)
  split
  · rename_i hletter
    have hascii := isAsciiWord_of_begins hletter
    have hc := isWord_of_letter hletter
    rw [Spot.next_of_isWord s hc] at h
    obtain ⟨htake, hdrop⟩ := h.dropWhile fun _ => isWord_of_isAsciiWord
    have hall : ∀ d ∈ c :: cs.takeWhile isAsciiWord, isAsciiWord d = true :=
      List.forall_mem_cons.2 ⟨hascii, List.all_eq_true.1 List.all_takeWhile⟩
    rw [List.takeWhile_cons_of_pos hascii, List.takeWhile_cons_of_pos hascii,
      List.dropWhile_cons_of_pos hascii, List.dropWhile_cons_of_pos hascii, ← htake]
    refine stepName_alike (List.cons_ne_nil _ _) hall head_dropWhile head_dropWhile
      (fun hs => ?_) hdrop
    rw [List.cons_append, List.cons_append, List.takeWhile_append_dropWhile, htake,
      List.takeWhile_append_dropWhile]
    exact hword hc hs
  rename_i hletter
  split
  · exact .fault rfl
  rename_i hlost
  rw [Bool.not_eq_true] at hlost
  have hlost' := (isSome_dropLead_lostReference hpassed hpassed' h).symm.trans hlost
  refine stepSymbol_alike ?_ ?_ hlost hlost' hpassed hpassed' h
  · rw [Bool.not_eq_true, Bool.or_eq_false_iff] at hletter
    exact hletter.1
  · rintro rfl
    cases hpassed

theorem lostReference_of_isBlank (hc : isBlank c = true) :
    (dropLead? lostReference (c :: cs)).isSome = false := by
  have hne : c ≠ '#' := by
    rintro rfl
    exact absurd hc (by decide)
  rw [dropLead_lostReference hne]
  rfl

/-- A character that is the same in both texts, whichever it is. -/
theorem stepChar_alike (hpassed : isPassed c cs = true) (hpassed' : isPassed c cs' = true)
    (hword : isWord c = true → s ≠ .word →
      Script.formula.staysWord (c :: cs) = true ∧ Script.formula.staysWord (c :: cs') = true)
    (h : Counterpart .formula move (s.next c) cs cs') :
    StepsAlike literals move s (step literals frames c cs) (step literals frames c cs') := by
  unfold step
  split
  · rename_i hb
    exact .kept (isAlpha_of_isBlank hb) hpassed hpassed' (lostReference_of_isBlank hb)
      (lostReference_of_isBlank hb) h
  split
  · rename_i hc
    subst hc
    rw [next_of_separator (by decide) (by decide) (by decide)] at h
    exact stepComma_alike h
  split
  · rename_i hc
    subst hc
    rw [next_of_separator (by decide) (by decide) (by decide)] at h
    exact stepClose_alike h
  · exact stepArgument_alike hpassed hpassed' hword h

/-- Where a name stands whole, the step taken is the one over that name. -/
theorem step_of_name (literals : List (List Char)) (frames : List Frame) {w cs : List Char}
    {p : Position} (hw : Position.ofName? w = some p) (hend : endsName cs = true) :
    ∃ d ds, w ++ cs = d :: ds ∧
      step literals frames d ds = stepName literals (markArgument frames) w cs := by
  obtain ⟨d, ds, rfl, hd⟩ := Script.exists_cons (k := .formula) ⟨p, hw⟩
  refine ⟨d, ds ++ cs, rfl, ?_⟩
  have hascii : ∀ c ∈ d :: ds, isAsciiWord c = true := fun c hc => by
    simp [isAsciiWord, Position.isAlphanum_of_ofName hw c hc]
  obtain ⟨htake, hdrop⟩ := takeWhile_append_of_head hascii fun c (hc : c ∈ cs.head?) =>
    isAsciiWord_of_not_isWord (head_of_endsName hend c hc)
  have hdigit := isDigit_of_isAlpha hd
  have hne : isBlank d = false ∧ d ≠ ',' ∧ d ≠ ')' ∧ d ≠ '.' := by
    refine ⟨isBlank_of_isAlpha hd, ?_, ?_, ?_⟩
    all_goals
      rintro rfl
      exact absurd hd (by decide)
  rw [List.cons_append] at htake hdrop
  simp [step, stepArgument, beginsNumber, hne, hdigit, hd, htake, hdrop]

/-- A quotation that nothing closes is the rest of both texts. -/
theorem stepUnclosed_alike (hquote : '"' ∉ cs) :
    StepsAlike literals move s (step literals frames '"' cs) (step literals frames '"' cs) := by
  refine .step (t := .free) rfl .nil fun hr hr' _ u _ => ?_
  simp only [stepSymbol, lowerFrom] at hr hr'
  cases hr
  cases hr'
  simp only [stepSymbol, List.append_nil]
  exact .unclosed hquote

theorem step_alike (literals : List (List Char)) (frames : List Frame) {text' : List Char}
    (h : Counterpart .formula move s (c :: cs) text') :
    ∃ c' cs', text' = c' :: cs' ∧
      StepsAlike literals move s (step literals frames c cs) (step literals frames c' cs') := by
  generalize htext : c :: cs = text at h
  cases h with
  | nil => cases htext
  | @char s d ds cs' hpassed hpassed' hword hcs =>
    cases htext
    exact ⟨c, cs', rfl, stepChar_alike hpassed hpassed' hword hcs⟩
  | @name p w w' cs cs' hw hw' hend hend' hcs =>
    obtain ⟨d, ds, htext', hstep⟩ := step_of_name literals frames hw hend
    obtain ⟨e, es, htext'', hstep'⟩ := step_of_name literals frames hw' hend'
    rw [htext'] at htext
    cases htext
    refine ⟨e, es, htext'', ?_⟩
    rw [hstep, hstep']
    exact stepName_moved hw hw' hend hend' hcs
  | block hb => exact hb.elim
  | unclosed hquote =>
    cases htext
    exact ⟨'"', cs, rfl, stepUnclosed_alike hquote⟩

end

/-! ## The whole -/

/-- Counterparts are written as counterparts, or not at all, for one kind of reason. -/
theorem lowerFrom_alike (literals : List (List Char)) (frames : List Frame)
    {move : Position → Position} {s : Spot} {cs cs' : List Char}
    (h : Counterpart .formula move s cs cs') :
    (∃ a b, lowerFrom literals frames cs = .error a ∧ lowerFrom literals frames cs' = .error b ∧
      a.kind = b.kind) ∨
    ∃ r r', lowerFrom literals frames cs = .ok r ∧ lowerFrom literals frames cs' = .ok r' ∧
      ∀ u, s.Admits u → Counterpart .expression move u r r' := by
  induction hn : cs.length using Nat.strongRecOn generalizing s frames cs cs' with
  | _ n ih =>
  subst hn
  cases cs with
  | nil =>
    rw [h.of_nil]
    refine .inr ⟨[], [], ?_, ?_, fun _ _ => .nil⟩ <;> rw [lowerFrom]
  | cons c cs =>
    obtain ⟨c', cs', rfl, hsteps⟩ := step_alike literals frames h
    rw [lowerFrom, lowerFrom]
    generalize hx : step literals frames c cs = x at hsteps
    generalize step literals frames c' cs' = y at hsteps
    cases hsteps with
    | @fault a b hkind => exact .inl ⟨a, b, rfl, rfl, hkind⟩
    | @step x y t hframes hrest hwritten =>
      dsimp only
      rw [hframes]
      rcases ih _ (length_rest_lt hx) x.frames hrest rfl with
        ⟨a, b, ha, hb, hkind⟩ | ⟨r, r', hr, hr', hcounterpart⟩
      · rw [ha, hb]
        exact .inl ⟨a, b, rfl, rfl, hkind⟩
      · rw [hr, hr']
        exact .inr ⟨_, _, rfl, rfl, hwritten hr hr' hcounterpart⟩

end Spreadsheet.Formula

import Spreadsheet.Proofs.Ending
import Spreadsheet.Proofs.Formula.Expansion
import Spreadsheet.Proofs.Formula.Lexeme
import Spreadsheet.Proofs.Formula.Rewriting

/-!
# References that are lost

A reference to a cell that goes, or that a copy would move off the sheet, leaves a
sign in the text, outside of the quotes. It has a character in front that no word,
number or range takes, so it is still there when ranges are listed and literals are
taken out, and writing the formula as an expression comes to it or to a fault before
it. Such a formula has no value and reads no cell, whatever it would choose.
-/
namespace Spreadsheet.Formula
open Text Position Expression

/-- A text with the sign of a lost reference outside of its quotes. -/
def HasLostReference (cs : List Char) : Prop :=
  ∃ before after, cs = before ++ lostReference ++ after ∧ Even (before.count '"')

/-- An edit or a copy of a text that takes away a cell to which the text refers. -/
inductive LosesReference (cs : List Char) : List Char → Prop
  | shift {shift : Shift} {cell : Position} : cell ∈ references cs → shift.apply cell = none →
      LosesReference cs (shiftReferences shift cs)
  | offset {dcol drow : Int} {cell : Position} : cell ∈ references cs →
      cell.offset dcol drow = none → LosesReference cs (offsetReferences dcol drow cs)

section
variable {cs before after xs ys : List Char} {cell : Position}

/-! ## Where the sign stands -/

/-- The sign stands after a text that does not have its first character. -/
theorem exists_lost_right (hxs : '#' ∉ xs) (h : before ++ lostReference ++ after = xs ++ ys) :
    ∃ t, before = xs ++ t ∧ ys = t ++ lostReference ++ after := by
  rw [List.append_assoc] at h
  rcases List.append_eq_append_iff.1 h with ⟨t, rfl, ht⟩ | ⟨t, rfl, ht⟩
  · cases t with
    | nil => exact ⟨[], by simp, by simpa using ht.symm⟩
    | cons c t =>
      have hc : '#' = c := (List.cons.inj ht).1
      exact absurd (List.mem_append_right _ (hc ▸ List.mem_cons_self)) hxs
  · exact ⟨t, rfl, by rw [ht, List.append_assoc]⟩

/-- The sign stands before a text that does not have its last character. -/
theorem exists_lost_left (hys : '!' ∉ ys) (h : before ++ lostReference ++ after = xs ++ ys) :
    ∃ t, xs = before ++ lostReference ++ t ∧ after = t ++ ys := by
  rcases List.append_eq_append_iff.1 h with ⟨t, hxs, ht⟩ | ⟨t, ht, hys'⟩
  · exact ⟨t, hxs, ht⟩
  · rcases List.eq_nil_or_concat t with rfl | ⟨t, c, rfl⟩
    · exact ⟨[], by simpa using ht.symm, by simpa using hys'.symm⟩
    · have hc : '!' = c := by
        have hlast := congrArg List.getLast? ht
        simpa [lostReference] using hlast
      subst hc
      exact absurd (by simp [hys']) hys

/-- The sign has no point, so it stands before a point or after it. -/
theorem lost_or_lost_of_point (h : before ++ lostReference ++ after = xs ++ '.' :: ys) :
    (∃ t, xs = before ++ lostReference ++ t) ∨
      ∃ t, before = xs ++ '.' :: t ∧ ys = t ++ lostReference ++ after := by
  rcases List.append_eq_append_iff.1 h with ⟨t, hxs, -⟩ | ⟨t, ht, hys⟩
  · exact .inl ⟨t, hxs⟩
  · cases t with
    | nil => exact .inl ⟨[], by simpa using ht.symm⟩
    | cons c t =>
      obtain ⟨rfl, rfl⟩ := List.cons.inj hys
      rw [List.append_cons] at ht
      rcases List.append_eq_append_iff.1 ht with ⟨u, hu, hlost⟩ | ⟨u, hu, hlost⟩
      · rcases List.eq_nil_or_concat u with rfl | ⟨u, c, rfl⟩
        · exact .inr ⟨[], by simpa using hu.symm, by simp_all⟩
        · have hc : '.' = c := by
            have hlast := congrArg List.getLast? hu
            simpa using hlast
          have hmem : '.' ∈ lostReference := by
            rw [hlost, ← hc]
            simp
          exact absurd hmem (by decide)
      · exact .inr ⟨u, by simpa using hu, by rw [hlost]; rfl⟩

/-- The sign stands before a range or after it. -/
theorem FirstRange.lost_or_lost {outside first last tail : List Char}
    (h : FirstRange cs outside first last tail) (hcs : cs = before ++ lostReference ++ after) :
    (∃ t, outside = before ++ lostReference ++ t) ∨
      ∃ t, before = outside ++ first ++ '.' :: '.' :: (last ++ t) ∧
        tail = t ++ lostReference ++ after := by
  have hfirst : '!' ∉ first := fun hmem => absurd (h.isAlphanum_first _ hmem) (by decide)
  have hlast : '#' ∉ '.' :: last := by
    rw [List.mem_cons, not_or]
    exact ⟨by decide, fun hmem => absurd (h.isAlphanum_last _ hmem) (by decide)⟩
  have htext := h.text
  rw [hcs] at htext
  rcases lost_or_lost_of_point htext with ⟨t, ht⟩ | ⟨t, hbefore, ht⟩
  · obtain ⟨u, hu, -⟩ := exists_lost_left hfirst ht.symm
    exact .inl ⟨u, hu⟩
  · obtain ⟨u, rfl, hu⟩ := exists_lost_right hlast ht.symm
    exact .inr ⟨u, hbefore, hu⟩

/-! ## Rewriting -/

/-- A text that begins within quotes or outside, with the sign of a lost reference outside. -/
def HasLostFrom (quoted : Bool) (cs : List Char) : Prop :=
  ∃ before after, cs = before ++ lostReference ++ after ∧ (Even (before.count '"') ↔ quoted = false)

variable {quoted : Bool}

theorem hasLostFrom_false : HasLostFrom false cs ↔ HasLostReference cs := by
  simp [HasLostFrom, HasLostReference]

theorem HasLostFrom.quote (h : HasLostFrom (!quoted) cs) : HasLostFrom quoted ('"' :: cs) := by
  obtain ⟨before, after, rfl, heven⟩ := h
  refine ⟨'"' :: before, after, rfl, ?_⟩
  rw [List.count_cons_self, Nat.even_add_one, heven]
  cases quoted <;> decide

theorem HasLostFrom.append (h : HasLostFrom quoted cs) (hxs : '"' ∉ xs) :
    HasLostFrom quoted (xs ++ cs) := by
  obtain ⟨before, after, rfl, heven⟩ := h
  refine ⟨xs ++ before, after, by simp only [List.append_assoc], ?_⟩
  rwa [List.count_append, List.count_eq_zero.2 hxs, Nat.zero_add]

/-- In a rewritten text the sign stands where the lost reference stood, outside of the quotes. -/
theorem hasLostFrom_of_mem_piecesFrom {f : Position → Option (List Char)}
    (hf : ∀ cell, ∀ name ∈ f cell, '"' ∉ name) {piece : Piece}
    (hpiece : piece ∈ piecesFrom quoted cs) (hlost : piece.reference?.bind f = some lostReference) :
    HasLostFrom quoted ((piecesFrom quoted cs).flatMap
      fun piece => (piece.reference?.bind f).getD piece.text) := by
  induction quoted, cs using piecesFrom.induct with
  | case1 quoted =>
    rw [piecesFrom] at hpiece
    cases hpiece
  | case2 quoted c cs hc ih =>
    obtain rfl : c = '"' := by simpa [isQuote] using hc
    rw [piecesFrom, if_pos hc] at hpiece ⊢
    rcases List.mem_cons.1 hpiece with rfl | hpiece
    · cases hlost
    · exact (ih hpiece).quote
  | case3 quoted c cs hc hother ih =>
    have hquote : '"' ∉ [c] := fun hmem => hc (beq_iff_eq.2 (List.mem_singleton.1 hmem).symm)
    rw [piecesFrom, if_neg hc, if_pos hother] at hpiece ⊢
    rcases List.mem_cons.1 hpiece with rfl | hpiece
    · cases hlost
    · exact (ih hpiece).append hquote
  | case4 quoted c cs hc hword ih =>
    rw [Bool.or_eq_true, not_or, Bool.not_eq_true, Bool.not_eq_true', Bool.not_eq_false] at hword
    obtain ⟨rfl, hword⟩ := hword
    have hall : ∀ d ∈ c :: cs.takeWhile isWord, isWord d = true :=
      List.forall_mem_cons.2 ⟨hword, List.all_eq_true.1 List.all_takeWhile⟩
    rw [piecesFrom, if_neg hc, if_neg (by simp [hword])] at hpiece ⊢
    rw [List.flatMap_cons]
    rcases List.mem_cons.1 hpiece with rfl | hpiece
    · exact ⟨[], _, by rw [hlost]; rfl, by simp⟩
    · refine (ih hpiece).append fun hmem => ?_
      cases hname : (Piece.word (c :: cs.takeWhile isWord)).reference?.bind f with
      | none =>
        rw [hname] at hmem
        exact ne_quote_of_isWord (hall _ hmem) rfl
      | some name =>
        rw [hname] at hmem
        obtain ⟨cell, -, hcell⟩ := Option.bind_eq_some_iff.1 hname
        exact hf cell name hcell hmem

theorem hasLostReference_replaceReferences {f : Position → Option (List Char)}
    (hf : ∀ cell, ∀ name ∈ f cell, '"' ∉ name) (hcell : cell ∈ references cs)
    (hlost : f cell = some lostReference) : HasLostReference (replaceReferences f cs) := by
  obtain ⟨piece, hpiece, hreference⟩ := List.mem_filterMap.1 hcell
  exact hasLostFrom_false.1
    (hasLostFrom_of_mem_piecesFrom hf hpiece (by rw [hreference]; exact hlost))

theorem no_quote_name (p : Position) : '"' ∉ p.name := fun hmem =>
  absurd (isAlphanum_of_mem_name hmem) (by decide)

theorem offset_zero (p : Position) : p.offset 0 0 = some p := by
  have hcoordinate : ∀ x : UInt64, coordinate? (x.toNat + 0) = some x := by
    intro x
    have hx := x.toNat_lt
    rw [coordinate?, Int.add_zero, if_pos ⟨Int.natCast_nonneg _, Int.ofNat_lt.2 hx⟩,
      Int.toNat_natCast, UInt64.ofNat_toNat]
  rw [Position.offset, hcoordinate, hcoordinate]
  rfl

theorem LosesReference.hasLostReference (h : LosesReference cs xs) : HasLostReference xs := by
  cases h with
  | @shift shift cell hcell hlost =>
    refine hasLostReference_replaceReferences (fun p name hname => ?_) hcell (by rw [hlost])
    split at hname
    · split at hname <;> cases hname
      exact no_quote_name _
    · cases hname
      decide
  | @offset dcol drow cell hcell hlost =>
    have hzero : ¬(dcol = 0 ∧ drow = 0) := by
      rintro ⟨rfl, rfl⟩
      rw [offset_zero] at hlost
      cases hlost
    rw [offsetReferences, if_neg hzero]
    refine hasLostReference_replaceReferences (fun p name hname => ?_) hcell (by rw [hlost])
    cases hname
    split
    · exact no_quote_name _
    · decide

/-! ## Percent signs and ranges -/

theorem count_quote_withoutPercents (cs : List Char) :
    (withoutPercents cs).count '"' = cs.count '"' := by
  induction cs with
  | nil => rfl
  | cons c cs ih =>
    by_cases hc : c = '%'
    · subst hc
      rw [withoutPercents_percent, List.count_append, ih]
      simp [percent]
    · rw [withoutPercents_cons hc, List.count_cons, List.count_cons, ih]

theorem HasLostReference.withoutPercents (h : HasLostReference cs) :
    HasLostReference (withoutPercents cs) := by
  obtain ⟨before, after, rfl, heven⟩ := h
  refine ⟨Formula.withoutPercents before, Formula.withoutPercents after, ?_, ?_⟩
  · rw [withoutPercents_append, withoutPercents_append,
      withoutPercents_of_not_mem (by decide : '%' ∉ lostReference)]
  · rwa [count_quote_withoutPercents]

/-- No range takes the sign, or a quote before it. -/
theorem FirstRange.hasLostReference {outside first last tail : List Char} {cells : List Position}
    (h : FirstRange cs outside first last tail) (hlost : HasLostReference cs) :
    HasLostReference (outside ++ listed cells ++ tail) := by
  obtain ⟨before, after, hcs, heven⟩ := hlost
  rcases h.lost_or_lost hcs with ⟨t, rfl⟩ | ⟨t, rfl, rfl⟩
  · exact ⟨before, t ++ listed cells ++ tail, by simp only [List.append_assoc], heven⟩
  · refine ⟨outside ++ listed cells ++ t, after, by simp only [List.append_assoc], ?_⟩
    have hfirst : '"' ∉ first := fun hmem => absurd (h.isAlphanum_first _ hmem) (by decide)
    have hlast : '"' ∉ last := fun hmem => absurd (h.isAlphanum_last _ hmem) (by decide)
    have hlisted : '"' ∉ listed cells := fun hmem => absurd (mem_listed hmem) (by decide)
    simpa [List.count_append, List.count_eq_zero.2 hfirst, List.count_eq_zero.2 hlast,
      List.count_eq_zero.2 hlisted] using heven

theorem Expands.hasLostReference {n : Nat} {ds : List Char} (h : Expands n cs (.ok ds))
    (hlost : HasLostReference cs) : HasLostReference ds := by
  generalize hr : (.ok ds : Except Fault (List Char)) = r at h
  induction h with
  | done =>
    cases hr
    exact hlost
  | listed h _ _ _ _ _ _ ih => exact ih (h.hasLostReference hlost) hr
  | _ => cases hr

/-! ## Literals -/

/-- The first quote of a text that ends outside of the quotes has a partner. -/
theorem exists_literal (hquote : '"' ∈ cs) (heven : Even (cs.count '"')) :
    ∃ front literal rest, cs = front ++ '"' :: (literal ++ '"' :: rest) ∧ '"' ∉ front ∧
      '"' ∉ literal ∧ Even (rest.count '"') := by
  obtain ⟨front, more, rfl, hfront⟩ := List.eq_append_cons_of_mem hquote
  rw [List.count_append, List.count_eq_zero.2 hfront, Nat.zero_add, List.count_cons_self,
    Nat.even_add_one] at heven
  have hmore : '"' ∈ more := List.count_pos_iff.1 (Nat.pos_of_ne_zero fun hzero => by
    rw [hzero] at heven
    exact heven ⟨0, rfl⟩)
  obtain ⟨literal, rest, rfl, hliteral⟩ := List.eq_append_cons_of_mem hmore
  rw [List.count_append, List.count_eq_zero.2 hliteral, Nat.zero_add, List.count_cons_self,
    Nat.even_add_one, not_not] at heven
  exact ⟨front, literal, rest, rfl, hfront, hliteral, heven⟩

/-- Without the literals no quote is left before the sign. -/
theorem lost_extractFrom (number : Nat) (after : List Char) (heven : Even (before.count '"')) :
    ∃ front rest, (extractFrom number (before ++ lostReference ++ after)).text =
      front ++ lostReference ++ rest ∧ '"' ∉ front := by
  induction hlength : before.length using Nat.strongRecOn generalizing before number with
  | _ n ih =>
    by_cases hquote : '"' ∈ before
    · obtain ⟨front, literal, rest, rfl, hfront, hliteral, hrest⟩ := exists_literal hquote heven
      have hless : rest.length < n := by
        rw [← hlength]
        simp only [List.length_append, List.length_cons]
        omega
      obtain ⟨more, tail, htext, hmore⟩ := ih _ hless (number + 1) hrest rfl
      refine ⟨front ++ (placeholder number ++ more), tail, ?_, ?_⟩
      · simp only [List.append_assoc, List.cons_append] at htext ⊢
        rw [extractFrom_append hfront, extractFrom_literal hliteral, htext]
      · simp only [List.mem_append, not_or]
        exact ⟨hfront, no_quote_placeholder number, hmore⟩
    · have hfront : '"' ∉ before ++ lostReference := by
        rw [List.mem_append, not_or]
        exact ⟨hquote, by decide⟩
      rw [extractFrom_append hfront]
      exact ⟨before, _, rfl, hquote⟩

/-! ## Writing it as an expression -/

variable {literals : List (List Char)} {frames : List Frame} {c : Char} {name rest : List Char}
  {s : Step}

/-- No step takes a part of the sign after its first character. -/
theorem takesNo_step (hc : c ≠ '"') (h : step literals frames c cs = .ok s) :
    TakesNo '#' cs s.rest := by
  rcases (lowers_of_step h).takesNo (d := '#') (by decide) (by decide) (by decide) with
    ⟨d, htext, -⟩ | htakes | ⟨-, -, hquote⟩
  · obtain ⟨-, rfl⟩ := List.cons.inj htext
    exact .refl _ _
  · exact htakes.of_cons (length_rest_lt h)
  · exact absurd (Option.some.inj hquote) hc

/-- A formula with the sign in front of its quotes is not written as an expression. -/
theorem lowerFrom_lost (literals : List (List Char)) (frames : List Frame) (after : List Char)
    (hquote : '"' ∉ before) :
    ∃ fault, lowerFrom literals frames (before ++ lostReference ++ after) = .error fault := by
  induction hlength : before.length using Nat.strongRecOn generalizing before frames with
  | _ n ih =>
    cases before with
    | nil =>
      have hstep : step literals frames '#' ("REF!".toList ++ after) =
          .error (.unrecognized (String.ofList lostReference)) := rfl
      exact ⟨_, lowerFrom_of_fault hstep⟩
    | cons c cs =>
      rw [List.mem_cons, not_or] at hquote
      cases hstep : step literals frames c (cs ++ lostReference ++ after) with
      | error fault => exact ⟨fault, lowerFrom_of_fault hstep⟩
      | ok s =>
        obtain ⟨used, htext, hused⟩ := takesNo_step (Ne.symm hquote.1) hstep
        obtain ⟨t, rfl, hrest⟩ := exists_lost_right hused htext
        have hless : t.length < n := by
          rw [← hlength, List.length_cons, List.length_append]
          omega
        have hfront : '"' ∉ t := fun hmem => hquote.2 (List.mem_append_right _ hmem)
        obtain ⟨fault, hfault⟩ := ih _ hless s.frames hfront rfl
        refine ⟨fault, (lowerFrom_of_step hstep).trans ?_⟩
        rw [hrest, hfault]
        rfl

theorem HasLostReference.ofText_eq_error [Engine] (h : HasLostReference cs) :
    ∃ fault, ofText cs = .error fault := by
  rw [ofText]
  cases hexpanded : expandRanges cs with
  | error fault => exact ⟨fault, rfl⟩
  | ok expanded =>
    obtain ⟨n, -, hexpands⟩ := exists_expands (Formula.withoutPercents cs)
    have hok : expandAfter [] (Formula.withoutPercents cs) = .ok expanded := hexpanded
    rw [hok] at hexpands
    obtain ⟨before, after, rfl, heven⟩ := hexpands.hasLostReference h.withoutPercents
    obtain ⟨front, rest, htext, hfront⟩ := lost_extractFrom 0 after heven
    obtain ⟨fault, hfault⟩ := lowerFrom_lost
      (extractFrom 0 (before ++ lostReference ++ after)).literals [] rest hfront
    refine ⟨fault, ?_⟩
    simp only [extractLiterals, compile, lower]
    rw [htext, hfault]

end

/-- A formula that has lost a reference, in an edit or in a copy, has a fault in the place of a
value and reads no cell, whichever cell it is in and whatever the others hold. -/
theorem LosesReference.resolve_eq_error [Engine] {cs ds : List Char} (h : LosesReference cs ds)
    (hcut : isUncuttable ds = false) : ∃ fault, fault ≠ .uncuttable ∧
      ∀ {σ : Type} (ω : Occasion) (own : Position) (operands : Operands σ) (s : σ),
        resolve ω ds own operands s = (⟨.error fault, []⟩, s) := by
  have hlost := h.hasLostReference
  obtain ⟨fault, hfault⟩ := hlost.ofText_eq_error
  refine ⟨fault, ?_, fun ω own operands s => ?_⟩
  · rintro rfl
    rw [isUncuttable_of_ofText hfault] at hcut
    cases hcut
  · have hblank : (trim ds).isEmpty = false := by
      obtain ⟨before, after, rfl, -⟩ := hlost
      rw [isEmpty_trim, List.all_eq_false]
      exact ⟨'#', by simp [lostReference], by decide⟩
    rw [resolve, hblank, hfault]
    rfl

open scoped StandardLibrary in
/-- The branch that is not chosen has lost its cell. -/
theorem LosesReference.resolve_eq_error_choice :
    shiftReferences (.deleteColumn 1) "IIF(1,A1,B1)".toList = "IIF(1,A1,#REF!)".toList ∧
    isUncuttable "IIF(1,A1,#REF!)".toList = false ∧ ∃ fault, fault ≠ .uncuttable ∧
      ∀ {σ : Type} (ω : Occasion) (own : Position) (operands : Operands σ) (s : σ),
        resolve ω "IIF(1,A1,#REF!)".toList own operands s = (⟨.error fault, []⟩, s) := by
  have hshift : shiftReferences (.deleteColumn 1) "IIF(1,A1,B1)".toList =
      "IIF(1,A1,#REF!)".toList := by decide +kernel
  have hcut : isUncuttable "IIF(1,A1,#REF!)".toList = false := by decide +kernel
  have hcell : (⟨0, 1⟩ : Position) ∈ references "IIF(1,A1,B1)".toList := by decide +kernel
  have hloses : LosesReference "IIF(1,A1,B1)".toList "IIF(1,A1,#REF!)".toList := by
    rw [← hshift]
    exact .shift hcell (by decide)
  exact ⟨hshift, hcut, LosesReference.resolve_eq_error hloses hcut⟩

end Spreadsheet.Formula

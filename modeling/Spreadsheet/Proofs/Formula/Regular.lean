import Spreadsheet.Proofs.Formula.SourceCounterpart

/-!
# Formulas whose references are shifted

The references of a formula are its words that look like cells. A formula is
regular if these words are the names of its operands: each of them stands by
itself, is not called and does not follow a point, and what else is named like a
cell is a function that is called. Nothing in a regular formula hides text but
its literals. Shifting its references gives a text that follows the cells.
-/
namespace Spreadsheet
open Position Text Expression

namespace Formula

/-- Whether a word of a formula, given what is before and after it, is the name of an operand if it
refers to a cell, and not otherwise. -/
def isRegularWord (s : Spot) (w rest : List Char) : Bool :=
  if (Piece.word w).reference?.isSome then s == .free && endsName (withoutPercents rest)
  else s == .word || Script.source.staysWord (w ++ withoutPercents rest)

/-- Whether the rest of a formula, given what is before it, refers to cells by its operands. After a
percent sign a word goes on with the number that stands for it. -/
def isRegularFrom (s : Spot) : List Char → Bool
  | [] => true
  | c :: cs =>
    if isQuote c then
      match _closed : cut isQuote cs with
      | none => true
      | some (_, after) => isRegularFrom .free after
    else if isWord c then
      isRegularWord s (c :: cs.takeWhile isWord) (cs.dropWhile isWord) &&
        isRegularFrom .word (cs.dropWhile isWord)
    else isPassed c (withoutPercents cs) && isRegularFrom (if c = '%' then .word else s.next c) cs
termination_by cs => cs.length
decreasing_by
  · have := length_lt_of_cut _closed
    simp only [List.length_cons]
    omega
  · have := length_dropWhile_le isWord cs
    simp only [List.length_cons]
    omega
  · simp

/-- Whether a formula refers to cells by its operands only, and by all of them. -/
def isRegular (cs : List Char) : Bool := isRegularFrom .free cs

section
variable {c : Char} {cs : List Char}

/-! ## References in order -/

theorem pieces_other (hquote : c ≠ '"') (hword : isWord c = false) (cs : List Char) :
    pieces (c :: cs) = .other c :: pieces cs := by
  rw [pieces, piecesFrom, if_neg (by simpa [isQuote] using hquote), if_pos (by simp [hword])]
  rfl

theorem pieces_word (hword : isWord c = true) (cs : List Char) :
    pieces (c :: cs) = .word (c :: cs.takeWhile isWord) :: pieces (cs.dropWhile isWord) := by
  rw [pieces, piecesFrom, if_neg (by simpa [isQuote] using ne_quote_of_isWord hword),
    if_neg (by simp [hword])]
  rfl

theorem piecesFrom_quoted (h : '"' ∉ cs) : piecesFrom true cs = cs.map .other := by
  induction cs with
  | nil => rw [piecesFrom]; rfl
  | cons c cs ih =>
    rw [List.mem_cons, not_or] at h
    rw [piecesFrom, if_neg (by simpa [isQuote] using Ne.symm h.1), if_pos (by simp), ih h.2]
    rfl

theorem piecesFrom_literal {literal : List Char} (h : '"' ∉ literal) (cs : List Char) :
    piecesFrom true (literal ++ '"' :: cs) = literal.map .other ++ .other '"' :: pieces cs := by
  induction literal with
  | nil =>
    rw [List.nil_append, piecesFrom, if_pos (by decide)]
    rfl
  | cons c literal ih =>
    rw [List.mem_cons, not_or] at h
    rw [List.cons_append, piecesFrom, if_neg (by simpa [isQuote] using Ne.symm h.1),
      if_pos (by simp), ih h.2]
    rfl

theorem pieces_quote (cs : List Char) : pieces ('"' :: cs) = .other '"' :: piecesFrom true cs := by
  rw [pieces, piecesFrom, if_pos (by decide)]
  rfl

theorem flatMap_other (f : Piece → List Char) (hf : ∀ c, f (.other c) = [c]) (cs : List Char) :
    (cs.map Piece.other).flatMap f = cs := by
  induction cs with
  | nil => rfl
  | cons c cs ih => rw [List.map_cons, List.flatMap_cons, hf, ih, List.singleton_append]

variable {replacement : Position → Option (List Char)}

theorem replaceReferences_other (hquote : c ≠ '"') (hword : isWord c = false) (cs : List Char) :
    replaceReferences replacement (c :: cs) = c :: replaceReferences replacement cs := by
  rw [replaceReferences, pieces_other hquote hword]
  rfl

theorem replaceReferences_word (hword : isWord c = true) (cs : List Char) :
    replaceReferences replacement (c :: cs) =
      ((Piece.word (c :: cs.takeWhile isWord)).reference?.bind replacement).getD
          (c :: cs.takeWhile isWord) ++ replaceReferences replacement (cs.dropWhile isWord) := by
  rw [replaceReferences, pieces_word hword]
  rfl

theorem replaceReferences_literal {literal : List Char} (h : '"' ∉ literal) (cs : List Char) :
    replaceReferences replacement ('"' :: (literal ++ '"' :: cs)) =
      '"' :: (literal ++ '"' :: replaceReferences replacement cs) := by
  rw [replaceReferences, pieces_quote, piecesFrom_literal h, List.flatMap_cons, List.flatMap_append,
    flatMap_other _ fun _ => rfl]
  rfl

theorem replaceReferences_unclosed (h : '"' ∉ cs) :
    replaceReferences replacement ('"' :: cs) = '"' :: cs := by
  rw [replaceReferences, pieces_quote, piecesFrom_quoted h, List.flatMap_cons,
    flatMap_other _ fun _ => rfl]
  rfl

theorem references_other (hquote : c ≠ '"') (hword : isWord c = false) (cs : List Char) :
    references (c :: cs) = references cs := by
  rw [references, pieces_other hquote hword]
  rfl

theorem references_word (hword : isWord c = true) (cs : List Char) : references (c :: cs) =
    (Piece.word (c :: cs.takeWhile isWord)).reference?.toList ++
      references (cs.dropWhile isWord) := by
  rw [references, pieces_word hword, List.filterMap_cons]
  cases (Piece.word (c :: cs.takeWhile isWord)).reference? <;> rfl

theorem references_literal {literal : List Char} (h : '"' ∉ literal) (cs : List Char) :
    references ('"' :: (literal ++ '"' :: cs)) = references cs := by
  have hnone : literal.filterMap (Piece.reference? ∘ Piece.other) = [] :=
    List.filterMap_eq_nil_iff.2 fun _ _ => rfl
  rw [references, pieces_quote, piecesFrom_literal h, List.filterMap_cons, List.filterMap_append,
    List.filterMap_map, hnone]
  rfl

/-! ## The shifted text -/

variable {k : Script} {move : Position → Position} {s : Spot} {cs' w : List Char}

theorem Counterpart.staysWord_append (hw : ∀ c ∈ w, isWord c = true)
    (h : Counterpart k move .word cs cs') (hstay : k.staysWord (w ++ cs) = true) :
    k.staysWord (w ++ cs') = true := by
  obtain ⟨htake, hdrop⟩ := h.dropWhile fun _ hc => hc
  rw [Script.staysWord, List.takeWhile_append_of_pos hw, List.dropWhile_append_of_pos hw] at hstay ⊢
  rw [← htake]
  rcases hdrop.afterParenthesis with ⟨hnone, hnone'⟩ | ⟨rest, rest', hsome, hsome', -⟩
  · rw [hnone']
    rwa [hnone] at hstay
  · rw [hsome']
    rwa [hsome] at hstay

/-- What keeps a name the name of an operand does so in a counterpart too. -/
theorem Counterpart.endsName (h : Counterpart k move s cs cs') (hend : endsName cs = true) :
    endsName cs' = true := by
  induction h with
  | nil => exact hend
  | @char s c cs cs' _ _ _ hcs ih =>
    by_cases hb : isBlank c = true
    · rw [endsName_cons_of_isBlank hb] at hend ⊢
      exact ih hend
    · rw [Bool.not_eq_true] at hb
      rw [endsName_cons hb] at hend ⊢
      simp only [Bool.and_eq_true, Bool.or_eq_true, beq_iff_eq] at hend ⊢
      exact ⟨hend.1, hend.2.imp_right (hcs.head_eq_some (by decide)).1⟩
  | name hw =>
    obtain ⟨c, w, rfl, hc⟩ := Script.exists_cons ⟨_, hw⟩
    rw [List.cons_append, endsName_cons (isBlank_of_isAlpha hc), isWord_of_isAlpha hc] at hend
    cases hend
  | block hb =>
    obtain ⟨b, rfl⟩ := Script.exists_block hb
    rw [List.cons_append, endsName_cons (by decide)] at hend
    cases hend
  | unclosed => exact hend

theorem Counterpart.hides_eq (h : Counterpart k move s cs cs') (c : Char) :
    hides c cs = hides c cs' := by
  have hhead : ∀ d : Char, d.isAlpha = false → (cs.head? == some d) = (cs'.head? == some d) := by
    intro d hd
    rw [Bool.eq_iff_iff, beq_iff_eq, beq_iff_eq]
    exact h.head_eq_some hd
  rw [hides, hides, bne, bne, hhead _ (by decide), hhead _ (by decide), hhead _ (by decide)]

/-! ## The shifted text -/

variable {replacement : Position → Option (List Char)}

theorem replaceReferences_nil : replaceReferences replacement [] = [] := by
  rw [replaceReferences, pieces, piecesFrom]
  rfl

theorem replaceReferences_lostReference (cs : List Char) :
    replaceReferences replacement ('R' :: 'E' :: 'F' :: '!' :: cs) =
      'R' :: 'E' :: 'F' :: '!' :: replaceReferences replacement cs := by
  have htake : ('E' :: 'F' :: '!' :: cs).takeWhile isWord = ['E', 'F'] := by
    rw [List.takeWhile_cons_of_pos (by decide), List.takeWhile_cons_of_pos (by decide),
      List.takeWhile_cons_of_neg (by decide)]
  have hdrop : ('E' :: 'F' :: '!' :: cs).dropWhile isWord = '!' :: cs := by
    rw [List.dropWhile_cons_of_pos (by decide), List.dropWhile_cons_of_pos (by decide),
      List.dropWhile_cons_of_neg (by decide)]
  have hnone : (Piece.word ['R', 'E', 'F']).reference? = none := by decide
  rw [replaceReferences_word (by decide), htake, hdrop, hnone,
    replaceReferences_other (by decide) (by decide)]
  rfl

theorem withoutPercents_eq_cons {d : Char} {rest : List Char} (hd : d ≠ '*')
    (h : withoutPercents cs = d :: rest) :
    ∃ after, cs = d :: after ∧ withoutPercents after = rest := by
  cases cs with
  | nil => cases h
  | cons c cs =>
    by_cases hc : c = '%'
    · subst hc
      cases h
      exact absurd rfl hd
    · rw [withoutPercents_cons hc] at h
      cases h
      exact ⟨cs, rfl, rfl⟩

/-- A lost reference is none of the references, so that it stays. -/
theorem isPassed_replaceReferences {d : Char} (hpassed : isPassed d (withoutPercents cs) = true)
    (h : Counterpart k move s (withoutPercents cs)
      (withoutPercents (replaceReferences replacement cs))) :
    isPassed d (withoutPercents (replaceReferences replacement cs)) = true := by
  by_cases hlost : (dropLead? lostReference (d :: withoutPercents cs)).isSome = true
  · obtain ⟨rfl, rest, hrest⟩ := eq_of_lostReference hlost
    obtain ⟨_, rfl, he⟩ := withoutPercents_eq_cons (by decide) hrest
    obtain ⟨_, rfl, hf⟩ := withoutPercents_eq_cons (by decide) he
    obtain ⟨_, rfl, hmark⟩ := withoutPercents_eq_cons (by decide) hf
    obtain ⟨_, rfl, -⟩ := withoutPercents_eq_cons (by decide) hmark
    rw [replaceReferences_lostReference]
    rfl
  · rw [Bool.not_eq_true] at hlost
    rw [isPassed, hlost, Bool.or_false, h.hides_eq] at hpassed
    rw [isPassed, Bool.and_eq_true, Bool.or_eq_true]
    rw [Bool.and_eq_true] at hpassed
    exact ⟨hpassed.1, .inl hpassed.2⟩

/-- A percent sign, written out, leaves both texts in the number that it ends with. -/
theorem Counterpart.percent (h : Counterpart k move .word cs cs') :
    Counterpart k move s (Formula.percent ++ cs) (Formula.percent ++ cs') := by
  have hslash : ∀ cs, isPassed '/' ('1' :: cs) = true := fun _ => by
    simp [isPassed, hides, backtick]
  have hhundred : Counterpart k move .free (['1', '0', '0'] ++ cs) (['1', '0', '0'] ++ cs') :=
    .digits_append (by decide) (by decide) h
  have hone : Counterpart k move .free (['1'] ++ '/' :: (['1', '0', '0'] ++ cs))
      (['1'] ++ '/' :: (['1', '0', '0'] ++ cs')) :=
    .digits_append (by decide) (by decide)
      (.char (hslash _) (hslash _) (fun hw => absurd hw (by decide)) hhundred)
  exact .symbol (by decide) (by decide) (hone.weaken ⟨fun _ => rfl, fun h => by cases h⟩)

theorem no_quote_withoutPercents (h : '"' ∉ cs) : '"' ∉ withoutPercents cs := by
  intro hmem
  obtain ⟨c, hc, hq⟩ := List.mem_flatMap.1 hmem
  split at hq
  · exact absurd hq (by decide)
  · exact h (List.mem_singleton.1 hq ▸ hc)

theorem withoutPercents_word (hw : ∀ d ∈ w, isWord d = true) : withoutPercents w = w :=
  withoutPercents_of_not_mem fun hp => absurd (hw _ hp) (by decide)

/-- A regular word that names a cell is replaced by the name of its new place; another one stays. -/
theorem counterpart_replaceWord {rest : List Char} (hw : ∀ d ∈ w, isWord d = true) (hne : w ≠ [])
    (hregular : isRegularWord s w rest = true)
    (hnames : ∀ p ∈ (Piece.word w).reference?, ∀ w, ofName? w = some p →
      ofName? ((replacement p).getD w) = some (move p))
    (h : Counterpart .source move .word (withoutPercents rest) cs') :
    Counterpart .source move s (w ++ withoutPercents rest)
      (withoutPercents (((Piece.word w).reference?.bind replacement).getD w) ++ cs') := by
  unfold isRegularWord at hregular
  cases hcell : (Piece.word w).reference? with
  | none =>
    simp only [hcell, Option.isSome_none, Bool.false_eq_true, if_false, Bool.or_eq_true,
      beq_iff_eq] at hregular
    rw [Option.bind_none, Option.getD_none, withoutPercents_word hw]
    refine h.word_append hw hne fun hs => ?_
    have hstay := hregular.resolve_left hs
    exact ⟨hstay, h.staysWord_append hw hstay⟩
  | some p =>
    simp only [hcell, Option.isSome_some, if_true, Bool.and_eq_true, beq_iff_eq] at hregular
    obtain ⟨rfl, hend⟩ := hregular
    have hwritten := (Option.filter_eq_some_iff.1 hcell).1
    have hnew := hnames p hcell _ hwritten
    have hnone : '%' ∉ (replacement p).getD w := fun hp =>
      absurd (isAlphanum_of_ofName hnew _ hp) (by decide)
    rw [Option.bind_some, withoutPercents_of_not_mem hnone]
    exact .name hwritten hnew hend (h.endsName hend) h

/-- Where all references are replaced by names of the new places, a regular text gets a
counterpart. -/
theorem counterpart_replaceReferences (hregular : isRegularFrom s cs = true)
    (hnames : ∀ p ∈ references cs, ∀ w, ofName? w = some p →
      ofName? ((replacement p).getD w) = some (move p)) :
    Counterpart .source move s (withoutPercents cs)
      (withoutPercents (replaceReferences replacement cs)) := by
  fun_induction isRegularFrom s cs with
  | case1 s =>
    rw [replaceReferences_nil]
    exact .nil
  | case2 s c cs hquote hcut =>
    have hc : c = '"' := beq_iff_eq.1 hquote
    subst hc
    have hcs := no_quote_of_cut_eq_none hcut
    rw [replaceReferences_unclosed hcs, withoutPercents_cons (by decide)]
    exact .unclosed (no_quote_withoutPercents hcs)
  | case3 s c cs hquote literal after hcut ih =>
    have hc : c = '"' := beq_iff_eq.1 hquote
    subst hc
    obtain ⟨rfl, hliteral⟩ := quoted_of_cut hcut
    rw [references_literal hliteral] at hnames
    have htext : ∀ cs : List Char, withoutPercents ('"' :: (literal ++ '"' :: cs)) =
        '"' :: (withoutPercents literal ++ ['"']) ++ withoutPercents cs := by
      intro cs
      rw [withoutPercents_cons (by decide), withoutPercents_append,
        withoutPercents_cons (by decide)]
      simp
    rw [replaceReferences_literal hliteral, htext, htext]
    exact .block ⟨_, no_quote_withoutPercents hliteral, rfl⟩ (ih hregular hnames)
  | case4 s c cs hquote hword ih =>
    obtain ⟨hname, hrest⟩ := Bool.and_eq_true_iff.1 hregular
    have hw : ∀ d ∈ c :: cs.takeWhile isWord, isWord d = true :=
      List.forall_mem_cons.2 ⟨hword, List.all_eq_true.1 List.all_takeWhile⟩
    have hcs : c :: cs = (c :: cs.takeWhile isWord) ++ cs.dropWhile isWord := by
      rw [List.cons_append, List.takeWhile_append_dropWhile]
    rw [references_word hword] at hnames
    rw [replaceReferences_word hword, withoutPercents_append]
    nth_rewrite 1 [hcs]
    rw [withoutPercents_append, withoutPercents_word hw]
    exact counterpart_replaceWord hw (List.cons_ne_nil _ _) hname
      (fun p hp => hnames p (List.mem_append_left _ (by simpa using hp)))
      (ih hrest fun p hp => hnames p (List.mem_append_right _ hp))
  | case5 s c cs hquote hword ih =>
    obtain ⟨hpassed, hrest⟩ := Bool.and_eq_true_iff.1 hregular
    have hc : c ≠ '"' := by
      rintro rfl
      exact hquote rfl
    rw [Bool.not_eq_true] at hword
    rw [references_other hc hword] at hnames
    have htail := ih hrest hnames
    rw [replaceReferences_other hc hword]
    by_cases hp : c = '%'
    · subst hp
      rw [withoutPercents_percent, withoutPercents_percent]
      exact htail.percent
    · rw [dif_neg hp] at htail
      rw [withoutPercents_cons hp, withoutPercents_cons hp]
      exact .char hpassed (isPassed_replaceReferences hpassed htail)
        (fun hw => by rw [hword] at hw; cases hw) htail

end

/-- A regular formula without ranges follows its cells when its references follow an insertion that
pushes none of them off the sheet, if it calls plain functions. -/
theorem follows_shiftReferences [Library] {shift : Shift} (hinsertion : shift.isInsertion = true)
    {cs : List Char} (hregular : isRegular cs = true) (hrange : ¬['.', '.'] <:+: cs)
    (hplain : CallsPlain cs) (hcells : ∀ p ∈ references cs, (shift.apply p).isSome = true) :
    Follows shift.place cs (shiftReferences shift cs) := by
  refine follows_of_counterpart (Shift.place_injective hinsertion)
    (counterpart_replaceReferences hregular fun p hp w hw => ?_) hrange hplain
  obtain ⟨p', hp'⟩ := Option.isSome_iff_exists.1 (hcells p hp)
  rw [← Shift.place_of_apply hinsertion hp', hp']
  dsimp only
  split
  · rename_i he
    rw [Option.getD_none, he, hw]
  · rw [Option.getD_some, ofName?_name]

end Formula
end Spreadsheet

import Spreadsheet.Expression.Compilation
import Spreadsheet.Proofs.Dialogue
import Spreadsheet.Proofs.Formula.Lowering
import Spreadsheet.Proofs.Formula.Repetition

/-!
# What a formula reads it mentions

The references of a formula are found without its grammar, and the cells that
it reads are found by evaluating it. Every cell that is read is among the
references, unless it has the name of a function, which the first reading takes
for none of them, or quotes and other marks that hide text stand together, so
that the two readings differ on what is quoted.
-/
namespace Spreadsheet.Formula
open Text Expression

/-! ## Text without its literals -/

section
variable {cs before after xs ys zs : List Char} {number : Nat}

theorem not_mem_of_cut_eq_none {p : Char → Bool} (h : cut p cs = none) :
    ∀ c ∈ cs, p c = false := by
  induction cs with
  | nil => simp
  | cons c cs ih =>
    rw [cut] at h
    split at h
    · cases h
    · rename_i hc
      rw [List.forall_mem_cons]
      exact ⟨by simpa using hc, ih (by simpa using h)⟩

/-- The text is cut at the first character of the class. -/
theorem not_mem_of_cut {p : Char → Bool} (h : cut p cs = some (before, after)) :
    ∀ c ∈ before, p c = false := by
  induction cs generalizing before with
  | nil => cases h
  | cons c cs ih =>
    rw [cut] at h
    split at h
    · cases h
      simp
    · rename_i hc
      obtain ⟨⟨b, a⟩, hr, he⟩ := Option.map_eq_some_iff.1 h
      cases he
      rw [List.forall_mem_cons]
      exact ⟨by simpa using hc, ih hr⟩

theorem no_quote_of_cut_eq_none (h : cut isQuote cs = none) : '"' ∉ cs :=
  fun hq => absurd (not_mem_of_cut_eq_none h _ hq) (by decide)

theorem quoted_of_cut (h : cut isQuote cs = some (before, after)) :
    cs = before ++ '"' :: after ∧ '"' ∉ before := by
  obtain ⟨c, hc, rfl⟩ := eq_of_cut h
  cases beq_iff_eq.1 hc
  exact ⟨rfl, fun hq => absurd (not_mem_of_cut h _ hq) (by decide)⟩

theorem extractFrom_of_no_quote (h : '"' ∉ cs) : extractFrom number cs = ⟨cs, []⟩ := by
  unfold extractFrom
  split
  · rfl
  · rename_i before rest hcut
    rw [(quoted_of_cut hcut).1] at h
    exact absurd (List.mem_append_right _ List.mem_cons_self) h

theorem no_quote_placeholder (number : Nat) : '"' ∉ placeholder number := by
  intro h
  rcases List.mem_append.1 h with h | h
  · rcases List.mem_append.1 h with h | h
    · exact absurd h (by decide)
    · exact absurd (Decimal.isDigit_of_mem_digits h) (by decide)
  · exact absurd h (by decide)

/-- Only a quote that is never closed stays in the text. -/
theorem count_extractFrom (number : Nat) (cs : List Char) :
    (extractFrom number cs).text.count '"' ≤ 1 := by
  fun_induction extractFrom number cs with
  | case1 number cs hopened =>
    exact Nat.le_of_eq (List.count_eq_zero.2 (no_quote_of_cut_eq_none hopened)) |>.trans
      (Nat.zero_le 1)
  | case2 number cs before rest hopened hclosed =>
    obtain ⟨rfl, hbefore⟩ := quoted_of_cut hopened
    rw [List.count_append, List.count_eq_zero.2 hbefore, List.count_cons_self,
      List.count_eq_zero.2 (no_quote_of_cut_eq_none hclosed)]
  | case3 number cs before rest hopened literal after hclosed others ih =>
    rw [List.count_append, List.count_append,
      List.count_eq_zero.2 (quoted_of_cut hopened).2, List.count_eq_zero.2 (no_quote_placeholder _)]
    simpa using ih

/-- Whether a text is plain after another depends on how it begins and on itself. -/
theorem isPlain_append_congr {escapes : Bool} {q : Quoting}
    (hides_eq : ∀ c, hides c ys = hides c zs)
    (h : isPlain escapes (quotingAfter escapes q xs) zs = true)
    (hplain : isPlain escapes q (xs ++ ys) = true) : isPlain escapes q (xs ++ zs) = true := by
  induction xs generalizing q with
  | nil => exact h
  | cons x xs ih =>
    rw [List.cons_append, isPlain, Bool.and_eq_true] at hplain ⊢
    have hx : hides x (xs ++ ys) = hides x (xs ++ zs) := by
      cases xs with
      | nil => exact hides_eq x
      | cons => rfl
    exact ⟨by rw [← hx]; exact hplain.1, ih h hplain.2⟩

theorem isPlain_placeholder_append (number : Nat) (ys : List Char) :
    isPlain false .outside (placeholder number ++ ys) = isPlain false .outside ys := by
  refine isPlain_append_of_isCalm fun c hc => ?_
  rcases List.mem_append.1 hc with hc | hc
  · rcases List.mem_append.1 hc with hc | hc
    · have hcalm : ∀ c ∈ "STR(".toList, isCalm c = true := by decide
      exact hcalm c hc
    · exact isCalm_of_isWord (isWord_of_isDigit (Decimal.isDigit_of_mem_digits hc))
  · cases List.mem_singleton.1 hc
    decide

theorem quotingAfter_inside (h : '"' ∉ cs) : quotingAfter false .inside cs = .inside := by
  induction cs with
  | nil => rfl
  | cons c cs ih =>
    rw [List.mem_cons, not_or] at h
    rw [quotingAfter_cons, show Quoting.next false .inside c = .inside by
      simp [Quoting.next, Ne.symm h.1], ih h.2]

/-- Where a literal and its quotes end nothing is quoted. -/
theorem quotingAfter_literal {literal : List Char} (hbefore : '"' ∉ before)
    (hliteral : '"' ∉ literal) :
    quotingAfter false .outside (before ++ '"' :: (literal ++ ['"'])) = .outside := by
  rw [quotingAfter_append, quotingAfter_outside hbefore, quotingAfter_cons,
    show Quoting.next false .outside '"' = .inside from rfl, quotingAfter_append,
    quotingAfter_inside hliteral]
  rfl

/-- A literal in its quotes, with a text before and one after it. -/
theorem split_of_cuts {literal rest : List Char} (hopened : cut isQuote cs = some (before, rest))
    (hclosed : cut isQuote rest = some (literal, after)) :
    cs = (before ++ '"' :: (literal ++ ['"'])) ++ after := by
  rw [(quoted_of_cut hopened).1, (quoted_of_cut hclosed).1]
  simp

/-- Taking out literals brings nothing that hides text to light. -/
theorem isPlain_extractFrom (h : isPlain false .outside cs = true) :
    isPlain false .outside (extractFrom number cs).text = true := by
  fun_induction extractFrom number cs with
  | case1 => exact h
  | case2 => exact h
  | case3 number cs before rest hopened literal after hclosed others ih =>
    have hbefore := (quoted_of_cut hopened).2
    have hafter : isPlain false .outside after = true := by
      rw [split_of_cuts hopened hclosed] at h
      have hplain := isPlain_of_append h
      rwa [quotingAfter_literal hbefore (quoted_of_cut hclosed).2] at hplain
    rw [(quoted_of_cut hopened).1] at h
    rw [List.append_assoc]
    have hides_eq : ∀ c, hides c ('"' :: rest) = hides c (placeholder number ++ others.text) :=
      fun _ => rfl
    refine isPlain_append_congr hides_eq ?_ h
    rw [quotingAfter_outside hbefore, isPlain_placeholder_append]
    exact ih hafter

/-- A word outside the quotes of two parts lies in the first, or it reaches to the end of that, or
it lies in the second. -/
theorem mem_runs_append {escapes afterWord : Bool} {w rest : List Char} (hxs : '"' ∉ xs)
    (h : (w, rest) ∈ runs escapes afterWord .outside (xs ++ ys)) :
    (∀ zs, ∃ tail, (w, tail) ∈ runs escapes afterWord .outside (xs ++ zs)) ∨
      rest = ys.dropWhile isWord ∨
      (w, rest) ∈ runs escapes (endsInWord afterWord xs) .outside ys := by
  induction xs generalizing afterWord with
  | nil => exact .inr (.inr h)
  | cons x xs ih =>
    rw [List.mem_cons, not_or] at hxs
    rw [List.cons_append, runs, next_outside (Ne.symm hxs.1)] at h
    have hothers : (w, rest) ∈ runs escapes (isWord x) .outside (xs ++ ys) →
        (∀ zs, ∃ tail, (w, tail) ∈ runs escapes afterWord .outside (x :: xs ++ zs)) ∨
          rest = ys.dropWhile isWord ∨
          (w, rest) ∈ runs escapes (endsInWord (isWord x) xs) .outside ys := by
      intro h
      refine (ih hxs.2 h).imp_left fun hin zs => (hin zs).imp fun tail htail => ?_
      have hsub := runs_subset_append escapes afterWord .outside [x] (xs ++ zs)
      rw [quotingAfter_cons, next_outside (Ne.symm hxs.1)] at hsub
      exact hsub htail
    split at h
    · rename_i hstart
      rcases List.mem_cons.1 h with he | h
      · cases he
        by_cases hall : ∀ c ∈ xs, isWord c = true
        · exact .inr (.inl (List.dropWhile_append_of_pos hall))
        · refine .inl fun zs => ⟨(xs ++ zs).dropWhile isWord, ?_⟩
          have htake : ∀ us, (xs ++ us).takeWhile isWord = xs.takeWhile isWord := by
            intro us
            rw [List.takeWhile_append, if_neg]
            intro hlength
            have hxs := (List.takeWhile_prefix isWord).eq_of_length hlength
            exact hall (List.all_eq_true.1 (by rw [← hxs]; exact List.all_takeWhile))
          rw [List.cons_append, runs, if_pos hstart, htake, htake]
          exact List.mem_cons_self
      · exact hothers h
    · exact hothers h

theorem endsInWord_append_of_not_isWord {c : Char} {w : Bool} (hc : isWord c = false) :
    endsInWord w (xs ++ [c]) = false := by
  rw [endsInWord_append, endsInWord_cons, endsInWord_nil, hc]

theorem placeholder_append (number : Nat) (ys : List Char) : placeholder number ++ ys =
    "STR".toList ++ ('(' :: (Decimal.digits number ++ [')']) ++ ys) := by
  simp [placeholder]

/-- What touches a placeholder is the name of a function there. -/
theorem mem_runs_of_placeholder {afterWord : Bool} {w rest : List Char}
    (h : (w, rest) ∈ runs false afterWord .outside (placeholder number ++ ys))
    (hrest : afterParenthesis? rest = none) : (w, rest) ∈ runs false false .outside ys := by
  have hinside : ∀ c ∈ '(' :: (Decimal.digits number ++ [')']), c.isAlpha = false := by
    intro c hc
    rcases List.mem_cons.1 hc with rfl | hc
    · decide
    rcases List.mem_append.1 hc with hc | hc
    · exact isAlpha_of_isDigit (Decimal.isDigit_of_mem_digits hc)
    · cases List.mem_singleton.1 hc
      decide
  have hquote : '"' ∉ '(' :: (Decimal.digits number ++ [')']) := by
    intro hq
    have := no_quote_placeholder number
    simp_all [placeholder]
  rw [placeholder_append] at h
  rcases mem_runs_word_append (by decide) (by decide) h with ⟨_, he⟩ | h
  · cases he
    cases hrest
  · rwa [runs_append_of_no_letter hinside, quotingAfter_outside hquote, endsInWord_cons,
      endsInWord_append_of_not_isWord (by decide)] at h

/-- A word outside the literals that no parenthesis follows is there before they are taken out. -/
theorem mem_runs_of_extractFrom {afterWord : Bool} {w rest : List Char}
    (h : (w, rest) ∈ runs false afterWord .outside (extractFrom number cs).text)
    (hrest : afterParenthesis? rest = none) :
    ∃ tail, (w, tail) ∈ runs false afterWord .outside cs := by
  fun_induction extractFrom number cs generalizing afterWord with
  | case1 => exact ⟨rest, h⟩
  | case2 => exact ⟨rest, h⟩
  | case3 number cs before rest' hopened literal after hclosed others =>
    rename_i ih
    rw [List.append_assoc] at h
    rcases mem_runs_append (quoted_of_cut hopened).2 h with hbefore | he | h
    · rw [(quoted_of_cut hopened).1]
      exact hbefore _
    · have hparenthesis : afterParenthesis? ((placeholder number ++ others.text).dropWhile isWord) =
          some (Decimal.digits number ++ [')'] ++ others.text) := by
        rw [placeholder_append, List.dropWhile_append_of_pos (by decide)]
        rfl
      rw [he, hparenthesis] at hrest
      cases hrest
    · obtain ⟨tail, htail⟩ := ih (mem_runs_of_placeholder h hrest)
      refine ⟨tail, ?_⟩
      have hsub := runs_subset_append false afterWord .outside
        (before ++ '"' :: (literal ++ ['"'])) after
      rw [quotingAfter_literal (quoted_of_cut hopened).2 (quoted_of_cut hclosed).2,
        endsInWord_append, endsInWord_cons, endsInWord_append_of_not_isWord (by decide),
        ← split_of_cuts hopened hclosed] at hsub
      exact hsub htail

end

/-! ## Words and references -/

section
variable {cs ys : List Char} {afterWord : Bool}

/-- Within quotes it does not matter whether a word goes on. -/
theorem runs_of_ne_outside {escapes : Bool} {q : Quoting} (hq : q ≠ .outside) :
    runs escapes afterWord q cs = runs escapes false q cs := by
  cases cs with
  | nil => rfl
  | cons c cs => simp [runs, hq]

/-- Where a text begins with no word character it does not matter whether a word goes on. -/
theorem runs_of_head {escapes : Bool} {q : Quoting} (h : ∀ c ∈ cs.head?, isWord c = false) :
    runs escapes afterWord q cs = runs escapes false q cs := by
  cases cs with
  | nil => rfl
  | cons c cs =>
    have hletter := isAlpha_of_not_isWord (h c rfl)
    rw [runs_cons_of_not_isAlpha hletter, runs_cons_of_not_isAlpha hletter]

theorem mem_piecesFrom_of_mem_runs {quoted : Bool} {w rest : List Char}
    (h : (w, rest) ∈ runs false false (if quoted then .inside else .outside) cs) :
    .word w ∈ piecesFrom quoted cs := by
  fun_induction piecesFrom quoted cs with
  | case1 => cases h
  | case2 quoted c cs hc ih =>
    cases beq_iff_eq.1 hc
    rw [runs_cons_of_not_isAlpha (by decide)] at h
    refine List.mem_cons_of_mem _ (ih ?_)
    cases quoted <;> exact h
  | case3 quoted c cs hc hplain ih =>
    refine List.mem_cons_of_mem _ (ih ?_)
    have hc : c ≠ '"' := fun he => hc (beq_iff_eq.2 he)
    cases quoted with
    | true =>
      rw [if_pos rfl, runs, if_neg (by simp)] at h
      have hnext : Quoting.next false .inside c = .inside := by simp [Quoting.next, hc]
      rw [hnext, runs_of_ne_outside (by decide)] at h
      exact h
    | false =>
      have hword : isWord c = false := by simpa using hplain
      rw [if_neg (by simp), runs_cons_of_not_isAlpha (isAlpha_of_not_isWord hword),
        next_outside hc, hword] at h
      exact h
  | case4 quoted c cs hc hplain ih =>
    simp only [Bool.or_eq_true, not_or, Bool.not_eq_true, Bool.not_eq_false'] at hplain
    obtain ⟨rfl, hword⟩ := hplain
    have hcs : c :: cs = c :: cs.takeWhile isWord ++ cs.dropWhile isWord := by
      rw [List.cons_append, List.takeWhile_append_dropWhile]
    have hword' : ∀ d ∈ c :: cs.takeWhile isWord, isWord d = true :=
      List.forall_mem_cons.2 ⟨hword, List.all_eq_true.1 List.all_takeWhile⟩
    have hrest : ∀ d ∈ (cs.dropWhile isWord).head?, isWord d = false := head_dropWhile
    rw [if_neg (by simp), hcs] at h
    rcases mem_runs_word_append (List.cons_ne_nil _ _) hword' h with ⟨_, he⟩ | h
    · have hnone : (cs.dropWhile isWord).takeWhile isWord = [] := by
        cases hd : cs.dropWhile isWord with
        | nil => rfl
        | cons d rest => simp [hrest d (by rw [hd]; rfl)]
      cases he
      rw [hnone, List.append_nil]
      exact List.mem_cons_self
    · rw [runs_of_head hrest] at h
      exact List.mem_cons_of_mem _ (ih h)

/-- A cell name outside the quotes refers to the cell unless a function has that name. -/
theorem mem_references_of_mem_runs {w rest : List Char} {q : Position}
    (h : (w, rest) ∈ runs false false .outside cs) (hq : Position.ofName? w = some q) :
    q ∈ references cs ∨ Builtin.isName q.name = true := by
  by_cases hb : Builtin.isName w = true
  · exact .inr (Position.isName_of_ofName hb hq)
  · refine .inl (List.mem_filterMap.2 ⟨.word w, mem_piecesFrom_of_mem_runs h, ?_⟩)
    simp [Piece.reference?, hq, hb]

end

/-! ## What is read -/

section
variable [Library]

/-- The functions that a formula calls ask only for names that are in it and have no value. -/
def AsksAsWritten (cs : List Char) : Prop :=
  ∀ f, ofText cs = .ok f → Tree.AsksAsWritten f.script

theorem mem_names_of_attempt {f : Compiled} (hf : Tree.AsksAsWritten f.script) {ω : Occasion}
    {b : Bindings} {n : String} (h : f.attempt ω b = .needs n) : n ∈ Tree.names f.script :=
  (Tree.asks_of_needs hf (evaluate_of_needs h)).1

theorem Dialogue.exists_of_mem_dependsOn {f : Compiled} (hf : Tree.AsksAsWritten f.script)
    {ω : Occasion} {own : Position} {n : Nat} {b : Bindings} {l : List Reading} {r : Resolution}
    (h : Dialogue ω f own n b l r) :
    ∀ q ∈ r.dependsOn, ∃ name ∈ Tree.names f.script, Position.ofName? name.toList = some q := by
  induction h with
  | resolved => simp
  | failed => simp
  | repeated => simp
  | exhausted => simp
  | unrecognized => simp
  | itself hn _ hq => simpa using ⟨_, mem_names_of_attempt hf hn, hq⟩
  | refused hn _ hq => simpa using ⟨_, mem_names_of_attempt hf hn, hq⟩
  | answered hn _ hq _ _ ih =>
    exact List.forall_mem_cons.2 ⟨⟨_, mem_names_of_attempt hf hn, hq⟩, ih⟩

/-- What an expression is compiled from. -/
theorem exists_tokens_of_compile {source : List Char} {t : Tree}
    (h : Engine.compile source = some t) : ∃ tokens u, tokens? source = some tokens ∧
      ofTokens? Library.levelLimit tokens = some u ∧ u.simplify = t := by
  obtain ⟨u, hu, rfl⟩ := Option.map_eq_some_iff.1 h
  obtain ⟨tokens, htokens, hu⟩ := Option.bind_eq_some_iff.1 hu
  exact ⟨tokens, u, htokens, hu, rfl⟩

/-- What a formula is compiled from: its expanded text without literals is lowered, and the names
of its tree are among the tokens of the expression. -/
theorem exists_tokens_of_ofText {cs : List Char} {f : Compiled} (h : ofText cs = .ok f) :
    ∃ expanded tokens, expandRanges cs = .ok expanded ∧
      lower (extractLiterals expanded).literals (extractLiterals expanded).text = .ok f.source ∧
      tokens? f.source = some tokens ∧ tokens.IsChain Token.MayPrecede ∧
      ∀ n ∈ Tree.names f.script, IsFrom tokens n := by
  unfold ofText at h
  split at h
  · cases h
  rename_i expanded hexpanded
  dsimp only [compile] at h
  split at h
  · cases h
  rename_i source hsource
  split at h <;> cases h
  rename_i hscript
  obtain ⟨tokens, tree, htokens, htree, rfl⟩ := exists_tokens_of_compile hscript
  obtain ⟨hchain, hfrom⟩ := read_of_ofTokens htree
  exact ⟨expanded, tokens, hexpanded, hsource, htokens, hchain,
    fun n hn => hfrom n (Tree.names_simplify tree hn)⟩

omit [Library] in
/-- The name of a cell has no modules before it, so that it is a token by itself. -/
theorem name_mem_of_isFrom {tokens : List Token} {n : String} {q : Position}
    (h : IsFrom tokens n) (hq : Position.ofName? n.toList = some q) : .name n ∈ tokens :=
  h.resolve_right fun hcolon => absurd (Position.isAlphanum_of_ofName hq _ hcolon) (by decide)

/-- A cell name in a compiled formula is a reference in its text. -/
theorem mem_references_of_ofText {cs expanded : List Char} {f : Compiled} {n : String}
    {q : Position} (hexpanded : expandRanges cs = .ok expanded) (h : ofText cs = .ok f)
    (hstep : IsInStep false expanded) (hn : n ∈ Tree.names f.script)
    (hq : Position.ofName? n.toList = some q) :
    q ∈ references expanded ∨ Builtin.isName q.name = true := by
  obtain ⟨_, tokens, hsame, hsource, htokens, hchain, hfrom⟩ := exists_tokens_of_ofText h
  cases hexpanded.symm.trans hsame
  have hcount := count_extractFrom 0 expanded
  have hsourceStep : IsInStep true f.source := by
    rcases hstep with hnone | hplain
    · rw [extractLiterals, extractFrom_of_no_quote hnone] at hsource
      exact .inl (no_quote_of_lowerFrom hsource hnone)
    · exact .inr (isPlain_of_lowerFrom hsource hcount (isPlain_extractFrom hplain))
  have hname := name_mem_of_isFrom (hfrom n hn) hq
  obtain ⟨after, hafter, hfraction⟩ := mem_runs_of_tokens htokens hsourceStep hchain hname
    (Position.isAlpha_head_of_ofName hq)
  rcases mem_runs_of_lowerFrom hsource hcount (fun h => h) hafter hfraction hq with
    hb | ⟨w, rest, hw, hrest, hq⟩
  · exact .inr hb
  · obtain ⟨tail, htail⟩ := mem_runs_of_extractFrom hw hrest
    exact mem_references_of_mem_runs htail hq

/-- A formula mentions every cell that it reads, but for one with the name of a function, if quotes
mean the same in its text and in its expression and no function looks for names by itself. -/
theorem mem_dependencies_of_mem_dependsOn {σ : Type} (ω : Occasion) (cs : List Char)
    (own : Position) (operands : Operands σ) (s : σ) (hasks : AsksAsWritten cs)
    (hstep : ∀ expanded, expandRanges cs = .ok expanded → IsInStep false expanded) :
    ∀ q ∈ (resolve ω cs own operands s).1.dependsOn,
      q ∈ dependencies cs ∨ Builtin.isName q.name = true := by
  intro q hq
  obtain ⟨l, hl, _⟩ := exists_dialogue ω cs own operands s
  generalize (resolve ω cs own operands s).1 = r at hl hq
  cases hl with
  | blank => cases hq
  | refused => cases hq
  | compiled _ hf hl =>
    obtain ⟨n, hn, hname⟩ := hl.exists_of_mem_dependsOn (hasks _ hf) q hq
    cases hexpanded : expandRanges cs with
    | error fault => simp [ofText, hexpanded] at hf
    | ok expanded =>
      simp only [dependencies, hexpanded]
      exact mem_references_of_ofText hexpanded hf (hstep expanded hexpanded) hn hname

/-- The cells that a text reads where every cell is blank. -/
def blankReadings (cs : List Char) : List Position :=
  (resolve .start cs ⟨9, 9⟩ (fun _ s => (.ok Value.blank, s)) ()).1.dependsOn

end

section
open scoped StandardLibrary

/-- The common functions look for no names. -/
theorem asksAsWritten (cs : List Char) : AsksAsWritten cs := fun _ _ =>
  Tree.asksAsWritten_of_asksNothing fun name _ => StandardLibrary.asksNothing name

theorem mem_dependencies_of_mem_dependsOn_choice :
    AsksAsWritten "IIF(A1>0,\"some\",SUM(B1..B2))".toList ∧
    (∀ expanded, expandRanges "IIF(A1>0,\"some\",SUM(B1..B2))".toList = .ok expanded →
      IsInStep false expanded) ∧
    blankReadings "IIF(A1>0,\"some\",SUM(B1..B2))".toList = [⟨0, 0⟩, ⟨0, 1⟩, ⟨1, 1⟩] ∧
    ∀ q ∈ blankReadings "IIF(A1>0,\"some\",SUM(B1..B2))".toList,
      q ∈ dependencies "IIF(A1>0,\"some\",SUM(B1..B2))".toList ∨ Builtin.isName q.name = true := by
  have hstep : ∀ expanded, expandRanges "IIF(A1>0,\"some\",SUM(B1..B2))".toList = .ok expanded →
      IsInStep false expanded := by
    intro expanded h
    have hok : expandRanges "IIF(A1>0,\"some\",SUM(B1..B2))".toList =
        .ok "IIF(A1>0,\"some\",SUM(B1,B2))".toList := by decide +kernel
    cases hok.symm.trans h
    decide
  have hasks := asksAsWritten "IIF(A1>0,\"some\",SUM(B1..B2))".toList
  exact ⟨hasks, hstep, by decide +kernel,
    mem_dependencies_of_mem_dependsOn _ _ _ _ _ hasks hstep⟩

/-- A cell with the name of a function is read and not mentioned. A comment that holds a quote hides
from the references what comes after it. A function that evaluates a text reads the cells in it. -/
theorem exists_unmentioned_reading :
    (blankReadings "LOG10+1".toList = [⟨9, 8508⟩] ∧ dependencies "LOG10+1".toList = []) ∧
      (blankReadings "A2 /* \" */ + B1".toList = [⟨1, 0⟩, ⟨0, 1⟩] ∧
        dependencies "A2 /* \" */ + B1".toList = [⟨1, 0⟩]) ∧
      @blankReadings (.evaluating ["B1"]) "eval!(\"B1\")".toList = [⟨0, 1⟩] ∧
      dependencies "eval!(\"B1\")".toList = [] := by
  decide +kernel

end

end Spreadsheet.Formula

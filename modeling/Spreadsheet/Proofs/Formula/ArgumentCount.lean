import Spreadsheet.Proofs.Formula.Counting
import Spreadsheet.Proofs.Formula.CounterpartTokens
import Spreadsheet.Proofs.Ending
import Spreadsheet.Proofs.Formula.Dependencies

/-!
# The number of arguments of a function

The commas of a formula are counted before it is compiled, and the items of the
lists that functions are given are counted when it is evaluated. Where all commas
of the formula part arguments the two agree. What is written for the formula is
counted by its commas, so its tokens are, and the tree that is read from them
has lists of arguments of accepted lengths only: no evaluation of the formula
fails for the number of a function's arguments.
-/
namespace Spreadsheet.Formula
open Text Expression

/-! ## Tokens of parts -/

/-- What is read of a text that begins with a part of an argument: a token that is such a part. If
it names a function, then the function's name is what was taken. -/
inductive ReadsPart (c : Char) (cs : List Char) : List Token → List Char → Prop
  | intro {t : Token} {used rest : List Char} : cs = used ++ rest → (∀ d ∈ used, isPart d = true) →
      t.isPart = true → t.depths [] = [] → (∀ f ∈ t.function?, f.name.toList = c :: used) →
      ReadsPart c cs [t] rest

section
variable {p : Place} {c : Char} {cs rest : List Char} {found : List Token}

theorem eq_name_of_callable {n : String} {f : Builtin} (h : callable? n = some f) : f.name = n := by
  have hfind := List.find?_some (Option.filter_eq_some_iff.1 h).1
  exact beq_iff_eq.1 hfind

theorem isPart_of_wordToken {w : List Char} {t : Token} (h : wordToken? w = some t) :
    t.isPart = true ∧ ∀ f ∈ t.function?, f.name.toList = w := by
  have hname : ∀ f ∈ callable? (String.ofList w), f.name.toList = w := fun f hf => by
    rw [eq_name_of_callable hf, String.toList_ofList]
  unfold wordToken? at h
  split at h
  case h_6 =>
    split at h
    · cases h
      exact ⟨rfl, hname⟩
    · split at h <;> cases h
      exact ⟨rfl, hname⟩
  all_goals
    cases h
    exact ⟨rfl, by simp [Token.function?]⟩

theorem isPart_literal {v : Datum} (hv : v ≠ .unit) : (Token.literal v).isPart = true := by
  cases v <;> first | rfl | exact absurd rfl hv

theorem isPart_of_isInNumeral (h : isInNumeral c = true) : isPart c = true := by
  rcases (Bool.or_eq_true ..).mp h with hword | hmem
  · simp [isPart, hword]
  · have htable : ∀ d ∈ ".+-".toList, isPart d = true := by decide
    exact htable c (List.contains_iff_mem.1 hmem)

theorem ReadsPart.literal {v : Datum} (h : TakesOnly isPart cs rest) (hv : v ≠ .unit) :
    ReadsPart c cs [.literal v] rest := by
  obtain ⟨used, hcs, hused⟩ := h
  exact .intro hcs hused (isPart_literal hv) rfl (by simp [Token.function?])

theorem exists_literal_of_scanNumber {isNegative : Bool} {d : Char}
    (h : scanNumber isNegative d cs = some (found, rest)) :
    ∃ v, v ≠ .unit ∧ found = [.literal v] ∧ TakesOnly isPart cs rest := by
  obtain ⟨⟨v, _⟩, hr, he⟩ := Option.map_eq_some_iff.1 h
  cases he
  exact ⟨v, ne_unit_of_readNumeral hr, rfl,
    (takesOnly_of_readNumeral hr).mono fun _ => isPart_of_isInNumeral⟩

theorem ReadsPart.of_beginsWithin (h : beginsWithin cs = some rest) :
    ReadsPart c cs [.connective (.operator .notWithin)] rest := by
  simp only [beginsWithin, Option.bind_eq_bind, Option.bind_eq_some_iff] at h
  obtain ⟨after, hlead, hrest⟩ := h
  split at hrest <;> cases hrest
  exact .intro (eq_of_dropLead hlead) (by decide) rfl rfl (by simp [Token.function?])

/-- The symbols that begin with no mark. -/
theorem symbols_part : ∀ entry ∈ symbols, entry.1.toList.head?.all (· ∉ marks) = true →
    entry.1.toList.tail.head? ≠ some '[' → ∀ t ∈ entry.2,
      (∀ d ∈ entry.1.toList.tail, isPart d = true) ∧
        t.isPart = true ∧ t.depths [] = [] ∧ t.function? = none := by
  decide

/-- The symbols that begin with an exclamation mark. -/
theorem symbols_exclamation : ∀ entry ∈ symbols, entry.1.toList.head? = some '!' →
    ∀ t ∈ entry.2, (t.isNegation = true ∧ entry.1.toList.tail = []) ∨
      (∀ d ∈ entry.1.toList.tail, isPart d = true) ∧
        t.isPart = true ∧ t.depths [] = [] ∧ t.function? = none := by
  decide

theorem ReadsPart.of_scanSymbol (hc : c ∉ marks) (hbracket : cs.head? ≠ some '[')
    (h : scanSymbol c cs = some (found, rest)) : ReadsPart c cs found rest := by
  have hexclamation : c ≠ '!' := by
    rintro rfl
    exact hc (by decide)
  rw [scanSymbol, if_neg hexclamation] at h
  dsimp only at h
  split at h
  · rename_i t after hsplit
    cases h
    obtain ⟨entry, hentry, htoken, hhead, hcs⟩ := entry_of_splitSymbol hsplit
    have htail : entry.1.toList.tail.head? ≠ some '[' := by
      intro htail
      obtain ⟨lead, hlead⟩ := List.head?_eq_some_iff.1 htail
      rw [hcs, hlead] at hbracket
      exact hbracket rfl
    obtain ⟨hused, hpart, hdepths, hfunction⟩ :=
      symbols_part entry hentry (by simpa [hhead] using hc) htail t htoken
    exact .intro hcs hused hpart hdepths (by simp [hfunction])
  · cases h

theorem ReadsPart.of_scanMinus (hbracket : cs.head? ≠ some '[')
    (h : scanMinus cs = some (found, rest)) : ReadsPart '-' cs found rest := by
  unfold scanMinus at h
  split at h
  · exact .of_scanSymbol (by decide) hbracket h
  · rename_i d tail
    split at h
    · rename_i hdigit
      obtain ⟨v, hv, rfl, htail⟩ := exists_literal_of_scanNumber h
      exact .literal (htail.cons (by simp [isPart, isAsciiWord_of_isDigit hdigit])) hv
    · exact .of_scanSymbol (by decide) hbracket h

/-- The cases are those of `scanOne`. -/
theorem ReadsPart.of_scan (hp : p.depths = []) (hblank : isBlank c = false) (hc : c ∉ marks)
    (hhides : hides c cs = false) (hbracket : cs.head? ≠ some '[')
    (h : scan p c cs = some (found, rest)) : ReadsPart c cs found rest := by
  have hmark : ∀ d ∈ marks, c ≠ d := by
    rintro d hd rfl
    exact hc hd
  have hascii : ¬isAsciiBlank c = true := fun ha => by
    rw [isBlank_of_isAsciiBlank ha] at hblank
    cases hblank
  rw [scan_of_depths hp, scanOne, if_neg hascii] at h
  split at h
  · obtain ⟨v, hv, rfl, htail⟩ := exists_literal_of_scanNumber h
    exact .literal htail hv
  split at h
  · obtain ⟨t, ht, he⟩ := Option.map_eq_some_iff.1 h
    cases he
    obtain ⟨hpart, hfunction⟩ := isPart_of_wordToken ht
    refine .intro List.takeWhile_append_dropWhile.symm (fun d hd => ?_) hpart
      (depths_of_wordToken ht) hfunction
    simp [isPart, List.all_eq_true.1 List.all_takeWhile d hd]
  simp only [hides, Bool.or_eq_false_iff, Bool.and_eq_false_iff, beq_eq_false_iff_ne,
    bne_eq_false_iff_eq] at hhides
  obtain ⟨⟨⟨hbacktick, hglyph⟩, -⟩, hcomment⟩ := hhides
  rw [if_neg (hmark '"' (by decide)), if_neg hbacktick, if_neg hglyph,
    if_neg fun hc => hmark '#' (by decide) hc.1, if_neg (by tauto), if_neg (by tauto)] at h
  split at h
  · rename_i hminus
    obtain ⟨rfl, -⟩ := hminus
    exact .of_scanMinus hbracket h
  · exact .of_scanSymbol hc hbracket h

end

/-! ## What is counted after a token -/

section
variable {p : Place} {c : Char} {before text rest used : List Char} {around : List Enclosure}
  {named : Option Builtin} {ts : List Token}

theorem CountedText.of_cons (h : CountedText before around (c :: text)) (hc : isPart c = true) :
    CountedText (c :: before) (mark around) text := by
  obtain ⟨hblank, hmem, -⟩ := isPart_spec hc []
  cases h with
  | blank hb =>
    rw [hblank] at hb
    cases hb
  | part _ _ _ h => exact h
  | _ => exact absurd (by decide) hmem

/-- The parts of an argument that were taken with the first one. -/
theorem CountedText.drop (hused : ∀ d ∈ used, isPart d = true)
    (h : CountedText before (mark around) (used ++ rest)) :
    CountedText (used.reverse ++ before) (mark around) rest := by
  induction used generalizing before with
  | nil => exact h
  | cons d used ih =>
    rw [List.forall_mem_cons] at hused
    have hrest := h.of_cons hused.1
    rw [mark_mark] at hrest
    simpa using ih hused.2 hrest

theorem CountedText.head_ne (h : CountedText before around text) : text.head? ≠ some '[' := by
  rintro hhead
  obtain ⟨text, rfl⟩ := List.head?_eq_some_iff.1 hhead
  cases h with
  | blank hb => cases hb
  | part _ hmem => exact hmem (by decide)

/-- Quotes that follow each other go on with one text. -/
theorem CountedText.readQuoted {margin : Option Nat} {s : List Char}
    (h : CountedText before around ('"' :: text))
    (hread : readQuoted '"' margin text = some (s, rest)) :
    CountedText ['"'] (mark around) rest := by
  generalize htext : '"' :: text = quoted at h
  induction h generalizing text s with
  | literal hafter ih =>
    rename_i before after t around
    cases htext
    rw [readQuoted_quote] at hread
    obtain ⟨r, hafterText, he⟩ := Option.map_eq_some_iff.1 hread
    obtain ⟨-, rfl⟩ := Prod.mk.inj he
    by_cases hquote : after.head? = some '"'
    · obtain ⟨tail, rfl⟩ := List.head?_eq_some_iff.1 hquote
      rw [readQuoted_double] at hafterText
      obtain ⟨r', hmore, rfl⟩ := Option.map_eq_some_iff.1 hafterText
      rw [← mark_mark]
      exact ih hmore rfl
    · rw [readQuoted_single _ hquote] at hafterText
      cases hafterText
      exact hafter
  | blank hb =>
    cases htext
    cases hb
  | part _ hmem =>
    cases htext
    exact absurd (by decide) hmem
  | _ => cases htext

/-- No function's name ends in that of another one. -/
theorem eq_of_endsIn {f g : Builtin} (hf : endsIn f before = true) (hg : endsIn g before = true) :
    f = g := by
  have htable : ∀ f ∈ Builtin.all, ∀ g ∈ Builtin.all,
      f.name.toList.reverse <+: g.name.toList.reverse → f = g := by
    decide
  have hmem : ∀ f : Builtin, f ∈ Builtin.all := fun f => by cases f <;> decide
  rw [endsIn_iff] at hf hg
  rcases List.prefix_or_prefix_of_prefix hf hg with h | h
  · exact htable f (hmem f) g (hmem g) h
  · exact (htable g (hmem g) f (hmem f) h).symm

/-! ## Tokens of marks -/

/-- The tokens of marks that are tokens by themselves. -/
def bracket? : Char → Option Token
  | ')' => some (.closed .round)
  | '[' => some (.opened .square)
  | ']' => some (.closed .square)
  | '\x7b' => some (.opened .curly)
  | '\x7d' => some (.closed .curly)
  | ',' => some .comma
  | _ => none

theorem scan_bracket {t : Token} (hp : p.depths = []) (h : bracket? c = some t) :
    scan p c text = some ([t], text) := by
  rw [scan_of_depths hp]
  unfold bracket? at h
  split at h <;> cases h <;> rfl

theorem depths_bracket {t : Token} (h : bracket? c = some t) : t.depths [] = [] := by
  unfold bracket? at h
  split at h <;> cases h <;> rfl

theorem tokensFrom_token {t : Token} (hp : p.depths = []) (hscan : scan p c text = some ([t], rest))
    (ht : t.depths [] = []) (h : tokensFrom p (c :: text) = some ts) :
    ∃ q others, q.depths = [] ∧ tokensFrom q rest = some others ∧ ts = t :: others := by
  rw [tokensFrom_of_some hscan] at h
  obtain ⟨others, hothers, rfl⟩ := Option.map_eq_some_iff.1 h
  exact ⟨_, others, depths_after hp ht, hothers, rfl⟩

theorem tokensFrom_bracket {t : Token} (hp : p.depths = []) (ht : bracket? c = some t)
    (h : tokensFrom p (c :: text) = some ts) :
    ∃ q others, q.depths = [] ∧ tokensFrom q text = some others ∧ ts = t :: others :=
  tokensFrom_token hp (scan_bracket hp ht) (depths_bracket ht) h

theorem scan_bars (hp : p.depths = []) :
    scan p '|' ('|' :: text) = some ([.connective (.junction .either)], text) := by
  rw [scan_of_depths hp]
  rfl

/-- An exclamation mark is a part of an argument with what follows it, or a token by itself. -/
theorem scan_exclamation {found : List Token} (hp : p.depths = [])
    (h : scan p '!' text = some (found, rest)) : ReadsPart '!' text found rest ∨
      found = [.negation] ∧ rest = text ∧ text.head? ≠ some '=' := by
  rw [scan_of_depths hp] at h
  have h : scanSymbol '!' text = some (found, rest) := h
  rw [scanSymbol, if_pos rfl] at h
  split at h
  · rename_i hwithin
    cases h
    exact .inl (.of_beginsWithin hwithin)
  split at h
  · rename_i t after hsplit
    cases h
    obtain ⟨entry, hentry, htoken, hhead, htext⟩ := entry_of_splitSymbol hsplit
    rcases symbols_exclamation entry hentry hhead t htoken with
      ⟨hnegation, htail⟩ | ⟨hused, hpart, hdepths, hfunction⟩
    · refine .inr ⟨?_, by rw [htext, htail]; rfl, fun hequal => ?_⟩
      · cases t <;> first | rfl | cases hnegation
      · obtain ⟨tail, rfl⟩ := List.head?_eq_some_iff.1 hequal
        have hunequal := splitSymbol_unequal tail
        rw [hsplit] at hunequal
        simp [hnegation] at hunequal
    · exact .inl (.intro htext hused hpart hdepths (by simp [hfunction]))
  · cases h

/-! ## All tokens -/

/-- A text that is counted by its commas, up to some length, has tokens that are counted so. The
functions that the token before names are those that the text before ends in. -/
def CountsTokens (bound : Nat) : Prop :=
  ∀ {before around text p named ts}, text.length < bound → CountedText before around text →
    p.depths = [] → (∀ f ∈ named, endsIn f before = true) → tokensFrom p text = some ts →
    Counted named around ts

/-- After a token that names no function. -/
theorem CountsTokens.unnamed {bound : Nat} (ih : CountsTokens bound) (hless : text.length < bound)
    (h : CountedText before around text) (hp : p.depths = [])
    (hts : tokensFrom p text = some ts) : Counted none around ts :=
  ih hless h hp (by simp) hts

theorem endsIn_of_name {f : Builtin} (h : f.name.toList = c :: used) :
    endsIn f (used.reverse ++ c :: before) = true := by
  obtain ⟨-, hname, -⟩ := name_spec f
  have hbefore : used.reverse ++ c :: before = f.name.toList.reverse ++ before := by
    rw [h, List.reverse_cons, List.append_assoc, List.singleton_append]
  have hne : f.name.toList ≠ [] := by
    rw [h]
    exact List.cons_ne_nil c used
  rw [endsIn_iff, hbefore, trimLeft_reverse_append hne fun d hd => (hname d hd).1]
  exact List.prefix_append _ _

/-- A part of an argument. -/
theorem counted_part {found : List Token} (ih : CountsTokens (text.length + 1))
    (hp : p.depths = []) (hrest : CountedText (c :: before) (mark around) text)
    (hreads : ReadsPart c text found rest)
    (hts : tokensFrom (p.after c found rest) rest = some ts) :
    Counted named around (found ++ ts) := by
  cases hreads with
  | @intro t used rest htext hused hpart hdepths hfunction =>
    subst htext
    have hless : rest.length < (used ++ rest).length + 1 := by
      rw [List.length_append]
      omega
    exact .part hpart (ih hless (hrest.drop hused) (depths_after hp hdepths)
      (fun f hf => endsIn_of_name (hfunction f hf)) hts)

theorem named_eq_none (hnamed : ∀ f ∈ named, endsIn f before = true)
    (hcall : ∀ f, endsIn f before = false) : named = none := by
  rw [Option.eq_none_iff_forall_not_mem]
  intro f hf
  cases (hcall f).symm.trans (hnamed f hf)

theorem counted_negation (ih : CountsTokens (text.length + 1)) (hp : p.depths = [])
    (hnamed : ∀ f ∈ named, endsIn f before = true)
    (hcall : text.head? = some '=' ∨ ∀ f, endsIn f before = false)
    (hrest : CountedText ('!' :: before) (mark around) text)
    (hts : tokensFrom p ('!' :: text) = some ts) : Counted named around ts := by
  obtain ⟨found, rest, others, hscan, hothers, rfl⟩ := tokensFrom_cons hts
  rcases scan_exclamation hp hscan with hreads | ⟨rfl, rfl, hequal⟩
  · exact counted_part ih hp hrest hreads hothers
  · cases named_eq_none hnamed (hcall.resolve_left hequal)
    exact .negation (ih.unnamed (Nat.lt_succ_self _) hrest (depths_after hp rfl) hothers)

theorem counted_opened (ih : CountsTokens (text.length + 1)) (hp : p.depths = [])
    (hnamed : ∀ f ∈ named, endsIn f before = true) (hcall : ∀ f, endsIn f before = false)
    (hrest : CountedText ('(' :: before) (.group :: mark around) text)
    (hts : tokensFrom p ('(' :: text) = some ts) : Counted named around ts := by
  cases named_eq_none hnamed hcall
  obtain ⟨found, rest, others, hscan, hothers, rfl⟩ := tokensFrom_cons hts
  rcases scan_parenthesis hp hscan with ⟨rfl, rfl⟩ | ⟨rfl, rfl⟩
  · exact .opened (ih.unnamed (Nat.lt_succ_self _) hrest (depths_after hp rfl) hothers)
  · have hclosed : CountedText (')' :: '(' :: before) (mark around) rest := by
      cases hrest with
      | blank hb => cases hb
      | part _ hmem => exact absurd (by decide) hmem
      | closed h => exact h
    exact .unit (ih.unnamed (Nat.lt_succ_of_lt (Nat.lt_succ_self _)) hclosed (depths_after hp rfl)
      hothers)

theorem counted_called {f : Builtin} (ih : CountsTokens (text.length + 2)) (hp : p.depths = [])
    (hnamed : ∀ f ∈ named, endsIn f before = true) (hcall : endsIn f before = true)
    (hrest : CountedText ('[' :: '(' :: before) (.arguments f 0 false false :: mark around) text)
    (hts : tokensFrom p ('(' :: '[' :: text) = some ts) : Counted named around ts := by
  obtain ⟨found, rest, others, hscan, hothers, rfl⟩ := tokensFrom_cons hts
  rcases scan_parenthesis hp hscan with ⟨rfl, rfl⟩ | ⟨-, hclosed⟩
  · obtain ⟨q, after, hq, hafter, rfl⟩ := tokensFrom_bracket (depths_after hp rfl) rfl hothers
    exact .called (fun g hg => eq_of_endsIn (hnamed g hg) hcall)
      (ih.unnamed (by omega) hrest hq hafter)
  · cases hclosed

theorem counted_literal {t : List Char}
    (ih : CountsTokens ((t.flatMap escape ++ '"' :: text).length + 1))
    (hp : p.depths = []) (hrest : CountedText ['"'] (mark around) text)
    (hts : tokensFrom p ('"' :: (t.flatMap escape ++ '"' :: text)) = some ts) :
    Counted named around ts := by
  obtain ⟨found, rest, others, hscan, hothers, rfl⟩ := tokensFrom_cons hts
  rw [scan_quote hp] at hscan
  obtain ⟨⟨s, after⟩, hread, he⟩ := Option.map_eq_some_iff.1 hscan
  cases he
  have hquoted : CountedText [] around ('"' :: (t.flatMap escape ++ '"' :: text)) := .literal hrest
  have hafter : CountedText ['"'] (mark around) after := hquoted.readQuoted hread
  exact .part rfl (ih.unnamed (Nat.lt_succ_of_lt (length_readQuoted_lt hread)) hafter
    (depths_after hp rfl) hothers)

/-- The tokens of a text that is counted by its commas are counted so. The cases are those of how
the text is counted. -/
theorem counted_of_tokensFrom (h : CountedText before around text) (hp : p.depths = [])
    (hnamed : ∀ f ∈ named, endsIn f before = true) (hts : tokensFrom p text = some ts) :
    Counted named around ts := by
  -- One token may take many characters, so the induction is on the length of the text.
  induction hn : text.length using Nat.strongRecOn
    generalizing before around text p named ts with
  | _ n ih =>
  subst hn
  have ih : CountsTokens text.length := fun hless h hp hnamed hts =>
    ih _ hless h hp hnamed hts rfl
  cases h with
  | nil =>
    rw [tokensFrom] at hts
    cases hts
    exact .nil
  | blank hb hrest =>
    obtain ⟨q, hq, hts⟩ := tokensFrom_blank hb hp hts
    refine ih (Nat.lt_succ_self _) hrest hq (fun f hf => ?_) hts
    rw [endsIn_cons_of_isBlank hb]
    exact hnamed f hf
  | part hb hmem hhides hrest =>
    obtain ⟨found, rest, others, hscan, hothers, rfl⟩ := tokensFrom_cons hts
    exact counted_part ih hp hrest (.of_scan hp hb hmem hhides hrest.head_ne hscan) hothers
  | bars hrest =>
    obtain ⟨q, others, hq, hothers, rfl⟩ := tokensFrom_token hp (scan_bars hp) rfl hts
    exact .part rfl (ih.unnamed (Nat.lt_succ_of_lt (Nat.lt_succ_self _)) hrest hq hothers)
  | negation hcall hrest => exact counted_negation ih hp hnamed hcall hrest hts
  | opened hcall hrest => exact counted_opened ih hp hnamed hcall hrest hts
  | called hcall hrest => exact counted_called ih hp hnamed hcall hrest hts
  | closed hrest =>
    obtain ⟨q, others, hq, hothers, rfl⟩ := tokensFrom_bracket hp rfl hts
    exact .closed (ih.unnamed (Nat.lt_succ_self _) hrest hq hothers)
  | complete haccepts hrest =>
    obtain ⟨q, others, hq, hothers, rfl⟩ := tokensFrom_bracket hp rfl hts
    obtain ⟨q, after, hq, hafter, rfl⟩ := tokensFrom_bracket hq rfl hothers
    exact .complete haccepts (ih.unnamed (Nat.lt_succ_of_lt (Nat.lt_succ_self _)) hrest hq hafter)
  | openedBlock hrest =>
    obtain ⟨q, others, hq, hothers, rfl⟩ := tokensFrom_bracket hp rfl hts
    exact .openedBlock (ih.unnamed (Nat.lt_succ_self _) hrest hq hothers)
  | closedBlock hrest =>
    obtain ⟨q, others, hq, hothers, rfl⟩ := tokensFrom_bracket hp rfl hts
    exact .closedBlock (ih.unnamed (Nat.lt_succ_self _) hrest hq hothers)
  | comma hrest =>
    obtain ⟨q, others, hq, hothers, rfl⟩ := tokensFrom_bracket hp rfl hts
    exact .comma (ih.unnamed (Nat.lt_succ_self _) hrest hq hothers)
  | literal hrest => exact counted_literal ih hp hrest hts
  | surplus =>
    obtain ⟨q, others, -, -, rfl⟩ := tokensFrom_bracket hp rfl hts
    exact .surplus

end

/-! ## Formulas -/

/-- Whether all commas in the text of a formula part the arguments of functions, once its ranges are
expanded and its literals taken out. -/
def partsArguments (cs : List Char) : Bool :=
  match expandRanges cs with
  | .ok expanded => isCountable (extractLiterals expanded).text
  | .error _ => true

section
variable [Library] {cs : List Char} {f : Compiled}

/-- The tree of a formula whose commas part arguments has lists of arguments of accepted lengths. -/
theorem isCounted_of_ofText (hcs : partsArguments cs = true) (hf : ofText cs = .ok f) :
    Tree.IsCounted f.script := by
  unfold ofText at hf
  unfold partsArguments at hcs
  split at hf
  · cases hf
  rename_i expanded hexpanded
  rw [hexpanded] at hcs
  dsimp only at hcs hf
  unfold compile at hf
  split at hf
  · cases hf
  rename_i source hsource
  split at hf <;> cases hf
  rename_i tree htree
  obtain ⟨tokens, u, htokens, hu, rfl⟩ := exists_tokens_of_compile htree
  have hwritten : CountedText [] [] source := countedText_of_lowerFrom hcs (.nil _) hsource
  have hcounted : Counted none [] tokens := counted_of_tokensFrom hwritten rfl (by simp) htokens
  exact (isCounted_of_ofTokens hcounted hu).simplify

theorem attempt_ne_argumentCount (h : Tree.IsCounted f.script)
    (hlibrary : Tree.SparesCounts f.script) (ω : Occasion) (bindings : Bindings)
    (function : Builtin) : f.attempt ω bindings ≠ .failed (.failed (.argumentCount function)) := by
  intro hfailed
  rcases evaluate_of_failed hfailed with ⟨failure, hfault, hevaluate⟩ | ⟨type, hfault⟩
  · cases hfault
    exact h.isTaken hlibrary ω bindings function hevaluate
  · cases hfault

/-- If no evaluation of a formula fails for the number of a function's arguments, its resolution
does so only where an operand does. -/
theorem exists_operand_of_resolve {σ : Type} {ω : Occasion} {own : Position}
    {operands : Operands σ} {s : σ} {function : Builtin}
    (hf : ∀ ω b, f.attempt ω b ≠ .failed (.failed (.argumentCount function)))
    (h : (f.resolve ω own operands s).1.outcome = .error (.failed (.argumentCount function))) :
    ∃ cell t, (operands cell t).1 = .error (.failed (.argumentCount function)) := by
  obtain ⟨l, hl, hanswers⟩ := exists_dialogue_from ω operands f own _ [] s
  obtain ⟨x, hx, hanswer⟩ := hl.answer_of_fault hf nofun nofun nofun h
  obtain ⟨t, ht⟩ := hanswers.exists_of_mem hx
  exact ⟨x.cell, t, ht.trans hanswer⟩

/-- Where all commas of a formula part arguments, the numbers of arguments that are accepted when it
is compiled are accepted when it is evaluated. Its tree has as many items in each list of arguments
as the function takes. No evaluation fails for the number of a function's arguments, and so no
resolution does unless it reads an operand that does, if no function of the library that the formula
calls fails so by itself. -/
theorem argument_counts_accepted (hcs : partsArguments cs = true) (hf : ofText cs = .ok f) :
    Tree.IsCounted f.script ∧ (Tree.SparesCounts f.script →
      (∀ ω bindings function,
        f.attempt ω bindings ≠ .failed (.failed (.argumentCount function))) ∧
      ∀ {σ : Type} (ω : Occasion) (own : Position) (operands : Operands σ) (s : σ)
          (function : Builtin),
        (f.resolve ω own operands s).1.outcome = .error (.failed (.argumentCount function)) →
          ∃ cell t, (operands cell t).1 = .error (.failed (.argumentCount function))) := by
  have hcounted := isCounted_of_ofText hcs hf
  refine ⟨hcounted, fun hlibrary => ?_⟩
  have hattempt := attempt_ne_argumentCount hcounted hlibrary
  exact ⟨hattempt, fun ω own operands s function h =>
    exists_operand_of_resolve (fun ω b => hattempt ω b function) h⟩

end

section
open scoped StandardLibrary

/-- A choice, a call in an argument, brackets in an argument, and a call without arguments. -/
theorem argument_counts_accepted_choice : ∃ (cs : List Char) (f : Compiled),
    cs = "IIF(A1>0,SUM(1,(2),MAX(A1..B2)),POW(A2,3))||RAND( )".toList ∧
    partsArguments cs = true ∧ ofText cs = .ok f ∧ Tree.IsCounted f.script ∧
    Tree.SparesCounts f.script ∧
    ∀ ω bindings function, f.attempt ω bindings ≠ .failed (.failed (.argumentCount function)) := by
  obtain ⟨cs, hcs⟩ : ∃ cs : List Char,
    cs = "IIF(A1>0,SUM(1,(2),MAX(A1..B2)),POW(A2,3))||RAND( )".toList := ⟨_, rfl⟩
  have hparts : partsArguments cs = true := by
    rw [hcs]
    decide +kernel
  have hok : (ofText cs).toBool = true := by
    rw [hcs]
    decide +kernel
  cases hf : ofText cs with
  | error fault =>
    rw [hf] at hok
    cases hok
  | ok f =>
    obtain ⟨hcounted, hcounts⟩ := argument_counts_accepted hparts hf
    have hlibrary := StandardLibrary.sparesCounts f.script
    exact ⟨cs, f, hcs, hparts, hf, hcounted, hlibrary, (hcounts hlibrary).1⟩

theorem exists_of_map_attempt {cs : List Char} {bindings : Bindings} {a : Attempt}
    (h : (ofText cs).toOption.map (Compiled.attempt · .start bindings) = some a) :
    ∃ f, ofText cs = .ok f ∧ f.attempt .start bindings = a := by
  cases hf : ofText cs with
  | error fault =>
    rw [hf] at h
    cases h
  | ok f =>
    rw [hf] at h
    exact ⟨f, rfl, Option.some.inj h⟩

/-- A comma before the closing parenthesis counts as one more argument when the formula is compiled,
but parts nothing in the list that is evaluated. A list in brackets, a comment and a text that is a
single character have commas that count though they part no arguments. -/
theorem exists_accepted_argument_count_failing :
    (∃ f, ofText "SUM(1,)".toList = .ok f ∧
      f.attempt .start [] = .failed (.failed (.argumentCount .sum))) ∧
    (∃ f, ofText "POW(2,)".toList = .ok f ∧
      f.attempt .start [] = .failed (.failed (.argumentCount .pow))) ∧
    (∃ f, ofText "SUM([1,2])".toList = .ok f ∧
      f.attempt .start [] = .failed (.failed (.argumentCount .sum))) ∧
    (∃ f, ofText "MOD(2/*,*/)".toList = .ok f ∧
      f.attempt .start [] = .failed (.failed (.argumentCount .mod))) ∧
    ∃ f, ofText "POW(',')".toList = .ok f ∧
      f.attempt .start [] = .failed (.failed (.argumentCount .pow)) := by
  refine ⟨exists_of_map_attempt ?_, exists_of_map_attempt ?_, exists_of_map_attempt ?_,
    exists_of_map_attempt ?_, exists_of_map_attempt ?_⟩
  all_goals decide +kernel

end

end Spreadsheet.Formula

import Spreadsheet.Proofs.Expression.RenamedTokens
import Spreadsheet.Proofs.Formula.CounterpartParts
import Spreadsheet.Proofs.Position.Insertion

/-!
# The tokens of counterparts

The tokens of two expressions of which one is the counterpart of the other are
the same but for the names of cells, if an expression can be read from them at
all. Neither expression has tokens if the other one has none.
-/
namespace Spreadsheet

def Expression.Token.isNegation : Token → Bool
  | negation => true
  | _ => false

namespace Formula
open Text Expression

/-! ## Calls among the tokens -/

section
variable {p : Place} {c : Char} {cs rest : List Char} {ts : List Token}

theorem tokensFrom_cons (h : tokensFrom p (c :: cs) = some ts) :
    ∃ found rest others, scan p c cs = some (found, rest) ∧
      tokensFrom (p.after c found rest) rest = some others ∧ ts = found ++ others := by
  rw [tokensFrom] at h
  split at h
  · cases h
  · rename_i found rest hscan
    obtain ⟨others, hothers, rfl⟩ := Option.map_eq_some_iff.1 h
    exact ⟨found, rest, others, hscan, hothers, rfl⟩

theorem scan_of_depths (h : p.depths = []) : scan p c cs = scanOne p c cs :=
  if_neg fun hc => by simp [Place.endsPart, h] at hc

theorem scan_quote (h : p.depths = []) : scan p '"' cs =
    (readQuoted '"' (some (p.indentation cs)) cs).map fun r => ([textToken r.1], r.2) :=
  scan_of_depths h

theorem scanSymbol_eq_none (h : ∀ entry ∈ symbols, entry.1.toList.head? ≠ some c) (hc : c ≠ '!') :
    scanSymbol c cs = none := by
  have hnone : splitSymbol? (c :: cs) = none := by
    refine List.findSome?_eq_none_iff.2 fun entry hentry => ?_
    obtain ⟨d, lead, hlead⟩ := List.exists_cons_of_ne_nil (symbols_spec entry hentry).1
    have hd : d ≠ c := fun hd => h entry hentry (by rw [hlead, hd]; rfl)
    dsimp only
    rw [hlead, dropLead?, if_neg hd]
    rfl
  rw [scanSymbol, if_neg hc, hnone]

theorem depths_after {t : Token} (hp : p.depths = []) (ht : t.depths [] = []) :
    (p.after c [t] rest).depths = [] := by
  rw [Place.after, hp]
  exact ht

/-- Blanks are no tokens, and those outside ASCII are nothing at all. -/
theorem tokensFrom_blank (hc : isBlank c = true) (hp : p.depths = [])
    (h : tokensFrom p (c :: cs) = some ts) :
    ∃ q : Place, q.depths = [] ∧ tokensFrom q cs = some ts := by
  obtain ⟨found, rest, others, hscan, hothers, rfl⟩ := tokensFrom_cons h
  rw [scan_of_depths hp, scanOne] at hscan
  by_cases hascii : isAsciiBlank c = true
  · rw [if_pos hascii] at hscan
    cases hscan
    exact ⟨p.after c [] cs, hp, hothers⟩
  · have hword := isWord_eq_false_of_isBlank hc
    have hletter := letter_of_not_isWord hword
    have hdigit := isDigit_of_not_isWord hword
    have hne : ∀ d, isBlank d = false → c ≠ d := by
      rintro d hd rfl
      rw [hc] at hd
      cases hd
    have hnone : scanSymbol c cs = none := by
      have hsymbols : ∀ entry ∈ symbols, entry.1.toList.head?.all (fun d => !isBlank d) = true := by
        decide
      refine scanSymbol_eq_none (fun entry hentry hhead => ?_) (hne _ (by decide))
      have := hsymbols entry hentry
      rw [hhead] at this
      simp [hc] at this
    rw [if_neg hascii, if_neg (by simp [hdigit]), if_neg (by simp [hletter]),
      if_neg (hne _ (by decide)), if_neg (hne _ (by decide)), if_neg (hne _ (by decide)),
      if_neg fun h => hne _ (by decide) h.1, if_neg fun h => hne _ (by decide) h.1,
      if_neg fun h => hne _ (by decide) h.1, if_neg fun h => hne _ (by decide) h.1, hnone] at hscan
    cases hscan

theorem beginsCall_cons {token : Token} (h : token.isNegation = false) :
    beginsCall (token :: ts) = beginsArguments [token] := by
  cases token with
  | negation => cases h
  | literal v => cases v <;> rfl
  | opened bracket => cases bracket <;> rfl
  | _ => rfl

/-- An open parenthesis is a token by itself unless the closing one follows at once. -/
theorem scan_parenthesis {found : List Token} (hp : p.depths = [])
    (h : scan p '(' cs = some (found, rest)) :
    found = [.opened .round] ∧ rest = cs ∨ found = [.literal .unit] ∧ cs = ')' :: rest := by
  rw [scan_of_depths hp] at h
  have h : scanSymbol '(' cs = some (found, rest) := h
  have hexclamation : '(' ≠ '!' := by decide
  simp only [scanSymbol, hexclamation, if_false] at h
  rcases cs with _ | ⟨d, cs⟩
  · cases h
    exact .inl ⟨rfl, rfl⟩
  by_cases hstar : d = '*'
  · subst hstar
    simp [splitSymbol?, symbols, List.findSome?, dropLead?] at h
  by_cases hclose : d = ')'
  · subst hclose
    simp [splitSymbol?, symbols, List.findSome?, dropLead?] at h
    exact .inr ⟨h.1.symm, by rw [h.2]⟩
  · simp [splitSymbol?, symbols, List.findSome?, dropLead?, Ne.symm hstar, Ne.symm hclose] at h
    exact .inl ⟨h.1.symm, h.2.symm⟩

/-- A name before a parenthesis is called. -/
theorem beginsCall_of_afterParenthesis (hcs : (afterParenthesis? cs).isSome = true)
    (hp : p.depths = []) (h : tokensFrom p cs = some ts) : beginsCall ts = true := by
  induction cs generalizing p with
  | nil => cases hcs
  | cons c cs ih =>
    by_cases hb : isBlank c = true
    · obtain ⟨q, hq, hts⟩ := tokensFrom_blank hb hp h
      refine ih ?_ hq hts
      rwa [afterParenthesis?, trimLeft, List.dropWhile_cons_of_pos hb] at hcs
    · have hc : c = '(' := by
        rw [afterParenthesis?, trimLeft, List.dropWhile_cons_of_neg hb] at hcs
        split at hcs
        · rename_i hcons
          exact (List.cons.inj hcons).1
        · cases hcs
      subst hc
      obtain ⟨found, rest, others, hscan, -, rfl⟩ := tokensFrom_cons h
      rcases scan_parenthesis hp hscan with ⟨rfl, -⟩ | ⟨rfl, -⟩
      · exact beginsCall_cons rfl
      · exact beginsCall_cons rfl

/-- What neither begins a word nor hides text is a symbol or a lost reference. -/
theorem scan_of_isPassed (hp : p.depths = []) (hpassed : isPassed c cs = true)
    (hblank : isAsciiBlank c = false) (hword : isWord c = false) : scan p c cs =
      if (dropLead? lostReference (c :: cs)).isSome then none
      else if c = '-' ∧ p.allowsSign = true then scanMinus cs else scanSymbol c cs := by
  have hletter := letter_of_not_isWord hword
  have hdigit := isDigit_of_not_isWord hword
  have hquote : c ≠ '"' := by
    rintro rfl
    cases hpassed
  rw [scan_of_depths hp, scanOne, if_neg (by simp [hblank]), if_neg (by simp [hdigit]),
    if_neg (by simp [hletter]), if_neg hquote]
  by_cases hlost : (dropLead? lostReference (c :: cs)).isSome = true
  · obtain ⟨rfl, rest, rfl⟩ := eq_of_lostReference hlost
    rw [if_pos hlost]
    rfl
  · have hhides : hides c cs = false := by
      simp only [isPassed, Bool.and_eq_true, Bool.or_eq_true, Bool.not_eq_true'] at hpassed
      exact hpassed.2.resolve_right hlost
    simp only [hides, Bool.or_eq_false_iff, Bool.and_eq_false_iff, beq_eq_false_iff_ne,
      bne_eq_false_iff_eq] at hhides
    obtain ⟨⟨⟨hbacktick, hglyph⟩, hmark⟩, hcomment⟩ := hhides
    rw [if_neg hlost, if_neg hbacktick, if_neg hglyph, if_neg (by tauto), if_neg (by tauto),
      if_neg (by tauto)]

/-- The entry of the table for the symbol at the front of a text. -/
theorem entry_of_splitSymbol {t : Token} (h : splitSymbol? (c :: cs) = some (some t, rest)) :
    ∃ entry ∈ symbols, entry.2 = some t ∧ entry.1.toList.head? = some c ∧
      cs = entry.1.toList.tail ++ rest := by
  obtain ⟨entry, hentry, hfound⟩ := List.exists_of_findSome?_eq_some h
  obtain ⟨after, hlead, he⟩ := Option.map_eq_some_iff.1 hfound
  obtain ⟨htoken, rfl⟩ := Prod.mk.inj he
  have hcs := eq_of_dropLead hlead
  obtain ⟨d, lead, hd⟩ := List.exists_cons_of_ne_nil (symbols_spec entry hentry).1
  rw [hd] at hcs
  cases hcs
  exact ⟨entry, hentry, htoken, by rw [hd]; rfl, by rw [hd]; rfl⟩

theorem ne_unit_of_readNumeral {isNegative : Bool} {d : Datum}
    (h : readNumeral isNegative c cs = some (d, rest)) : d ≠ .unit := by
  rintro rfl
  unfold readNumeral at h
  split at h
  · split at h
    · cases h
    · obtain ⟨_, hnumber, he⟩ := Option.map_eq_some_iff.1 h
      cases he
      simp only [binaryNumeral?] at hnumber
      split at hnumber <;> cases hnumber
  · obtain ⟨_, hnumber, he⟩ := Option.map_eq_some_iff.1 h
    cases he
    unfold decimalNumeral? at hnumber
    extract_lets limit n at hnumber
    split at hnumber
    · cases hnumber
    · simp at hnumber

theorem beginsCall_literal {v : Datum} (hv : v ≠ .unit) :
    beginsCall (.literal v :: ts) = false := by
  cases v <;> first | rfl | exact absurd rfl hv

/-- A symbol that begins neither with a parenthesis nor with an exclamation mark calls nothing. -/
theorem beginsCall_of_scanSymbol {found : List Token} (hparen : c ≠ '(') (hnot : c ≠ '!')
    (h : scanSymbol c cs = some (found, rest)) : beginsCall (found ++ ts) = false := by
  have htable : ∀ entry ∈ symbols, entry.1.toList.head? ≠ some '(' →
      entry.1.toList.head? ≠ some '!' → ∀ token ∈ entry.2,
        token.isNegation = false ∧ beginsArguments [token] = false := by
    decide
  unfold scanSymbol at h
  rw [if_neg hnot] at h
  dsimp only at h
  split at h
  · rename_i token after hsplit
    cases h
    obtain ⟨entry, hentry, htoken, hhead, -⟩ := entry_of_splitSymbol hsplit
    obtain ⟨hnegation, harguments⟩ := htable entry hentry (by simpa [hhead] using hparen)
      (by simpa [hhead] using hnot) token htoken
    exact (beginsCall_cons hnegation).trans harguments
  · cases h

theorem splitSymbol_unequal (cs : List Char) : (splitSymbol? ('!' :: '=' :: cs)).all fun found =>
    found.1.all fun token => !token.isNegation && !beginsArguments [token] := by
  cases cs with
  | nil => rfl
  | cons d cs =>
    by_cases hequal : d = '='
    · subst hequal
      simp [splitSymbol?, symbols, List.findSome?, dropLead?]
    · simp [splitSymbol?, symbols, List.findSome?, dropLead?, Ne.symm hequal, beginsArguments,
        Token.isNegation]

theorem beginsCall_of_unequal {found : List Token}
    (h : scanSymbol '!' ('=' :: cs) = some (found, rest)) : beginsCall (found ++ ts) = false := by
  have hsymbol := splitSymbol_unequal cs
  have hwithin : beginsWithin ('=' :: cs) = none := rfl
  rw [scanSymbol, if_pos rfl, hwithin] at h
  dsimp only at h
  split at h
  · rename_i token after hsplit
    cases h
    rw [hsplit] at hsymbol
    have htoken : (!token.isNegation && !beginsArguments [token]) = true := hsymbol
    simp only [Bool.and_eq_true, Bool.not_eq_true'] at htoken
    exact (beginsCall_cons htoken.1).trans htoken.2
  · cases h

theorem beginsCall_of_scanMinus {found : List Token} (h : scanMinus cs = some (found, rest)) :
    beginsCall (found ++ ts) = false := by
  unfold scanMinus at h
  split at h
  · exact beginsCall_of_scanSymbol (by decide) (by decide) h
  split at h
  · obtain ⟨⟨v, after⟩, hr, he⟩ := Option.map_eq_some_iff.1 h
    cases he
    exact beginsCall_literal (ne_unit_of_readNumeral hr)
  · exact beginsCall_of_scanSymbol (by decide) (by decide) h

variable {move : Position → Position} {s : Spot} {cs' : List Char}

/-- Before what leaves a name that of an operand the name is not called. -/
theorem beginsCall_of_endsName (h : Counterpart .expression move s cs cs')
    (hend : endsName cs = true) (hp : p.depths = []) (hts : tokensFrom p cs = some ts) :
    beginsCall ts = false := by
  induction cs generalizing s cs' p with
  | nil =>
    rw [tokensFrom] at hts
    cases hts
    rfl
  | cons c cs ih =>
    by_cases hb : isBlank c = true
    · obtain ⟨q, hq, hts'⟩ := tokensFrom_blank hb hp hts
      have hquote : c ≠ '"' := by
        rintro rfl
        exact absurd hb (by decide)
      obtain ⟨cs', rfl, -, -, -, hcs⟩ := h.of_cons (.inr (isAlpha_of_isBlank hb)) hquote
      rw [endsName_cons_of_isBlank hb] at hend
      exact ih hcs hend hq hts'
    rw [Bool.not_eq_true] at hb
    simp only [endsName_cons hb, Bool.and_eq_true, Bool.not_eq_true', Bool.or_eq_true, bne_iff_ne,
      beq_iff_eq, ne_eq] at hend
    obtain ⟨⟨hword, hmem⟩, hnot⟩ := hend
    have hne : c ≠ '(' ∧ c ≠ '"' := by
      constructor <;> rintro rfl <;> cases hmem
    have hascii : isAsciiBlank c = false :=
      eq_false_of_ne_true (mt isBlank_of_isAsciiBlank (ne_true_of_eq_false hb))
    obtain ⟨cs', rfl, hpassed, -, -, -⟩ := h.of_cons (.inr (isAlpha_of_not_isWord hword)) hne.2
    obtain ⟨found, rest, others, hscan, -, rfl⟩ := tokensFrom_cons hts
    rw [scan_of_isPassed hp hpassed hascii hword] at hscan
    split at hscan
    · cases hscan
    split at hscan
    · exact beginsCall_of_scanMinus hscan
    by_cases hexclaim : c = '!'
    · subst hexclaim
      obtain ⟨cs, rfl⟩ := List.head?_eq_some_iff.1 (hnot.resolve_left (by simp))
      exact beginsCall_of_unequal hscan
    · exact beginsCall_of_scanSymbol hne.1 hexclaim hscan

end

/-! ## One step -/

/-- New names for operands and functions that go with a move of the cells. -/
structure Renames (move : Position → Position) (f g : String → String) : Prop where
  cell : ∀ p : Position, f p.nameText = (move p).nameText
  other : ∀ n, Position.ofName? n.toList = none → f n = n
  function : ∀ n, n ≠ "is_def_var" → g n = n

/-- Whether a name, if it is that of a cell, is written as cells are. -/
def IsCanonical (n : String) : Prop := ∀ p, Position.ofName? n.toList = some p → n = p.nameText

/-- The same token, or two names. -/
inductive SameToken : Token → Token → Prop
  | refl (a : Token) : SameToken a a
  | name (m n : String) : SameToken (.name m) (.name n)

/-- What two steps from counterparts find: nothing to read, a blank, or a token, which has another
name only as it is renamed, if an expression can be read from it. -/
inductive ScansAlike (move : Position → Position) (f g : String → String) (s : Spot) (p : Place) :
    Option (List Token × List Char) → Option (List Token × List Char) → Prop
  | none : ScansAlike move f g s p none none
  | blank {t : Spot} {r r' : List Char} : Counterpart .expression move t r r' →
      (s = .point → t = .point) → t ≠ .word →
      ScansAlike move f g s p (some ([], r)) (some ([], r'))
  | token {t : Spot} {a b : Token} {r r' : List Char} : Counterpart .expression move t r r' →
      SameToken a b → a.isSimple = true → a.depths [] = [] → (a.isPoint = true → t = .point) →
      (t = .word → (∀ d ∈ r.head?, isAsciiWord d = false) ∨ a.isLiteral = true) →
      (∀ q ts, q.depths = [] → tokensFrom q r = some ts →
        (p.previous.toList ++ [a]).IsChain Token.MayPrecede →
        b = a.rename f g (p.previous.any Token.isPoint) ts ∧ ∀ n, a = .name n → IsCanonical n) →
      ScansAlike move f g s p (some ([a], r)) (some ([b], r'))

/-- How two places in counterparts go with what stands before them. -/
structure PlacesAlike (s : Spot) (p p' : Place) (cs : List Char) : Prop where
  depths : p.depths = []
  depths' : p'.depths = []
  allowsSign : p'.allowsSign = p.allowsSign
  point : p.previous.any Token.isPoint = true → s = .point
  word : s = .word →
    (∀ d ∈ cs.head?, isAsciiWord d = false) ∨ p.previous.any Token.isLiteral = true

theorem rename_of_not_isName {f g : String → String} {a : Token} (h : a.isName = false) (b : Bool)
    (ts : List Token) : a.rename f g b ts = a := by
  cases a <;> first | rfl | cases h

section
variable {move : Position → Position} {f g : String → String} {s t : Spot} {p p' : Place}
  {c : Char} {cs cs' r r' : List Char} {a : Token}

theorem ScansAlike.plain (h : Counterpart .expression move t r r') (ha : a.isName = false)
    (hsimple : a.isSimple = true) (hdepths : a.depths [] = [])
    (hpoint : a.isPoint = true → t = .point)
    (hword : t = .word → (∀ d ∈ r.head?, isAsciiWord d = false) ∨ a.isLiteral = true) :
    ScansAlike move f g s p (some ([a], r)) (some ([a], r')) :=
  .token h (.refl a) hsimple hdepths hpoint hword fun _ _ _ _ _ =>
    ⟨(rename_of_not_isName ha _ _).symm, fun n hn => by rw [hn] at ha; cases ha⟩

theorem ScansAlike.literal {x y : Option (Datum × List Char)}
    (h : FindsAlike .expression move x y) :
    ScansAlike move f g s p (x.map fun r => ([.literal r.1], r.2))
      (y.map fun r => ([.literal r.1], r.2)) := by
  cases h with
  | none => exact .none
  | found h => exact .plain h rfl rfl rfl nofun fun _ => .inr rfl

/-- The token of a symbol leaves no word and no point before what follows it, unless it is one. -/
theorem symbolToken_spec : ∀ entry ∈ symbols, entry.1.toList.head? ≠ some ':' → ∀ token ∈ entry.2,
    token.isSimple = true ∧ token.isName = false ∧ token.depths [] = [] ∧
      ∀ s ∈ [Spot.free, .word, .point], entry.1.toList.foldl Spot.next s ≠ .word ∧
        (token.isPoint = true → entry.1.toList.foldl Spot.next s = .point) := by
  decide +kernel

theorem splitSymbol_alike (hc : c ≠ ':')
    (hfull : Counterpart .expression move s (c :: cs) (c :: cs')) :
    ScansAlike move f g s p
      (match splitSymbol? (c :: cs) with
        | some (some token, rest) => some ([token], rest)
        | _ => Option.none)
      (match splitSymbol? (c :: cs') with
        | some (some token, rest) => some ([token], rest)
        | _ => Option.none) := by
  rcases hfull.splitSymbol with ⟨hnone, hnone'⟩ | ⟨entry, hentry, r, r', hsome, hsome', hcs, hr⟩
  · rw [hnone, hnone']
    exact .none
  · rw [hsome, hsome']
    cases htoken : entry.2 with
    | none => exact .none
    | some token =>
      have hhead : entry.1.toList.head? ≠ some ':' := by
        obtain ⟨d, lead, hlead⟩ := List.exists_cons_of_ne_nil (symbols_spec entry hentry).1
        rw [hlead] at hcs ⊢
        rw [← (List.cons.inj hcs).1]
        exact fun he => hc (Option.some.inj he)
      obtain ⟨hsimple, hname, hdepths, hspot⟩ := symbolToken_spec entry hentry hhead token htoken
      obtain ⟨hnext, hpoint⟩ := hspot s (by cases s <;> decide)
      exact .plain hr hname hsimple hdepths hpoint fun ht => absurd ht hnext

theorem scanSymbol_alike (hc : c ≠ ':')
    (h : Counterpart .expression move (s.next c) cs cs')
    (hfull : Counterpart .expression move s (c :: cs) (c :: cs')) :
    ScansAlike move f g s p (scanSymbol c cs) (scanSymbol c cs') := by
  unfold scanSymbol
  by_cases hnot : c = '!'
  · rw [if_pos hnot, if_pos hnot]
    rcases h.beginsWithin with ⟨hnone, hnone'⟩ | ⟨r, r', hsome, hsome', hhead, hr⟩
    · rw [hnone, hnone']
      exact splitSymbol_alike hc hfull
    · rw [hsome, hsome']
      exact .plain hr rfl rfl rfl (fun hpoint => by cases hpoint) fun _ => .inl hhead
  · rw [if_neg hnot, if_neg hnot]
    exact splitSymbol_alike hc hfull

theorem scanNumber_alike (isNegative : Bool) (h : Counterpart .expression move .word cs cs') :
    ScansAlike move f g s p (scanNumber isNegative c cs) (scanNumber isNegative c cs') :=
  .literal (h.readNumeral isNegative c)

theorem scanMinus_alike (h : Counterpart .expression move .free cs cs')
    (hfull : Counterpart .expression move s ('-' :: cs) ('-' :: cs')) :
    ScansAlike move f g s p (scanMinus cs) (scanMinus cs') := by
  have hsymbol : ScansAlike move f g s p (scanSymbol '-' cs) (scanSymbol '-' cs') := by
    refine scanSymbol_alike (by decide) ?_ hfull
    rwa [next_of_separator (by decide) (by decide) (by decide)]
  have hother : ∀ {cs : List Char}, cs.head?.any Char.isDigit = false →
      scanMinus cs = scanSymbol '-' cs := by
    intro cs hcs
    unfold scanMinus
    split
    · rfl
    · rw [if_neg (by simpa using hcs)]
  by_cases hdigit : cs.head?.any Char.isDigit = true
  · cases cs with
    | nil => cases hdigit
    | cons d rest =>
      have hd : d.isDigit = true := hdigit
      obtain ⟨rest', rfl, -, -, -, hrest⟩ := h.of_cons (.inr (isAlpha_of_isDigit hd))
        (ne_quote_of_isWord (isWord_of_isDigit hd))
      rw [Spot.next_of_isWord _ (isWord_of_isDigit hd)] at hrest
      have hnumber : ∀ rest, scanMinus (d :: rest) = scanNumber true d rest := fun _ => if_pos hd
      rw [hnumber, hnumber]
      exact scanNumber_alike true hrest
  · have hany := h.any_head (p := Char.isDigit) fun _ => isDigit_of_isAlpha
    rw [Bool.not_eq_true] at hdigit
    rw [hother hdigit, hother (hany ▸ hdigit)]
    exact hsymbol

theorem scan_of_letter (hc : (c.isAlpha || c == '_') = true) : scan p c cs =
    (wordToken? (c :: cs.takeWhile isAsciiWord)).map fun token =>
      ([token], cs.dropWhile isAsciiWord) := by
  have hword := isWord_of_letter hc
  have hblank : isAsciiBlank c = false :=
    eq_false_of_ne_true (mt isWord_of_isAsciiBlank (ne_false_of_eq_true hword))
  have hdigit : c.isDigit = false := by
    rw [Bool.or_eq_true, beq_iff_eq] at hc
    rcases hc with hc | rfl
    · exact isDigit_of_isAlpha hc
    · decide
  have hbracket : c ≠ '\x7d' := by
    rintro rfl
    exact absurd hword (by decide)
  rw [scan, if_neg fun h => hbracket h.1, scanOne, if_neg (by simp [hblank]),
    if_neg (by simp [hdigit]), if_pos hc]

theorem wordToken_spec {w : List Char} (h : wordToken? w = some a) :
    a.isSimple = true ∧ a.isPoint = false ∧
      (a.isName = false ∨ a = .name (String.ofList w) ∨ a = .callable (String.ofList w)) := by
  unfold wordToken? at h
  split at h
  case h_6 =>
    split at h
    · cases h
      exact ⟨rfl, rfl, .inr (.inr rfl)⟩
    · split at h <;> cases h
      exact ⟨rfl, rfl, .inr (.inl rfl)⟩
  all_goals
    cases h
    exact ⟨rfl, rfl, .inl rfl⟩

/-- The functions of formulas are written as cells are, where they are named like cells. -/
theorem isCanonical_of_calls {w : List Char} (h : Script.expression.calls w = true) :
    IsCanonical (String.ofList w) := by
  intro p hp
  obtain ⟨b, -, hb⟩ := List.any_eq_true.1 h
  rw [beq_iff_eq] at hb
  subst hb
  rw [String.ofList_toList] at hp ⊢
  have hall : ∀ b ∈ Builtin.all,
      (Position.ofName? b.name.toList).all (fun p => b.name == p.nameText) = true := by
    decide +kernel
  have hb := hall b (by cases b <;> decide)
  rw [hp] at hb
  exact beq_iff_eq.1 hb

/-- A number before a name would leave nothing to be read. -/
theorem PlacesAlike.ne_word (hp : PlacesAlike s p p' (c :: cs)) (hc : isAsciiWord c = true)
    (ha : a.isName = true) (hchain : (p.previous.toList ++ [a]).IsChain Token.MayPrecede) :
    s ≠ .word := by
  intro hs
  rcases hp.word hs with hfirst | hliteral
  · rw [hfirst c rfl] at hc
    cases hc
  · obtain ⟨b, hb, hliteral⟩ := (Option.any_eq_true _ _).1 hliteral
    rw [hb] at hchain
    rw [(List.isChain_cons_cons.1 hchain).1.1 hliteral] at ha
    cases ha

/-- A word that names a cell only as a function that is called keeps its name. -/
theorem Renames.newName_eq (hrenames : Renames move f g) {w : List Char} {b : Bool} {q : Place}
    {ts : List Token} (htest : String.ofList w ≠ "is_def_var")
    (hcell : Position.ofName? w = none ∨
      Script.expression.calls w = true ∧ (afterParenthesis? r).isSome = true)
    (hq : q.depths = []) (hts : tokensFrom q r = some ts) :
    newName f g b ts (String.ofList w) = String.ofList w := by
  unfold newName
  split
  · exact hrenames.function _ htest
  rename_i hcall
  split
  · rfl
  rcases hcell with hnone | ⟨-, hparen⟩
  · exact hrenames.other _ (by rw [String.toList_ofList, hnone])
  · exact absurd (beginsCall_of_afterParenthesis hparen hq hts) hcall

/-- A word of an expression that is the same in both texts. -/
theorem scanWord_alike (hrenames : Renames move f g) (hp : PlacesAlike s p p' (c :: cs))
    (hc : (c.isAlpha || c == '_') = true)
    (hstay : s ≠ .word → Script.expression.staysWord (c :: cs) = true)
    (h : Counterpart .expression move .word cs cs') :
    ScansAlike move f g s p (scan p c cs) (scan p' c cs') := by
  obtain ⟨htake, hdrop⟩ := h.dropWhile fun _ => isWord_of_isAsciiWord
  have hascii := isAsciiWord_of_begins hc
  rw [scan_of_letter hc, scan_of_letter hc, ← htake]
  cases htoken : wordToken? (c :: cs.takeWhile isAsciiWord) with
  | none => exact .none
  | some a =>
    obtain ⟨hsimple, hpoint, hname⟩ := wordToken_spec htoken
    refine .token hdrop (.refl a) hsimple (depths_of_wordToken htoken)
      (fun ha => by rw [hpoint] at ha; cases ha) (fun _ => .inl head_dropWhile) ?_
    intro q ts hq hts hchain
    by_cases ha : a.isName = true
    case neg =>
      rw [Bool.not_eq_true] at ha
      exact ⟨(rename_of_not_isName ha _ _).symm, fun n hn => by rw [hn] at ha; cases ha⟩
    have hword := isWord_of_isAsciiWord hascii
    obtain ⟨htakeWord, hdropWord⟩ := takeWhile_isWord (fun _ => isWord_of_isAsciiWord)
      (isWord_of_tokensFrom hts head_dropWhile)
    have hstay := hstay (hp.ne_word hascii ha hchain)
    rw [Script.staysWord, List.takeWhile_cons_of_pos hword, List.dropWhile_cons_of_pos hword,
      htakeWord, hdropWord] at hstay
    generalize c :: cs.takeWhile isAsciiWord = w at hstay hname
    simp only [Bool.and_eq_true, Bool.or_eq_true, bne_iff_ne, ne_eq,
      Option.isNone_iff_eq_none] at hstay
    obtain ⟨htest, hcell⟩ := hstay
    have htest : String.ofList w ≠ "is_def_var" := fun he => htest (by
      rw [← he, String.toList_ofList])
    rcases hname with hname | rfl | rfl
    · rw [hname] at ha
      cases ha
    · refine ⟨congrArg Token.name (hrenames.newName_eq htest hcell hq hts).symm, fun n hn => ?_⟩
      cases hn
      rcases hcell with hnone | ⟨hcalls, -⟩
      · intro p hp
        rw [String.toList_ofList, hnone] at hp
        cases hp
      · exact isCanonical_of_calls hcalls
    · refine ⟨?_, fun n hn => by cases hn⟩
      rw [Token.rename, hrenames.function _ htest, ite_self]

theorem wordToken?_name (q : Position) : wordToken? q.name = some (.name q.nameText) := by
  have hword : ∀ w ∈ ["true", "false", "in", "if", "else"] ++ callableWords ++ reservedWords,
      w ≠ q.nameText := by
    have htable : ∀ w ∈ ["true", "false", "in", "if", "else"] ++ callableWords ++ reservedWords,
        Position.ofName? w.toList = none := by
      decide +kernel
    intro w hw he
    have hnone := htable w hw
    rw [he, Position.ofName?_nameText] at hnone
    cases hnone
  have hname : Expression.isName q.name = true := by
    obtain ⟨c, w, hw⟩ := List.exists_cons_of_ne_nil (Position.name_ne_nil q)
    have hc := Position.isAlpha_head_of_ofName (Position.ofName?_name q) c (by rw [hw]; rfl)
    have hunder : c ≠ '_' := by
      rintro rfl
      cases hc
    rw [Expression.isName, hw, List.dropWhile_cons_of_neg (by simp [hunder])]
    exact hc
  have hcallable : ¬callableWords.contains q.nameText = true := fun hmem =>
    hword _ (List.mem_append_left _ (List.mem_append_right _ (List.contains_iff_mem.1 hmem))) rfl
  have hreserved : ¬(reservedWords.contains q.nameText || !Expression.isName q.name) = true := by
    rw [hname, Bool.not_true, Bool.or_false]
    exact fun hmem => hword _ (List.mem_append_right _ (List.contains_iff_mem.1 hmem)) rfl
  unfold wordToken?
  rw [show String.ofList q.name = q.nameText from rfl]
  split
  case h_6 =>
    rw [if_neg hcallable, if_neg hreserved]
  all_goals
    rename_i he
    exact absurd he.symm (hword _ (by simp))

/-- The name of a cell in an expression. -/
theorem scanName_alike (hrenames : Renames move f g) (hp : p.previous.any Token.isPoint = false)
    {q : Position} (hend : endsName cs = true) (hend' : endsName cs' = true)
    (h : Counterpart .expression move .word cs cs') :
    ∃ c rest c' rest', q.name ++ cs = c :: rest ∧ (move q).name ++ cs' = c' :: rest' ∧
      ScansAlike move f g s p (scan p c rest) (scan p' c' rest') := by
  have hscan : ∀ (p : Place) (q : Position) {cs : List Char}, endsName cs = true →
      ∃ c rest, q.name ++ cs = c :: rest ∧
        scan p c rest = some ([.name q.nameText], cs) := by
    intro p q cs hend
    obtain ⟨c, w, hw⟩ := List.exists_cons_of_ne_nil (Position.name_ne_nil q)
    have hc := Position.isAlpha_head_of_ofName (Position.ofName?_name q) c (by rw [hw]; rfl)
    refine ⟨c, w ++ cs, by rw [hw]; rfl, ?_⟩
    have hall : ∀ d ∈ w, isAsciiWord d = true := fun d hd => by
      have := Position.isAlphanum_of_mem_name (p := q) (hw ▸ List.mem_cons_of_mem c hd)
      simp [isAsciiWord, this]
    obtain ⟨htake, hdrop⟩ := takeWhile_append_of_head hall fun d hd =>
      isAsciiWord_of_not_isWord (head_of_endsName hend d hd)
    rw [scan_of_letter (by simp [hc]), htake, hdrop, ← hw, wordToken?_name]
    rfl
  obtain ⟨c, rest, htext, hscanned⟩ := hscan p q hend
  obtain ⟨c', rest', htext', hscanned'⟩ := hscan p' (move q) hend'
  refine ⟨c, rest, c', rest', htext, htext', ?_⟩
  rw [hscanned, hscanned']
  refine .token h (.name _ _) rfl rfl (fun hpoint => by cases hpoint)
    (fun _ => .inl fun d hd => isAsciiWord_of_not_isWord (head_of_endsName hend d hd)) ?_
  intro place ts hplace hts _
  refine ⟨congrArg Token.name ?_, fun n hn r hr => ?_⟩
  · rw [newName, beginsCall_of_endsName h hend hplace hts, hp]
    exact (hrenames.cell q).symm
  · cases hn
    rw [Position.ofName?_nameText] at hr
    rw [Option.some.inj hr]

theorem scanQuote_alike (hp : PlacesAlike s p p' ('"' :: cs))
    (h : Counterpart .expression move s ('"' :: cs) cs') :
    ∃ rest', cs' = '"' :: rest' ∧
      ScansAlike move f g s p (scan p '"' cs) (scan p' '"' rest') := by
  obtain ⟨rest', rfl, halike⟩ := h.readQuoted (some (p.indentation cs))
    (some (p'.indentation cs'.tail))
  refine ⟨rest', rfl, ?_⟩
  have hliteral := ScansAlike.literal (f := f) (g := g) (s := s) (p := p)
    (halike.map fun text => Datum.text (String.ofList text))
  rw [Option.map_map, Option.map_map] at hliteral
  rw [scan_quote hp.depths, scan_quote hp.depths']
  exact hliteral

theorem scanBlank_alike (hp : PlacesAlike s p p' (c :: cs)) (hc : isAsciiBlank c = true)
    (h : Counterpart .expression move (s.next c) cs cs') :
    ScansAlike move f g s p (scan p c cs) (scan p' c cs') := by
  have hscan : ∀ {p : Place} (cs : List Char), p.depths = [] → scan p c cs = some ([], cs) :=
    fun cs hdepths => (scan_of_depths hdepths).trans (if_pos hc)
  have hb := isBlank_of_isAsciiBlank hc
  have hword := isWord_eq_false_of_isBlank hb
  rw [hscan _ hp.depths, hscan _ hp.depths']
  refine .blank h (fun hs => ?_) (Spot.next_ne_word s hword)
  have hpoint : c ≠ '.' := by
    rintro rfl
    cases hb
  rw [Spot.next, if_neg (by simp [hword]), if_neg hpoint, if_pos ⟨hb, hs⟩]

/-- No token begins with a character of a word that is outside ASCII. -/
theorem scan_of_wide (hword : isWord c = true) (hc : isAsciiWord c = false) :
    scan p c cs = none := by
  cases hscan : scan p c cs with
  | none => rfl
  | some found => cases hc.symm.trans ((scanned_of_scan hscan).isAsciiWord hword)

/-- A step from a character that is the same in both texts, and does not begin a quoted text. -/
theorem scanChar_alike (hrenames : Renames move f g) (hp : PlacesAlike s p p' (c :: cs))
    (hpassed : isPassed c cs = true) (hpassed' : isPassed c cs' = true)
    (hstay : isWord c = true → s ≠ .word → Script.expression.staysWord (c :: cs) = true)
    (h : Counterpart .expression move (s.next c) cs cs')
    (hfull : Counterpart .expression move s (c :: cs) (c :: cs')) :
    ScansAlike move f g s p (scan p c cs) (scan p' c cs') := by
  by_cases hblank : isAsciiBlank c = true
  · exact scanBlank_alike hp hblank h
  by_cases hdigit : c.isDigit = true
  · have hscan : ∀ {p : Place} (cs : List Char), p.depths = [] →
        scan p c cs = scanNumber false c cs := by
      intro p cs hdepths
      rw [scan_of_depths hdepths, scanOne, if_neg hblank, if_pos hdigit]
    rw [hscan _ hp.depths, hscan _ hp.depths']
    rw [Spot.next_of_isWord s (isWord_of_isDigit hdigit)] at h
    exact scanNumber_alike false h
  by_cases hletter : (c.isAlpha || c == '_') = true
  · have hword := isWord_of_letter hletter
    rw [Spot.next_of_isWord s hword] at h
    exact scanWord_alike hrenames hp hletter (hstay hword) h
  by_cases hword : isWord c = true
  · have hascii : isAsciiWord c = false := by
      simp only [isAsciiWord, Char.isAlphanum]
      simp_all
    rw [scan_of_wide hword hascii, scan_of_wide hword hascii]
    exact .none
  rw [Bool.not_eq_true] at hblank hword
  rw [scan_of_isPassed hp.depths hpassed hblank hword,
    scan_of_isPassed hp.depths' hpassed' hblank hword, hp.allowsSign,
    ← isSome_dropLead_lostReference hpassed hpassed' h]
  split
  · exact .none
  split
  · rename_i hminus
    obtain ⟨rfl, -⟩ := hminus
    rw [next_of_separator (by decide) (by decide) (by decide)] at h
    exact scanMinus_alike h hfull
  · refine scanSymbol_alike ?_ h hfull
    rintro rfl
    cases hpassed

/-- Each step from counterparts finds in the one what it finds in the other. -/
theorem scan_alike (hrenames : Renames move f g) {text' : List Char}
    (hp : PlacesAlike s p p' (c :: cs)) (h : Counterpart .expression move s (c :: cs) text') :
    ∃ c' cs', text' = c' :: cs' ∧ ScansAlike move f g s p (scan p c cs) (scan p' c' cs') := by
  by_cases hquote : c = '"'
  · subst hquote
    obtain ⟨rest', rfl, halike⟩ := scanQuote_alike (f := f) (g := g) hp h
    exact ⟨_, _, rfl, halike⟩
  have hfull := h
  generalize htext : c :: cs = text at h
  cases h with
  | nil => cases htext
  | block hb =>
    obtain ⟨b, rfl⟩ := Script.exists_block hb
    cases htext
    exact absurd rfl hquote
  | unclosed =>
    cases htext
    exact absurd rfl hquote
  | name hw hw' hend hend' hrest =>
    cases hw
    cases hw'
    have hpoint : p.previous.any Token.isPoint = false := by
      by_contra hpoint
      cases hp.point (by simpa using hpoint)
    obtain ⟨d, rest, d', rest', htext', htext'', halike⟩ :=
      scanName_alike hrenames hpoint hend hend' hrest
    rw [htext'] at htext
    cases htext
    exact ⟨d', rest', htext'', halike⟩
  | @char s d ds cs' hpassed hpassed' hstay hrest =>
    cases htext
    exact ⟨c, cs', rfl, scanChar_alike hrenames hp hpassed hpassed'
      (fun hword hs => (hstay hword hs).1) hrest hfull⟩

end

/-! ## All tokens -/

/-- The same tokens but for names. Those of a text that can be read are the same but for the names
of cells, which are written as cells are. -/
structure TokensAlike (f g : String → String) (previous : Option Token) (ts ts' : List Token) :
    Prop where
  same : List.Forall₂ SameToken ts ts'
  simple : AreSimple ts
  renamed : (previous.toList ++ ts).IsChain Token.MayPrecede →
    ts' = renameTokens f g (previous.any Token.isPoint) ts ∧ ∀ n, .name n ∈ ts → IsCanonical n

section
variable {move : Position → Position} {f g : String → String} {s : Spot} {p p' : Place}
  {c : Char} {cs cs' rest : List Char} {found : List Token}

theorem tokensFrom_of_none (h : scan p c cs = none) : tokensFrom p (c :: cs) = none := by
  rw [tokensFrom]
  split
  · rfl
  · rename_i hscan
    rw [h] at hscan
    cases hscan

theorem tokensFrom_of_some (h : scan p c cs = some (found, rest)) : tokensFrom p (c :: cs) =
    (tokensFrom (p.after c found rest) rest).map (found ++ ·) := by
  rw [tokensFrom]
  split
  · rename_i hscan
    rw [h] at hscan
    cases hscan
  · rename_i hscan
    rw [h] at hscan
    cases hscan
    rfl

theorem SameToken.allowsSign {a b : Token} (h : SameToken a b) : b.allowsSign = a.allowsSign := by
  cases h <;> rfl

theorem SameToken.depths {a b : Token} (h : SameToken a b) (around : List Nat) :
    b.depths around = a.depths around := by
  cases h <;> rfl

theorem PlacesAlike.after_blank {t : Spot} {c' : Char} {r r' : List Char}
    (hp : PlacesAlike s p p' (c :: cs)) (hpoint : s = .point → t = .point) (hword : t ≠ .word) :
    PlacesAlike t (p.after c [] r) (p'.after c' [] r') r :=
  ⟨hp.depths, hp.depths', hp.allowsSign, fun h => hpoint (hp.point h), fun h => absurd h hword⟩

theorem PlacesAlike.after_token {t : Spot} {c' : Char} {r r' : List Char} {a b : Token}
    (hp : PlacesAlike s p p' (c :: cs)) (hsame : SameToken a b) (hdepths : a.depths [] = [])
    (hpoint : a.isPoint = true → t = .point)
    (hword : t = .word → (∀ d ∈ r.head?, isAsciiWord d = false) ∨ a.isLiteral = true) :
    PlacesAlike t (p.after c [a] r) (p'.after c' [b] r') r := by
  exact ⟨depths_after hp.depths hdepths, depths_after hp.depths' ((hsame.depths []).trans hdepths),
    hsame.allowsSign, hpoint, hword⟩

theorem TokensAlike.cons {previous : Option Token} {a b : Token} {ts ts' : List Token}
    (hsame : SameToken a b) (hsimple : a.isSimple = true)
    (hrenamed : (previous.toList ++ [a]).IsChain Token.MayPrecede →
      b = a.rename f g (previous.any Token.isPoint) ts ∧ ∀ n, a = .name n → IsCanonical n)
    (h : TokensAlike f g (some a) ts ts') : TokensAlike f g previous (a :: ts) (b :: ts') := by
  refine ⟨.cons hsame h.same, List.forall_mem_cons.2 ⟨hsimple, h.simple⟩, fun hchain => ?_⟩
  have hrest : ([a] ++ ts).IsChain Token.MayPrecede := (List.isChain_append.1 hchain).2.1
  have hfirst : (previous.toList ++ [a]).IsChain Token.MayPrecede := by
    rw [← List.singleton_append, ← List.append_assoc] at hchain
    exact (List.isChain_append.1 hchain).1
  obtain ⟨hb, ha⟩ := hrenamed hfirst
  obtain ⟨hts', hcanonical⟩ := h.renamed hrest
  refine ⟨?_, fun n hn => ?_⟩
  · rw [hb, hts']
    rfl
  · rcases List.mem_cons.1 hn with hn | hn
    · exact ha n hn.symm
    · exact hcanonical n hn

theorem tokensFrom_alike (hrenames : Renames move f g) (hp : PlacesAlike s p p' cs)
    (h : Counterpart .expression move s cs cs') :
    tokensFrom p cs = none ∧ tokensFrom p' cs' = none ∨
      ∃ ts ts', tokensFrom p cs = some ts ∧ tokensFrom p' cs' = some ts' ∧
        TokensAlike f g p.previous ts ts' := by
  induction hn : cs.length using Nat.strongRecOn generalizing s p p' cs cs' with
  | _ n ih =>
  subst hn
  cases cs with
  | nil =>
    rw [h.of_nil, tokensFrom, tokensFrom]
    exact .inr ⟨[], [], rfl, rfl, .nil, List.forall_mem_nil _,
      fun _ => ⟨rfl, fun _ hn => absurd hn List.not_mem_nil⟩⟩
  | cons c cs =>
    obtain ⟨c', cs', rfl, halike⟩ := scan_alike hrenames hp h
    generalize hx : scan p c cs = x at halike
    generalize hy : scan p' c' cs' = y at halike
    cases halike with
    | none => exact .inl ⟨tokensFrom_of_none hx, tokensFrom_of_none hy⟩
    | @blank t r r' hrest hpoint hword =>
      rw [tokensFrom_of_some hx, tokensFrom_of_some hy]
      rcases ih _ (Nat.lt_succ_of_le (length_scan_le hx)) (hp.after_blank hpoint hword) hrest
        rfl with
        ⟨hnone, hnone'⟩ | ⟨ts, ts', hts, hts', halike⟩
      · rw [hnone, hnone']
        exact .inl ⟨rfl, rfl⟩
      · rw [hts, hts']
        exact .inr ⟨ts, ts', rfl, rfl, halike⟩
    | @token t a b r r' hrest hsame hsimple hdepths hpoint hword hrenamed =>
      have hplaces : PlacesAlike t (p.after c [a] r) (p'.after c' [b] r') r :=
        hp.after_token hsame hdepths hpoint hword
      rw [tokensFrom_of_some hx, tokensFrom_of_some hy]
      rcases ih _ (Nat.lt_succ_of_le (length_scan_le hx)) hplaces hrest rfl with
        ⟨hnone, hnone'⟩ | ⟨ts, ts', hts, hts', halike⟩
      · rw [hnone, hnone']
        exact .inl ⟨rfl, rfl⟩
      · rw [hts, hts']
        exact .inr ⟨_, _, rfl, rfl,
          .cons hsame hsimple (hrenamed _ ts hplaces.depths hts) halike⟩

end

end Formula
end Spreadsheet

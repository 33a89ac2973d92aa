import Spreadsheet.Proofs.Formula.LoweredCounterpart

/-!
# What stands at the front of counterparts

Where a number, a quoted text or a symbol stands at the front of an expression,
the same stands at the front of a counterpart of it, and counterparts follow. A
number ends before a name, quoted texts that touch each other are one, and no
symbol has a letter in it.
-/
namespace Spreadsheet.Formula
open Text Expression

/-! ## Numerals -/

section
variable {k : Script} {move : Position → Position} {s : Spot} {c : Char} {cs cs' : List Char}

/-- After a point both texts go on alike. -/
theorem Counterpart.of_point {d : Char} {rest : List Char}
    (h : Counterpart k move s ('.' :: d :: rest) cs') :
    ∃ rest', cs' = '.' :: d :: rest' ∧ Counterpart k move .point (d :: rest) (d :: rest') := by
  obtain ⟨cs', rfl, -, -, -, hrest⟩ := h.of_cons (.inr (by decide)) (by decide)
  rw [Spot.next_point] at hrest
  obtain ⟨rest', rfl⟩ := List.head?_eq_some_iff.1 (hrest.head_eq (by decide)).symm
  exact ⟨rest', rfl, hrest⟩

theorem Counterpart.of_mark (h : Counterpart k move s (c :: cs) cs') (hc : c = 'e' ∨ c = 'E')
    (hs : s ≠ .free) : ∃ rest', cs' = c :: rest' ∧ Counterpart k move .word cs rest' := by
  have hword : isWord c = true := by rcases hc with rfl | rfl <;> decide
  obtain ⟨rest', rfl, -, -, -, hrest⟩ := h.of_cons (.inl hs) (ne_quote_of_isWord hword)
  rw [Spot.next_of_isWord s hword] at hrest
  exact ⟨rest', rfl, hrest⟩

theorem Counterpart.of_digit (h : Counterpart k move s (c :: cs) cs') (hc : c.isDigit = true) :
    ∃ rest', cs' = c :: rest' ∧ Counterpart k move .word cs rest' := by
  have hword := isWord_of_isDigit hc
  obtain ⟨rest', rfl, -, -, -, hrest⟩ :=
    h.of_cons (.inr (isAlpha_of_isDigit hc)) (ne_quote_of_isWord hword)
  rw [Spot.next_of_isWord s hword] at hrest
  exact ⟨rest', rfl, hrest⟩

/-- Of both texts the same is cut off, and counterparts are left. -/
def SplitsAlike (k : Script) (move : Position → Position) (x y : List Char × List Char) : Prop :=
  x.1 = y.1 ∧ ∃ t, Counterpart k move t x.2 y.2

theorem Counterpart.uncut (h : Counterpart k move s cs cs') :
    SplitsAlike k move ([], cs) ([], cs') :=
  ⟨rfl, s, h⟩

theorem SplitsAlike.prepend {x y : List Char × List Char} (h : SplitsAlike k move x y)
    (front : List Char) : SplitsAlike k move (front ++ x.1, x.2) (front ++ y.1, y.2) :=
  ⟨congrArg (front ++ ·) h.1, h.2⟩

section
variable {hasPoint hasExponent : Bool} {d : Char}

theorem splitDigits_digit (hc : c.isDigit = true) : splitDigits hasPoint hasExponent (c :: cs) =
    ([c] ++ (splitDigits hasPoint hasExponent cs).1, (splitDigits hasPoint hasExponent cs).2) := by
  rw [splitDigits.eq_def]
  simp only [hc, if_true]
  rfl

theorem splitDigits_underscore : splitDigits hasPoint hasExponent ('_' :: cs) =
    splitDigits hasPoint hasExponent cs := by
  rw [splitDigits.eq_def]
  rfl

theorem splitDigits_point : splitDigits false hasExponent ('.' :: d :: cs) =
    if d.isDigit then (['.'] ++ (splitDigits true hasExponent (d :: cs)).1,
      (splitDigits true hasExponent (d :: cs)).2)
    else if d = '_' || d = '.' || d.isAlpha then ([], '.' :: d :: cs)
    else (['.', '0'] ++ (splitDigits true hasExponent (d :: cs)).1,
      (splitDigits true hasExponent (d :: cs)).2) := by
  rw [splitDigits, if_neg (by decide), if_neg (by decide), if_pos ⟨rfl, rfl⟩]
  rfl

theorem splitDigits_mark (hc : c = 'e' ∨ c = 'E') : splitDigits hasPoint false (c :: d :: cs) =
    if d.isDigit || d = '+' || d = '-' then
      (['e', d] ++ (splitDigits true true cs).1, (splitDigits true true cs).2)
    else ([], c :: d :: cs) := by
  rcases hc with rfl | rfl <;> rfl

theorem splitDigits_stop (hc : ¬c.isDigit = true) (hunder : c ≠ '_')
    (hpoint : ¬(c = '.' ∧ hasPoint = false))
    (hmark : ¬((c = 'e' ∨ c = 'E') ∧ hasExponent = false)) :
    splitDigits hasPoint hasExponent (c :: cs) = ([], c :: cs) := by
  simp only [splitDigits.eq_def _ _ (c :: cs), hc, hunder, hpoint, hmark, Bool.false_eq_true,
    if_false]

end

/-- Where a number ends in the one text, it ends in the other one: a name goes on with no number. -/
theorem Counterpart.splitDigits_stop {hasPoint hasExponent : Bool}
    (h : Counterpart k move s (c :: cs) cs') (hs : s ≠ .free ∨ hasExponent = true)
    (hc : ¬c.isDigit = true) (hunder : c ≠ '_') (hpoint : ¬(c = '.' ∧ hasPoint = false))
    (hmark : ¬((c = 'e' ∨ c = 'E') ∧ hasExponent = false)) :
    splitDigits hasPoint hasExponent cs' = ([], cs') := by
  cases cs' with
  | nil => rfl
  | cons d rest' =>
    rcases h.head with he | ⟨rfl, -, e, -, he, -, hletter⟩
    · cases he
      exact Formula.splitDigits_stop hc hunder hpoint hmark
    · cases he
      have hexponent := hs.resolve_left (by simp)
      have hne : d ≠ '_' ∧ d ≠ '.' := by
        constructor <;> rintro rfl <;> exact absurd hletter (by decide)
      exact Formula.splitDigits_stop (by simp [isDigit_of_isAlpha hletter]) hne.1
        (fun h => hne.2 h.1) (by simp [hexponent])

/-- The digits of a number are the same in both texts, and what follows them is a counterpart. -/
theorem Counterpart.splitDigits (hasPoint hasExponent : Bool) (h : Counterpart k move s cs cs')
    (hs : s ≠ .free ∨ hasExponent = true) :
    SplitsAlike k move (splitDigits hasPoint hasExponent cs)
      (Expression.splitDigits hasPoint hasExponent cs') := by
  fun_induction Expression.splitDigits hasPoint hasExponent cs generalizing s cs' with
  | case1 =>
    rw [h.of_nil]
    exact (Counterpart.nil (s := s)).uncut
  | case2 hasPoint hasExponent c rest hc digits after hafter ih =>
    obtain ⟨rest', rfl, hrest⟩ := h.of_digit hc
    have hdigits := ih hrest (.inl (by decide))
    rw [hafter] at hdigits
    rw [splitDigits_digit hc]
    exact hdigits.prepend [c]
  | case3 hasPoint hasExponent rest hc ih =>
    obtain ⟨rest', rfl, -, -, -, hrest⟩ := h.of_cons (.inr (by decide)) (by decide)
    rw [splitDigits_underscore]
    exact ih hrest (.inl (by rw [Spot.next_of_isWord s (by decide)]; decide))
  | case4 hasPoint hasExponent c hc hunder hpoint =>
    obtain ⟨rfl, rfl⟩ := hpoint
    obtain ⟨rest', rfl, -, -, -, hrest⟩ := h.of_cons (.inr (by decide)) (by decide)
    rw [hrest.of_nil] at h ⊢
    exact h.uncut
  | case5 hasPoint hasExponent c hc hunder hpoint d rest hd digits after hafter ih =>
    obtain ⟨rfl, rfl⟩ := hpoint
    obtain ⟨rest', hrest', hrest⟩ := h.of_point
    have hdigits := ih hrest (.inl (by decide))
    rw [hafter] at hdigits
    rw [hrest', splitDigits_point, if_pos hd]
    exact hdigits.prepend ['.']
  | case6 hasPoint hasExponent c hc hunder hpoint d rest hd hnext =>
    obtain ⟨rfl, rfl⟩ := hpoint
    obtain ⟨rest', hrest', -⟩ := h.of_point
    rw [hrest'] at h ⊢
    rw [splitDigits_point, if_neg hd, if_pos hnext]
    exact h.uncut
  | case7 hasPoint hasExponent c hc hunder hpoint d rest hd hnext digits after hafter ih =>
    obtain ⟨rfl, rfl⟩ := hpoint
    obtain ⟨rest', hrest', hrest⟩ := h.of_point
    have hdigits := ih hrest (.inl (by decide))
    rw [hafter] at hdigits
    rw [hrest', splitDigits_point, if_neg hd, if_neg hnext]
    exact hdigits.prepend ['.', '0']
  | case8 hasPoint hasExponent c hc hunder hpoint hmark =>
    obtain ⟨rfl⟩ := hmark.2
    obtain ⟨cs, rfl, hrest⟩ := h.of_mark hmark.1 (hs.resolve_right (by decide))
    rw [hrest.of_nil] at h ⊢
    rw [Expression.splitDigits, if_neg hc, if_neg hunder, if_neg hpoint, if_pos hmark]
    exact h.uncut
  | case9 hasPoint hasExponent c hc hunder hpoint hmark d rest hd digits after hafter ih =>
    obtain ⟨rfl⟩ := hmark.2
    obtain ⟨cs, rfl, hrest⟩ := h.of_mark hmark.1 (hs.resolve_right (by decide))
    have hquote : d ≠ '"' := by
      rintro rfl
      exact absurd hd (by decide)
    obtain ⟨rest', rfl, -, -, -, hafter'⟩ := hrest.of_cons (.inl (by decide)) hquote
    have hdigits := ih hafter' (.inr rfl)
    rw [hafter] at hdigits
    rw [splitDigits_mark hmark.1, if_pos hd]
    exact hdigits.prepend ['e', d]
  | case10 hasPoint hasExponent c hc hunder hpoint hmark d rest hd =>
    obtain ⟨rfl⟩ := hmark.2
    obtain ⟨cs, rfl, hrest⟩ := h.of_mark hmark.1 (hs.resolve_right (by decide))
    obtain ⟨rest', rfl⟩ := List.head?_eq_some_iff.1 (hrest.head_eq (by decide)).symm
    rw [splitDigits_mark hmark.1, if_neg hd]
    exact h.uncut
  | case11 hasPoint hasExponent c rest hc hunder hpoint hmark =>
    rw [h.splitDigits_stop hs hc hunder hpoint hmark]
    exact h.uncut

theorem Counterpart.splitBase (h : Counterpart k move .word cs cs') :
    splitBase? cs = none ∧ splitBase? cs' = none ∨
      ∃ base rest rest', splitBase? cs = some (base, rest) ∧ splitBase? cs' = some (base, rest') ∧
        Counterpart k move .word rest rest' := by
  obtain ⟨-, hdrop⟩ := h.dropWhile (p := fun c => c == '_') fun c hc => by
    rw [beq_iff_eq.1 hc]
    decide
  unfold splitBase?
  generalize cs.dropWhile (· == '_') = after at hdrop
  generalize cs'.dropWhile (· == '_') = after' at hdrop
  cases after with
  | nil =>
    rw [hdrop.of_nil]
    exact .inl ⟨rfl, rfl⟩
  | cons d rest =>
    obtain ⟨rest', rfl⟩ := List.head?_eq_some_iff.1 (hdrop.head_eq (by decide)).symm
    dsimp only
    cases hbase : base? d with
    | none => exact .inl ⟨rfl, rfl⟩
    | some base =>
      have hd : isWord d = true := by
        unfold base? at hbase
        split at hbase
        all_goals first | decide | cases hbase
      obtain ⟨_, he, -, -, -, hrest⟩ := hdrop.of_cons (.inl (by decide)) (ne_quote_of_isWord hd)
      cases he
      rw [Spot.next_of_isWord _ hd] at hrest
      exact .inr ⟨base, rest, rest', rfl, rfl, hrest⟩

/-- Two readings from counterparts: both find nothing, or the same in front of counterparts. -/
inductive FindsAlike {α : Type} (k : Script) (move : Position → Position) :
    Option (α × List Char) → Option (α × List Char) → Prop
  | none : FindsAlike k move none none
  | found {a : α} {t : Spot} {r r' : List Char} : Counterpart k move t r r' →
      FindsAlike k move (some (a, r)) (some (a, r'))

theorem FindsAlike.map {α β : Type} {x y : Option (α × List Char)} (f : α → β)
    (h : FindsAlike k move x y) :
    FindsAlike k move (x.map fun r => (f r.1, r.2)) (y.map fun r => (f r.1, r.2)) := by
  cases h with
  | none => exact .none
  | found h => exact .found h

theorem Counterpart.readNumeral (isNegative : Bool) (c : Char)
    (h : Counterpart k move .word cs cs') :
    FindsAlike k move (readNumeral isNegative c cs) (readNumeral isNegative c cs') := by
  have hdecimal : FindsAlike k move
      ((decimalNumeral? isNegative (c :: (Expression.splitDigits false false cs).1)).map
        (·, (Expression.splitDigits false false cs).2))
      ((decimalNumeral? isNegative (c :: (Expression.splitDigits false false cs').1)).map
        (·, (Expression.splitDigits false false cs').2)) := by
    obtain ⟨hdigits, t, hrest⟩ := h.splitDigits false false (.inl (by decide))
    rw [hdigits]
    cases decimalNumeral? isNegative (c :: (Expression.splitDigits false false cs').1) with
    | none => exact .none
    | some d => exact .found hrest
  unfold Expression.readNumeral
  by_cases hc : c = '0'
  · rw [if_pos hc, if_pos hc]
    rcases h.splitBase with ⟨hnone, hnone'⟩ | ⟨base, rest, rest', hsome, hsome', hrest⟩
    · rw [hnone, hnone']
      exact hdecimal
    · rw [hsome, hsome']
      dsimp only
      obtain ⟨htake, hdrop⟩ := hrest.dropWhile (p := isNumeralChar base) fun _ hc =>
        isWord_of_isAsciiWord (isAsciiWord_of_isNumeralChar hc)
      rw [htake]
      cases isNegative with
      | true => exact .none
      | false =>
        cases binaryNumeral? base (rest'.takeWhile (isNumeralChar base)) with
        | none => exact .none
        | some d => exact .found hdrop
  · rw [if_neg hc, if_neg hc]
    exact hdecimal

end

/-! ## Quoted texts -/

section
variable {move : Position → Position} {s : Spot} {cs cs' rest : List Char}

theorem readQuoted_slash {margin : Option Nat} {text rest : List Char}
    (h : splitEscape? '"' margin cs = some (text, rest)) :
    readQuoted '"' margin ('\\' :: cs) =
      (readQuoted '"' margin rest).map fun r => (text ++ r.1, r.2) := by
  rw [readQuoted.eq_def]
  simp only [show ¬('\\' = '\n') by decide, if_false, if_true]
  split
  · rename_i hnone
    rw [h] at hnone
    cases hnone
  · rename_i hsome
    rw [h] at hsome
    cases hsome
    rfl

theorem readQuoted_escape (margin : Option Nat) (c : Char) (cs : List Char) :
    readQuoted '"' margin (escape c ++ cs) =
      (readQuoted '"' margin cs).map fun r => (c :: r.1, r.2) := by
  have hslash : ∀ d : Char, splitEscape? '"' margin (d :: cs) = some ([c], cs) →
      readQuoted '"' margin (['\\', d] ++ cs) =
        (readQuoted '"' margin cs).map fun r => (c :: r.1, r.2) :=
    fun _ hd => readQuoted_slash hd
  unfold escape
  split
  case h_6 hslash hquote hline _ _ =>
    rw [List.singleton_append, readQuoted.eq_def]
    dsimp only
    rw [if_neg hline, if_neg hslash, if_neg hquote]
  all_goals exact hslash _ rfl

theorem readQuoted_quote (margin : Option Nat) (text cs : List Char) :
    readQuoted '"' margin (text.flatMap escape ++ cs) =
      (readQuoted '"' margin cs).map fun r => (text ++ r.1, r.2) := by
  induction text with
  | nil => simp
  | cons c text ih =>
    rw [List.flatMap_cons, List.append_assoc, readQuoted_escape, ih, Option.map_map]
    rfl

theorem quotingAfter_ne_outside {q : Quoting} {used : List Char} (hq : q ≠ .outside)
    (hused : '"' ∉ used) : quotingAfter true q used ≠ .outside := by
  induction used generalizing q with
  | nil => exact hq
  | cons c used ih =>
    rw [List.mem_cons, not_or] at hused
    exact ih (next_ne_outside hq (Ne.symm hused.1)) hused.2

theorem readQuoted_of_unclosed (margin : Option Nat) (h : '"' ∉ cs) :
    readQuoted '"' margin cs = none := by
  cases hread : readQuoted '"' margin cs with
  | none => rfl
  | some found =>
    obtain ⟨used, hcs, hused⟩ := used_of_readQuoted hread
    have hno : '"' ∉ used := fun hq => h (hcs ▸ List.mem_append_left _ hq)
    exact absurd hused (quotingAfter_ne_outside (by decide) hno)

theorem readQuoted_double (margin : Option Nat) (cs : List Char) :
    readQuoted '"' margin ('"' :: '"' :: cs) =
      (readQuoted '"' margin cs).map fun r => ('"' :: r.1, r.2) := by
  rw [readQuoted, if_neg (by decide), if_neg (by decide), if_pos rfl]
  exact if_pos rfl

theorem readQuoted_single (margin : Option Nat) (h : cs.head? ≠ some '"') :
    readQuoted '"' margin ('"' :: cs) = some ([], cs) := by
  rw [readQuoted.eq_def]
  cases cs with
  | nil => rfl
  | cons d cs => simp_all

/-- Quotes that follow each other go on with one text. -/
theorem Counterpart.readQuoted (margin margin' : Option Nat)
    (h : Counterpart .expression move s ('"' :: rest) cs') :
    ∃ rest', cs' = '"' :: rest' ∧ FindsAlike .expression move
      (readQuoted '"' margin rest) (Expression.readQuoted '"' margin' rest') := by
  generalize hcs : '"' :: rest = cs at h
  induction h generalizing rest with
  | nil => cases hcs
  | char hpassed =>
    cases hcs
    cases hpassed
  | name hw =>
    obtain ⟨c, w, rfl, hc⟩ := Script.exists_cons ⟨_, hw⟩
    cases hcs
    cases hc
  | @block s b cs cs' hb hrest ih =>
    obtain ⟨text, rfl⟩ := hb
    have htext : ∀ cs : List Char, quote text ++ cs = '"' :: (text.flatMap escape ++ '"' :: cs) :=
      fun cs => by simp [quote]
    rw [htext] at hcs
    cases hcs
    refine ⟨_, htext cs', ?_⟩
    rw [readQuoted_quote, readQuoted_quote]
    refine .map (text ++ ·) ?_
    by_cases hquote : cs.head? = some '"'
    · obtain ⟨rest, rfl⟩ := List.head?_eq_some_iff.1 hquote
      obtain ⟨rest', rfl, halike⟩ := ih rfl
      rw [readQuoted_double, readQuoted_double]
      exact halike.map _
    · have hquote' := mt (hrest.head_eq_some (by decide)).2 hquote
      rw [readQuoted_single _ hquote, readQuoted_single _ hquote']
      exact .found hrest
  | unclosed hquote =>
    cases hcs
    refine ⟨_, rfl, ?_⟩
    rw [readQuoted_of_unclosed _ hquote, readQuoted_of_unclosed _ hquote]
    exact .none

end

/-! ## Symbols -/

section
variable {k : Script} {move : Position → Position} {s : Spot} {c : Char} {cs cs' : List Char}

theorem Counterpart.dropLead {lead : List Char} (hlead : ∀ c ∈ lead, isWord c = false ∧ c ≠ '"')
    (h : Counterpart k move s cs cs') :
    dropLead? lead cs = none ∧ dropLead? lead cs' = none ∨
      ∃ rest rest', dropLead? lead cs = some rest ∧ dropLead? lead cs' = some rest' ∧
        Counterpart k move (lead.foldl Spot.next s) rest rest' := by
  induction lead generalizing s cs cs' with
  | nil => exact .inr ⟨cs, cs', rfl, rfl, h⟩
  | cons l lead ih =>
    obtain ⟨⟨hword, hquote⟩, hlead⟩ := List.forall_mem_cons.1 hlead
    have hl := isAlpha_of_not_isWord hword
    by_cases hhead : cs.head? = some l
    · obtain ⟨cs, rfl⟩ := List.head?_eq_some_iff.1 hhead
      obtain ⟨cs', rfl, -, -, -, hcs⟩ := h.of_cons (.inr hl) hquote
      simp only [dropLead?, if_true, List.foldl_cons]
      exact ih hlead hcs
    · exact .inl ⟨dropLead?_of_head hhead, dropLead?_of_head (mt (h.head_eq_some hl).2 hhead)⟩

/-- The same entry of a table is at the front of both texts, or none is. -/
theorem Counterpart.findEntry {α : Type} {table : List (String × α)}
    (htable : ∀ entry ∈ table, ∀ c ∈ entry.1.toList, isWord c = false ∧ c ≠ '"')
    (h : Counterpart k move s cs cs') :
    (table.findSome? fun entry => (dropLead? entry.1.toList cs).map (entry.2, ·)) = none ∧
        (table.findSome? fun entry => (dropLead? entry.1.toList cs').map (entry.2, ·)) = none ∨
      ∃ entry ∈ table, ∃ rest rest',
        (table.findSome? fun entry => (dropLead? entry.1.toList cs).map (entry.2, ·)) =
          some (entry.2, rest) ∧
        (table.findSome? fun entry => (dropLead? entry.1.toList cs').map (entry.2, ·)) =
          some (entry.2, rest') ∧
        cs = entry.1.toList ++ rest ∧
        Counterpart k move (entry.1.toList.foldl Spot.next s) rest rest' := by
  induction table with
  | nil => exact .inl ⟨rfl, rfl⟩
  | cons entry table ih =>
    obtain ⟨hentry, htable⟩ := List.forall_mem_cons.1 htable
    rcases h.dropLead hentry with ⟨hnone, hnone'⟩ | ⟨rest, rest', hsome, hsome', hrest⟩
    · simp only [List.findSome?_cons, hnone, hnone', Option.map_none]
      exact (ih htable).imp_right fun hfound => hfound.imp fun _ hfound =>
        ⟨List.mem_cons_of_mem _ hfound.1, hfound.2⟩
    · refine .inr ⟨entry, List.mem_cons_self, rest, rest', ?_, ?_, eq_of_dropLead hsome, hrest⟩
      · simp [hsome]
      · simp [hsome']

/-- The same symbol is at the front of both texts, or none is. -/
theorem Counterpart.splitSymbol (h : Counterpart k move s cs cs') :
    splitSymbol? cs = none ∧ splitSymbol? cs' = none ∨
      ∃ entry ∈ symbols, ∃ rest rest', splitSymbol? cs = some (entry.2, rest) ∧
        splitSymbol? cs' = some (entry.2, rest') ∧ cs = entry.1.toList ++ rest ∧
        Counterpart k move (entry.1.toList.foldl Spot.next s) rest rest' :=
  h.findEntry fun entry hentry => (symbols_spec entry hentry).2.1

/-- Names are written in capitals, so no small letter begins one. -/
theorem head?_of_writes {w : List Char} {p : Position} (hc : c.isLower = true)
    (hw : Script.expression.writes w p) (cs : List Char) : (w ++ cs).head? ≠ some c := by
  obtain rfl := hw
  intro he
  obtain ⟨d, w, hw⟩ := List.exists_cons_of_ne_nil (Position.name_ne_nil p)
  rw [hw] at he
  cases he
  rw [Position.isLower_of_mem_name (p := p) (hw ▸ List.mem_cons_self)] at hc
  cases hc

theorem Counterpart.head_eq_of_isLower (hc : c.isLower = true)
    (h : Counterpart .expression move s cs cs') : cs.head? = some c ↔ cs'.head? = some c := by
  cases h with
  | nil => exact Iff.rfl
  | char => exact Iff.rfl
  | name hw hw' => exact iff_of_false (head?_of_writes hc hw _) (head?_of_writes hc hw' _)
  | block hb =>
    obtain ⟨b, rfl⟩ := Script.exists_block hb
    exact Iff.rfl
  | unclosed => exact Iff.rfl

theorem Counterpart.of_isLower (hc : c.isLower = true)
    (h : Counterpart .expression move s (c :: cs) cs') :
    ∃ rest', cs' = c :: rest' ∧ Counterpart .expression move .word cs rest' := by
  have hquote : c ≠ '"' := by
    rintro rfl
    exact absurd hc (by decide)
  generalize htext : c :: cs = text at h
  cases h with
  | nil => cases htext
  | char _ _ _ hrest =>
    cases htext
    have hletter : c.isAlpha = true := by
      unfold Char.isAlpha
      rw [hc, Bool.or_true]
    rw [Spot.next_of_isWord s (isWord_of_isAlpha hletter)] at hrest
    exact ⟨_, rfl, hrest⟩
  | name hw => exact absurd (congrArg List.head? htext.symm) (head?_of_writes hc hw _)
  | block hb =>
    obtain ⟨b, rfl⟩ := Script.exists_block hb
    cases htext
    exact absurd rfl hquote
  | unclosed =>
    cases htext
    exact absurd rfl hquote

theorem beginsWithin_cons_of_head (h : cs.head? ≠ some 'n') : beginsWithin ('i' :: cs) = none := by
  rw [beginsWithin, dropLead?, if_pos rfl, dropLead?_of_head h]
  rfl

/-- Names begin with a capital letter, so the word for membership begins none. -/
theorem Counterpart.beginsWithin (h : Counterpart .expression move s cs cs') :
    beginsWithin cs = none ∧ beginsWithin cs' = none ∨
      ∃ rest rest', beginsWithin cs = some rest ∧ beginsWithin cs' = some rest' ∧
        (∀ d ∈ rest.head?, isAsciiWord d = false) ∧
        Counterpart .expression move .word rest rest' := by
  by_cases hi : cs.head? = some 'i'
  · obtain ⟨cs, rfl⟩ := List.head?_eq_some_iff.1 hi
    obtain ⟨cs', rfl, hcs⟩ := h.of_isLower (by decide)
    by_cases hn : cs.head? = some 'n'
    · obtain ⟨cs, rfl⟩ := List.head?_eq_some_iff.1 hn
      obtain ⟨cs', rfl, hrest⟩ := hcs.of_isLower (by decide)
      have hvalue : ∀ cs : List Char, Expression.beginsWithin ('i' :: 'n' :: cs) =
          if cs.head?.any isAsciiWord then none else some cs := fun cs => rfl
      rw [hvalue, hvalue, ← hrest.head_eq (by decide)]
      split
      · exact .inl ⟨rfl, rfl⟩
      · rename_i hstop
        refine .inr ⟨cs, cs', rfl, rfl, fun d hd => ?_, hrest⟩
        rw [Option.mem_def.1 hd] at hstop
        simpa using hstop
    · exact .inl ⟨beginsWithin_cons_of_head hn,
        beginsWithin_cons_of_head (hcs.head_eq (by decide) ▸ hn)⟩
  · have hnone : ∀ {cs : List Char}, cs.head? ≠ some 'i' → Expression.beginsWithin cs = none := by
      intro cs hcs
      rw [Expression.beginsWithin, dropLead?_of_head hcs]
      rfl
    exact .inl ⟨hnone hi, hnone (mt (h.head_eq_of_isLower (by decide)).2 hi)⟩

end

end Spreadsheet.Formula

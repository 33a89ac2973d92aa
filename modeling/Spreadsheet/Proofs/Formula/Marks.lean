import Spreadsheet.Proofs.Formula.Arithmetic
import Spreadsheet.Proofs.Formula.SourceCounterpart

/-!
# From marks to tokens

The text of a calculation is rewritten twice before it is cut into tokens. Every
mark goes through these steps on its own, as long as operands and operators
alternate: what follows an operand is no part of it, and what follows an operator
begins an operand. Only a sign can go wrong, which makes one symbol with a minus or
a less-than sign before it and belongs to the digit after it.
-/
namespace Spreadsheet
open Text Expression

/-! ## Numbers -/

namespace Formula

section
variable {n : Numeral} {ds rest : List Char} {hasPoint hasExponent : Bool}

theorem splitDigits_append (h : ∀ c ∈ ds, c.isDigit = true) (hasPoint hasExponent : Bool)
    (rest : List Char) : splitDigits hasPoint hasExponent (ds ++ rest) =
      (ds ++ (splitDigits hasPoint hasExponent rest).1,
        (splitDigits hasPoint hasExponent rest).2) := by
  induction ds with
  | nil => rfl
  | cons c ds ih =>
    obtain ⟨hc, hds⟩ := List.forall_mem_cons.1 h
    rw [List.cons_append, splitDigits_digit hc, ih hds]
    rfl

/-- What may follow an operand of a calculation: nothing, or one of a few symbols. -/
def EndsMark (rest : List Char) : Prop := ∀ c ∈ rest.head?, c ∈ ")*+-/&|=<>!".toList

theorem EndsMark.head (h : EndsMark rest) : ∀ c ∈ rest.head?,
    isAsciiWord c = false ∧ c ≠ '.' ∧ c ≠ '(' := by
  have htable : ∀ c ∈ ")*+-/&|=<>!".toList, isAsciiWord c = false ∧ c ≠ '.' ∧ c ≠ '(' := by decide
  exact fun c hc => htable c (h c hc)

theorem EndsMark.splitDigits_eq (h : EndsMark rest) :
    splitDigits true hasExponent rest = ([], rest) := by
  cases rest with
  | nil => rfl
  | cons c rest =>
    have hword := (h.head c rfl).1
    simp only [isAsciiWord, Char.isAlphanum, Bool.or_eq_false_iff] at hword
    refine splitDigits_stop (by simp [hword.1.2]) (by simpa using hword.2) (by simp) fun hmark => ?_
    rcases hmark.1 with rfl | rfl <;> exact absurd hword.1.1 (by decide)

/-- The exponent of a number as an expression has it. -/
def Numeral.writtenExponent (n : Numeral) : List Char :=
  match n.exponent with
  | none => []
  | some x => 'e' :: x.sign ++ x.digits

theorem Numeral.written_eq (n : Numeral) : n.written =
    orZero n.whole ++ '.' :: (orZero (n.fraction.getD []) ++ n.writtenExponent) := by
  unfold written writtenExponent
  cases n.exponent <;> simp

theorem Numeral.exists_digit_written (n : Numeral) :
    ∃ c cs, n.written = c :: cs ∧ c.isDigit = true := by
  obtain ⟨hne, hwhole⟩ := orZero_spec n.isDigit_whole
  obtain ⟨c, ds, hc⟩ := List.exists_cons_of_ne_nil hne
  exact ⟨c, _, by rw [n.written_eq, hc]; rfl, hwhole c (hc ▸ List.mem_cons_self)⟩

theorem splitDigits_writtenExponent (n : Numeral) (h : EndsMark rest) :
    splitDigits true false (n.writtenExponent ++ rest) = (n.writtenExponent, rest) := by
  unfold Numeral.writtenExponent
  cases n.exponent with
  | none => exact h.splitDigits_eq
  | some x =>
    have hsign := x.sign_mem
    simp only [List.mem_cons, List.not_mem_nil, or_false] at hsign
    have hdigits := splitDigits_append x.isDigit true true rest
    rw [h.splitDigits_eq] at hdigits
    rcases hsign with he | he | he
    · obtain ⟨d, ds, hd⟩ := List.exists_cons_of_ne_nil x.digits_ne_nil
      have hdigit : d.isDigit = true := x.isDigit d (hd ▸ List.mem_cons_self)
      rw [hd, List.cons_append, splitDigits_digit hdigit] at hdigits
      simp only [he, hd, List.nil_append, List.cons_append]
      rw [splitDigits_mark (.inl rfl), if_pos (by simp [hdigit])]
      simpa using hdigits
    · simp only [he, List.cons_append, List.nil_append]
      rw [splitDigits_mark (.inl rfl), if_pos (by decide), hdigits]
      simp
    · simp only [he, List.cons_append, List.nil_append]
      rw [splitDigits_mark (.inl rfl), if_pos (by decide), hdigits]
      simp

theorem splitDigits_fraction (n : Numeral) (h : EndsMark rest) :
    splitDigits false false ('.' :: (orZero (n.fraction.getD []) ++ (n.writtenExponent ++ rest))) =
      ('.' :: (orZero (n.fraction.getD []) ++ n.writtenExponent), rest) := by
  have hfraction : ∀ c ∈ n.fraction.getD [], c.isDigit = true := by
    cases he : n.fraction with
    | none => exact List.forall_mem_nil _
    | some digits => exact n.isDigit_fraction digits he
  obtain ⟨hne, hdigits⟩ := orZero_spec hfraction
  have hsplit := splitDigits_append hdigits true false (n.writtenExponent ++ rest)
  rw [splitDigits_writtenExponent n h] at hsplit
  obtain ⟨d, ds, hd⟩ := List.exists_cons_of_ne_nil hne
  have hdigit : d.isDigit = true := hdigits d (hd ▸ List.mem_cons_self)
  rw [hd] at hsplit ⊢
  rw [List.cons_append] at hsplit ⊢
  rw [splitDigits_point, if_pos hdigit, hsplit]
  simp

theorem exponent?_eq (x : Exponent) : Number.exponent? (x.sign ++ x.digits) =
    some (if x.sign = ['-'] then -(Decimal.value x.digits : Int) else Decimal.value x.digits) := by
  have hnatural : Decimal.isNatural x.digits = true := by
    simpa [Decimal.isNatural, x.digits_ne_nil] using x.isDigit
  have hsign := x.sign_mem
  simp only [List.mem_cons, List.not_mem_nil, or_false] at hsign
  rcases hsign with he | he | he
  · obtain ⟨d, ds, hd⟩ := List.exists_cons_of_ne_nil x.digits_ne_nil
    have hdigit : d.isDigit = true := x.isDigit d (hd ▸ List.mem_cons_self)
    rw [he, List.nil_append, if_neg (by decide)]
    unfold Number.exponent?
    split
    rename_i hsplit
    split at hsplit
    · rename_i hdigits
      rw [hd] at hdigits
      cases hdigits
      exact absurd hdigit (by decide)
    · rename_i hdigits
      rw [hd] at hdigits
      cases hdigits
      exact absurd hdigit (by decide)
    · cases hsplit
      rw [if_pos hnatural]
      rfl
  · simp [he, Number.exponent?, hnatural]
  · simp [he, Number.exponent?, hnatural]

theorem special?_of_isDigit {c : Char} {cs : List Char} (hc : c.isDigit = true) :
    Number.special? (c :: cs) = none := by
  have hupper : c.toUpper.isDigit = true := (isDigit_toUpper c).trans hc
  have hword : ∀ d ds, d.toUpper.isDigit = false →
      sameIgnoringCase (c :: cs) (d :: ds) = false := by
    intro d ds hd
    have hne : c.toUpper ≠ d.toUpper := fun he => by simp [he, hd] at hupper
    simp [sameIgnoringCase, hne]
  unfold Number.special?
  rw [if_neg, if_neg]
  · simp [hword 'n' ['a', 'n'] (by decide)]
  · simp [hword 'i' ['n', 'f'] (by decide),
      hword 'i' ['n', 'f', 'i', 'n', 'i', 't', 'y'] (by decide)]

theorem unsigned?_written (n : Numeral) : Number.unsigned? n.written = some n.value := by
  have hfraction : ∀ c ∈ n.fraction.getD [], c.isDigit = true := by
    cases he : n.fraction with
    | none => exact List.forall_mem_nil _
    | some digits => exact n.isDigit_fraction digits he
  obtain ⟨hne, hwhole⟩ := orZero_spec n.isDigit_whole
  obtain ⟨-, hdigits⟩ := orZero_spec hfraction
  have hexponent : ∀ c ∈ n.writtenExponent.head?, c.isDigit = false := by
    unfold Numeral.writtenExponent
    cases n.exponent with
    | none => simp
    | some x => simp
  have hpoint : ∀ c ∈ ('.' :: (orZero (n.fraction.getD []) ++ n.writtenExponent)).head?,
      c.isDigit = false := by
    simp
  obtain ⟨htake, hdrop⟩ := takeWhile_append_of_head hwhole hpoint
  obtain ⟨htake', hdrop'⟩ := takeWhile_append_of_head hdigits hexponent
  unfold Number.unsigned?
  simp only [n.written_eq, htake, hdrop, htake', hdrop']
  have hempty : (orZero n.whole).isEmpty = false := by simpa using hne
  simp only [hempty, Bool.false_and]
  unfold Numeral.value Numeral.power Numeral.writtenExponent
  cases n.exponent with
  | none => rfl
  | some x => simp [exponent?_eq]

/-- A number is read as the value that it has in a formula. -/
theorem read?_written (n : Numeral) : Number.read? n.written = some n.value := by
  obtain ⟨c, cs, hwritten, hdigit⟩ := n.exists_digit_written
  have hunsigned := unsigned?_written n
  rw [hwritten] at hunsigned ⊢
  unfold Number.read?
  split
  rename_i hsplit
  split at hsplit
  · rename_i heq
    cases heq
    exact absurd hdigit (by decide)
  · rename_i heq
    cases heq
    exact absurd hdigit (by decide)
  · cases hsplit
    simp [special?_of_isDigit hdigit, hunsigned]

theorem splitBase?_eq_none {d : Char} {cs : List Char} (h : d.isDigit = true ∨ d = '.') :
    splitBase? (d :: cs) = none := by
  have hbase : d ≠ '_' ∧ base? d = none := by
    rcases h with h | rfl
    · constructor
      · rintro rfl
        exact absurd h (by decide)
      · unfold base?
        split <;> first | rfl | exact absurd h (by decide)
    · decide
  unfold splitBase?
  rw [List.dropWhile_cons_of_neg (by simpa using hbase.1)]
  simp [hbase.2]

/-- The text of a number is one token. -/
theorem scanNumber_written (n : Numeral) (isNegative : Bool) (h : EndsMark rest) :
    ∃ c cs, n.written ++ rest = c :: cs ∧ c.isDigit = true ∧ scanNumber isNegative c cs =
      some ([.literal (.number (if isNegative then -n.value else n.value))], rest) := by
  obtain ⟨hne, hwhole⟩ := orZero_spec n.isDigit_whole
  obtain ⟨c, ds, hc⟩ := List.exists_cons_of_ne_nil hne
  obtain ⟨hdigit, hdigits⟩ := List.forall_mem_cons.1 (hc ▸ hwhole)
  have hwritten : n.written =
      c :: (ds ++ '.' :: (orZero (n.fraction.getD []) ++ n.writtenExponent)) := by
    rw [n.written_eq, hc]
    rfl
  refine ⟨c, ds ++ '.' :: (orZero (n.fraction.getD []) ++ (n.writtenExponent ++ rest)), ?_,
    hdigit, ?_⟩
  · simp [hwritten]
  have hsplit := splitDigits_append hdigits false false
    ('.' :: (orZero (n.fraction.getD []) ++ (n.writtenExponent ++ rest)))
  rw [splitDigits_fraction n h] at hsplit
  have hbase : splitBase?
      (ds ++ '.' :: (orZero (n.fraction.getD []) ++ (n.writtenExponent ++ rest))) = none := by
    cases ds with
    | nil => exact splitBase?_eq_none (.inr rfl)
    | cons d ds => exact splitBase?_eq_none (.inl (hdigits d List.mem_cons_self))
  have hpoint : Decimal.isNatural n.written = false := by
    simp [Decimal.isNatural, n.written_eq]
  rw [scanNumber, readNumeral, hbase, ite_self]
  simp only [hsplit, ← hwritten]
  simp [decimalNumeral?, hpoint, read?_written]

end

end Formula

/-! ## Symbols -/

namespace Expression

/-- What the symbols of the table have after a given beginning. -/
def continuations (w : List Char) : List Char :=
  symbols.filterMap fun entry => (dropLead? w entry.1.toList).bind List.head?

section
variable {c : Char} {w rest cs : List Char} {token : Token} {p : Place}

theorem dropLead?_append (lead w rest : List Char) : dropLead? lead (w ++ rest) =
    match dropLead? lead w with
    | some after => some (after ++ rest)
    | none => (dropLead? w lead).bind fun more => dropLead? more rest := by
  induction lead generalizing w with
  | nil => cases w <;> rfl
  | cons l lead ih =>
    cases w with
    | nil => rfl
    | cons c w =>
      by_cases hc : l = c
      · subst hc
        simp only [List.cons_append, dropLead?, if_true]
        exact ih w
      · simp [dropLead?, hc, Ne.symm hc]

theorem dropLead?_self (w : List Char) : dropLead? w w = some [] := by
  simpa using dropLead?_append_self w []

/-- A symbol is taken alone where no other one goes on with what follows it. -/
theorem splitSymbol?_append (h : ∀ c ∈ rest.head?, c ∉ continuations w) :
    splitSymbol? (w ++ rest) = (splitSymbol? w).map fun found => (found.1, found.2 ++ rest) := by
  have hentry : ∀ entry ∈ symbols, dropLead? entry.1.toList (w ++ rest) =
      (dropLead? entry.1.toList w).map (· ++ rest) := by
    intro entry hentry
    rw [dropLead?_append]
    cases hlead : dropLead? entry.1.toList w with
    | some after => rfl
    | none =>
      cases hmore : dropLead? w entry.1.toList with
      | none => rfl
      | some more =>
        cases more with
        | nil =>
          rw [eq_of_dropLead hmore, List.append_nil, dropLead?_self] at hlead
          cases hlead
        | cons d more =>
          refine dropLead?_of_head fun hd => ?_
          refine h d hd (List.mem_filterMap.2 ⟨entry, hentry, ?_⟩)
          rw [hmore]
          rfl
  have hcongr : ∀ entries : List (String × Option Token), entries ⊆ symbols →
      entries.findSome? (fun entry => (dropLead? entry.1.toList (w ++ rest)).map (entry.2, ·)) =
        (entries.findSome? fun entry => (dropLead? entry.1.toList w).map (entry.2, ·)).map
          fun found => (found.1, found.2 ++ rest) := by
    intro entries hentries
    induction entries with
    | nil => rfl
    | cons entry entries ih =>
      obtain ⟨hmem, hsub⟩ := List.cons_subset.1 hentries
      rw [List.findSome?_cons, List.findSome?_cons, hentry entry hmem, ih hsub]
      cases dropLead? entry.1.toList w <;> rfl
  exact hcongr symbols (List.Subset.refl _)

theorem scanSymbol_append (hw : splitSymbol? (c :: w) = some (some token, []))
    (hc : c = '!' → w.head? = some '=') (h : ∀ d ∈ rest.head?, d ∉ continuations (c :: w)) :
    scanSymbol c (w ++ rest) = some ([token], rest) := by
  have hwithin : (if c = '!' then beginsWithin (w ++ rest) else none) = none := by
    split
    · rename_i hnot
      obtain ⟨more, rfl⟩ : ∃ more, w = '=' :: more := by
        cases w with
        | nil => cases hc hnot
        | cons d w => exact ⟨w, by rw [Option.some.inj (hc hnot)]⟩
      rfl
    · rfl
  have hsplit : splitSymbol? (c :: (w ++ rest)) = some (some token, rest) := by
    rw [← List.cons_append, splitSymbol?_append h, hw]
    rfl
  rw [scanSymbol, hwithin, hsplit]

/-- What begins with one of the symbols of a calculation is scanned as a symbol. -/
theorem scanOne_symbol (hc : c ∈ "()+*/&|=<>!-".toList)
    (hslash : c = '/' → ∀ d ∈ cs.head?, d ≠ '/' ∧ d ≠ '*')
    (hminus : c = '-' → p.allowsSign = false) : scanOne p c cs = scanSymbol c cs := by
  have htable : ∀ c ∈ "()+*/&|=<>!-".toList, isAsciiBlank c = false ∧ c.isDigit = false ∧
      (c.isAlpha || c == '_') = false ∧ c ≠ '"' ∧ c ≠ backtick ∧ c ≠ '\'' ∧ c ≠ '#' := by decide
  obtain ⟨hblank, hdigit, hletter, hquote, hbacktick, hglyph, hmark⟩ := htable c hc
  have hslash : ¬(c = '/' ∧ cs.head? = some '/') ∧ ¬(c = '/' ∧ cs.head? = some '*') :=
    ⟨fun h => (hslash h.1 _ h.2).1 rfl, fun h => (hslash h.1 _ h.2).2 rfl⟩
  have hminus : ¬(c = '-' ∧ p.allowsSign = true) := fun h => by simp [hminus h.1] at h
  simp only [scanOne, hblank, hdigit, hletter, hquote, hbacktick, hglyph, hmark, hslash, hminus,
    false_and, if_false, Bool.false_eq_true]

/-- One token after the other. -/
theorem tokensFrom_of_scanOne {ts : List Token} (hp : p.depths = [])
    (hscan : scanOne p c cs = some ([token], rest))
    (h : tokensFrom (p.after c [token] rest) rest = some ts) :
    tokensFrom p (c :: cs) = some (token :: ts) := by
  rw [← Formula.scan_of_depths hp] at hscan
  rw [Formula.tokensFrom_of_some hscan, h]
  rfl

end

end Expression

namespace Formula

/-! ## Marks in each of the texts -/

/-- The numbers of a percent sign. -/
def Numeral.one : Numeral := ⟨['1'], none, none, by decide, by simp, .inl (by decide)⟩

def Numeral.hundred : Numeral := ⟨['1', '0', '0'], none, none, by decide, by simp, .inl (by decide)⟩

theorem Numeral.value_one : Numeral.one.value = 1 := by
  have hsize : Decimal.size 10 = 2 := by simp [Decimal.size, Decimal.digits]
  change Number.nearest 10 (-1) = 1
  rw [Number.nearest, hsize]
  rfl

theorem Numeral.value_hundred : Numeral.hundred.value = 100 := by
  have hsize : Decimal.size 1000 = 4 := by simp [Decimal.size, Decimal.digits]
  change Number.nearest 1000 (-1) = 100
  rw [Number.nearest, hsize]
  rfl

/-- An operator between two operands as a connective. -/
def Infix.connective : Infix → Connective
  | plus => .operator .plus
  | minus => .operator .minus
  | times => .operator .times
  | dividedBy => .operator .dividedBy
  | power => .operator .power
  | both => .junction .both
  | either => .junction .either
  | same | equal => .operator .equal
  | unequal | differs => .operator .unequal
  | less => .operator .less
  | atMost => .operator .atMost
  | greater => .operator .greater
  | atLeast => .operator .atLeast

namespace Mark

/-- A mark where percent signs are written out. -/
def expanded : Mark → List Char
  | percent => ['*', '1', '/', '1', '0', '0']
  | m => m.text

/-- A mark as an expression has it. -/
def written : Mark → List Char
  | literal n => n.written
  | cell name => name.meaning.name
  | percent => ['*', '1', '.', '0', '/', '1', '0', '0', '.', '0']
  | between op => op.written
  | m => m.text

/-- The tokens with a minus in front, which belongs to a number that comes first. -/
def signed : List Token → List Token
  | .literal (.number x) :: ts => .literal (.number (-x)) :: ts
  | ts => .connective (.operator .minus) :: ts

/-- The tokens of a percent sign. -/
def hundredth : List Token :=
  [.connective (.operator .times), .literal (.number 1), .connective (.operator .dividedBy),
    .literal (.number 100)]

/-- The tokens that marks become. -/
def tokens : List Mark → List Token
  | [] => []
  | literal n :: ms => .literal (.number n.value) :: tokens ms
  | cell name :: ms => .name name.meaning.nameText :: tokens ms
  | sign :: ms => signed (tokens ms)
  | percent :: ms => hundredth ++ tokens ms
  | between op :: ms => .connective op.connective :: tokens ms
  | opened :: ms => .opened .round :: tokens ms
  | closed :: ms => .closed .round :: tokens ms

end Mark

/-- What an operand of a calculation begins with. -/
def StartsMark (rest : List Char) : Prop :=
  ∀ c ∈ rest.head?, c.isAlphanum = true ∨ c ∈ ".-(".toList

section
variable {b : Bool} {ms : List Mark} {rest : List Char} {c : Char}

theorem Numeral.startsMark_text (n : Numeral) (rest : List Char) : StartsMark (n.text ++ rest) := by
  obtain ⟨c, cs, htext, hbegin⟩ := n.exists_begin rest
  rw [htext]
  rintro _ ⟨⟩
  simp only [beginsNumber, Bool.or_eq_true, Bool.and_eq_true, beq_iff_eq] at hbegin
  rcases hbegin with hdigit | ⟨rfl, -⟩
  · exact .inl (isAlphanum_of_isDigit hdigit)
  · exact .inr (by decide)

theorem IsIdentifier.startsMark {name : List Char} (h : IsIdentifier name) (rest : List Char) :
    StartsMark (name ++ rest) := by
  obtain ⟨c, cs, rfl⟩ := List.exists_cons_of_ne_nil h.ne_nil
  rintro _ ⟨⟩
  exact .inl (h.isAlphanum c List.mem_cons_self)

theorem startsMark_cons (hc : c ∈ ".-(".toList) : StartsMark (c :: rest) := by
  rintro _ ⟨⟩
  exact .inr hc

theorem endsMark_cons (hc : c ∈ ")*+-/&|=<>!".toList) : EndsMark (c :: rest) := by
  rintro _ ⟨⟩
  exact hc

theorem endsMark_operator (op : Infix) (rest : List Char) :
    EndsMark (op.text ++ rest) ∧ EndsMark (op.written ++ rest) := by
  cases op <;> exact ⟨endsMark_cons (by decide), endsMark_cons (by decide)⟩

/-- What comes next in the text of a formula, and in that of an expression. -/
theorem Alternates.head (h : Alternates b ms) :
    (b = true → StartsMark (ms.flatMap Mark.expanded) ∧ StartsMark (ms.flatMap Mark.written)) ∧
    (b = false → EndsMark (ms.flatMap Mark.expanded) ∧ EndsMark (ms.flatMap Mark.written)) := by
  cases h with
  | nil => exact ⟨nofun, fun _ => ⟨nofun, nofun⟩⟩
  | @literal n ms _ =>
    obtain ⟨c, cs, hwritten, hdigit⟩ := n.exists_digit_written
    refine ⟨fun _ => ⟨n.startsMark_text _, ?_⟩, nofun⟩
    rw [List.flatMap_cons, Mark.written, hwritten]
    rintro _ ⟨⟩
    exact .inl (isAlphanum_of_isDigit hdigit)
  | @cell name ms _ =>
    exact ⟨fun _ => ⟨(isIdentifier_of_ofName name.reads).startsMark _,
      (isIdentifier_of_ofName (Position.ofName?_name name.meaning)).startsMark _⟩, nofun⟩
  | sign => exact ⟨fun _ => ⟨startsMark_cons (by decide), startsMark_cons (by decide)⟩, nofun⟩
  | opened => exact ⟨fun _ => ⟨startsMark_cons (by decide), startsMark_cons (by decide)⟩, nofun⟩
  | closed => exact ⟨nofun, fun _ => ⟨endsMark_cons (by decide), endsMark_cons (by decide)⟩⟩
  | percent => exact ⟨nofun, fun _ => ⟨endsMark_cons (by decide), endsMark_cons (by decide)⟩⟩
  | @between op ms _ =>
    exact ⟨nofun, fun _ => ⟨(endsMark_operator op _).1, (endsMark_operator op _).2⟩⟩

/-! ## The source of a calculation -/

theorem Numeral.mem_text {n : Numeral} (h : c ∈ n.text) :
    c.isDigit = true ∨ c ∈ ".eE+-".toList := by
  simp only [Numeral.text, List.mem_append] at h
  rcases h with h | h | h
  · exact .inl (n.isDigit_whole c h)
  · unfold Numeral.fractionText at h
    split at h
    · cases h
    · rename_i digits hdigits
      rcases List.mem_cons.1 h with rfl | h
      · exact .inr (by decide)
      · exact .inl (n.isDigit_fraction digits hdigits c h)
  · unfold Numeral.exponentText at h
    split at h
    · cases h
    · rename_i x _
      have hsign : ∀ sign ∈ [[], ['+'], ['-']], ∀ c ∈ sign, c ∈ ".eE+-".toList := by decide
      rcases List.mem_cons.1 h with rfl | h
      · rcases x.mark_eq with he | he <;> rw [he] <;> exact .inr (by decide)
      · rcases List.mem_append.1 h with h | h
        · exact .inr (hsign _ x.sign_mem c h)
        · exact .inl (x.isDigit c h)

/-- The characters of marks are ASCII letters and digits and a few symbols. -/
theorem Mark.mem_text {m : Mark} (h : c ∈ m.text) :
    c.isAlphanum = true ∨ c ∈ ".+-*/&|=<>!()%".toList := by
  cases m with
  | literal n =>
    have htable : ∀ c ∈ ".eE+-".toList, c.isAlphanum = true ∨ c ∈ ".+-*/&|=<>!()%".toList := by
      decide
    rcases Numeral.mem_text h with h | h
    · exact .inl (isAlphanum_of_isDigit h)
    · exact htable c h
  | cell name => exact .inl ((isIdentifier_of_ofName name.reads).isAlphanum c h)
  | between op =>
    have htable : ∀ c ∈ op.text, c ∈ ".+-*/&|=<>!()%".toList := by cases op <;> decide
    exact .inr (htable c h)
  | sign | percent | opened | closed =>
    cases List.mem_singleton.1 h
    exact .inr (by decide)

theorem withoutPercents_text (ms : List Mark) :
    withoutPercents (ms.flatMap Mark.text) = ms.flatMap Mark.expanded := by
  induction ms with
  | nil => rfl
  | cons m ms ih =>
    rw [List.flatMap_cons, List.flatMap_cons, withoutPercents_append, ih]
    congr 1
    cases m with
    | literal n =>
      refine withoutPercents_of_not_mem fun h => ?_
      rcases Numeral.mem_text h with h | h <;> exact absurd h (by decide)
    | cell name =>
      exact withoutPercents_of_not_mem fun h =>
        absurd ((isIdentifier_of_ofName name.reads).isAlphanum _ h) (by decide)
    | between op => cases op <;> rfl
    | _ => rfl

theorem no_quote_text (ms : List Mark) : '"' ∉ ms.flatMap Mark.text := by
  intro h
  obtain ⟨m, -, hm⟩ := List.mem_flatMap.1 h
  rcases Mark.mem_text hm with h | h <;> exact absurd h (by decide)

/-- A number has one point at most, and none follows it. -/
theorem Numeral.no_range (n : Numeral) (hrest : ¬['.', '.'] <:+: rest)
    (hhead : rest.head? ≠ some '.') : ¬['.', '.'] <:+: n.text ++ rest := by
  have hpoint : ∀ {cs : List Char}, (∀ c ∈ cs, c.isDigit = true) → '.' ∉ cs := fun h hmem =>
    absurd (h _ hmem) (by decide)
  have hexponent : '.' ∉ n.exponentText := by
    unfold Numeral.exponentText
    cases n.exponent with
    | none => exact List.not_mem_nil
    | some x =>
      have hsign : ∀ sign ∈ [[], ['+'], ['-']], '.' ∉ sign := by decide
      have hmark : '.' ≠ x.mark := by rcases x.mark_eq with he | he <;> rw [he] <;> decide
      simp [hmark, hsign _ x.sign_mem, hpoint x.isDigit]
  rw [Numeral.text, List.append_assoc, List.append_assoc,
    range_append_of_not_mem (hpoint n.isDigit_whole)]
  unfold Numeral.fractionText
  cases hfraction : n.fraction with
  | none => rwa [List.nil_append, range_append_of_not_mem hexponent]
  | some digits =>
    have hdigits := hpoint (n.isDigit_fraction digits hfraction)
    have hmem : '.' ∉ digits ++ n.exponentText := List.not_mem_append hdigits hexponent
    rw [List.cons_append, ← List.append_assoc, range_cons, range_append_of_not_mem hmem]
    rintro (⟨-, h⟩ | h)
    · cases hcs : digits ++ n.exponentText with
      | nil =>
        rw [hcs] at h
        exact hhead h
      | cons c cs =>
        rw [hcs] at h hmem
        cases h
        exact hmem List.mem_cons_self
    · exact hrest h

theorem no_range_expanded (h : Alternates b ms) : ¬['.', '.'] <:+: ms.flatMap Mark.expanded := by
  have hskip : ∀ {m : Mark} {ms : List Mark}, '.' ∉ m.expanded →
      ¬['.', '.'] <:+: ms.flatMap Mark.expanded →
      ¬['.', '.'] <:+: (m :: ms).flatMap Mark.expanded :=
    fun hm hms => mt (range_append_of_not_mem hm).1 hms
  induction h with
  | nil => decide
  | @literal n ms h ih =>
    exact n.no_range ih fun hhead => ((h.head.2 rfl).1.head '.' hhead).2.1 rfl
  | @cell name ms _ ih =>
    exact hskip
      (fun h => absurd ((isIdentifier_of_ofName name.reads).isAlphanum _ h) (by decide)) ih
  | @between op ms _ ih => exact hskip (by cases op <;> decide) ih
  | sign _ ih | opened _ ih | closed _ ih | percent _ ih => exact hskip (by decide) ih

/-! ## The expression of a calculation -/

theorem EndsMark.endsOperand (h : EndsMark rest) : EndsOperand rest := by
  refine ⟨fun c hc => ⟨(h.head c hc).1, (h.head c hc).2.1⟩, ?_⟩
  cases rest with
  | nil => rfl
  | cons c rest =>
    have htable : ∀ c ∈ ")*+-/&|=<>!".toList, isBlank c = false := by decide
    have htrim : trimLeft (c :: rest) = c :: rest :=
      List.dropWhile_cons_of_neg (by simp [htable c (h c rfl)])
    unfold afterParenthesis?
    rw [htrim]
    split
    · rename_i hparen
      cases hparen
      exact absurd rfl (h.head '(' rfl).2.2
    · rfl

theorem StartsMark.head (h : StartsMark rest) : ∀ c ∈ rest.head?, c ≠ '=' ∧ c ≠ '>' := by
  intro c hc
  constructor <;> rintro rfl <;> rcases h _ hc with h | h <;> exact absurd h (by decide)

/-- A parenthesis that closes no call is kept. -/
theorem lowerFrom_closing_group {literals : List (List Char)} {frames : List Frame}
    (h : ∀ f ∈ frames, f.function = none) : lowerFrom literals frames (')' :: rest) =
      before [')'] (lowerFrom literals frames.tail rest) := by
  cases frames with
  | nil => exact lowerFrom_of_step (s := ⟨[')'], [], rest⟩) rfl
  | cons f frames => exact lowerFrom_closed (h f List.mem_cons_self)

theorem lowerFrom_expanded (h : Alternates b ms) {frames : List Frame}
    (hframes : ∀ f ∈ frames, f.function = none) :
    lowerFrom [] frames (ms.flatMap Mark.expanded) = .ok (ms.flatMap Mark.written) := by
  have hmarked : ∀ {frames : List Frame}, (∀ f ∈ frames, f.function = none) →
      ∀ f ∈ markArgument frames, f.function = none := by
    intro frames h
    cases frames with
    | nil => exact h
    | cons f frames => simpa [markArgument] using h
  induction h generalizing frames with
  | nil => rw [List.flatMap_nil, lowerFrom]; rfl
  | @literal n ms h ih =>
    change lowerFrom [] frames (n.text ++ ms.flatMap Mark.expanded) = _
    rw [lowerFrom_number n (h.head.2 rfl).1.endsOperand, ih (hmarked hframes)]
    rfl
  | @cell name ms h ih =>
    change lowerFrom [] frames (name.text ++ ms.flatMap Mark.expanded) = _
    rw [lowerFrom_name (isIdentifier_of_ofName name.reads) (h.head.2 rfl).1.endsOperand,
      ih (hmarked hframes), canonicalName_of_ofName name.reads]
    rfl
  | @between op ms h ih =>
    change lowerFrom [] frames (op.text ++ ms.flatMap Mark.expanded) = _
    rw [lowerFrom_operator op (h.head.1 rfl).1.head, ih (hmarked hframes)]
    rfl
  | @sign ms h ih =>
    change lowerFrom [] frames ('-' :: ms.flatMap Mark.expanded) = _
    rw [lowerFrom_symbol (by decide) fun d _ => by simp [pairedSymbols], ih (hmarked hframes)]
    rfl
  | @opened ms h ih =>
    change lowerFrom [] frames ('(' :: ms.flatMap Mark.expanded) = _
    rw [lowerFrom_opened, ih (List.forall_mem_cons.2 ⟨rfl, hmarked hframes⟩)]
    rfl
  | @closed ms h ih =>
    change lowerFrom [] frames (')' :: ms.flatMap Mark.expanded) = _
    rw [lowerFrom_closing_group hframes, ih fun f hf => hframes f (List.mem_of_mem_tail hf)]
    rfl
  | @percent ms h ih =>
    change lowerFrom [] frames (Infix.times.text ++ (Numeral.one.text ++ (Infix.dividedBy.text ++
      (Numeral.hundred.text ++ ms.flatMap Mark.expanded)))) = _
    rw [lowerFrom_operator .times (Numeral.one.startsMark_text _).head,
      lowerFrom_number .one (endsMark_operator .dividedBy _).1.endsOperand,
      lowerFrom_operator .dividedBy (Numeral.hundred.startsMark_text _).head,
      lowerFrom_number .hundred (h.head.2 rfl).1.endsOperand,
      ih (hmarked (hmarked (hmarked (hmarked hframes))))]
    rfl

/-! ## The tokens of a calculation -/

theorem splitSymbol?_operator (op : Infix) :
    splitSymbol? op.written = some (some (.connective op.connective), []) := by
  cases op <;> rfl

theorem continuations_operator (op : Infix) : ∀ d ∈ continuations op.written,
    d.isAlphanum = false ∧ d ∉ ".(".toList ∧ (d = '-' → op = .minus ∨ op = .less) := by
  cases op <;> decide

theorem continuations_opened : ∀ d ∈ continuations ['('],
    d.isAlphanum = false ∧ d ∉ ".-(".toList := by
  decide

/-- After an operator comes an operand, unless a minus makes one symbol with it. -/
theorem StartsMark.not_mem_continuations (h : StartsMark rest) (op : Infix)
    (hminus : op = .minus ∨ op = .less → rest.head? ≠ some '-') :
    ∀ d ∈ rest.head?, d ∉ continuations op.written := by
  intro d hd hmem
  obtain ⟨halphanum, hsymbol, hsign⟩ := continuations_operator op d hmem
  rcases h d hd with h | h
  · rw [halphanum] at h
    cases h
  · have htable : ∀ d ∈ ".-(".toList, d ∈ ".(".toList ∨ d = '-' := by decide
    rcases htable d h with hd' | rfl
    · exact hsymbol hd'
    · exact hminus (hsign rfl) hd

/-- A text begins with one token. -/
def ScansAs (p : Place) (cs : List Char) (token : Token) (rest : List Char) : Prop :=
  ∃ c more, cs = c :: more ∧ scanOne p c more = some ([token], rest)

theorem ScansAs.tokensFrom {p : Place} {cs : List Char} {token : Token} {ts : List Token}
    (h : ScansAs p cs token rest) (hp : p.depths = []) (htoken : token.depths [] = [])
    (hrest : ∀ q : Place, q.depths = [] → q.allowsSign = token.allowsSign →
      tokensFrom q rest = some ts) : tokensFrom p cs = some (token :: ts) := by
  obtain ⟨c, more, rfl, hscan⟩ := h
  exact tokensFrom_of_scanOne hp hscan (hrest _ (by simp [Place.after, hp, htoken])
    (by simp [Place.after, Place.allowsSign]))

section
variable {p : Place}

theorem scanOne_minus (hp : p.allowsSign = true) : scanOne p '-' rest = scanMinus rest := by
  have hclass : isAsciiBlank '-' = false ∧ '-'.isDigit = false ∧ '-'.isAlpha = false ∧
      '-' ≠ backtick := by
    decide
  simp [scanOne, hp, hclass]

theorem scansAs_number (n : Numeral) (h : EndsMark rest) :
    ScansAs p (n.written ++ rest) (.literal (.number n.value)) rest := by
  obtain ⟨c, cs, htext, hdigit, hscan⟩ := scanNumber_written n false h
  have hblank : isAsciiBlank c = false :=
    eq_false_of_ne_true (mt isWord_of_isAsciiBlank (ne_false_of_eq_true (isWord_of_isDigit hdigit)))
  refine ⟨c, cs, htext, ?_⟩
  rw [scanOne, if_neg (by simp [hblank]), if_pos hdigit, hscan]
  rfl

theorem scansAs_negative (n : Numeral) (hp : p.allowsSign = true) (h : EndsMark rest) :
    ScansAs p ('-' :: (n.written ++ rest)) (.literal (.number (-n.value))) rest := by
  obtain ⟨c, cs, htext, hdigit, hscan⟩ := scanNumber_written n true h
  refine ⟨'-', _, rfl, ?_⟩
  rw [scanOne_minus hp, htext, scanMinus, if_pos hdigit, hscan]
  rfl

theorem scansAs_minus (hp : p.allowsSign = true)
    (h : ∀ c ∈ rest.head?, c.isDigit = false ∧ c ∉ continuations ['-']) :
    ScansAs p ('-' :: rest) (.connective (.operator .minus)) rest := by
  have hsymbol : scanSymbol '-' rest = some ([.connective (.operator .minus)], rest) :=
    scanSymbol_append (w := []) rfl (by decide) fun d hd => (h d hd).2
  refine ⟨'-', rest, rfl, ?_⟩
  rw [scanOne_minus hp]
  cases rest with
  | nil => exact hsymbol
  | cons d rest => rw [scanMinus, if_neg (by simp [(h d rfl).1]), hsymbol]

theorem scansAs_name (q : Position) (h : EndsMark rest) :
    ScansAs p (q.name ++ rest) (.name q.nameText) rest := by
  obtain ⟨c, w, hw⟩ := List.exists_cons_of_ne_nil (Position.name_ne_nil q)
  have hword : ∀ d ∈ c :: w, isAsciiWord d = true := fun d hd => by
    have := Position.isAlphanum_of_mem_name (p := q) (hw ▸ hd)
    simp [isAsciiWord, this]
  have hc : c.isAlpha = true :=
    Position.isAlpha_head_of_ofName (Position.ofName?_name q) c (by rw [hw]; rfl)
  have hblank : isAsciiBlank c = false :=
    eq_false_of_ne_true (mt isWord_of_isAsciiBlank (ne_false_of_eq_true (isWord_of_isAlpha hc)))
  obtain ⟨htake, hdrop⟩ := takeWhile_append_of_head
    (fun d hd => hword d (List.mem_cons_of_mem c hd)) fun d hd => (h.head d hd).1
  refine ⟨c, w ++ rest, by rw [hw]; rfl, ?_⟩
  rw [scanOne, if_neg (by simp [hblank]), if_neg (by simp [isDigit_of_isAlpha hc]),
    if_pos (by simp [hc]), htake, hdrop, ← hw, wordToken?_name]
  rfl

theorem scansAs_operator (op : Infix) (hp : p.allowsSign = false) (h : StartsMark rest)
    (hminus : op = .minus ∨ op = .less → rest.head? ≠ some '-') :
    ScansAs p (op.written ++ rest) (.connective op.connective) rest := by
  have hnext := h.not_mem_continuations op hminus
  have hfront : ∃ c w, op.written = c :: w ∧ c ∈ "()+*/&|=<>!-".toList ∧
      (c = '!' → w.head? = some '=') ∧ (c = '/' → w = []) := by
    cases op <;> exact ⟨_, _, rfl, by decide⟩
  obtain ⟨c, w, hw, hc, hnot, hslash⟩ := hfront
  have hsymbol := splitSymbol?_operator op
  rw [hw] at hnext hsymbol
  refine ⟨c, w ++ rest, by rw [hw]; rfl, ?_⟩
  rw [scanOne_symbol hc ?_ fun _ => hp]
  · exact scanSymbol_append hsymbol hnot hnext
  · intro hc d hd
    rw [hslash hc] at hd
    constructor <;> rintro rfl <;> rcases h _ hd with h | h <;> exact absurd h (by decide)

theorem scansAs_opened (h : StartsMark rest) : ScansAs p ('(' :: rest) (.opened .round) rest := by
  refine ⟨'(', rest, rfl, ?_⟩
  rw [scanOne_symbol (by decide) (fun h => absurd h (by decide)) fun h => absurd h (by decide)]
  refine scanSymbol_append (w := []) rfl (by decide) fun d hd hmem => ?_
  obtain ⟨halphanum, hsymbol⟩ := continuations_opened d hmem
  rcases h d hd with h | h
  · rw [halphanum] at h
    cases h
  · exact hsymbol h

theorem scansAs_closed : ScansAs p (')' :: rest) (.closed .round) rest := by
  have hnone : continuations [')'] = [] := by decide
  refine ⟨')', rest, rfl, ?_⟩
  rw [scanOne_symbol (by decide) (fun h => absurd h (by decide)) fun h => absurd h (by decide)]
  exact scanSymbol_append (w := []) rfl (by decide) fun d _ => by simp [hnone]

theorem Numeral.startsMark_written (n : Numeral) (rest : List Char) :
    StartsMark (n.written ++ rest) ∧ (n.written ++ rest).head? ≠ some '-' := by
  obtain ⟨c, cs, hwritten, hdigit⟩ := n.exists_digit_written
  rw [hwritten]
  refine ⟨?_, ?_⟩
  · rintro _ ⟨⟩
    exact .inl (isAlphanum_of_isDigit hdigit)
  · rintro ⟨⟩
    exact absurd hdigit (by decide)

theorem scansAs_percent {ts : List Token} (hp : p.depths = []) (hsign : p.allowsSign = false)
    (h : EndsMark rest) (hrest : ∀ q : Place, q.depths = [] → q.allowsSign = false →
      tokensFrom q rest = some ts) :
    tokensFrom p (Mark.percent.written ++ rest) = some (Mark.hundredth ++ ts) := by
  have htimes := Numeral.one.startsMark_written (Infix.dividedBy.written ++
    (Numeral.hundred.written ++ rest))
  have hdivided := Numeral.hundred.startsMark_written rest
  change tokensFrom p (Infix.times.written ++ (Numeral.one.written ++ (Infix.dividedBy.written ++
    (Numeral.hundred.written ++ rest)))) = _
  rw [Mark.hundredth, ← Numeral.value_one, ← Numeral.value_hundred]
  refine (scansAs_operator .times hsign htimes.1 fun _ => htimes.2).tokensFrom hp rfl
    fun q hq _ => ?_
  refine (scansAs_number .one (endsMark_operator .dividedBy _).2).tokensFrom hq rfl
    fun q hq hnumber => ?_
  refine (scansAs_operator .dividedBy hnumber hdivided.1 fun _ => hdivided.2).tokensFrom hq rfl
    fun q hq _ => ?_
  exact (scansAs_number .hundred h).tokensFrom hq rfl hrest

/-- Only a sign begins with a minus. -/
theorem Alternates.head_ne_minus (h : Alternates true ms) (hms : ∀ m ∈ ms.head?, m.text ≠ ['-']) :
    (ms.flatMap Mark.written).head? ≠ some '-' := by
  cases h with
  | @literal n ms _ => exact (n.startsMark_written _).2
  | @cell name ms _ =>
    have halpha := Position.isAlpha_head_of_ofName (Position.ofName?_name name.meaning)
    obtain ⟨c, w, hw⟩ := List.exists_cons_of_ne_nil (Position.name_ne_nil name.meaning)
    rw [List.flatMap_cons, Mark.written, hw]
    rintro ⟨⟩
    exact absurd (halpha '-' (by rw [hw]; rfl)) (by decide)
  | opened => nofun
  | sign => exact absurd rfl (hms _ rfl)

/-- The text of marks that alternate is cut into their tokens, unless a sign is joined with what is
before it. -/
theorem tokensFrom_written (h : Alternates b ms) (hseparate : AreSeparate ms) (hp : p.depths = [])
    (hsign : p.allowsSign = b) :
    tokensFrom p (ms.flatMap Mark.written) = some (Mark.tokens ms) := by
  induction hn : ms.length using Nat.strongRecOn generalizing b ms p with
  | _ n ih =>
    subst hn
    cases h with
    | nil => rw [List.flatMap_nil, tokensFrom]; rfl
    | @literal n ms h =>
      exact (scansAs_number n (h.head.2 rfl).2).tokensFrom hp rfl fun q hq hqsign =>
        ih ms.length (by simp) h hseparate.tail hq hqsign rfl
    | @cell name ms h =>
      exact (scansAs_name name.meaning (h.head.2 rfl).2).tokensFrom hp rfl fun q hq hqsign =>
        ih ms.length (by simp) h hseparate.tail hq hqsign rfl
    | @opened ms h =>
      exact (scansAs_opened (h.head.1 rfl).2).tokensFrom hp rfl fun q hq hqsign =>
        ih ms.length (by simp) h hseparate.tail hq hqsign rfl
    | @closed ms h =>
      exact scansAs_closed.tokensFrom hp rfl fun q hq hqsign =>
        ih ms.length (by simp) h hseparate.tail hq hqsign rfl
    | @percent ms h =>
      exact scansAs_percent hp hsign (h.head.2 rfl).2 fun q hq hqsign =>
        ih ms.length (by simp) h hseparate.tail hq hqsign rfl
    | @between op ms h =>
      have hminus : op = .minus ∨ op = .less → (ms.flatMap Mark.written).head? ≠ some '-' := by
        intro hop
        refine h.head_ne_minus fun m hm => (List.isChain_cons.1 hseparate).1 m hm ?_
        rcases hop with rfl | rfl <;> rfl
      refine (scansAs_operator op hsign (h.head.1 rfl).2 hminus).tokensFrom hp rfl
        fun q hq hqsign => ?_
      refine ih ms.length (by simp) h hseparate.tail hq (hqsign.trans ?_) rfl
      cases op <;> rfl
    | @sign ms h =>
      have hhead := h.head_ne_minus fun m hm => (List.isChain_cons.1 hseparate).1 m hm rfl
      have hstarts := (h.head.1 rfl).2
      have hscan := fun hdigit : ∀ c ∈ (ms.flatMap Mark.written).head?, c.isDigit = false =>
        scansAs_minus hsign fun c hc =>
          ⟨hdigit c hc, hstarts.not_mem_continuations .minus (fun _ => hhead) c hc⟩
      cases h with
      | @literal n ms h =>
        exact (scansAs_negative n hsign (h.head.2 rfl).2).tokensFrom hp rfl fun q hq hqsign =>
          ih ms.length (by simp) h hseparate.tail.tail hq hqsign rfl
      | @cell name ms h =>
        refine (hscan ?_).tokensFrom hp rfl fun q hq hqsign =>
          ih (Mark.cell name :: ms).length (by simp) (.cell h) hseparate.tail hq hqsign rfl
        obtain ⟨c, w, hw⟩ := List.exists_cons_of_ne_nil (Position.name_ne_nil name.meaning)
        rw [List.flatMap_cons, Mark.written, hw]
        rintro _ ⟨⟩
        exact isDigit_of_isAlpha
          (Position.isAlpha_head_of_ofName (Position.ofName?_name name.meaning) c (by rw [hw]; rfl))
      | @opened ms h =>
        refine (hscan ?_).tokensFrom hp rfl fun q hq hqsign =>
          ih (Mark.opened :: ms).length (by simp) (.opened h) hseparate.tail hq hqsign rfl
        rintro _ ⟨⟩
        rfl
      | sign => exact absurd rfl ((List.isChain_cons.1 hseparate).1 _ rfl rfl)

end

end

end Formula

end Spreadsheet

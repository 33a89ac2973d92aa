import Mathlib.Data.List.Basic
import Spreadsheet.Proofs.Formula.Lexeme
import Spreadsheet.Proofs.Text.Splitting
import Spreadsheet.Proofs.Text.Trimming

/-!
# Formulas as trees

A formula is a tree of numbers, names, literals, groups, operators and calls. It
is written as a list of lexemes with a space between each two. Every parenthesis
that closes a call tells the function and the number of its arguments, so that
the calls of a formula come in the order in which they are closed. Whatever
parentheses are open, a formula is lowered as a whole: commas and arguments in it
are charged to its own parentheses, and what is around it notes one argument.
-/
namespace Spreadsheet.Formula
open Text

/-! ## Trees -/

/-- A formula. A literal is written by its number. -/
inductive Term where
  | number (n : Numeral)
  | cell (name : Spelling Position.ofName?)
  | constant (name : Spelling Constant.find?)
  | literal (name : Spelling Builtin.find?) (index : Spelling Decimal.word?) (text : List Char)
  | group (t : Term)
  | minus (t : Term)
  | negation (t : Term)
  | binary (op : Infix) (l r : Term)
  | call (name : Spelling Builtin.find?) (arguments : List Term)

/-- A part of a formula that is not divided, and the call that it closes. -/
structure Lexeme where
  text : List Char
  closes : Option (Builtin × Nat)

def Lexeme.plain (text : List Char) : Lexeme := ⟨text, none⟩

namespace Term

@[elab_as_elim]
theorem inductionOn {P : Term → Prop} (t : Term) (number : ∀ n, P (number n))
    (cell : ∀ name, P (cell name)) (constant : ∀ name, P (constant name))
    (literal : ∀ name index text, P (literal name index text)) (group : ∀ t, P t → P (group t))
    (minus : ∀ t, P t → P (minus t)) (negation : ∀ t, P t → P (negation t))
    (binary : ∀ op l r, P l → P r → P (binary op l r))
    (call : ∀ name arguments, (∀ t ∈ arguments, P t) → P (call name arguments)) : P t :=
  Term.rec (motive_1 := P) (motive_2 := fun ts => ∀ t ∈ ts, P t) number cell constant literal group
    minus negation binary call (List.forall_mem_nil _)
    (fun _ _ h hs => List.forall_mem_cons.2 ⟨h, hs⟩) t

/-- The lexemes of a formula. -/
def lexemes : Term → List Lexeme
  | number n => [.plain n.text]
  | cell name => [.plain name.text]
  | constant name => [.plain name.text]
  | literal name index _ => [.plain name.text, .plain ['('], .plain index.text, .plain [')']]
  | group t => .plain ['('] :: (lexemes t ++ [.plain [')']])
  | minus t => .plain ['-'] :: lexemes t
  | negation t => .plain ['!'] :: lexemes t
  | binary op l r => lexemes l ++ .plain op.text :: lexemes r
  | call name arguments =>
    .plain name.text :: .plain ['('] ::
      (lexemesAll arguments ++ [⟨[')'], some (name.meaning, arguments.length)⟩])
where
  lexemesAll : List Term → List Lexeme
    | [] => []
    | t :: ts => lexemes t ++ if ts.isEmpty then [] else .plain [','] :: lexemesAll ts

/-- The text of a formula, with single spaces. -/
def text (t : Term) : List Char := [' '].intercalate (t.lexemes.map Lexeme.text)

/-- The calls of a formula with the numbers of their arguments, in the order in which they are
closed. -/
def calls (t : Term) : List (Builtin × Nat) := t.lexemes.filterMap Lexeme.closes

/-- Whether a call has a number of arguments that its function accepts. -/
def accepts (call : Builtin × Nat) : Bool := call.1.arity.accepts call.2

/-- Whether arguments are one number that is written as the number of a literal is. -/
def isIndex : List Term → Bool
  | [number n] => (Decimal.word? n.text).isSome
  | _ => false

/-- Whether the numbered literals of a formula are the given ones, and all that is written like one
is one. -/
def WellFormed (literals : List (List Char)) : Term → Prop
  | number _ | cell _ | constant _ => True
  | literal name index text =>
    name.meaning = .str ∧ literals[index.meaning.toNat]? = some text
  | group t | minus t | negation t => WellFormed literals t
  | binary _ l r => WellFormed literals l ∧ WellFormed literals r
  | call name arguments =>
    (name.meaning = .str → isIndex arguments = false) ∧ wellFormedAll literals arguments
where
  wellFormedAll (literals : List (List Char)) : List Term → Prop
    | [] => True
    | t :: ts => WellFormed literals t ∧ wellFormedAll literals ts

end Term

/-! ## Lexemes one after the other -/

/-- The text of lexemes with a space before each. -/
def spaced (ls : List Lexeme) : List Char := ls.flatMap fun l => ' ' :: l.text

/-- The first call that is closed with a wrong number of arguments. -/
def firstRejected? (ls : List Lexeme) : Option (Builtin × Nat) :=
  (ls.filterMap Lexeme.closes).find? fun call => !Term.accepts call

/-- A text in front of what else is written, unless one of the lexemes before closes a call with a
wrong number of arguments. -/
def guarded (ls : List Lexeme) (written : List Char) (x : Except Fault (List Char)) :
    Except Fault (List Char) :=
  match firstRejected? ls with
  | some call => .error (.parameterCount call.1)
  | none => before written x

section
variable {literals : List (List Char)} {frames : List Frame} {ls ms : List Lexeme}
  {u v cs rest : List Char} {x : Except Fault (List Char)}

@[simp] theorem spaced_nil : spaced [] = [] := rfl

@[simp] theorem spaced_cons (l : Lexeme) : spaced (l :: ls) = ' ' :: (l.text ++ spaced ls) := rfl

@[simp] theorem spaced_append : spaced (ls ++ ms) = spaced ls ++ spaced ms := List.flatMap_append

@[simp] theorem Lexeme.text_plain : (Lexeme.plain cs).text = cs := rfl

theorem guarded_nil : guarded [] u x = before u x := rfl

theorem guarded_append : guarded ls u (guarded ms v x) = guarded (ls ++ ms) (u ++ v) x := by
  unfold guarded firstRejected?
  rw [List.filterMap_append, List.find?_append]
  cases (ls.filterMap Lexeme.closes).find? fun call => !Term.accepts call with
  | some call => rfl
  | none =>
    rw [Option.none_or]
    cases (ms.filterMap Lexeme.closes).find? fun call => !Term.accepts call with
    | some call => rfl
    | none => exact before_before u v x

theorem before_guarded : before u (guarded ls v x) = guarded ls (u ++ v) x :=
  (guarded_append : guarded [] u (guarded ls v x) = guarded ([] ++ ls) (u ++ v) x)

theorem guarded_before : guarded ls u (before v x) = guarded ls (u ++ v) x := by
  rw [← guarded_nil, guarded_append, List.append_nil]

/-- What does not close a call rejects none. -/
theorem guarded_append_plain_cons (cs : List Char) :
    guarded (ls ++ .plain cs :: ms) u x = guarded (ls ++ ms) u x := by
  rw [← List.nil_append u, ← guarded_append, ← guarded_append]
  rfl

theorem guarded_plain_cons (cs : List Char) : guarded (.plain cs :: ls) u x = guarded ls u x := rfl

/-- After an operand stands a space and what is no parenthesis, or nothing. -/
theorem endsOperand_space {c : Char} (hb : isBlank c = false) (hc : c ≠ '(') :
    EndsOperand (' ' :: c :: cs) := by
  refine ⟨fun d hd => ?_, ?_⟩
  · cases hd
    decide
  · have htrim : trimLeft (' ' :: c :: cs) = c :: cs := by
      rw [trimLeft, List.dropWhile_cons_of_pos (by decide),
        List.dropWhile_cons_of_neg (by simp [hb])]
    unfold afterParenthesis?
    rw [htrim]
    split
    · rename_i h
      cases h
      exact absurd rfl hc
    · rfl

theorem endsOperand_nil : EndsOperand [] := ⟨by simp, rfl⟩

theorem endsOperand_operator (op : Infix) : EndsOperand (' ' :: (op.text ++ rest)) := by
  have hop : ∃ c cs, op.text = c :: cs ∧ isBlank c = false ∧ c ≠ '(' := by
    cases op <;> exact ⟨_, _, rfl, by decide, by decide⟩
  obtain ⟨c, cs, htext, hb, hc⟩ := hop
  rw [htext]
  exact endsOperand_space hb hc

/-- What stands between a function and its parenthesis. -/
theorem afterParenthesis?_space : afterParenthesis? (' ' :: '(' :: cs) = some cs := by
  have htrim : trimLeft (' ' :: '(' :: cs) = '(' :: cs := by
    rw [trimLeft, List.dropWhile_cons_of_pos (by decide), List.dropWhile_cons_of_neg (by decide)]
  rw [afterParenthesis?, htrim]
  rfl

theorem isAsciiWord_head_space : ∀ c ∈ (' ' :: cs).head?, isAsciiWord c = false := by
  intro c hc
  cases hc
  rfl

/-! ## The numbers of literals -/

theorem of_word? {n : UInt64} (h : Decimal.word? cs = some n) :
    cs ≠ [] ∧ ∀ c ∈ cs, c.isDigit = true ∨ c = '+' := by
  have hnatural : ∀ {body : List Char}, Decimal.isNatural body = true →
      body ≠ [] ∧ ∀ c ∈ body, c.isDigit = true := by
    intro body hbody
    simpa [Decimal.isNatural] using hbody
  unfold Decimal.word? at h
  dsimp only at h
  split at h <;> split at h
  · rename_i hbody
    rw [Bool.and_eq_true] at hbody
    obtain ⟨_, hdigits⟩ := hnatural hbody.1
    refine ⟨List.cons_ne_nil _ _, fun c hc => ?_⟩
    rcases List.mem_cons.1 hc with rfl | hc
    · exact .inr rfl
    · exact .inl (hdigits c hc)
  · cases h
  · rename_i hbody
    rw [Bool.and_eq_true] at hbody
    obtain ⟨hne, hdigits⟩ := hnatural hbody.1
    exact ⟨hne, fun c hc => .inl (hdigits c hc)⟩
  · cases h

/-- A text without blanks in which no parenthesis is closed. -/
structure IsSolid (cs : List Char) : Prop where
  ne_nil : cs ≠ []
  isBlank : ∀ c ∈ cs, isBlank c = false
  ne_closed : ∀ c ∈ cs, (c == ')') = false

theorem isSolid_of_isAlphanum (hne : cs ≠ []) (h : ∀ c ∈ cs, c.isAlphanum = true) :
    IsSolid cs := by
  refine ⟨hne, fun c hc => isBlank_of_isAlphanum (h c hc), fun c hc => ?_⟩
  rw [beq_eq_false_iff_ne]
  rintro rfl
  exact absurd (h _ hc) (by decide)

theorem isSolid_of_word? {n : UInt64} (h : Decimal.word? cs = some n) : IsSolid cs := by
  obtain ⟨hne, hall⟩ := of_word? h
  have hsolid : ∀ c ∈ cs, Text.isBlank c = false ∧ (c == ')') = false := by
    intro c hc
    rcases hall c hc with hd | rfl
    · exact ⟨isBlank_of_isAlphanum (isAlphanum_of_isDigit hd), by
        rw [beq_eq_false_iff_ne]
        rintro rfl
        exact absurd hd (by decide)⟩
    · decide
  exact ⟨hne, fun c hc => (hsolid c hc).1, fun c hc => (hsolid c hc).2⟩

/-- A text between two spaces is trimmed to itself. -/
theorem literalIndex?_of_isSolid (h : IsSolid u) (rest : List Char) :
    literalIndex? (' ' :: (u ++ ' ' :: ')' :: rest)) = (Decimal.word? u).map (·, rest) := by
  have hcut : cut (· == ')') (' ' :: (u ++ ' ' :: ')' :: rest)) =
      some (' ' :: (u ++ [' ']), rest) := by
    rw [cut_cons (by decide), cut_append h.ne_closed]
    rfl
  have htrim : trim (' ' :: (u ++ [' '])) = u := by
    obtain ⟨c, cs, rfl⟩ := List.exists_cons_of_ne_nil h.ne_nil
    obtain ⟨hc, hcs⟩ := List.forall_mem_cons.1 h.isBlank
    have hlast : trimRight (cs ++ [' ']) = cs := by
      rw [trimRight, List.reverse_append]
      exact trimRight_of_forall hcs
    change trim (c :: (cs ++ [' '])) = c :: cs
    rw [trim_cons_of_not_isBlank hc, hlast]
  simp only [literalIndex?, hcut, Option.bind_eq_bind, Option.bind_some, htrim]
  cases Decimal.word? u <;> rfl

/-- Two lexemes make no number of a literal. -/
theorem literalIndex?_eq_none_of_two (hu : IsSolid u) (hv : IsSolid v) (rest : List Char) :
    literalIndex? (' ' :: (u ++ ' ' :: (v ++ rest))) = none := by
  obtain ⟨c, cs, rfl⟩ := List.exists_cons_of_ne_nil hu.ne_nil
  obtain ⟨d, ds, rfl⟩ := List.exists_cons_of_ne_nil hv.ne_nil
  obtain ⟨hc, _⟩ := List.forall_mem_cons.1 hu.isBlank
  obtain ⟨hd, _⟩ := List.forall_mem_cons.1 hv.isBlank
  have hcut : cut (· == ')') (' ' :: (c :: cs ++ ' ' :: (d :: ds ++ rest))) =
      (cut (· == ')') rest).map fun r => (' ' :: (c :: cs ++ ' ' :: (d :: ds ++ r.1)), r.2) := by
    rw [cut_cons (by decide), cut_append hu.ne_closed, cut_cons (by decide),
      cut_append hv.ne_closed]
    simp [Function.comp_def]
  -- The space between the two lexemes stays, and it stands in no number.
  have hword : ∀ more,
      Decimal.word? (trim (' ' :: (c :: cs ++ ' ' :: (d :: ds ++ more)))) = none := by
    intro more
    have htrim : trim (' ' :: (c :: cs ++ ' ' :: (d :: ds ++ more))) =
        c :: (cs ++ ' ' :: d :: trimRight (ds ++ more)) := by
      have hassoc : cs ++ ' ' :: (d :: ds ++ more) = (cs ++ [' ']) ++ d :: (ds ++ more) := by simp
      change trim (c :: (cs ++ ' ' :: (d :: ds ++ more))) = _
      rw [trim_cons_of_not_isBlank hc, hassoc, trimRight_append_cons _ _ hd]
      simp
    cases hsome : Decimal.word? (trim (' ' :: (c :: cs ++ ' ' :: (d :: ds ++ more)))) with
    | none => rfl
    | some n =>
      rw [htrim] at hsome
      rcases (of_word? hsome).2 ' ' (by simp) with hspace | hspace
      · cases hspace
      · cases hspace
  simp only [literalIndex?, hcut, Option.bind_eq_bind]
  cases cut (· == ')') rest with
  | none => rfl
  | some r => simp only [Option.map_some, Option.bind_some, hword, Option.bind_none]

end

namespace Term

/-- What is written for a formula with a space before each lexeme. -/
def output : Term → List Char
  | number n => ' ' :: n.written
  | cell name => ' ' :: name.meaning.name
  | constant name => ' ' :: name.meaning.name.toList
  | literal _ _ text => ' ' :: quote text
  | group t => ' ' :: '(' :: (output t ++ [' ', ')'])
  | minus t => ' ' :: '-' :: output t
  | negation t => ' ' :: '!' :: output t
  | binary op l r => output l ++ (' ' :: op.written ++ output r)
  | call name arguments =>
    ' ' :: opening name.meaning ++ (outputAll (name.meaning == .iif) 0 arguments ++
      ' ' :: closing name.meaning)
where
  outputAll (isChoice : Bool) (commas : Nat) : List Term → List Char
    | [] => []
    | t :: ts => output t ++ if ts.isEmpty then []
      else ' ' :: separator isChoice (commas + 1) ++ outputAll isChoice (commas + 1) ts

section
variable {literals : List (List Char)} {frames : List Frame} {rest : List Char}

theorem wellFormedAll_iff {ts : List Term} :
    WellFormed.wellFormedAll literals ts ↔ ∀ t ∈ ts, WellFormed literals t := by
  induction ts with
  | nil => simp [WellFormed.wellFormedAll]
  | cons t ts ih => simp [WellFormed.wellFormedAll, ih]

theorem lexemes_ne_nil (t : Term) : t.lexemes ≠ [] := by
  cases t <;> simp [lexemes]

/-- A formula is lowered to what is written for it, and the rest after it, whatever parentheses are
open. -/
def IsLowered (literals : List (List Char)) (t : Term) : Prop :=
  ∀ frames rest, EndsOperand rest → lowerFrom literals frames (spaced t.lexemes ++ rest) =
    guarded t.lexemes t.output (lowerFrom literals (markArgument frames) rest)

theorem spaced_head (t : Term) (rest : List Char) : ∃ cs, spaced t.lexemes ++ rest = ' ' :: cs := by
  obtain ⟨l, ls, hls⟩ := List.exists_cons_of_ne_nil t.lexemes_ne_nil
  exact ⟨l.text ++ (spaced ls ++ rest), by simp [hls]⟩

theorem isLowered_group {t : Term} (h : IsLowered literals t) : IsLowered literals (group t) := by
  intro frames rest _
  have hclosed : EndsOperand (' ' :: ')' :: rest) := endsOperand_space (by decide) (by decide)
  simp only [lexemes, output, spaced_cons, spaced_append, spaced_nil, Lexeme.text_plain,
    List.cons_append, List.append_assoc, List.nil_append]
  rw [lowerFrom_space, lowerFrom_opened, h _ _ hclosed, markArgument, lowerFrom_space,
    lowerFrom_closed rfl, before_before, before_before, before_guarded, guarded_before,
    guarded_plain_cons, guarded_append_plain_cons]
  simp

theorem isLowered_minus {t : Term} (h : IsLowered literals t) : IsLowered literals (minus t) := by
  intro frames rest hrest
  obtain ⟨cs, hcs⟩ := spaced_head t rest
  have hpair : ∀ d ∈ (spaced t.lexemes ++ rest).head?, ('-', d) ∉ pairedSymbols := by
    rw [hcs]
    rintro d ⟨⟩
    decide
  simp only [lexemes, output, spaced_cons, Lexeme.text_plain, List.cons_append, List.nil_append]
  rw [lowerFrom_space, lowerFrom_symbol (by decide) hpair, h _ _ hrest, markArgument_markArgument,
    before_before, before_guarded, guarded_plain_cons]
  rfl

theorem isLowered_negation {t : Term} (h : IsLowered literals t) :
    IsLowered literals (negation t) := by
  intro frames rest hrest
  obtain ⟨cs, hcs⟩ := spaced_head t rest
  have hpair : ∀ d ∈ (spaced t.lexemes ++ rest).head?, ('!', d) ∉ pairedSymbols := by
    rw [hcs]
    rintro d ⟨⟩
    decide
  simp only [lexemes, output, spaced_cons, Lexeme.text_plain, List.cons_append, List.nil_append]
  rw [lowerFrom_space, lowerFrom_symbol (by decide) hpair, h _ _ hrest, markArgument_markArgument,
    before_before, before_guarded, guarded_plain_cons]
  rfl

theorem isLowered_binary (op : Infix) {l r : Term} (hl : IsLowered literals l)
    (hr : IsLowered literals r) : IsLowered literals (binary op l r) := by
  intro frames rest hrest
  obtain ⟨cs, hcs⟩ := spaced_head r rest
  have hhead : ∀ c ∈ (spaced r.lexemes ++ rest).head?, c ≠ '=' ∧ c ≠ '>' := by
    rw [hcs]
    rintro c ⟨⟩
    decide
  simp only [lexemes, output, spaced_cons, spaced_append, Lexeme.text_plain, List.cons_append,
    List.append_assoc]
  rw [hl _ _ (endsOperand_operator op), lowerFrom_space, lowerFrom_operator op hhead, hr _ _ hrest,
    markArgument_markArgument, markArgument_markArgument, before_before, before_guarded,
    guarded_append, guarded_append_plain_cons]
  simp

theorem isLowered_all {ts : List Term} (h : ∀ t ∈ ts, IsLowered literals t) (hne : ts ≠ [])
    (function : Option Builtin) (commas : Nat) (hasArguments : Bool) (hrest : EndsOperand rest) :
    lowerFrom literals (⟨function, commas, hasArguments⟩ :: frames)
        (spaced (lexemes.lexemesAll ts) ++ rest) =
      guarded (lexemes.lexemesAll ts) (output.outputAll (function == some .iif) commas ts)
        (lowerFrom literals (⟨function, commas + (ts.length - 1), true⟩ :: frames) rest) := by
  induction ts generalizing commas hasArguments with
  | nil => exact absurd rfl hne
  | cons t ts ih =>
    obtain ⟨ht, hts⟩ := List.forall_mem_cons.1 h
    cases ts with
    | nil =>
      simp only [lexemes.lexemesAll, output.outputAll, List.isEmpty_nil, if_true, List.append_nil]
      exact ht _ _ hrest
    | cons u us =>
      have hcomma : ∀ cs, EndsOperand (' ' :: ',' :: cs) := fun _ =>
        endsOperand_space (by decide) (by decide)
      have hlength :
          commas + 1 + ((u :: us).length - 1) = commas + ((t :: u :: us).length - 1) := by
        simp only [List.length_cons]
        omega
      rw [lexemes.lexemesAll, output.outputAll]
      simp only [List.isEmpty_cons, Bool.false_eq_true, if_false, spaced_append, spaced_cons,
        Lexeme.text_plain, List.append_assoc, List.cons_append, List.nil_append]
      rw [ht _ _ (hcomma _), markArgument, lowerFrom_space, lowerFrom_comma,
        ih hts (List.cons_ne_nil u us), hlength, before_before, before_guarded, guarded_append,
        guarded_append_plain_cons]
      simp [Frame.isChoice]

theorem isSolid_number (n : Numeral) : IsSolid n.text := by
  have hall : ∀ c ∈ n.text, c.isAlphanum = true ∨ c ∈ ['.', '+', '-'] := by
    have hdigit : ∀ {c : Char}, c.isDigit = true → c.isAlphanum = true ∨ c ∈ ['.', '+', '-'] :=
      fun hd => .inl (isAlphanum_of_isDigit hd)
    refine List.forall_mem_append.2 ⟨fun c hc => hdigit (n.isDigit_whole c hc),
      List.forall_mem_append.2 ⟨?_, ?_⟩⟩
    · unfold Numeral.fractionText
      split
      · exact List.forall_mem_nil _
      · rename_i digits hdigits
        exact List.forall_mem_cons.2
          ⟨.inr (by decide), fun c hc => hdigit (n.isDigit_fraction digits hdigits c hc)⟩
    · unfold Numeral.exponentText
      split
      · exact List.forall_mem_nil _
      · rename_i x _
        refine List.forall_mem_cons.2
          ⟨?_, List.forall_mem_append.2 ⟨fun c hc => ?_, fun c hc => hdigit (x.isDigit c hc)⟩⟩
        · rcases x.mark_eq with he | he <;> rw [he] <;> exact .inl rfl
        · have hsign := x.sign_mem
          simp only [List.mem_cons, List.not_mem_nil, or_false] at hsign
          rcases hsign with he | he | he <;> rw [he] at hc
          · cases hc
          · rcases List.mem_singleton.1 hc with rfl
            exact .inr (by decide)
          · rcases List.mem_singleton.1 hc with rfl
            exact .inr (by decide)
  have hsolid : ∀ c ∈ n.text, isBlank c = false ∧ (c == ')') = false := by
    intro c hc
    rcases hall c hc with hc | hc
    · refine ⟨isBlank_of_isAlphanum hc, beq_eq_false_iff_ne.2 ?_⟩
      rintro rfl
      exact absurd hc (by decide)
    · have hsymbol : ∀ c ∈ ['.', '+', '-'], isBlank c = false ∧ (c == ')') = false := by decide
      exact hsymbol c hc
  obtain ⟨c, cs, htext, _⟩ := n.exists_begin []
  refine ⟨fun hnil => ?_, fun c hc => (hsolid c hc).1, fun c hc => (hsolid c hc).2⟩
  rw [hnil] at htext
  cases htext

theorem isSolid_of_isIdentifier {name : List Char} (h : IsIdentifier name) : IsSolid name :=
  isSolid_of_isAlphanum h.ne_nil h.isAlphanum

/-- A formula of one lexeme is no text of lexemes, and one of more begins with two. -/
theorem lexemes_front (t : Term) : (∃ cs, t.lexemes = [.plain cs] ∧ IsSolid cs ∧
      (Decimal.word? cs ≠ none → isIndex [t] = true)) ∨
    ∃ u v ls, t.lexemes = .plain u :: .plain v :: ls ∧ IsSolid u ∧ IsSolid v := by
  have hname : ∀ {name : List Char}, IsIdentifier name → Decimal.word? name = none := by
    intro name hname
    cases hword : Decimal.word? name with
    | none => rfl
    | some n =>
      obtain ⟨c, cs, rfl⟩ := List.exists_cons_of_ne_nil hname.ne_nil
      have hc := hname.isAlpha_head c rfl
      rcases (of_word? hword).2 c List.mem_cons_self with hd | rfl
      · rw [isAlpha_of_isDigit hd] at hc
        cases hc
      · exact absurd hc (by decide)
  have hafter : ∀ (cs : List Char) {t : Term}, IsSolid cs →
      ((∃ cs, t.lexemes = [.plain cs] ∧ IsSolid cs ∧
        (Decimal.word? cs ≠ none → isIndex [t] = true)) ∨
      ∃ u v ls, t.lexemes = .plain u :: .plain v :: ls ∧ IsSolid u ∧ IsSolid v) → ∀ more,
      ∃ u v ls, .plain cs :: (t.lexemes ++ more) = .plain u :: .plain v :: ls ∧ IsSolid u ∧
        IsSolid v := by
    rintro cs t hcs (⟨u, ht, hu, _⟩ | ⟨u, v, ls, ht, hu, _⟩) more
    · exact ⟨cs, u, more, by rw [ht]; rfl, hcs, hu⟩
    · exact ⟨cs, u, .plain v :: (ls ++ more), by rw [ht]; rfl, hcs, hu⟩
  have hparen : IsSolid ['('] := ⟨by decide, by decide, by decide⟩
  induction t using inductionOn with
  | number n =>
    refine .inl ⟨n.text, rfl, isSolid_number n, fun hword => ?_⟩
    exact Option.isSome_iff_ne_none.2 hword
  | cell name =>
    have hidentifier := isIdentifier_of_ofName name.reads
    exact .inl ⟨_, rfl, isSolid_of_isIdentifier hidentifier, fun h => absurd (hname hidentifier) h⟩
  | constant name =>
    have hidentifier := isIdentifier_of_find?_constant name.reads
    exact .inl ⟨_, rfl, isSolid_of_isIdentifier hidentifier, fun h => absurd (hname hidentifier) h⟩
  | literal name index text =>
    exact .inr ⟨_, _, _, rfl, isSolid_of_isIdentifier (isIdentifier_of_find?_builtin name.reads),
      hparen⟩
  | group t ih => exact .inr (hafter _ hparen ih _)
  | minus t ih =>
    have := hafter ['-'] ⟨by decide, by decide, by decide⟩ ih []
    rw [List.append_nil] at this
    exact .inr this
  | negation t ih =>
    have := hafter ['!'] ⟨by decide, by decide, by decide⟩ ih []
    rw [List.append_nil] at this
    exact .inr this
  | binary op l r ihl _ =>
    have hop : IsSolid op.text := by cases op <;> exact ⟨by decide, by decide, by decide⟩
    rcases ihl with ⟨u, ht, hu, _⟩ | ⟨u, v, ls, ht, hu, hv⟩
    · exact .inr ⟨u, op.text, r.lexemes, by rw [lexemes, ht]; rfl, hu, hop⟩
    · exact .inr ⟨u, v, ls ++ .plain op.text :: r.lexemes, by rw [lexemes, ht]; rfl, hu, hv⟩
  | call name arguments =>
    exact .inr ⟨_, _, _, rfl, isSolid_of_isIdentifier (isIdentifier_of_find?_builtin name.reads),
      hparen⟩

/-- Arguments that are no number of a literal are not read as one. -/
theorem literalIndex?_arguments {ts : List Term} (h : isIndex ts = false) :
    literalIndex? (spaced (lexemes.lexemesAll ts) ++ ' ' :: ')' :: rest) = none := by
  cases ts with
  | nil =>
    have hcut : cut (· == ')') (' ' :: ')' :: rest) = some ([' '], rest) := rfl
    change literalIndex? (' ' :: ')' :: rest) = none
    simp only [literalIndex?, hcut, Option.bind_eq_bind, Option.bind_some]
    rfl
  | cons t ts =>
    rw [lexemes.lexemesAll, spaced_append, List.append_assoc]
    rcases t.lexemes_front with ⟨u, ht, hu, hword⟩ | ⟨u, v, ls, ht, hu, hv⟩
    · cases ts with
      | nil =>
        have hnone : Decimal.word? u = none := by
          by_contra hne
          rw [hword hne] at h
          cases h
        have hindex := literalIndex?_of_isSolid hu rest
        rw [hnone] at hindex
        simpa [ht] using hindex
      | cons t' ts =>
        have hcomma : IsSolid [','] := ⟨by decide, by decide, by decide⟩
        have hindex := literalIndex?_eq_none_of_two hu hcomma
          (spaced (lexemes.lexemesAll (t' :: ts)) ++ ' ' :: ')' :: rest)
        simpa [ht] using hindex
    · have hindex := literalIndex?_eq_none_of_two hu hv (spaced ls ++
        (spaced (if ts.isEmpty = true then [] else .plain [','] :: lexemes.lexemesAll ts) ++
          ' ' :: ')' :: rest))
      simpa [ht] using hindex

theorem isLowered_literal {name : Spelling Builtin.find?} {index : Spelling Decimal.word?}
    {text : List Char} (hname : name.meaning = .str)
    (htext : literals[index.meaning.toNat]? = some text) :
    IsLowered literals (literal name index text) := by
  intro frames rest _
  have hindex := literalIndex?_of_isSolid (isSolid_of_word? index.reads) rest
  rw [index.reads] at hindex
  simp only [lexemes, output, spaced_cons, spaced_nil, Lexeme.text_plain, List.cons_append,
    List.append_assoc, List.nil_append]
  rw [lowerFrom_space, lowerFrom_literal (hname ▸ name.reads) afterParenthesis?_space
    isAsciiWord_head_space hindex htext, before_before]
  rfl

theorem isLowered_call {name : Spelling Builtin.find?} {ts : List Term}
    (hindex : name.meaning = .str → isIndex ts = false) (h : ∀ t ∈ ts, IsLowered literals t) :
    IsLowered literals (call name ts) := by
  intro frames rest _
  have hclosed : EndsOperand (' ' :: ')' :: rest) := endsOperand_space (by decide) (by decide)
  have harguments : lowerFrom literals (⟨some name.meaning, 0, false⟩ :: markArgument frames)
      (spaced (lexemes.lexemesAll ts) ++ ' ' :: ')' :: rest) =
      guarded (lexemes.lexemesAll ts) (output.outputAll (name.meaning == .iif) 0 ts)
        (lowerFrom literals (⟨some name.meaning, ts.length - 1, !ts.isEmpty⟩ :: markArgument frames)
          (' ' :: ')' :: rest)) := by
    cases ts with
    | nil => exact (before_nil _).symm
    | cons t ts =>
      rw [isLowered_all h (List.cons_ne_nil t ts) _ _ _ hclosed, Nat.zero_add]
      rfl
  have hcount : (⟨some name.meaning, ts.length - 1, !ts.isEmpty⟩ : Frame).argumentCount =
      ts.length := by
    cases ts <;> simp [Frame.argumentCount]
  have hclosing : guarded [⟨[')'], some (name.meaning, ts.length)⟩] (' ' :: closing name.meaning)
      (lowerFrom literals (markArgument frames) rest) =
      lowerFrom literals (⟨some name.meaning, ts.length - 1, !ts.isEmpty⟩ :: markArgument frames)
        (' ' :: ')' :: rest) := by
    rw [lowerFrom_space, lowerFrom_closing rfl, hcount]
    unfold guarded firstRejected?
    by_cases haccepts : name.meaning.arity.accepts ts.length = true
    · simp [accepts, haccepts]
    · simp only [Bool.not_eq_true] at haccepts
      simp [accepts, haccepts]
      rfl
  simp only [lexemes, output, spaced_cons, spaced_append, spaced_nil, Lexeme.text_plain,
    List.cons_append, List.append_assoc, List.nil_append]
  rw [lowerFrom_space, lowerFrom_opening name.reads afterParenthesis?_space isAsciiWord_head_space
    fun hname => literalIndex?_arguments (hindex hname)]
  rw [harguments, ← hclosing, guarded_append, before_before, before_guarded, guarded_plain_cons,
    guarded_plain_cons]
  simp

theorem isLowered (t : Term) (h : t.WellFormed literals) : IsLowered literals t := by
  induction t using inductionOn with
  | number n =>
    intro frames rest hrest
    simp only [lexemes, output, spaced_cons, spaced_nil, Lexeme.text_plain, List.cons_append,
      List.append_nil]
    rw [lowerFrom_space, lowerFrom_number n hrest, before_before]
    rfl
  | cell name =>
    intro frames rest hrest
    simp only [lexemes, output, spaced_cons, spaced_nil, Lexeme.text_plain, List.cons_append,
      List.append_nil]
    rw [lowerFrom_space, lowerFrom_name (isIdentifier_of_ofName name.reads) hrest,
      canonicalName_of_ofName name.reads, before_before]
    rfl
  | constant name =>
    intro frames rest hrest
    simp only [lexemes, output, spaced_cons, spaced_nil, Lexeme.text_plain, List.cons_append,
      List.append_nil]
    rw [lowerFrom_space, lowerFrom_name (isIdentifier_of_find?_constant name.reads) hrest,
      canonicalName_of_find? name.reads, before_before]
    rfl
  | literal name index text => exact isLowered_literal h.1 h.2
  | group t ih => exact isLowered_group (ih h)
  | minus t ih => exact isLowered_minus (ih h)
  | negation t ih => exact isLowered_negation (ih h)
  | binary op l r ihl ihr => exact isLowered_binary op (ihl h.1) (ihr h.2)
  | call name arguments ih =>
    exact isLowered_call h.1 fun t ht => ih t ht (wellFormedAll_iff.1 h.2 t ht)

end

end Term

end Spreadsheet.Formula

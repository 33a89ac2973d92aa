import Spreadsheet.Proofs.Formula.LoweredCounterpart

/-!
# The parts of a formula

Numbers, names and operators are written as parts of an expression one at a
time, whatever parentheses are open, as long as what follows does not belong to
them. A number or a name ends where no word and no point follows; a name is no
call where no parenthesis comes after it.
-/
namespace Spreadsheet.Formula
open Text

/-! ## Numbers and names -/

/-- An exponent with its mark. -/
structure Exponent where
  mark : Char
  sign : List Char
  digits : List Char
  mark_eq : mark = 'e' ∨ mark = 'E'
  sign_mem : sign ∈ [[], ['+'], ['-']]
  digits_ne_nil : digits ≠ []
  isDigit : ∀ c ∈ digits, c.isDigit = true

/-- A decimal number, with at least one digit beside its point. -/
structure Numeral where
  whole : List Char
  fraction : Option (List Char)
  exponent : Option Exponent
  isDigit_whole : ∀ c ∈ whole, c.isDigit = true
  isDigit_fraction : ∀ digits ∈ fraction, ∀ c ∈ digits, c.isDigit = true
  exists_digit : whole ≠ [] ∨ ∃ digits ∈ fraction, digits ≠ []

namespace Numeral

def fractionText (n : Numeral) : List Char :=
  match n.fraction with
  | none => []
  | some digits => '.' :: digits

def exponentText (n : Numeral) : List Char :=
  match n.exponent with
  | none => []
  | some x => x.mark :: (x.sign ++ x.digits)

/-- A number as a formula has it. -/
def text (n : Numeral) : List Char := n.whole ++ (n.fractionText ++ n.exponentText)

/-- A number as an expression has it: with a point, digits on both sides of it and a small mark. -/
def written (n : Numeral) : List Char :=
  orZero n.whole ++ '.' :: orZero (n.fraction.getD []) ++
    match n.exponent with
    | none => []
    | some x => 'e' :: x.sign ++ x.digits

end Numeral

/-- A text with what it is read as. -/
structure Spelling {α : Type} (read : List Char → Option α) where
  text : List Char
  meaning : α
  reads : read text = some meaning

/-- ASCII letters and digits, a letter first. -/
structure IsIdentifier (cs : List Char) : Prop where
  ne_nil : cs ≠ []
  isAlpha_head : ∀ c ∈ cs.head?, c.isAlpha = true
  isAlphanum : ∀ c ∈ cs, c.isAlphanum = true

/-- What follows a number or a name that is no call. -/
structure EndsOperand (rest : List Char) : Prop where
  head : ∀ c ∈ rest.head?, isAsciiWord c = false ∧ c ≠ '.'
  call : afterParenthesis? rest = none

/-! ## Operators -/

/-- An operator between two operands, in one of its spellings. -/
inductive Infix where
  | plus | minus | times | dividedBy | power | both | either | same | equal | unequal | differs
  | less | atMost | greater | atLeast
deriving DecidableEq, Repr

namespace Infix

def text : Infix → List Char
  | plus => ['+']
  | minus => ['-']
  | times => ['*']
  | dividedBy => ['/']
  | power => ['*', '*']
  | both => ['&', '&']
  | either => ['|', '|']
  | same => ['=', '=']
  | equal => ['=']
  | unequal => ['!', '=']
  | differs => ['<', '>']
  | less => ['<']
  | atMost => ['<', '=']
  | greater => ['>']
  | atLeast => ['>', '=']

/-- An operator as an expression has it. -/
def written : Infix → List Char
  | equal => ['=', '=']
  | differs => ['!', '=']
  | op => op.text

end Infix

/-- A text in front of what else is written, if that is no fault. -/
def before (written : List Char) (x : Except Fault (List Char)) : Except Fault (List Char) :=
  x.map (written ++ ·)

@[simp] theorem before_nil (x : Except Fault (List Char)) : before [] x = x := by
  cases x <;> rfl

@[simp] theorem before_before (u v : List Char) (x : Except Fault (List Char)) :
    before u (before v x) = before (u ++ v) x := by
  cases x with
  | error fault => rfl
  | ok w => exact congrArg Except.ok (List.append_assoc u v w).symm

section
variable {literals : List (List Char)} {frames : List Frame} {c : Char} {cs rest name : List Char}

/-! ## One step after the other -/

theorem lowerFrom_of_step {s : Step} (h : step literals frames c cs = .ok s) :
    lowerFrom literals frames (c :: cs) =
      before s.written (lowerFrom literals s.frames s.rest) := by
  rw [lowerFrom]
  split
  · rename_i hstep
    rw [h] at hstep
    cases hstep
  · rename_i hstep
    rw [h] at hstep
    cases hstep
    split <;> rename_i hrest <;> rw [hrest] <;> rfl

theorem lowerFrom_of_fault {fault : Fault} (h : step literals frames c cs = .error fault) :
    lowerFrom literals frames (c :: cs) = .error fault := by
  rw [lowerFrom]
  split
  · rename_i hstep
    rw [h] at hstep
    cases hstep
    rfl
  · rename_i hstep
    rw [h] at hstep
    cases hstep

@[simp] theorem markArgument_markArgument (frames : List Frame) :
    markArgument (markArgument frames) = markArgument frames := by
  cases frames <;> rfl

theorem lowerFrom_space : lowerFrom literals frames (' ' :: cs) =
    before [' '] (lowerFrom literals frames cs) :=
  lowerFrom_of_step (s := ⟨[' '], frames, cs⟩) rfl

/-! ## Numbers -/

theorem EndsOperand.isDigit_head (h : EndsOperand rest) :
    ∀ c ∈ rest.head?, c.isDigit = false ∧ c.isAlpha = false := by
  intro c hc
  have hword := (h.head c hc).1
  simp only [isAsciiWord, Char.isAlphanum, Bool.or_eq_false_iff] at hword
  exact ⟨hword.1.2, hword.1.1⟩

theorem splitExponent_text (n : Numeral) (h : EndsOperand rest) :
    splitExponent (n.exponentText ++ rest) = (match n.exponent with
      | none => []
      | some x => 'e' :: x.sign ++ x.digits, rest) := by
  unfold Numeral.exponentText
  cases n.exponent with
  | none =>
    cases rest with
    | nil => rfl
    | cons c rest =>
      have hc := (h.isDigit_head c rfl).2
      have hmark : (c == 'e' || c == 'E') = false := by
        simp only [Bool.or_eq_false_iff, beq_eq_false_iff_ne]
        constructor <;> rintro rfl <;> exact absurd hc (by decide)
      rw [List.nil_append, splitExponent_cons, hmark]
      rfl
  | some x =>
    have hmark : (x.mark == 'e' || x.mark == 'E') = true := by
      rcases x.mark_eq with he | he <;> rw [he] <;> rfl
    have hsign : splitSign (x.sign ++ (x.digits ++ rest)) = (x.sign, x.digits ++ rest) := by
      have hmem := x.sign_mem
      simp only [List.mem_cons, List.not_mem_nil, or_false] at hmem
      rcases hmem with he | he | he <;> rw [he]
      · obtain ⟨d, ds, hd⟩ := List.exists_cons_of_ne_nil x.digits_ne_nil
        have hdigit : d.isDigit = true := x.isDigit d (hd ▸ List.mem_cons_self)
        rw [hd]
        apply splitSign_of_head <;> rintro ⟨⟩ <;> exact absurd hdigit (by decide)
      · rfl
      · rfl
    obtain ⟨htake, hdrop⟩ := takeWhile_append_of_head x.isDigit fun c hc => (h.isDigit_head c hc).1
    simp only [List.cons_append, List.append_assoc]
    rw [splitExponent_cons, hsign, htake, hdrop, hmark]
    simp [x.digits_ne_nil]

theorem isDigit_head_exponentText (n : Numeral) (h : EndsOperand rest) :
    ∀ c ∈ (n.exponentText ++ rest).head?, c.isDigit = false ∧ c ≠ '.' := by
  intro c hc
  unfold Numeral.exponentText at hc
  split at hc
  · exact ⟨(h.isDigit_head c hc).1, (h.head c hc).2⟩
  · rename_i x _
    cases hc
    rcases x.mark_eq with he | he <;> rw [he] <;> exact ⟨rfl, by decide⟩

/-- A number is read whole. -/
theorem splitNumber_text (n : Numeral) (h : EndsOperand rest) :
    splitNumber (n.text ++ rest) = (n.written, rest) := by
  have hexponent := splitExponent_text n h
  have hhead := isDigit_head_exponentText n h
  have hfraction : (∀ c ∈ (n.fractionText ++ (n.exponentText ++ rest)).head?, c.isDigit = false) ∧
      splitFraction (n.fractionText ++ (n.exponentText ++ rest)) =
        (n.fraction.getD [], n.exponentText ++ rest) := by
    have hdigits := n.isDigit_fraction
    unfold Numeral.fractionText
    generalize n.fraction = fraction at hdigits ⊢
    cases fraction with
    | none =>
      refine ⟨fun c hc => (hhead c hc).1, ?_⟩
      unfold splitFraction
      split
      · rename_i hcs
        exact absurd rfl
          (hhead '.' (by rw [← List.nil_append (n.exponentText ++ rest), hcs]; rfl)).2
      · rfl
    | some digits =>
      obtain ⟨htake, hdrop⟩ :=
        takeWhile_append_of_head (hdigits digits rfl) fun c hc => (hhead c hc).1
      refine ⟨fun c hc => by cases hc; rfl, ?_⟩
      simp only [List.cons_append, splitFraction, htake, hdrop, Option.getD_some]
  obtain ⟨htake, hdrop⟩ := takeWhile_append_of_head n.isDigit_whole hfraction.1
  rw [Numeral.text, List.append_assoc, List.append_assoc, splitNumber, htake, hdrop, hfraction.2]
  simp only [hexponent]
  rfl

/-- A number begins with a digit, or with a point and a digit. -/
theorem Numeral.exists_begin (n : Numeral) (rest : List Char) :
    ∃ c cs, n.text ++ rest = c :: cs ∧ beginsNumber c cs = true := by
  rw [Numeral.text, List.append_assoc]
  cases hwhole : n.whole with
  | cons c whole =>
    have hc : c.isDigit = true := n.isDigit_whole c (hwhole ▸ List.mem_cons_self)
    exact ⟨c, _, rfl, by simp [beginsNumber, hc]⟩
  | nil =>
    rcases n.exists_digit with hne | ⟨digits, hdigits, hne⟩
    · exact absurd hwhole hne
    · obtain ⟨d, ds, rfl⟩ := List.exists_cons_of_ne_nil hne
      have hd : d.isDigit = true := n.isDigit_fraction _ hdigits d List.mem_cons_self
      refine ⟨'.', d :: (ds ++ (n.exponentText ++ rest)), ?_, by simp [beginsNumber, hd]⟩
      simp [Numeral.fractionText, Option.mem_def.1 hdigits]

theorem lowerFrom_number (n : Numeral) (h : EndsOperand rest) :
    lowerFrom literals frames (n.text ++ rest) =
      before n.written (lowerFrom literals (markArgument frames) rest) := by
  obtain ⟨c, cs, htext, hbegin⟩ := n.exists_begin rest
  have hne : isBlank c = false ∧ c ≠ ',' ∧ c ≠ ')' := by
    have hdigit := hbegin
    simp only [beginsNumber, Bool.or_eq_true, Bool.and_eq_true, beq_iff_eq] at hdigit
    rcases hdigit with hdigit | ⟨rfl, _⟩
    · refine ⟨?_, ?_, ?_⟩
      · by_contra hb
        have := isAsciiWord_eq_false_of_isBlank (by simpa using hb : isBlank c = true)
        simp [isAsciiWord, Char.isAlphanum, hdigit] at this
      all_goals
        rintro rfl
        exact absurd hdigit (by decide)
    · decide
  have hsplit := splitNumber_text n h
  rw [htext] at hsplit ⊢
  have hstep : step literals frames c cs = .ok ⟨n.written, markArgument frames, rest⟩ := by
    simp [step, stepArgument, hne, hbegin, hsplit]
  exact lowerFrom_of_step hstep

/-! ## Names -/

/-- A name without a parenthesis after it is written in capitals. -/
theorem step_of_isIdentifier (literals : List (List Char)) (frames : List Frame)
    (hname : IsIdentifier name)
    (hrest : ∀ c ∈ rest.head?, isAsciiWord c = false) : ∃ c cs, name ++ rest = c :: cs ∧
      step literals frames c cs = stepName literals (markArgument frames) name rest := by
  obtain ⟨c, cs, rfl⟩ := List.exists_cons_of_ne_nil hname.ne_nil
  have hc : c.isAlpha = true := hname.isAlpha_head c rfl
  have hword : ∀ d ∈ c :: cs, isAsciiWord d = true := fun d hd => by
    simp [isAsciiWord, hname.isAlphanum d hd]
  obtain ⟨htake, hdrop⟩ := takeWhile_append_of_head hword hrest
  have hdigit := isDigit_of_isAlpha hc
  have hne : isBlank c = false ∧ c ≠ ',' ∧ c ≠ ')' ∧ c ≠ '.' := by
    refine ⟨isBlank_of_isAlpha hc, ?_, ?_, ?_⟩
    all_goals
      rintro rfl
      exact absurd hc (by decide)
  rw [List.cons_append] at htake hdrop
  exact ⟨c, cs ++ rest, rfl, by
    simp [step, stepArgument, beginsNumber, hne, hdigit, hc, htake, hdrop]⟩

theorem lowerFrom_name (hname : IsIdentifier name) (h : EndsOperand rest) :
    lowerFrom literals frames (name ++ rest) =
      before (canonicalName name) (lowerFrom literals (markArgument frames) rest) := by
  obtain ⟨c, cs, htext, hstep⟩ :=
    step_of_isIdentifier literals frames hname fun c hc => (h.head c hc).1
  rw [stepName, h.call] at hstep
  rw [htext]
  exact lowerFrom_of_step hstep

theorem isIdentifier_of_ofName {p : Position} (h : Position.ofName? name = some p) :
    IsIdentifier name :=
  ⟨Position.ne_nil_of_ofName h, Position.isAlpha_head_of_ofName h, Position.isAlphanum_of_ofName h⟩

theorem isIdentifier_of_map_toUpper {capitals : List Char} (h : name.map Char.toUpper = capitals)
    (hcapitals : IsIdentifier capitals) : IsIdentifier name := by
  subst h
  refine ⟨fun hnil => hcapitals.ne_nil (by rw [hnil]; rfl), fun c hc => ?_, fun c hc => ?_⟩
  · rw [← isAlpha_toUpper]
    exact hcapitals.isAlpha_head _ (by simp [Option.mem_def.1 hc])
  · have := hcapitals.isAlphanum _ (List.mem_map_of_mem hc)
    rwa [Char.isAlphanum, isAlpha_toUpper, isDigit_toUpper] at this

theorem map_toUpper_of_find?_constant {constant : Constant}
    (h : Constant.find? name = some constant) : name.map Char.toUpper = constant.name.toList := by
  unfold Constant.find? at h
  have hname := List.find?_some h
  rw [beq_iff_eq.1 hname, String.toList_ofList]

theorem map_toUpper_of_find?_builtin {function : Builtin}
    (h : Builtin.find? name = some function) : name.map Char.toUpper = function.name.toList := by
  unfold Builtin.find? at h
  have hname := List.find?_some h
  rw [beq_iff_eq.1 hname, String.toList_ofList]

theorem isIdentifier_of_find?_constant {constant : Constant}
    (h : Constant.find? name = some constant) : IsIdentifier name := by
  refine isIdentifier_of_map_toUpper (map_toUpper_of_find?_constant h) ?_
  cases constant <;> exact ⟨by decide, fun c hc => by cases hc; rfl, by decide⟩

theorem isIdentifier_of_find?_builtin {function : Builtin}
    (h : Builtin.find? name = some function) : IsIdentifier name := by
  refine isIdentifier_of_map_toUpper (map_toUpper_of_find?_builtin h) ?_
  cases function <;> exact ⟨by decide, fun c hc => by cases hc; rfl, by decide⟩

theorem canonicalName_of_ofName {p : Position} (h : Position.ofName? name = some p) :
    canonicalName name = p.name := by
  rw [canonicalName, find?_constant_of_ofName h, h]

theorem canonicalName_of_find? {constant : Constant} (h : Constant.find? name = some constant) :
    canonicalName name = constant.name.toList := by
  rw [canonicalName, h]

/-! ## Operators and parentheses -/

theorem step_symbol (h : c ∈ "+-*/&|=<>!(".toList) :
    step literals frames c cs = .ok (stepSymbol (markArgument frames) (c :: cs)) := by
  have hc : isBlank c = false ∧ c ≠ ',' ∧ c ≠ ')' ∧ c.isDigit = false ∧ c ≠ '.' ∧
      c.isAlpha = false ∧ c ≠ '_' ∧ c ≠ '#' := by
    revert c
    decide
  have hlost : dropLead? lostReference (c :: cs) = none :=
    dropLead?_of_head (l := '#') (by simpa using hc.2.2.2.2.2.2.2)
  simp [step, stepArgument, beginsNumber, hc, hlost]

/-- A symbol that does not go with the next character stays, but for an equality sign. -/
theorem lowerFrom_symbol (h : c ∈ "+-*/&|<>!".toList)
    (hpair : ∀ d ∈ cs.head?, (c, d) ∉ pairedSymbols) :
    lowerFrom literals frames (c :: cs) =
      before [c] (lowerFrom literals (markArgument frames) cs) := by
  have hsymbol : ∀ c ∈ "+-*/&|<>!".toList,
      c ∈ "+-*/&|=<>!(".toList ∧ c ≠ '(' ∧ c ≠ '"' ∧ c ≠ '=' := by decide
  obtain ⟨hmem, hparen, hquote, hequal⟩ := hsymbol c h
  refine lowerFrom_of_step (s := ⟨[c], markArgument frames, cs⟩) ?_
  rw [step_symbol hmem, stepSymbol_of_unpaired hparen hquote hequal hpair]

/-- A symbol of two characters is written as what its step writes. -/
theorem lowerFrom_pair {d : Char} (written : List Char) (hc : c ∈ "=<>!".toList)
    (h : stepSymbol (markArgument frames) (c :: d :: rest) =
      ⟨written, markArgument frames, rest⟩) :
    lowerFrom literals frames (c :: d :: rest) =
      before written (lowerFrom literals (markArgument frames) rest) := by
  have hsymbol : ∀ c ∈ "=<>!".toList, c ∈ "+-*/&|=<>!(".toList := by decide
  refine lowerFrom_of_step (s := ⟨written, markArgument frames, rest⟩) ?_
  rw [step_symbol (hsymbol c hc), h]

theorem lowerFrom_twice (h : c ∈ "*&|".toList) :
    lowerFrom literals frames (c :: c :: rest) =
      before [c, c] (lowerFrom literals (markArgument frames) rest) := by
  have hsymbol : ∀ c ∈ "*&|".toList, c ∈ "+-*/&|<>!".toList ∧ ∀ d, (c, d) ∉ pairedSymbols := by
    intro c hc
    have htable : ∀ entry ∈ pairedSymbols, entry.1 ∉ "*&|".toList := by decide
    refine ⟨?_, fun d hd => htable _ hd hc⟩
    revert c
    decide
  obtain ⟨hmem, hpair⟩ := hsymbol c h
  rw [lowerFrom_symbol hmem fun d _ => hpair d, lowerFrom_symbol hmem fun d _ => hpair d,
    markArgument_markArgument, before_before]
  rfl

theorem lowerFrom_operator (op : Infix) (h : ∀ c ∈ rest.head?, c ≠ '=' ∧ c ≠ '>') :
    lowerFrom literals frames (op.text ++ rest) =
      before op.written (lowerFrom literals (markArgument frames) rest) := by
  have hpair : ∀ c, ∀ d ∈ rest.head?, (c, d) ∉ pairedSymbols := by
    intro c d hd hmem
    have htable : ∀ entry ∈ pairedSymbols, entry.2 = '=' ∨ entry.2 = '>' := by decide
    rcases htable _ hmem with he | he
    · exact (h d hd).1 he
    · exact (h d hd).2 he
  cases op with
  | plus | minus | times | dividedBy | less | greater =>
    exact lowerFrom_symbol (by decide) (hpair _)
  | power | both | either => exact lowerFrom_twice (by decide)
  | same | unequal | differs | atMost | atLeast => exact lowerFrom_pair _ (by decide) rfl
  | equal =>
    refine lowerFrom_of_step (s := ⟨['=', '='], markArgument frames, rest⟩) ?_
    exact (step_symbol (by decide)).trans (congrArg Except.ok (stepSymbol_of_equal (hpair '=')))

theorem lowerFrom_opened : lowerFrom literals frames ('(' :: rest) =
    before ['('] (lowerFrom literals (⟨none, 0, false⟩ :: markArgument frames) rest) :=
  lowerFrom_of_step (step_symbol (by decide))

/-- The parenthesis of a group closes whatever it holds. -/
theorem lowerFrom_closed {f : Frame} (h : f.function = none) :
    lowerFrom literals (f :: frames) (')' :: rest) =
      before [')'] (lowerFrom literals frames rest) := by
  refine lowerFrom_of_step (s := ⟨[')'], frames, rest⟩) ?_
  have hclose : step literals (f :: frames) ')' rest = stepClose (f :: frames) rest := rfl
  rw [hclose, stepClose, h]

/-! ## Calls -/

theorem lowerFrom_opening {function : Builtin} {inside : List Char}
    (hname : Builtin.find? name = some function) (hparen : afterParenthesis? rest = some inside)
    (hrest : ∀ c ∈ rest.head?, isAsciiWord c = false)
    (hindex : function = .str → literalIndex? inside = none) :
    lowerFrom literals frames (name ++ rest) =
      before (opening function)
        (lowerFrom literals (⟨some function, 0, false⟩ :: markArgument frames) inside) := by
  obtain ⟨c, cs, htext, hstep⟩ := step_of_isIdentifier literals frames
    (isIdentifier_of_find?_builtin hname) hrest
  have hnone : (if function = .str then literalIndex? inside else none) = none := by
    split
    · exact hindex ‹_›
    · rfl
  rw [stepName, hparen] at hstep
  simp only [stepCall, hname, hnone] at hstep
  rw [htext]
  exact lowerFrom_of_step hstep

/-- A numbered literal comes back in the place of its number. -/
theorem lowerFrom_literal {inside after text : List Char} {index : UInt64}
    (hname : Builtin.find? name = some .str) (hparen : afterParenthesis? rest = some inside)
    (hrest : ∀ c ∈ rest.head?, isAsciiWord c = false)
    (hindex : literalIndex? inside = some (index, after))
    (htext : literals[index.toNat]? = some text) :
    lowerFrom literals frames (name ++ rest) =
      before (quote text) (lowerFrom literals (markArgument frames) after) := by
  obtain ⟨c, cs, hcs, hstep⟩ := step_of_isIdentifier literals frames
    (isIdentifier_of_find?_builtin hname) hrest
  rw [stepName, hparen] at hstep
  simp only [stepCall, hname, hindex, htext, if_true] at hstep
  rw [hcs]
  exact lowerFrom_of_step hstep

/-- A comma is charged to the innermost parenthesis. -/
theorem lowerFrom_comma (f : Frame) : lowerFrom literals (f :: frames) (',' :: rest) =
    before (separator f.isChoice (f.commas + 1))
      (lowerFrom literals (⟨f.function, f.commas + 1, f.hasArguments⟩ :: frames) rest) :=
  lowerFrom_of_step (s := stepComma (f :: frames) rest) rfl

/-- The closing parenthesis of a function is written only after an accepted number of arguments. -/
theorem lowerFrom_closing {f : Frame} {function : Builtin} (h : f.function = some function) :
    lowerFrom literals (f :: frames) (')' :: rest) =
      if function.arity.accepts f.argumentCount then
        before (closing function) (lowerFrom literals frames rest)
      else .error (.parameterCount function) := by
  have hclose : step literals (f :: frames) ')' rest = stepClose (f :: frames) rest := rfl
  rw [stepClose, h] at hclose
  dsimp only at hclose
  split
  · rename_i haccepts
    rw [if_pos haccepts] at hclose
    exact lowerFrom_of_step hclose
  · rename_i haccepts
    rw [if_neg haccepts] at hclose
    exact lowerFrom_of_fault hclose

end

end Spreadsheet.Formula

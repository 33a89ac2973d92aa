import Spreadsheet.Fault
import Spreadsheet.Formula.Literal
import Spreadsheet.Formula.Reference

/-!
# From a formula to an expression

A formula whose ranges are expanded and whose literals are taken out is written
as an expression in one reading from left to right: numbers get a point, names
their capitals, a function one list of arguments, and a choice by condition the
form with two branches, of which only one is evaluated. A literal comes back in
the place of its number. The arguments of a function are counted by the commas
in its parentheses, and a wrong number is a fault.
-/
namespace Spreadsheet.Formula
open Text

/-- An open parenthesis: the function it belongs to and what it holds so far. -/
structure Frame where
  function : Option Builtin
  commas : Nat
  hasArguments : Bool
deriving DecidableEq, Repr

namespace Frame

def argumentCount (f : Frame) : Nat := if f.hasArguments then f.commas + 1 else 0

def isChoice (f : Frame) : Bool := f.function == some .iif

end Frame

/-- What one step of the reading leaves: the text it wrote, the open parentheses and the rest. -/
structure Step where
  written : List Char
  frames : List Frame
  rest : List Char

/-- Records that the innermost parenthesis holds an argument. -/
def markArgument : List Frame → List Frame
  | [] => []
  | f :: fs => ⟨f.function, f.commas, true⟩ :: fs

/-- A run of digits, or a zero in place of none. -/
def orZero (digits : List Char) : List Char := if digits.isEmpty then ['0'] else digits

/-- The exponent at the front of a text, and what follows it. -/
def splitExponent (cs : List Char) : List Char × List Char :=
  match cs with
  | [] => ([], [])
  | mark :: rest =>
    let (sign, rest) := match rest with
      | '+' :: rest => (['+'], rest)
      | '-' :: rest => (['-'], rest)
      | _ => ([], rest)
    let digits := rest.takeWhile Char.isDigit
    if (mark == 'e' || mark == 'E') && !digits.isEmpty then
      ('e' :: sign ++ digits, rest.dropWhile Char.isDigit)
    else ([], cs)

/-- The point at the front of a text with the digits after it, and what follows. -/
def splitFraction (cs : List Char) : List Char × List Char :=
  match cs with
  | '.' :: rest => (rest.takeWhile Char.isDigit, rest.dropWhile Char.isDigit)
  | _ => ([], cs)

/-- The number at the front of a text, with a point, and what follows it. -/
def splitNumber (cs : List Char) : List Char × List Char :=
  let (fraction, rest) := splitFraction (cs.dropWhile Char.isDigit)
  let (exponent, rest) := splitExponent rest
  (orZero (cs.takeWhile Char.isDigit) ++ '.' :: orZero fraction ++ exponent, rest)

/-- A name as an expression writes it: constants and cells in capitals. -/
def canonicalName (name : List Char) : List Char :=
  match Constant.find? name with
  | some constant => constant.name.toList
  | none =>
    match Position.ofName? name with
    | some cell => cell.name
    | none => name

def escape : Char → List Char
  | '\\' => ['\\', '\\']
  | '"' => ['\\', '"']
  | '\n' => ['\\', 'n']
  | '\r' => ['\\', 'r']
  | '\t' => ['\\', 't']
  | c => [c]

def quote (cs : List Char) : List Char := '"' :: cs.flatMap escape ++ ['"']

/-- The number of a literal in the text after an open parenthesis, and what follows it. -/
def literalIndex? (cs : List Char) : Option (UInt64 × List Char) := do
  let (inside, rest) ← cut (· == ')') cs
  let index ← Decimal.word? (trim inside)
  return (index, rest)

/-- What is written for the open parenthesis of a function. -/
def opening (function : Builtin) : List Char :=
  if function = .iif then "(if truthy(".toList else function.name.toList ++ ['(', '[']

/-- What is written for the closing parenthesis of a function. -/
def closing (function : Builtin) : List Char :=
  if function = .iif then "\x7d)".toList else [']', ')']

/-- What is written for a comma, the last of the given number in its parenthesis. -/
def separator (isChoice : Bool) (commas : Nat) : List Char :=
  match isChoice, commas with
  | true, 1 => ") \x7b".toList
  | true, 2 => "\x7d else \x7b".toList
  | _, _ => [',']

/-- The text after the open parenthesis that follows a name, if there is one. -/
def afterParenthesis? (cs : List Char) : Option (List Char) :=
  match trimLeft cs with
  | '(' :: rest => some rest
  | _ => none

/-- Reads a function name and its open parenthesis, or a numbered literal. -/
def stepCall (literals : List (List Char)) (frames : List Frame) (name rest : List Char) :
    Except Fault Step :=
  match Builtin.find? name with
  | none => .error (.failed (.unknownFunction (String.ofList name)))
  | some function =>
    match (if function = .str then literalIndex? rest else none) with
    | some (index, rest) =>
      match literals[index.toNat]? with
      | some literal => .ok ⟨quote literal, frames, rest⟩
      | none => .error (.failed (.unknownLiteral index))
    | none => .ok ⟨opening function, ⟨some function, 0, false⟩ :: frames, rest⟩

def stepName (literals : List (List Char)) (frames : List Frame) (name rest : List Char) :
    Except Fault Step :=
  match afterParenthesis? rest with
  | some inside => stepCall literals frames name inside
  | none => .ok ⟨canonicalName name, frames, rest⟩

def stepClose (frames : List Frame) (rest : List Char) : Except Fault Step :=
  match frames with
  | [] => .ok ⟨[')'], [], rest⟩
  | f :: fs =>
    match f.function with
    | none => .ok ⟨[')'], fs, rest⟩
    | some function =>
      if function.arity.accepts f.argumentCount then .ok ⟨closing function, fs, rest⟩
      else .error (.parameterCount function)

def stepComma (frames : List Frame) (rest : List Char) : Step :=
  match frames with
  | [] => ⟨[','], [], rest⟩
  | f :: fs =>
    ⟨separator f.isChoice (f.commas + 1), ⟨f.function, f.commas + 1, f.hasArguments⟩ :: fs, rest⟩

/-- Reads an open parenthesis, a quote that is never closed, a comparison or any other character. -/
def stepSymbol (frames : List Frame) : List Char → Step
  | [] => ⟨[], frames, []⟩
  | '(' :: rest => ⟨['('], ⟨none, 0, false⟩ :: frames, rest⟩
  | '"' :: rest => ⟨'"' :: rest, frames, []⟩
  | '=' :: '=' :: rest => ⟨['=', '='], frames, rest⟩
  | '=' :: rest => ⟨['=', '='], frames, rest⟩
  | '<' :: '>' :: rest => ⟨['!', '='], frames, rest⟩
  | '<' :: '=' :: rest => ⟨['<', '='], frames, rest⟩
  | '>' :: '=' :: rest => ⟨['>', '='], frames, rest⟩
  | '!' :: '=' :: rest => ⟨['!', '='], frames, rest⟩
  | c :: rest => ⟨[c], frames, rest⟩

/-- Whether a number begins with a character, given what follows it. -/
def beginsNumber (c : Char) (cs : List Char) : Bool :=
  c.isDigit || (c == '.' && cs.head?.any Char.isDigit)

/-- Reads what begins with the given character and is no blank, comma or closing parenthesis. -/
def stepArgument (literals : List (List Char)) (frames : List Frame) (c : Char)
    (cs : List Char) : Except Fault Step :=
  if beginsNumber c cs then .ok ⟨(splitNumber (c :: cs)).1, frames, (splitNumber (c :: cs)).2⟩
  else if c.isAlpha || c == '_' then
    stepName literals frames ((c :: cs).takeWhile isAsciiWord) ((c :: cs).dropWhile isAsciiWord)
  else if (dropLead? lostReference (c :: cs)).isSome then
    .error (.unrecognized (String.ofList lostReference))
  else .ok (stepSymbol frames (c :: cs))

/-- One step of the reading. -/
def step (literals : List (List Char)) (frames : List Frame) (c : Char) (cs : List Char) :
    Except Fault Step :=
  if isBlank c then .ok ⟨[c], frames, cs⟩
  else if c = ',' then .ok (stepComma frames cs)
  else if c = ')' then stepClose frames cs
  else stepArgument literals (markArgument frames) c cs

theorem length_splitExponent_le (cs : List Char) :
    (splitExponent cs).2.length ≤ cs.length := by
  unfold splitExponent
  split
  · simp
  · rename_i mark rest
    split
    rename_i sign tail h
    have ht : tail.length ≤ rest.length := by
      split at h <;> cases h <;> simp
    have := length_dropWhile_le Char.isDigit tail
    dsimp only
    split <;> simp only [List.length_cons] <;> omega

theorem length_splitFraction_le (cs : List Char) :
    (splitFraction cs).2.length ≤ cs.length := by
  unfold splitFraction
  split
  · rename_i rest
    have := length_dropWhile_le Char.isDigit rest
    simp only [List.length_cons]
    omega
  · exact Nat.le_refl _

/-- A number takes at least its first character. -/
theorem length_splitNumber_lt {c : Char} {cs : List Char} (h : beginsNumber c cs = true) :
    (splitNumber (c :: cs)).2.length < (c :: cs).length := by
  have step : ∀ rest, (splitExponent rest).2.length ≤ rest.length := length_splitExponent_le
  simp only [splitNumber]
  refine Nat.lt_of_le_of_lt (step _) ?_
  by_cases hd : c.isDigit = true
  · rw [List.dropWhile_cons_of_pos hd]
    have h₁ := length_splitFraction_le (cs.dropWhile Char.isDigit)
    have h₂ := length_dropWhile_le Char.isDigit cs
    simp only [List.length_cons]
    omega
  · rw [List.dropWhile_cons_of_neg hd]
    simp only [Bool.not_eq_true] at hd
    simp only [beginsNumber, hd, Bool.false_or, Bool.and_eq_true, beq_iff_eq] at h
    obtain ⟨rfl, _⟩ := h
    have := length_dropWhile_le Char.isDigit cs
    simp only [splitFraction, List.length_cons]
    omega

theorem length_afterParenthesis_lt {cs rest : List Char}
    (h : afterParenthesis? cs = some rest) : rest.length < cs.length := by
  unfold afterParenthesis? at h
  split at h
  · rename_i inside hcs
    cases h
    have := length_dropWhile_le isBlank cs
    simp only [trimLeft] at hcs
    rw [hcs, List.length_cons] at this
    omega
  · cases h

theorem length_literalIndex_lt {cs rest : List Char} {index : UInt64}
    (h : literalIndex? cs = some (index, rest)) : rest.length < cs.length := by
  simp only [literalIndex?, Option.bind_eq_bind, Option.bind_eq_some_iff] at h
  obtain ⟨⟨inside, after⟩, hcut, number, _, he⟩ := h
  cases he
  exact length_lt_of_cut hcut

theorem length_stepCall_le {literals : List (List Char)} {frames : List Frame}
    {name rest : List Char} {s : Step} (h : stepCall literals frames name rest = .ok s) :
    s.rest.length ≤ rest.length := by
  unfold stepCall at h
  split at h
  · cases h
  · split at h
    · rename_i index after hindex
      split at hindex
      · split at h <;> cases h
        exact Nat.le_of_lt (length_literalIndex_lt hindex)
      · cases hindex
    · cases h
      exact Nat.le_refl _

theorem length_stepName_le {literals : List (List Char)} {frames : List Frame}
    {name rest : List Char} {s : Step} (h : stepName literals frames name rest = .ok s) :
    s.rest.length ≤ rest.length := by
  unfold stepName at h
  split at h
  · rename_i inside hinside
    have := length_stepCall_le h
    have := length_afterParenthesis_lt hinside
    omega
  · cases h
    exact Nat.le_refl _

theorem length_stepSymbol_lt (frames : List Frame) {cs : List Char} (hcs : cs ≠ []) :
    (stepSymbol frames cs).rest.length < cs.length := by
  fun_cases stepSymbol frames cs
  case case1 => exact absurd rfl hcs
  all_goals
    simp only [List.length_cons, List.length_nil]
    omega

theorem length_stepArgument_lt {literals : List (List Char)} {frames : List Frame} {c : Char}
    {cs : List Char} {s : Step} (h : stepArgument literals frames c cs = .ok s) :
    s.rest.length < (c :: cs).length := by
  unfold stepArgument at h
  split at h
  · rename_i hc
    cases h
    exact length_splitNumber_lt hc
  · split at h
    · rename_i hc
      have hw : isAsciiWord c = true := by
        rcases (Bool.or_eq_true ..).mp hc with hc | hc
        · exact isAsciiWord_of_isAlpha hc
        · rw [beq_iff_eq.mp hc]
          rfl
      rw [List.dropWhile_cons_of_pos hw] at h
      have := length_stepName_le h
      have := length_dropWhile_le isAsciiWord cs
      simp only [List.length_cons]
      omega
    · split at h <;> cases h
      exact length_stepSymbol_lt frames (List.cons_ne_nil c cs)

/-- Every step takes at least one character. -/
theorem length_rest_lt {literals : List (List Char)} {frames : List Frame} {c : Char}
    {cs : List Char} {s : Step} (h : step literals frames c cs = .ok s) :
    s.rest.length < (c :: cs).length := by
  unfold step at h
  split at h
  · cases h
    simp
  · split at h
    · cases h
      unfold stepComma
      split <;> simp
    · split at h
      · unfold stepClose at h
        split at h
        · cases h
          simp
        · split at h
          · cases h
            simp
          · split at h <;> cases h
            simp
      · exact length_stepArgument_lt h

/-- Writes the rest of a formula as an expression. -/
def lowerFrom (literals : List (List Char)) (frames : List Frame) :
    List Char → Except Fault (List Char)
  | [] => .ok []
  | c :: cs =>
    match _taken : step literals frames c cs with
    | .error fault => .error fault
    | .ok s =>
      match lowerFrom literals s.frames s.rest with
      | .error fault => .error fault
      | .ok written => .ok (s.written ++ written)
termination_by cs => cs.length
decreasing_by exact length_rest_lt _taken

def lower (literals : List (List Char)) (cs : List Char) : Except Fault (List Char) :=
  lowerFrom literals [] cs

end Spreadsheet.Formula

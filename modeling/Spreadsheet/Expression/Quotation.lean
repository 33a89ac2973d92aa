import Spreadsheet.Text.Blank
import Spreadsheet.Text.Radix

/-!
# Quoted texts of an expression

A text between quotes stands in one line, and a backslash in it begins an
escape; an escaped line end joins the text to the next line, whose blanks are
dropped as far as the quote is indented. A text between number signs and quotes
has no escapes. A template stands between backticks, also over several lines,
and is read up to its end or to an expression in it. Each quote but that of the
second kind stands for itself where it is doubled.
-/
namespace Spreadsheet.Expression
open Text

/-- The character that a letter after a backslash stands for. -/
def unescape? (terminator c : Char) : Option Char :=
  if c = terminator then some c
  else match c with
    | '\\' => some '\\'
    | 't' => some '\t'
    | 'n' => some '\n'
    | 'r' => some '\r'
    | _ => none

/-- A text without blanks at its front, as many as are in one line and at most the given number. -/
def dropBlanks : Nat → List Char → List Char
  | n + 1, c :: cs => if isBlank c && c != '\n' then dropBlanks n cs else c :: cs
  | _, cs => cs

theorem length_dropBlanks_le (n : Nat) (cs : List Char) :
    (dropBlanks n cs).length ≤ cs.length := by
  fun_induction dropBlanks n cs with
  | case1 n c cs _ ih =>
    rw [List.length_cons]
    omega
  | case2 => exact Nat.le_refl _
  | case3 => exact Nat.le_refl _

/-- What an escape stands for, given what follows its backslash. A line end can be escaped if a
margin is given. -/
def splitEscape? (terminator : Char) (margin : Option Nat) :
    List Char → Option (List Char × List Char)
  | 'x' :: cs => (Radix.character? 2 cs).map fun r => ([r.1], r.2)
  | 'u' :: cs => (Radix.character? 4 cs).map fun r => ([r.1], r.2)
  | 'U' :: cs => (Radix.character? 8 cs).map fun r => ([r.1], r.2)
  | '\r' :: '\n' :: cs | '\n' :: cs => margin.map fun n => ([], dropBlanks n cs)
  | c :: cs => (unescape? terminator c).map fun d => ([d], cs)
  | [] => none

theorem length_splitEscape_lt {terminator : Char} {margin : Option Nat} {text cs rest : List Char}
    (h : splitEscape? terminator margin cs = some (text, rest)) : rest.length < cs.length := by
  unfold splitEscape? at h
  split at h
  case h_7 => cases h
  case h_4 | h_5 =>
    obtain ⟨n, _, he⟩ := Option.map_eq_some_iff.1 h
    cases he
    have := length_dropBlanks_le n ‹List Char›
    simp only [List.length_cons]
    omega
  case h_6 =>
    obtain ⟨_, _, he⟩ := Option.map_eq_some_iff.1 h
    cases he
    exact Nat.lt_succ_self _
  all_goals
    obtain ⟨⟨_, _⟩, hr, he⟩ := Option.map_eq_some_iff.1 h
    cases he
    exact Nat.lt_succ_of_le (Radix.length_character_le hr)

/-- Reads a quoted text up to its terminator. -/
def readQuoted (terminator : Char) (margin : Option Nat) :
    List Char → Option (List Char × List Char)
  | [] => none
  | c :: cs =>
    if c = '\n' then none
    else if c = '\\' then
      match _escape : splitEscape? terminator margin cs with
      | none => none
      | some (text, rest) =>
        (readQuoted terminator margin rest).map fun r => (text ++ r.1, r.2)
    else if c = terminator then
      match cs with
      | [] => some ([], [])
      | d :: rest =>
        if d = terminator then (readQuoted terminator margin rest).map fun r => (d :: r.1, r.2)
        else some ([], d :: rest)
    else (readQuoted terminator margin cs).map fun r => (c :: r.1, r.2)
termination_by cs => cs.length
decreasing_by
  · have := length_splitEscape_lt _escape
    simp only [List.length_cons]
    omega
  · simp only [List.length_cons]
    omega
  · simp

theorem length_readQuoted_lt {terminator : Char} {margin : Option Nat} {cs text rest : List Char}
    (h : readQuoted terminator margin cs = some (text, rest)) : rest.length < cs.length := by
  fun_induction readQuoted terminator margin cs generalizing text with
  | case1 => cases h
  | case2 => cases h
  | case3 => cases h
  | case4 _ c after hescape _ ih =>
    obtain ⟨⟨_, _⟩, hr, he⟩ := Option.map_eq_some_iff.1 h
    simp only [Prod.mk.injEq] at he
    obtain ⟨_, rfl⟩ := he
    have := ih hr
    have := length_splitEscape_lt hescape
    simp only [List.length_cons]
    omega
  | case5 => cases h; simp
  | case6 after _ _ ih =>
    obtain ⟨⟨_, _⟩, hr, he⟩ := Option.map_eq_some_iff.1 h
    simp only [Prod.mk.injEq] at he
    obtain ⟨_, rfl⟩ := he
    have := ih hr
    simp only [List.length_cons]
    omega
  | case7 => cases h; simp
  | case8 c after _ _ _ ih =>
    obtain ⟨⟨_, _⟩, hr, he⟩ := Option.map_eq_some_iff.1 h
    simp only [Prod.mk.injEq] at he
    obtain ⟨_, rfl⟩ := he
    have := ih hr
    simp only [List.length_cons]
    omega

/-- The character around a template. -/
def backtick : Char := '\x60'

/-- Reads a template up to its end or to an expression in it, and tells whether there is one. A
backtick stands for itself where it is doubled. -/
def readTemplate : List Char → Option (List Char × Bool × List Char)
  | [] => none
  | c :: cs =>
    if c = '$' ∧ cs.head? = some '\x7b' then some ([], true, cs)
    else if c = '\r' ∧ cs.head? = some '\n' then readTemplate cs
    else if c = backtick then
      match cs with
      | [] => some ([], false, [])
      | d :: rest =>
        if d = backtick then (readTemplate rest).map fun r => (backtick :: r.1, r.2)
        else some ([], false, d :: rest)
    else (readTemplate cs).map fun r => (c :: r.1, r.2)

theorem length_readTemplate_le {cs text rest : List Char} {isOpen : Bool}
    (h : readTemplate cs = some (text, isOpen, rest)) : rest.length ≤ cs.length := by
  fun_induction readTemplate cs generalizing text with
  | case1 => cases h
  | case2 =>
    cases h
    simp
  | case3 c cs _ _ ih =>
    have := ih h
    simp only [List.length_cons]
    omega
  | case4 =>
    cases h
    simp
  | case5 after _ _ ih =>
    obtain ⟨⟨_, _, _⟩, hr, he⟩ := Option.map_eq_some_iff.1 h
    simp only [Prod.mk.injEq] at he
    obtain ⟨_, rfl, rfl⟩ := he
    have := ih hr
    simp only [List.length_cons]
    omega
  | case6 =>
    cases h
    simp
  | case7 c cs _ _ _ ih =>
    obtain ⟨⟨_, _, _⟩, hr, he⟩ := Option.map_eq_some_iff.1 h
    simp only [Prod.mk.injEq] at he
    obtain ⟨_, rfl, rfl⟩ := he
    have := ih hr
    simp only [List.length_cons]
    omega

/-- The text after the end of a line, if one is at its front. -/
def dropLineEnd : List Char → List Char
  | '\r' :: '\n' :: rest => rest
  | '\r' :: rest => rest
  | '\n' :: rest => rest
  | cs => cs

theorem length_dropLineEnd_le (cs : List Char) : (dropLineEnd cs).length ≤ cs.length := by
  unfold dropLineEnd
  split
  · exact Nat.le_add_right _ 2
  · exact Nat.le_succ _
  · exact Nat.le_succ _
  · exact Nat.le_refl _

/-- What follows a text in which nothing is escaped, up to a quote before the given marks. -/
def readRaw (marks : List Char) : List Char → Option (List Char × List Char)
  | [] => none
  | c :: cs =>
    match if c = '"' then dropLead? marks cs else none with
    | some rest => some ([], rest)
    | none => (readRaw marks cs).map fun r => (c :: r.1, r.2)

theorem length_readRaw_le {marks cs text rest : List Char}
    (h : readRaw marks cs = some (text, rest)) : rest.length ≤ cs.length := by
  induction cs generalizing text with
  | nil => cases h
  | cons c cs ih =>
    rw [readRaw] at h
    split at h
    · rename_i after hafter
      cases h
      split at hafter
      · have hcs := congrArg List.length (eq_of_dropLead hafter)
        simp only [List.length_cons, List.length_append] at hcs ⊢
        omega
      · cases hafter
    · obtain ⟨⟨_, _⟩, hr, he⟩ := Option.map_eq_some_iff.1 h
      cases he
      exact Nat.le_succ_of_le (ih hr)

end Spreadsheet.Expression

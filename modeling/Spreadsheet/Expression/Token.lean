import Spreadsheet.Expression.Numeral
import Spreadsheet.Expression.Operator
import Spreadsheet.Expression.Quotation
import Spreadsheet.Text.Word

/-!
# Tokens of an expression

An expression's text is cut into literals, names and symbols. Blanks and
comments separate tokens; a comment that is never closed reaches to the end. At
each place the longest symbol of the table is taken. Reserved words and symbols
make the whole text unreadable, but for the words that name a function where
they are called. A minus belongs to the digit after it where no operand can end.

A text in backticks is a template. It may hold expressions, each in curly
brackets after a dollar sign. What stands in such brackets is cut into tokens
like any other text; the bracket that closes them leads back into the template.
-/
namespace Spreadsheet.Expression
open Text

inductive Bracket where
  | round
  | square
  | curly
deriving DecidableEq, Repr

inductive Token where
  | literal (value : Datum)
  | name (text : String)
  /-- A reserved word that names a function. -/
  | callable (word : String)
  /-- The text of a template up to an expression in it. -/
  | segment (text : String)
  | connective (c : Connective)
  | negation
  | opened (bracket : Bracket)
  | openedRecord
  | openedOptional
  | closed (bracket : Bracket)
  | comma
  | colon
  | path
  | point (isOptional : Bool)
  | whether
  | otherwise
deriving Repr

namespace Token

/-- Whether a minus between a token and a digit belongs to the number. -/
def allowsSign : Token → Bool
  | connective c => c.allowsSign
  | negation | opened _ | openedRecord | comma | colon | whether => true
  | _ => false

/-- How many curly brackets are open in each template around the place after a token, given those
around the token. -/
def depths (token : Token) (around : List Nat) : List Nat :=
  match token, around with
  | segment _, _ => 0 :: around
  | opened .curly, n :: outer | openedRecord, n :: outer => (n + 1) :: outer
  | closed .curly, n :: outer => if n ≤ 1 then outer else (n - 1) :: outer
  | _, _ => around

end Token

/-- The symbols, longer ones before shorter ones; those without a token are reserved. -/
def symbols : List (String × Option Token) :=
  [("**=", none), ("<<=", none), (">>=", none), ("===", none), ("!==", none), ("...", none),
    ("??=", none), ("::<", none), ("..=", some (.connective (.operator .rangeThrough))),
    ("++", none), ("--", none), ("->", none), ("<-", none), (":=", none), (":;", none),
    ("(*", none), ("*)", none), ("|>", none), ("<|", none), ("!.", none), ("=>", none),
    ("+=", none), ("-=", none), ("*=", none), ("/=", none), ("%=", none), ("&=", none),
    ("|=", none), ("^=", none),
    ("()", some (.literal .unit)), ("#\x7b", some .openedRecord),
    ("?[", some .openedOptional), ("?.", some (.point true)), ("::", some .path),
    ("||", some (.connective (.junction .either))),
    ("&&", some (.connective (.junction .both))),
    ("??", some (.connective (.junction .fallback))),
    ("==", some (.connective (.operator .equal))),
    ("!=", some (.connective (.operator .unequal))),
    ("<=", some (.connective (.operator .atMost))),
    (">=", some (.connective (.operator .atLeast))),
    ("**", some (.connective (.operator .power))),
    ("<<", some (.connective (.operator .shiftLeft))),
    (">>", some (.connective (.operator .shiftRight))),
    ("..", some (.connective (.operator .range))),
    ("|", some (.connective (.operator .bitOr))),
    ("^", some (.connective (.operator .bitXor))),
    ("&", some (.connective (.operator .bitAnd))),
    ("<", some (.connective (.operator .less))),
    (">", some (.connective (.operator .greater))),
    ("+", some (.connective (.operator .plus))),
    ("-", some (.connective (.operator .minus))),
    ("*", some (.connective (.operator .times))),
    ("/", some (.connective (.operator .dividedBy))),
    ("%", some (.connective (.operator .modulo))),
    ("!", some .negation), ("(", some (.opened .round)), (")", some (.closed .round)),
    ("[", some (.opened .square)), ("]", some (.closed .square)),
    ("\x7b", some (.opened .curly)), ("\x7d", some (.closed .curly)),
    (",", some .comma), (":", some .colon), (".", some (.point false))]

/-- Words that are no names. -/
def reservedWords : List String :=
  ["let", "const", "switch", "do", "while", "until", "loop", "for", "continue", "break", "return",
    "throw", "try", "catch", "fn", "private", "import", "export", "as", "use", "case", "async",
    "public", "package", "super", "var", "protected", "spawn", "shared", "is", "sync", "static",
    "default", "this", "thread", "yield", "new", "match", "await", "null", "with", "void", "nil",
    "module", "go", "goto"]

def callableWords : List String :=
  ["print", "debug", "type_of", "eval", "Fn", "call", "curry", "is_shared", "is_def_var",
    "is_def_fn"]

/-- Whether a word has a letter before any digit. -/
def isName (cs : List Char) : Bool := (cs.dropWhile (· == '_')).head?.any Char.isAlpha

def wordToken? (cs : List Char) : Option Token :=
  match String.ofList cs with
  | "true" => some (.literal (.truth true))
  | "false" => some (.literal (.truth false))
  | "in" => some (.connective (.operator .within))
  | "if" => some .whether
  | "else" => some .otherwise
  | word =>
    if callableWords.contains word then some (.callable word)
    else if reservedWords.contains word || !isName cs then none
    else some (.name word)

/-- What follows a comment inside the given number of other comments. -/
def skipComment : Nat → List Char → List Char
  | depth, '*' :: '/' :: rest =>
    match depth with
    | 0 => rest
    | depth + 1 => skipComment depth rest
  | depth, '/' :: '*' :: rest => skipComment (depth + 1) rest
  | depth, _ :: rest => skipComment depth rest
  | _, [] => []

theorem length_skipComment_le (depth : Nat) (cs : List Char) :
    (skipComment depth cs).length ≤ cs.length := by
  fun_induction skipComment depth cs <;> simp only [List.length_cons, List.length_nil] at * <;>
    omega

/-- The symbol at the front of a text, and what follows it. -/
def splitSymbol? (cs : List Char) : Option (Option Token × List Char) :=
  symbols.findSome? fun (text, token) =>
    (dropLead? text.toList cs).map fun rest => (token, rest)

/-- Whether the word that begins a text is the membership operator. -/
def beginsWithin (cs : List Char) : Option (List Char) := do
  let rest ← dropLead? ['i', 'n'] cs
  if rest.head?.any isAsciiWord then none else some rest

def textToken (cs : List Char) : Token := .literal (.text (String.ofList cs))

def scanGlyph (cs : List Char) : Option (List Token × List Char) :=
  if cs.head? = some '\'' then none
  else (readQuoted '\'' none cs).bind fun r =>
    match r.1 with
    | [glyph] => some ([.literal (.glyph glyph)], r.2)
    | _ => none

def scanTemplate (cs : List Char) : Option (List Token × List Char) :=
  (readTemplate cs).map fun (text, isOpen, rest) =>
    ([if isOpen then .segment (String.ofList text) else textToken text], rest)

/-- Reads a quoted text between equally many number signs, of which the first is given. -/
def scanRaw (cs : List Char) : Option (List Token × List Char) :=
  match cs.dropWhile (· == '#') with
  | '"' :: rest =>
    (readRaw ('#' :: cs.takeWhile (· == '#')) rest).map fun r => ([textToken r.1], r.2)
  | _ => none

/-- Reads a number whose first digit is given. -/
def scanNumber (isNegative : Bool) (c : Char) (cs : List Char) :
    Option (List Token × List Char) :=
  (readNumeral isNegative c cs).map fun r => ([.literal r.1], r.2)

def scanSymbol (c : Char) (cs : List Char) : Option (List Token × List Char) :=
  match if c = '!' then beginsWithin cs else none with
  | some rest => some ([.connective (.operator .notWithin)], rest)
  | none =>
    match splitSymbol? (c :: cs) with
    | some (some token, rest) => some ([token], rest)
    | _ => none

/-- What follows the end of a line. -/
def skipLine (cs : List Char) : List Char := cs.dropWhile fun c => c != '\n' && c != '\r'

/-- Reads a minus that may belong to a number. -/
def scanMinus (cs : List Char) : Option (List Token × List Char) :=
  match cs with
  | [] => scanSymbol '-' []
  | d :: rest => if d.isDigit then scanNumber true d rest else scanSymbol '-' (d :: rest)

/-- Where a token begins. -/
structure Place where
  /-- The token before it. -/
  previous : Option Token
  /-- How many curly brackets are open in each template around it, the innermost one first. -/
  depths : List Nat
  /-- The text from the start of its line. -/
  line : List Char

namespace Place

/-- The place at the front of a text. -/
def front (cs : List Char) : Place := ⟨none, [], cs⟩

/-- The place after some tokens, the first character of which is given. -/
def after (p : Place) (c : Char) (found : List Token) (rest : List Char) : Place where
  previous := found.getLast?.or p.previous
  depths := found.foldl (fun around token => token.depths around) p.depths
  line := if c = '\n' then rest else p.line

/-- Whether a minus belongs to the digit after it. -/
def allowsSign (p : Place) : Bool := p.previous.all Token.allowsSign

/-- How far the character before the given rest of the text is indented, itself included. -/
def indentation (p : Place) (rest : List Char) : Nat := p.line.length - rest.length

/-- Whether a closing bracket leads back into a template. -/
def endsPart (p : Place) : Bool := p.depths.head? == some 1

end Place

/-- Reads at most one token, which begins with the given character. -/
def scanOne (p : Place) (c : Char) (cs : List Char) : Option (List Token × List Char) :=
  if isAsciiBlank c then some ([], cs)
  else if c.isDigit then scanNumber false c cs
  else if c.isAlpha || c == '_' then
    (wordToken? (c :: cs.takeWhile isAsciiWord)).map fun token =>
      ([token], cs.dropWhile isAsciiWord)
  else if c = '"' then
    (readQuoted '"' (some (p.indentation cs)) cs).map fun r => ([textToken r.1], r.2)
  else if c = backtick then scanTemplate (dropLineEnd cs)
  else if c = '\'' then scanGlyph cs
  else if c = '#' ∧ cs.head? ≠ some '\x7b' then scanRaw cs
  else if c = '/' ∧ cs.head? = some '/' then some ([], skipLine cs)
  else if c = '/' ∧ cs.head? = some '*' then some ([], skipComment 0 (cs.drop 1))
  else if c = '-' ∧ p.allowsSign = true then scanMinus cs
  else scanSymbol c cs

/-- Reads at most one token, which begins with the given character. A bracket that closes the last
one in a template comes with the part of the template after it. -/
def scan (p : Place) (c : Char) (cs : List Char) : Option (List Token × List Char) :=
  if c = '\x7d' ∧ p.endsPart = true then
    (scanTemplate cs).map fun r => (.closed .curly :: r.1, r.2)
  else scanOne p c cs

theorem length_splitSymbol_le {c : Char} {cs rest : List Char} {token : Option Token}
    (h : splitSymbol? (c :: cs) = some (token, rest)) : rest.length ≤ cs.length := by
  obtain ⟨⟨text, t⟩, hmem, hrest⟩ := List.exists_of_findSome?_eq_some h
  obtain ⟨after, hlead, he⟩ := Option.map_eq_some_iff.1 hrest
  cases he
  have hcs := congrArg List.length (eq_of_dropLead hlead)
  have hpos : ∀ entry ∈ symbols, 1 ≤ entry.1.toList.length := by decide
  have := hpos _ hmem
  dsimp only at this
  simp only [List.length_cons, List.length_append] at hcs
  omega

theorem length_beginsWithin_le {cs rest : List Char} (h : beginsWithin cs = some rest) :
    rest.length ≤ cs.length := by
  simp only [beginsWithin, Option.bind_eq_bind, Option.bind_eq_some_iff] at h
  obtain ⟨after, hlead, hrest⟩ := h
  split at hrest <;> cases hrest
  rw [eq_of_dropLead hlead, List.length_append]
  omega

theorem length_scanGlyph_le {cs rest : List Char} {found : List Token}
    (h : scanGlyph cs = some (found, rest)) : rest.length ≤ cs.length := by
  unfold scanGlyph at h
  split at h
  · cases h
  · obtain ⟨⟨text, after⟩, hquoted, hafter⟩ := Option.bind_eq_some_iff.1 h
    split at hafter <;> cases hafter
    exact Nat.le_of_lt (length_readQuoted_lt hquoted)

theorem length_scanTemplate_le {cs rest : List Char} {found : List Token}
    (h : scanTemplate cs = some (found, rest)) : rest.length ≤ cs.length := by
  obtain ⟨⟨_, _, _⟩, hr, he⟩ := Option.map_eq_some_iff.1 h
  cases he
  exact length_readTemplate_le hr

theorem length_scanRaw_le {cs rest : List Char} {found : List Token}
    (h : scanRaw cs = some (found, rest)) : rest.length ≤ cs.length := by
  unfold scanRaw at h
  split at h
  · rename_i after hafter
    obtain ⟨⟨_, _⟩, hr, he⟩ := Option.map_eq_some_iff.1 h
    cases he
    have hle := length_dropWhile_le (· == '#') cs
    rw [hafter] at hle
    exact Nat.le_trans (Nat.le_succ_of_le (length_readRaw_le hr)) hle
  · cases h

theorem length_scanNumber_le {isNegative : Bool} {c : Char} {cs rest : List Char}
    {found : List Token} (h : scanNumber isNegative c cs = some (found, rest)) :
    rest.length ≤ cs.length := by
  obtain ⟨⟨_, _⟩, hr, he⟩ := Option.map_eq_some_iff.1 h
  cases he
  exact length_readNumeral_le hr

theorem length_scanSymbol_le {c : Char} {cs rest : List Char} {found : List Token}
    (h : scanSymbol c cs = some (found, rest)) : rest.length ≤ cs.length := by
  unfold scanSymbol at h
  split at h
  · rename_i after hafter
    cases h
    split at hafter
    · exact length_beginsWithin_le hafter
    · cases hafter
  · split at h
    · rename_i hsymbol
      cases h
      exact length_splitSymbol_le hsymbol
    · cases h

theorem length_scanMinus_le {cs rest : List Char} {found : List Token}
    (h : scanMinus cs = some (found, rest)) : rest.length ≤ cs.length := by
  unfold scanMinus at h
  split at h
  · exact length_scanSymbol_le h
  · split at h
    · exact Nat.le_succ_of_le (length_scanNumber_le h)
    · exact length_scanSymbol_le h

/-- Reading goes on after the first character at the earliest. -/
theorem length_scanOne_le {p : Place} {c : Char} {cs rest : List Char} {found : List Token}
    (h : scanOne p c cs = some (found, rest)) : rest.length ≤ cs.length := by
  unfold scanOne at h
  repeat' split at h
  · cases h
    exact Nat.le_refl _
  · exact length_scanNumber_le h
  · obtain ⟨_, _, he⟩ := Option.map_eq_some_iff.1 h
    cases he
    exact length_dropWhile_le _ cs
  · obtain ⟨⟨_, _⟩, hr, he⟩ := Option.map_eq_some_iff.1 h
    cases he
    exact Nat.le_of_lt (length_readQuoted_lt hr)
  · exact Nat.le_trans (length_scanTemplate_le h) (length_dropLineEnd_le cs)
  · exact length_scanGlyph_le h
  · exact length_scanRaw_le h
  · cases h
    exact length_dropWhile_le _ cs
  · cases h
    have := length_skipComment_le 0 (cs.drop 1)
    rw [List.length_drop] at this
    omega
  · exact length_scanMinus_le h
  · exact length_scanSymbol_le h

theorem length_scan_le {p : Place} {c : Char} {cs rest : List Char} {found : List Token}
    (h : scan p c cs = some (found, rest)) : rest.length ≤ cs.length := by
  unfold scan at h
  split at h
  · obtain ⟨⟨_, _⟩, hr, he⟩ := Option.map_eq_some_iff.1 h
    cases he
    exact length_scanTemplate_le hr
  · exact length_scanOne_le h

/-- The tokens of a text that begins at a place. -/
def tokensFrom (p : Place) : List Char → Option (List Token)
  | [] => some []
  | c :: cs =>
    match _scanned : scan p c cs with
    | none => none
    | some (found, rest) => (tokensFrom (p.after c found rest) rest).map (found ++ ·)
termination_by cs => cs.length
decreasing_by exact Nat.lt_succ_of_le (length_scan_le _scanned)

/-- The tokens of a text, nothing if it holds what is no token. -/
def tokens? (cs : List Char) : Option (List Token) := tokensFrom (.front cs) cs

end Spreadsheet.Expression

import Spreadsheet.Expression.Token
import Spreadsheet.Expression.Tree

/-!
# Reading trees from tokens

The tree that a list of tokens stands for. An operand is read first, then the
operators after it, as long as they bind more strongly than what is before it.
The depth of a tree is bounded: what reads an expression has a number of levels
left, and each sign, each bracket, each operator of a run and each link of a
chain hands one less to what it encloses or is followed by. So an expression
that is nested or chained too far has no tree. The readers with one more level
are made of those with one less.
-/
namespace Spreadsheet.Expression

/-- A reader of something from the front of a list of tokens. -/
abbrev Reader (α : Type) := List Token → Option (α × List Token)

/-- What reads expressions and their parts with a number of levels left. -/
structure Readers where
  /-- An expression. -/
  expression : Reader Tree
  /-- An operand, with the signs before it and the links after it. -/
  operand : Reader Tree
  /-- The operators after an operand that bind more strongly than the given strength. -/
  operators : Nat → Tree → Reader Tree
  /-- The same, in a run of operators. -/
  run : Nat → Tree → Reader Tree
  /-- An expression one level deeper. -/
  grouped : Reader Tree
  /-- An expression in curly brackets. -/
  block : Reader Tree
  /-- The items of a list, and the bracket that closes it. -/
  items : Reader (List Tree)
  /-- The fields of a record, and the bracket that closes it. -/
  fields : Reader (List (String × Tree))
  /-- The parts of a template, of which the first is given. -/
  template : String → Reader (List Tree)
  /-- A choice after its first word. -/
  choice : Reader Tree
  /-- A function after its parameters. -/
  closure : List String → Reader Tree
  /-- The indices after an opening bracket. -/
  indices : Bool → Reader (List (Link Tree))
  /-- The member after a point, and all links after it. -/
  member : Bool → Reader (List (Link Tree))

/-- The rest after a closing bracket, which must come first. -/
def afterClosed? (bracket : Bracket) : List Token → Option (List Token)
  | .closed b :: rest => if b = bracket then some rest else none
  | _ => none

/-- Reads items up to a closing bracket; a comma may stand after the last one. -/
def readItems (item : Reader Tree) (bracket : Bracket) : Nat → Reader (List Tree)
  | 0, _ => none
  | bound + 1, tokens =>
    match afterClosed? bracket tokens with
    | some rest => some ([], rest)
    | none => do
      let (first, rest) ← item tokens
      match rest with
      | .comma :: rest =>
        let (others, rest) ← readItems item bracket bound rest
        return (first :: others, rest)
      | _ =>
        let rest ← afterClosed? bracket rest
        return ([first], rest)

/-- Reads the name of a field and the colon after it. -/
def readFieldName : Reader String
  | .name name :: .colon :: rest => some (name, rest)
  | .literal (.text name) :: .colon :: rest => some (name, rest)
  | _ => none

/-- Reads fields up to a closing bracket; no name may come twice. -/
def readFields (item : Reader Tree) : Nat → List String → Reader (List (String × Tree))
  | 0, _, _ => none
  | bound + 1, taken, tokens =>
    match afterClosed? .curly tokens with
    | some rest => some ([], rest)
    | none => do
      let (name, rest) ← readFieldName tokens
      if taken.contains name then none
      let (value, rest) ← item rest
      match rest with
      | .comma :: rest =>
        let (others, rest) ← readFields item bound (name :: taken) rest
        return ((name, value) :: others, rest)
      | _ =>
        let rest ← afterClosed? .curly rest
        return ([(name, value)], rest)

/-- The text of a part of a template, if it has any. -/
def textPart (s : String) : List Tree := if s.isEmpty then [] else [.constant (.text s)]

/-- Reads the expressions of a template and the texts after them. -/
def readParts (block : Reader Tree) : Nat → Reader (List Tree)
  | 0, _ => none
  | bound + 1, tokens => do
    let (part, rest) ← block tokens
    match rest with
    | .segment s :: rest =>
      let (others, rest) ← readParts block bound rest
      return (part :: textPart s ++ others, rest)
    | .literal (.text s) :: rest => return (part :: textPart s, rest)
    | _ => none

/-- Reads the parameters of a function up to the bar after them; no name may come twice. -/
def readParameters (taken : List String) : Reader (List String)
  | .connective (.operator .bitOr) :: rest => some (taken, rest)
  | .name name :: .connective (.operator .bitOr) :: rest =>
    if taken.contains name then none else some (name :: taken, rest)
  | .name name :: .comma :: rest =>
    if taken.contains name then none else readParameters (name :: taken) rest
  | _ => none

/-- Reads the arguments of a call, if there is one. -/
def readArguments? (r : Readers) : List Token → Option (Reader (List Tree) × List Token)
  | .opened .round :: rest =>
    some (fun tokens => readItems r.grouped .round tokens.length tokens, rest)
  | .literal .unit :: rest => some (fun tokens => some ([], tokens), rest)
  | _ => none

/-- A call that is no method. -/
def called (path : List String) (isOrdered : Bool) (name : String) (arguments : List Tree) : Tree :=
  if path.isEmpty then .call isOrdered name arguments else .qualifiedCall path name arguments

/-- Reads what follows a name: arguments, or more of its path. -/
def readNamed (r : Readers) (path : List String) (name : String) : Reader Tree
  | .negation :: rest =>
    if path.isEmpty then
      match readArguments? r rest with
      | some (read, rest) => (read rest).map fun found => (called path true name found.1, found.2)
      | none => none
    else none
  | .path :: .name next :: rest => readNamed r (path ++ [name]) next rest
  | .path :: _ => none
  | tokens =>
    match readArguments? r tokens with
    | some (read, rest) => (read rest).map fun found => (called path false name found.1, found.2)
    | none =>
      some (if path.isEmpty then .named name else .qualified path name, tokens)

def readCallable (r : Readers) (word : String) (tokens : List Token) : Option (Tree × List Token) :=
  match tokens with
  | .path :: _ => none
  | tokens =>
    match readNamed r [] word tokens with
    | some (.call isOrdered name arguments, rest) => some (.call isOrdered name arguments, rest)
    | _ => none

def readPrimary (r : Readers) : Reader Tree
  | .literal value :: rest => some (.constant value, rest)
  | .segment s :: rest => (r.template s rest).map fun found => (.template found.1, found.2)
  | .name name :: rest => readNamed r [] name rest
  | .callable word :: rest => readCallable r word rest
  | .opened .round :: rest => do
    let (tree, rest) ← r.grouped rest
    let rest ← afterClosed? .round rest
    return (tree, rest)
  | .opened .square :: rest => (r.items rest).map fun found => (.list found.1, found.2)
  | .openedRecord :: rest => (r.fields rest).map fun found => (.record found.1, found.2)
  | .whether :: rest => r.choice rest
  | .connective (.junction .either) :: rest => r.closure [] rest
  | .connective (.operator .bitOr) :: rest => do
    let (parameters, rest) ← readParameters [] rest
    r.closure parameters rest
  | _ => none

/-- Reads the indices after a base, if there are any. -/
def readElements (r : Readers) : Reader (List (Link Tree))
  | .opened .square :: rest => r.indices false rest
  | .openedOptional :: rest => r.indices true rest
  | tokens => some ([], tokens)

/-- Reads the members after a base, if there are any. -/
def readMembers (r : Readers) : Reader (List (Link Tree))
  | .point isOptional :: rest => r.member isOptional rest
  | tokens => some ([], tokens)

/-- Reads an operand without signs. -/
def readLinked (r : Readers) (tokens : List Token) : Option (Tree × List Token) := do
  let (base, rest) ← readPrimary r tokens
  let (elements, rest) ← readElements r rest
  let tree ← base.withElements elements
  let (members, rest) ← readMembers r rest
  return (tree.withMembers members, rest)

/-- Reserved words that name a method. -/
def methodWords : List String := ["call", "curry", "type_of", "is_shared"]

/-- Reads a member of something. -/
def readMember (r : Readers) (isOptional : Bool) : Reader (Link Tree)
  | .name _ :: .negation :: _ | .name _ :: .path :: _ => none
  | .name name :: rest =>
    match readArguments? r rest with
    | some (read, rest) => (read rest).map fun found => (.method isOptional name found.1, found.2)
    | none => some (.property isOptional name, rest)
  | .callable word :: rest => do
    if !methodWords.contains word then none
    let (read, rest) ← readArguments? r rest
    (read rest).map fun found => (.method isOptional word found.1, found.2)
  | _ => none

/-- The sign that a token is before an operand. -/
def sign? : Token → Option Sign
  | .connective (.operator .minus) => some .minus
  | .connective (.operator .plus) => some .plus
  | .negation => some .negation
  | _ => none

/-- Whether an operator takes the operand before it from what binds with the given strength. -/
def bindsMore (strength : Nat) (c : Connective) : Bool :=
  strength < c.strength || (strength == c.strength && c.isRightGrouped)

/-- The operator that comes next, if it binds more than the given strength. -/
def nextConnective? (strength : Nat) : List Token → Option (Connective × List Token)
  | .connective c :: rest => if bindsMore strength c then some (c, rest) else none
  | _ => none

namespace Readers

/-- What reads with no level left: a run of operators may end, all else fails. -/
def bottom : Readers where
  expression _ := none
  operand _ := none
  operators _ _ _ := none
  run strength left tokens :=
    if (nextConnective? strength tokens).isNone then some (left, tokens) else none
  grouped _ := none
  block _ := none
  items _ := none
  fields _ := none
  template _ _ := none
  choice _ := none
  closure _ _ := none
  indices _ _ := none
  member _ _ := none

variable (r : Readers)

def operandAbove : Reader Tree
  | [] => none
  | token :: rest =>
    match sign? token with
    | some s => (r.operand rest).map fun found => (Tree.signed s found.1, found.2)
    | none => readLinked r (token :: rest)

def runAbove (strength : Nat) (left : Tree) (tokens : List Token) : Option (Tree × List Token) :=
  match nextConnective? strength tokens with
  | none => some (left, tokens)
  | some (c, rest) => do
    let (right, rest) ← r.operandAbove rest
    let (right, rest) ←
      if (nextConnective? c.strength rest).isSome then r.run c.strength right rest
      else some (right, rest)
    let tree ← Tree.joined c left right
    r.run strength tree rest

def blockAbove : Reader Tree
  | .opened .curly :: rest => do
    let (tree, rest) ← r.grouped rest
    let rest ← afterClosed? .curly rest
    return (tree, rest)
  | _ => none

def choiceAbove (tokens : List Token) : Option (Tree × List Token) := do
  let (condition, rest) ← r.expression tokens
  if condition.isPlainLiteral then none
  let (yes, rest) ← r.block rest
  match rest with
  | .otherwise :: .whether :: rest =>
    let (no, rest) ← r.choice rest
    return (.choice condition yes no, rest)
  | .otherwise :: rest =>
    let (no, rest) ← r.block rest
    return (.choice condition yes no, rest)
  | _ => return (.choice condition yes (.constant .unit), rest)

def closureAbove (parameters : List String) (tokens : List Token) :
    Option (Tree × List Token) := do
  let (body, rest) ← match tokens with
    | .opened .curly :: _ => r.block tokens
    | _ => r.grouped tokens
  return (Tree.closure parameters body, rest)

def indicesAbove (isOptional : Bool) (tokens : List Token) :
    Option (List (Link Tree) × List Token) := do
  let (index, rest) ← r.grouped tokens
  let rest ← afterClosed? .square rest
  let (others, rest) ← readElements r rest
  return (.element isOptional index :: others, rest)

def memberAbove (isOptional : Bool) (tokens : List Token) :
    Option (List (Link Tree) × List Token) := do
  let (first, rest) ← readMember r isOptional tokens
  let (elements, rest) ← readElements r rest
  let (members, rest) ← readMembers r rest
  return (first :: elements ++ members, rest)

/-- What reads with one more level. -/
def above : Readers where
  expression tokens := do
    let (left, rest) ← r.operand tokens
    r.operators 0 left rest
  operand := r.operandAbove
  operators := r.run
  run := r.runAbove
  grouped := r.expression
  block := r.blockAbove
  items tokens := readItems r.expression .square tokens.length tokens
  fields tokens := readFields r.expression tokens.length [] tokens
  template s tokens :=
    (readParts r.block tokens.length tokens).map fun found => (textPart s ++ found.1, found.2)
  choice := r.choiceAbove
  closure := r.closureAbove
  indices := r.indicesAbove
  member := r.memberAbove

end Readers

/-- What reads with a number of levels left. -/
def readers : Nat → Readers
  | 0 => .bottom
  | levels + 1 => (readers levels).above

/-- The tree of an expression that may have the given number of levels. -/
def ofTokens? (levels : Nat) (tokens : List Token) : Option Tree :=
  match (readers levels).expression tokens with
  | some (tree, []) => some tree
  | _ => none

end Spreadsheet.Expression

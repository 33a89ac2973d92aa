import Spreadsheet.Expression.Datum
import Spreadsheet.Expression.Operator

/-!
# Expressions as trees

An expression is a tree of constants, names and what is made of them. Properties,
methods and elements that are asked for one after the other are the links of one
chain, whose base comes first. Some trees cannot stand at some places: what is
written as a literal is no condition unless it is a truth value, and is no base
of an index of the wrong kind.
-/
namespace Spreadsheet

/-- A step from a datum to a part of it, with what stands for its operands. From nothing an
optional step leads nowhere, and so do the steps after it. -/
inductive Link (α : Type) where
  | property (isOptional : Bool) (name : String)
  | method (isOptional : Bool) (name : String) (arguments : List α)
  | element (isOptional : Bool) (index : α)
deriving Repr

def Link.isOptional {α : Type} : Link α → Bool
  | property b _ | method b _ _ | element b _ => b

/-- An expression. The arguments of a call are evaluated in order if it is so marked. A function is
known by the names that it takes from outside. -/
inductive Tree where
  | constant (value : Datum)
  | named (name : String)
  | qualified (path : List String) (name : String)
  | template (parts : List Tree)
  | list (items : List Tree)
  | record (fields : List (String × Tree))
  | call (isOrdered : Bool) (name : String) (arguments : List Tree)
  | qualifiedCall (path : List String) (name : String) (arguments : List Tree)
  | sign (sign : Sign) (operand : Tree)
  | binary (operator : Operator) (left right : Tree)
  | junction (junction : Junction) (operands : List Tree)
  | chain (base : Tree) (links : List (Link Tree))
  | choice (condition yes no : Tree)
  | function (captured : List String)
deriving Inhabited

/-- A name with the modules on the way to it. -/
def qualifiedName (path : List String) (name : String) : String :=
  path.foldr (fun part rest => part ++ "::" ++ rest) name

namespace Tree

def names : Tree → List String
  | constant _ => []
  | named name => [name]
  | qualified path name => [qualifiedName path name]
  | template parts => namesAll parts
  | list items => namesAll items
  | record fields => namesFields fields
  | call _ _ arguments => namesAll arguments
  | qualifiedCall _ _ arguments => namesAll arguments
  | sign _ operand => names operand
  | binary _ left right => names left ++ names right
  | junction _ operands => namesAll operands
  | chain base links => names base ++ namesLinks links
  | choice condition yes no => names condition ++ names yes ++ names no
  | function captured => captured
where
  namesAll : List Tree → List String
    | [] => []
    | t :: ts => names t ++ namesAll ts
  namesFields : List (String × Tree) → List String
    | [] => []
    | (_, t) :: fields => names t ++ namesFields fields
  namesLinks : List (Link Tree) → List String
    | [] => []
    | .property _ _ :: links => namesLinks links
    | .method _ _ arguments :: links => namesAll arguments ++ namesLinks links
    | .element _ index :: links => names index ++ namesLinks links

def isNamed : Tree → Bool
  | named _ => true
  | _ => false

/-- Whether an expression is written as a literal that is not a truth value. -/
def isPlainLiteral : Tree → Bool
  | constant (.truth _) => false
  | constant _ | template _ | list _ | record _ => true
  | _ => false

/-- Whether an index cannot be a whole number, as it is written. -/
def isNoPlace : Tree → Bool
  | constant (.whole _) => false
  | constant _ | template _ | junction .both _ | junction .either _ => true
  | _ => false

/-- Whether an index cannot be the name of a field, as it is written. -/
def isNoFieldName : Tree → Bool
  | constant (.text _) => false
  | constant _ | junction .both _ | junction .either _ => true
  | _ => false

/-- Whether a base cannot have an element at an index, as the two are written. -/
def refusesIndex (base index : Tree) : Bool :=
  match base with
  | record _ => index.isNoFieldName
  | constant (.whole _) | constant (.text _) | template _ | list _ => index.isNoPlace
  | _ => false

/-- A sign before an operand; a sign before a number belongs to the number. -/
def signed (s : Sign) (operand : Tree) : Tree :=
  match s, operand with
  | .minus, constant (.number x) => constant (.number (-x))
  | .minus, constant (.whole n) =>
    if n = -9223372036854775808 then constant (.number (-Float.ofInt n))
    else constant (.whole (-n))
  | .plus, constant (.number x) => constant (.number x)
  | .plus, constant (.whole n) => constant (.whole n)
  | _, _ => sign s operand

/-- The operands of a junction, or an expression alone. -/
def operandsOf (j : Junction) : Tree → List Tree
  | junction k operands => if k = j then operands else [junction k operands]
  | t => [t]

/-- Two operands joined; a literal that is no truth value cannot be a condition. -/
def joined (c : Connective) (left right : Tree) : Option Tree :=
  match c with
  | .operator op => some (binary op left right)
  | .junction .fallback => some (junction .fallback (left.operandsOf .fallback ++ [right]))
  | .junction j =>
    if left.isPlainLiteral || right.isPlainLiteral then none
    else some (junction j (left.operandsOf j ++ [right]))

/-- The indices that a list of links begins with. -/
def leadingIndices : List (Link Tree) → List (Bool × Tree) × List (Link Tree)
  | .element isOptional index :: links =>
    let (indices, rest) := leadingIndices links
    ((isOptional, index) :: indices, rest)
  | links => ([], links)

/-- A base with members asked for after it. Where the base is itself a chain that begins with
indices, they are asked for after its last such index: the members of `a[b]` follow it, while in
`(a[b].c).d` the index is `b.c`. -/
def withMembers (base : Tree) (members : List (Link Tree)) : Tree :=
  match base, members with
  | base, [] => base
  | chain root links, members =>
    let (indices, rest) := leadingIndices links
    match indices.getLast? with
    | none => chain (chain root links) members
    | some (isOptional, last) =>
      let elements := indices.map fun i => Link.element i.1 i.2
      if rest.isEmpty then chain root (elements ++ members)
      else chain root (elements.dropLast ++ .element isOptional (chain last rest) :: members)
  | base, members => chain base members

/-- A base with elements asked for after it, unless they cannot be had. -/
def withElements (base : Tree) (elements : List (Link Tree)) : Option Tree :=
  match elements with
  | [] => some base
  | .element isOptional index :: links =>
    if base.refusesIndex index then none
    else some (chain base (.element isOptional index :: links))
  | links => some (chain base links)

/-- A function with the given parameters and body. -/
def closure (parameters : List String) (body : Tree) : Tree :=
  function (body.names.filter fun name => !parameters.contains name)

end Tree

end Spreadsheet

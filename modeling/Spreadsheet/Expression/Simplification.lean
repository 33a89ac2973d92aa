import Spreadsheet.Expression.Function

/-!
# Simplification of expressions

Before an expression is evaluated, what its constants decide is decided: signs
and operators between constants are computed, constants that change nothing are
dropped from a junction with what can no longer be reached, and an element of a
list or record that is written out takes its place if nothing else in there can
fail or ask for a value but names. An operand that is left alone in a junction
is no longer a condition.
-/
namespace Spreadsheet

namespace Junction

/-- Whether a constant operand changes nothing. -/
def skips : Junction → Datum → Bool
  | both, .truth p => p
  | either, .truth p => !p
  | fallback, .unit => true
  | _, _ => false

/-- Whether a constant operand decides the whole. -/
def decides : Junction → Datum → Bool
  | both, .truth p => !p
  | either, .truth p => p
  | fallback, .unit => false
  | fallback, _ => true
  | _, _ => false

/-- The value of a junction of which no operand is left. -/
def emptyValue : Junction → Datum
  | both => .truth true
  | either | fallback => .truth false

/-- The operands that can be reached and change something. -/
def reduce (j : Junction) : List Tree → List Tree
  | [] => []
  | .constant d :: operands =>
    if j.skips d then reduce j operands
    else if j.decides d then [.constant d]
    else .constant d :: reduce j operands
  | t :: operands => t :: reduce j operands

end Junction

namespace Tree

/-- Whether nothing in an expression can fail but a name without a value. -/
def isPure : Tree → Bool
  | constant _ | named _ | qualified _ _ => true
  | template parts => isPureAll parts
  | list items => isPureAll items
  | record fields => isPureFields fields
  | junction _ operands => isPureAll operands
  | choice condition yes no => isPure condition && isPure yes && isPure no
  | _ => false
where
  isPureAll : List Tree → Bool
    | [] => true
    | t :: ts => isPure t && isPureAll ts
  isPureFields : List (String × Tree) → Bool
    | [] => true
    | (_, t) :: fields => isPure t && isPureFields fields

def constant? : Tree → Option Datum
  | constant d => some d
  | _ => none

def foldBinary (op : Operator) (left right : Tree) : Tree :=
  match left, right with
  | constant a, constant b =>
    if op.isFoldable then
      match Datum.apply op a b with
      | .ok d => constant d
      | .error _ => binary op left right
    else binary op left right
  | _, _ => binary op left right

def foldSign (s : Sign) (operand : Tree) : Tree :=
  match operand with
  | constant d =>
    match d.applySign s with
    | .ok e => constant e
    | .error _ => sign s operand
  | _ => sign s operand

def foldJunction (j : Junction) (operands : List Tree) : Tree :=
  match j.reduce operands with
  | [] => constant j.emptyValue
  | [t] => t
  | ts => junction j ts

/-- A choice, or the branch that a constant condition takes. -/
def foldChoice (condition yes no : Tree) : Tree :=
  match condition with
  | constant (.truth p) => if p then yes else no
  | _ => choice condition yes no

/-- A template, or the text of one that holds constants only. -/
def foldTemplate (parts : List Tree) : Tree :=
  match parts.mapM constant? with
  | some ds => constant (.text (String.ofList (ds.flatMap Datum.printed)))
  | none => template parts

/-- The field of a record that is written out. -/
def writtenField (fields : List (String × Tree)) (name : String) : Tree :=
  (fields.lookup name).getD (constant .unit)

/-- A chain, or the part that its one link takes from a base that is written out. -/
def foldChain (base : Tree) (links : List (Link Tree)) : Tree :=
  match base, links with
  | record fields, [.property _ name] =>
    if (record fields).isPure then writtenField fields name else chain base links
  | record fields, [.element _ (constant (.text name))] =>
    if (record fields).isPure then writtenField fields name else chain base links
  | list items, [.element _ (constant (.whole n))] =>
    match (Datum.place? items.length n).bind fun i => items[i]? with
    | some t => if (list items).isPure then t else chain base links
    | none => chain base links
  | constant d, [.element _ (constant (.whole n))] =>
    match d.element (.whole n) with
    | .ok e => constant e
    | .error _ => chain base links
  | _, _ => chain base links

/-- Decides what the constants of an expression decide. -/
def simplify : Tree → Tree
  | constant d => constant d
  | named name => named name
  | qualified path name => qualified path name
  | template parts => foldTemplate (simplifyAll parts)
  | list items => list (simplifyAll items)
  | record fields => record (simplifyFields fields)
  | call isOrdered name arguments => call isOrdered name (simplifyAll arguments)
  | qualifiedCall path name arguments => qualifiedCall path name (simplifyAll arguments)
  | sign s operand => foldSign s (simplify operand)
  | binary op left right => foldBinary op (simplify left) (simplify right)
  | junction j operands => foldJunction j (simplifyAll operands)
  | chain base links => foldChain (simplify base) (simplifyLinks links)
  | choice condition yes no => foldChoice (simplify condition) (simplify yes) (simplify no)
  | function captured => function captured
where
  simplifyAll : List Tree → List Tree
    | [] => []
    | t :: ts => simplify t :: simplifyAll ts
  simplifyFields : List (String × Tree) → List (String × Tree)
    | [] => []
    | (name, t) :: fields => (name, simplify t) :: simplifyFields fields
  simplifyLinks : List (Link Tree) → List (Link Tree)
    | [] => []
    | .property b name :: links => .property b name :: simplifyLinks links
    | .method b name arguments :: links =>
      .method b name (simplifyAll arguments) :: simplifyLinks links
    | .element b index :: links => .element b (simplify index) :: simplifyLinks links

end Tree

end Spreadsheet

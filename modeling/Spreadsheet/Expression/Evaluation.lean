import Spreadsheet.Expression.Function

/-!
# Evaluation of expressions

An expression is evaluated with values bound to some names. Operands are
evaluated from left to right, of two branches only the one that is taken, and of
a junction only what its value depends on. What is looked for in a container is
evaluated after the container, and the base of a chain after the operands of its
links. The first name without a value stops the evaluation, which then asks for
that name.
-/
namespace Spreadsheet

namespace Bindings

/-- The value of a name: a bound value, or that of a constant. -/
def value? (bindings : Bindings) (name : String) : Option Datum :=
  match bindings.lookup name with
  | some v => some v.toDatum
  | none => (Constant.all.find? fun c => c.name == name).map fun c => .number c.value

/-- The value of a name, which is asked for if it has none. -/
def value (bindings : Bindings) (name : String) : Except Interruption Datum :=
  match bindings.value? name with
  | some d => .ok d
  | none => .error (.needs name)

/-- Calls a function, of which one tells whether a name has a value. -/
def call [Library] (ω : Occasion) (bindings : Bindings) (name : String) (arguments : List Datum) :
    Except Interruption Datum :=
  match name, arguments with
  | "is_def_var", [.text s] => .ok (.truth (bindings.value? s).isSome)
  | "is_def_var", [d] => .error (.failed (.mismatch d.type .text))
  | _, _ => callFunction ω bindings name arguments

end Bindings

def asCondition : Datum → Except Interruption Bool
  | .truth b => .ok b
  | d => .error (.failed (.mismatch d.type .truth))

/-- The path of the names that belong to no module. -/
def globalPath : List String := ["global"]

/-- A name of a module. No module has a name, and none but the global one can be found. -/
def qualifiedValue (path : List String) (name : String) : Except Interruption Datum :=
  if path = globalPath then .error (.needs (qualifiedName path name))
  else .error (.failed (.missingModule path))

/-- A call of a function of a module. -/
def qualifiedResult (path : List String) (name : String) (arguments : List Datum) :
    Except Interruption Datum :=
  if path = globalPath then
    .error (.failed (.unsupported (qualifiedName path name) (arguments.map Datum.type)))
  else .error (.failed (.missingModule path))

namespace Tree

variable [Library]

/-- Evaluates an expression. An argument that comes first and is a name is evaluated after the
other ones, unless their order is asked for. -/
def evaluate (ω : Occasion) (bindings : Bindings) : Tree → Except Interruption Datum
  | constant d => .ok d
  | named name => bindings.value name
  | qualified path name => qualifiedValue path name
  | template parts => do
    let ds ← evaluateAll ω bindings parts
    return .text (String.ofList (ds.flatMap Datum.printed))
  | list items => do
    let ds ← evaluateAll ω bindings items
    return .list ds
  | record fields => do
    let ds ← evaluateFields ω bindings fields
    return .ofFields ds
  | call isOrdered name arguments => do
    let ds ← evaluateArguments (ω.stage 0) bindings isOrdered arguments
    bindings.call (ω.stage 1) name ds
  | qualifiedCall path name arguments => do
    let ds ← evaluateArguments ω bindings false arguments
    qualifiedResult path name ds
  | sign s operand => do
    let d ← evaluate ω bindings operand
    orFailed (d.applySign s)
  | binary op left right =>
    if op = .within ∨ op = .notWithin then do
      let b ← evaluate (ω.stage 0) bindings right
      let a ← evaluate (ω.stage 1) bindings left
      orFailed (Datum.apply op a b)
    else do
      let a ← evaluate (ω.stage 0) bindings left
      let b ← evaluate (ω.stage 1) bindings right
      orFailed (Datum.apply op a b)
  | junction .both operands => do
    let p ← holdAll ω bindings operands
    return .truth p
  | junction .either operands => do
    let p ← holdAny ω bindings operands
    return .truth p
  | junction .fallback operands => firstPresent ω bindings operands
  | chain base links => do
    let links ← evaluateLinks (ω.stage 0) bindings links
    let d ← evaluate (ω.stage 1) bindings base
    Link.applyAll (ω.stage 2) bindings d links
  | choice condition yes no => do
    let c ← evaluate (ω.stage 0) bindings condition
    if ← asCondition c then evaluate (ω.stage 1) bindings yes
    else evaluate (ω.stage 1) bindings no
  | function captured => do
    let _ ← captured.mapM bindings.value
    return .function
where
  evaluateAll (ω : Occasion) (bindings : Bindings) : List Tree → Except Interruption (List Datum)
    | [] => .ok []
    | t :: ts => do
      let d ← evaluate (ω.stage 0) bindings t
      let ds ← evaluateAll (ω.stage 1) bindings ts
      return d :: ds
  evaluateArguments (ω : Occasion) (bindings : Bindings) (isOrdered : Bool) :
      List Tree → Except Interruption (List Datum)
    | [] => .ok []
    | t :: ts =>
      if t.isNamed && !isOrdered then do
        let ds ← evaluateAll (ω.stage 0) bindings ts
        let d ← evaluate (ω.stage 1) bindings t
        return d :: ds
      else do
        let d ← evaluate (ω.stage 0) bindings t
        let ds ← evaluateAll (ω.stage 1) bindings ts
        return d :: ds
  evaluateFields (ω : Occasion) (bindings : Bindings) :
      List (String × Tree) → Except Interruption (List (String × Datum))
    | [] => .ok []
    | (name, t) :: fields => do
      let d ← evaluate (ω.stage 0) bindings t
      let ds ← evaluateFields (ω.stage 1) bindings fields
      return (name, d) :: ds
  evaluateLinks (ω : Occasion) (bindings : Bindings) :
      List (Link Tree) → Except Interruption (List (Link Datum))
    | [] => .ok []
    | .property b name :: links => do
      let rest ← evaluateLinks ω bindings links
      return .property b name :: rest
    | .method b name arguments :: links => do
      let ds ← evaluateAll (ω.stage 0) bindings arguments
      let rest ← evaluateLinks (ω.stage 1) bindings links
      return .method b name ds :: rest
    | .element b index :: links => do
      let d ← evaluate (ω.stage 0) bindings index
      let rest ← evaluateLinks (ω.stage 1) bindings links
      return .element b d :: rest
  holdAll (ω : Occasion) (bindings : Bindings) : List Tree → Except Interruption Bool
    | [] => .ok true
    | t :: ts => do
      let d ← evaluate (ω.stage 0) bindings t
      if ← asCondition d then holdAll (ω.stage 1) bindings ts else return false
  holdAny (ω : Occasion) (bindings : Bindings) : List Tree → Except Interruption Bool
    | [] => .ok false
    | t :: ts => do
      let d ← evaluate (ω.stage 0) bindings t
      if ← asCondition d then return true else holdAny (ω.stage 1) bindings ts
  firstPresent (ω : Occasion) (bindings : Bindings) : List Tree → Except Interruption Datum
    | [] => .ok .unit
    | t :: ts => do
      match ← evaluate (ω.stage 0) bindings t with
      | .unit => firstPresent (ω.stage 1) bindings ts
      | d => return d

end Tree

end Spreadsheet

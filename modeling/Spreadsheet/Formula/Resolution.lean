import Spreadsheet.Formula.Compilation

/-!
# Resolution of a formula

A formula is resolved by evaluating it again and again. Each time it asks for a
name, the name is read as a cell, the value of the cell is bound to the name and
the evaluation starts anew. So a formula reads only the cells that its value
depends on, and they are recorded in the order in which they are read. Each
attempt but the last binds one more name, and each has an occasion of its own.
-/
namespace Spreadsheet.Formula
open Text

/-- Where the values of cells come from; a reading may change the source. -/
abbrev Operands (σ : Type) := Position → σ → Except Fault Value × σ

structure Resolution where
  outcome : Except Fault Value
  dependsOn : List Position

/-- A resolution that reads one more cell first. -/
def Resolution.after (cell : Position) (r : Resolution) : Resolution :=
  ⟨r.outcome, cell :: r.dependsOn⟩

section
variable [Engine]

/-- Evaluates a formula with at most the given number of further cells read. -/
def resolveFrom {σ : Type} (ω : Occasion) (f : Compiled) (own : Position) (operands : Operands σ) :
    Nat → Bindings → σ → Resolution × σ
  | bound, bindings, s =>
    match f.attempt (ω.stage bindings.length) bindings with
    | .resolved value => (⟨.ok value, []⟩, s)
    | .failed fault => (⟨.error fault, []⟩, s)
    | .needs name =>
      if (bindings.lookup name).isSome then (⟨.error (.failed (.unresolved name)), []⟩, s)
      else
        match bound, Position.ofName? name.toList with
        | _, none => (⟨.error (.unrecognized name), []⟩, s)
        | 0, _ => (⟨.error (.failed (.unresolved name)), []⟩, s)
        | bound + 1, some cell =>
          if cell = own then (⟨.error (.cycle [own, own]), [cell]⟩, s)
          else
            match operands cell s with
            | (.error fault, s) => (⟨.error fault, [cell]⟩, s)
            | (.ok value, s) =>
              let (r, s) := resolveFrom ω f own operands bound ((name, value) :: bindings) s
              (r.after cell, s)

/-- Resolves a compiled formula; it reads no more cells than there are names to ask for. -/
def Compiled.resolve {σ : Type} (ω : Occasion) (f : Compiled) (own : Position)
    (operands : Operands σ) (s : σ) : Resolution × σ :=
  resolveFrom ω f own operands (Engine.names f.script).length [] s

/-- A formula's text as a compiled formula. -/
def ofText (cs : List Char) : Except Fault Compiled :=
  match expandRanges cs with
  | .error fault => .error fault
  | .ok expanded =>
    let extracted := extractLiterals expanded
    compile extracted.literals extracted.text

/-- Resolves the text of a formula for the cell that it is in. -/
def resolve {σ : Type} (ω : Occasion) (cs : List Char) (own : Position) (operands : Operands σ)
    (s : σ) : Resolution × σ :=
  if (trim cs).isEmpty then (⟨.ok Value.blank, []⟩, s)
  else
    match ofText cs with
    | .error fault => (⟨.error fault, []⟩, s)
    | .ok f => f.resolve ω own operands s

end

end Spreadsheet.Formula

import Spreadsheet.Engine
import Spreadsheet.Formula.Lowering

/-!
# Compiled formulas

A formula is compiled once, to the text of an expression and its script, and then
evaluated as often as needed. An attempt to evaluate it gives a value, a fault,
or the name that has no value yet.
-/
namespace Spreadsheet.Formula

variable [Engine]

/-- A formula as an expression. -/
structure Compiled where
  source : List Char
  script : Engine.Script

/-- Compiles a formula whose ranges are expanded and whose literals are taken out. -/
def compile (literals : List (List Char)) (text : List Char) : Except Fault Compiled :=
  match lower literals text with
  | .error fault => .error fault
  | .ok source =>
    match Engine.compile source with
    | some script => .ok ⟨source, script⟩
    | none => .error .malformed

/-- What comes of one evaluation. -/
inductive Attempt where
  | resolved (value : Value)
  | needs (name : String)
  | failed (fault : Fault)
deriving DecidableEq, Repr

/-- The value of a datum as the end of an evaluation. -/
def Attempt.ofDatum (d : Datum) : Attempt :=
  match Value.ofDatum? d with
  | some value => .resolved value
  | none => .failed (.failed (.unsupportedResult d.type))

/-- Evaluates a formula on an occasion, with the given values bound to names. -/
def Compiled.attempt (f : Compiled) (ω : Occasion) (bindings : Bindings) : Attempt :=
  match Engine.evaluate ω f.script bindings with
  | .ok d => .ofDatum d
  | .error (.needs name) => .needs name
  | .error (.failed failure) => .failed (.failed failure)

end Spreadsheet.Formula

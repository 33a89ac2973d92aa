import Spreadsheet.Expression.Compilation
import Spreadsheet.Expression.StandardLibrary
import Spreadsheet.Proofs.Expression.Stepwise
import Spreadsheet.Proofs.Reading

/-!
# Formulas that come to the same again

Of the functions of a formula only the one that draws a number depends on the
occasion. With a library of which no function does, a formula that draws no number
comes to the same on every occasion. The common functions are such a library. They
look at nothing but their arguments, so that all but the draw are plain.
-/
namespace Spreadsheet

theorem Builtin.apply_of_ne_rand {function : Builtin} (h : function ≠ .rand) (x y : Float)
    (ds : List Datum) : function.apply x ds = function.apply y ds := by
  have hmany : ∀ xs, function.applyMany x xs = function.applyMany y xs := by
    cases function <;> first | exact absurd rfl h | exact fun _ => rfl
  have hnumbers : ∀ xs, function.applyNumbers x xs = function.applyNumbers y xs := by
    intro xs
    unfold applyNumbers
    split <;> rw [hmany]
  simp only [apply, hnumbers]

theorem ne_rand_of_callable {name : String} {function : Builtin} (h : name ≠ "RAND")
    (hc : callable? name = some function) : function ≠ .rand := by
  rintro rfl
  have hname := List.find?_some (Option.filter_eq_some_iff.1 hc).1
  exact h (beq_iff_eq.1 hname).symm

section
variable [Library]

/-- No function of the library depends on the occasion. -/
def Library.IsDeterministic : Prop := ∀ (ω ω' : Occasion) (b : Bindings) (name : String)
  (ds : List Datum), Library.call ω b name ds = Library.call ω' b name ds

/-- A function other than the draw depends on the occasion and on the bindings only as the library
does. -/
theorem callFunction_congr {name : String} (h : name ≠ "RAND") {ω ω' : Occasion} {b c : Bindings}
    {ds : List Datum} (hcall : Library.call ω b name ds = Library.call ω' c name ds) :
    callFunction ω b name ds = callFunction ω' c name ds := by
  unfold callFunction
  split
  · rename_i hc
    rw [Builtin.apply_of_ne_rand (ne_rand_of_callable h hc) _ (Library.draw ω')]
  · rw [hcall]

namespace Formula

/-- With a library that does not depend on the occasion, a formula that calls no draw comes to the
same on every occasion. -/
theorem isRepeatable_of_no_draw (hlibrary : Library.IsDeterministic) {cs : List Char}
    (h : ∀ f : Compiled, ofText cs = .ok f → "RAND" ∉ Tree.calls f.script) : IsRepeatable cs := by
  intro f hf ω ω' b
  have hevaluate : Engine.evaluate ω f.script b = Engine.evaluate ω' f.script b := by
    refine Tree.evaluate_eq_of_calls (t := f.script) (fun name hname ω ω' ds => ?_) ω ω'
    exact callFunction_congr (fun he => h f hf (he ▸ hname)) (hlibrary ω ω' b name ds)
  rw [Compiled.attempt, Compiled.attempt, hevaluate]

/-- The functions that a formula calls are plain. -/
def CallsPlain (cs : List Char) : Prop := ∀ f : Compiled, ofText cs = .ok f → Tree.IsPlain f.script

end Formula

end

/-! ## The common functions -/

namespace StandardLibrary

theorem isDeterministic : Library.IsDeterministic := fun _ _ _ _ _ => rfl

theorem asksNothing (name : String) : Library.AsksNothing name := by
  intro ω b ds n hn
  have horFailed : ∀ x : Except Failure Datum, orFailed x ≠ .error (.needs n) := by
    rintro (_ | _) <;> nofun
  unfold callFunction at hn
  split at hn
  · exact horFailed _ hn
  · split at hn
    · exact horFailed _ hn
    · split at hn
      · rename_i outcome hcall
        obtain ⟨x, -, rfl⟩ := Option.map_eq_some_iff.1 hcall
        exact horFailed _ hn
      · cases hn

theorem isPlain {name : String} (h : name ≠ "RAND") : Library.IsPlain name where
  same _ _ _ _ _ := callFunction_congr h rfl
  asksNothing := asksNothing name

/-- Whether a formula compiles to an expression without a draw, or does not compile. -/
def drawsNothing (cs : List Char) : Bool :=
  match Formula.ofText cs with
  | .ok f => !(Tree.calls f.script).contains "RAND"
  | .error _ => true

theorem isRepeatable {cs : List Char} (h : drawsNothing cs = true) : Formula.IsRepeatable cs := by
  refine Formula.isRepeatable_of_no_draw isDeterministic fun f hf hrand => ?_
  rw [drawsNothing, hf] at h
  simp [hrand] at h

theorem callsPlain {cs : List Char} (h : drawsNothing cs = true) : Formula.CallsPlain cs := by
  intro f hf name hname
  refine isPlain ?_
  rintro rfl
  rw [drawsNothing, hf] at h
  simp [hname] at h

/-- Whether no formula of a sheet draws a number. -/
def sheetDrawsNothing (g : Grid) : Bool :=
  g.entries.all fun e => !e.2.isFormula || drawsNothing e.2.text

theorem sheet_isRepeatable {g : Grid} (h : sheetDrawsNothing g = true) : g.IsRepeatable := by
  intro p cs hcs
  obtain ⟨c, hc, hf, rfl⟩ := Grid.formulaText?_eq_some.1 hcs
  have hentry := List.all_eq_true.1 h (p, c) ((Table.mem_entries_iff g p c).2 hc)
  exact isRepeatable (by simpa [hf] using hentry)

end StandardLibrary

open scoped StandardLibrary in
/-- The common functions and one that evaluates a text where it is called. The names are those that
it may look up. -/
@[reducible]
def Library.evaluating (names : List String) : Library where
  levelLimit := 64
  draw := StandardLibrary.drawFrom 0
  call ω b name arguments :=
    match name, arguments with
    | "eval", [.text s] =>
      match Expression.compile? s.toList with
      | some t => some (t.evaluate ω b)
      | none => some (.error (.failed (.notExpression s)))
    | _, _ => Library.call ω b name arguments
  lookedUp := names

end Spreadsheet

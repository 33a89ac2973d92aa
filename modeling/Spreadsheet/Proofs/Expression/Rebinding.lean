import Mathlib.Data.List.Basic
import Spreadsheet.Proofs.Expression.Stepwise

/-!
# Evaluation with other bindings

An evaluation that has come to a value has come across no name without one. With
further names bound it takes the same way, so it comes to the same value. Two
things could lead it elsewhere: a name of the expression that gets another value,
such as that of a constant, and the test whether a name has a value.

With the same values bound to other names, an expression with these names comes
to the same, and asks for the other name where the first one asks for a name.
Both need that the functions called look at nothing but their arguments.
-/
namespace Spreadsheet

/-! ## Values that are kept -/

/-- Where the first evaluation has a value, the second has the same one. -/
def Kept {α : Type} (x y : Except Interruption α) : Prop := ∀ a, x = .ok a → y = .ok a

theorem keptByBind_kept : KeptByBind Kept where
  ok _ _ h := h
  failed _ _ h := h
  bind {α β x y k l} hxy hkl b hb := by
    cases x with
    | error i => cases hb
    | ok a =>
      rw [hxy a rfl]
      exact hkl a rfl b hb

/-- The names of an expression keep their values from one bindings to others, and where it tests
whether a name has a value the same names have one. -/
structure Bindings.Keep (b c : Bindings) (t : Tree) : Prop where
  value : ∀ name ∈ t.names, Kept (b.value name) (c.value name)
  test : "is_def_var" ∈ t.calls → ∀ name, (c.value? name).isSome = (b.value? name).isSome

section
variable [Library] {b c : Bindings}

/-- An expression of plain functions that has a value keeps it. -/
theorem Tree.IsPlain.kept {t : Tree} (ht : t.IsPlain) (h : b.Keep c t) (ω ω' : Occasion) :
    Kept (t.evaluate ω b) (t.evaluate ω' c) := by
  have hmethod : ∀ name ∈ t.calls, ∀ ω ω' ds,
      Kept (callFunction ω b name ds) (callFunction ω' c name ds) := by
    intro name hname ω ω' ds
    rw [(ht name hname).same ω ω' b c]
    exact fun _ h => h
  refine evaluate_related_self keptByBind_kept ⟨h.value, fun _ _ _ h => h, ?_, hmethod⟩ ω ω'
  intro name hname ω ω' ds
  refine call_induction (P := Kept) ω ω' b c name ds (hmethod name hname ω ω' ds) ?_
    fun _ _ h => h
  rintro rfl s
  rw [h.test hname]
  exact fun _ h => h

end

/-! ## Other names -/

/-- An interruption with another name for what is asked for. -/
def Interruption.rename (f : String → String) : Interruption → Interruption
  | needs n => needs (f n)
  | failed failure => failed failure

/-- Values bound to other names. -/
def Bindings.rename (f : String → String) (b : Bindings) : Bindings := b.map fun e => (f e.1, e.2)

/-- The same outcome, but that it is asked for another name. -/
def asksFor {α : Type} (f : String → String) (x : Except Interruption α) : Except Interruption α :=
  x.mapError (Interruption.rename f)

section
variable {f g : String → String}

theorem keptByBind_asksFor : KeptByBind fun x y => x = asksFor f y where
  ok _ := rfl
  failed _ := rfl
  bind {α β x y k l} hxy hkl := by
    subst hxy
    cases y with
    | ok a => exact hkl a rfl
    | error i => rfl

theorem asksFor_of_ne_needs {α : Type} {x : Except Interruption α}
    (h : ∀ n, x ≠ .error (.needs n)) : asksFor f x = x := by
  match x with
  | .ok a => rfl
  | .error (.failed failure) => rfl
  | .error (.needs n) => exact absurd rfl (h n)

theorem lookup_rename (hf : f.Injective) (b : Bindings) (n : String) :
    (b.rename f).lookup (f n) = b.lookup n := by
  induction b with
  | nil => rfl
  | cons e b ih =>
    rw [Bindings.rename, List.map_cons, List.lookup_cons, List.lookup_cons]
    have hbeq : (f n == f e.1) = (n == e.1) := by
      rw [Bool.eq_iff_iff, beq_iff_eq, beq_iff_eq, hf.eq_iff]
    rw [hbeq]
    split
    · rfl
    · exact ih

section
variable (hf : f.Injective) (hconstant : ∀ c ∈ Constant.all, f c.name = c.name)
include hf hconstant

theorem value?_rename (b : Bindings) (n : String) : (b.rename f).value? (f n) = b.value? n := by
  have hname : ∀ c ∈ Constant.all, (c.name == f n) = (c.name == n) := by
    intro c hc
    rw [Bool.eq_iff_iff, beq_iff_eq, beq_iff_eq]
    conv_lhs => rw [← hconstant c hc]
    exact hf.eq_iff
  have hfind : (Constant.all.find? fun c => c.name == f n) =
      Constant.all.find? fun c => c.name == n :=
    List.find?_congr hname
  rw [Bindings.value?, Bindings.value?, lookup_rename hf, hfind]

theorem value_rename (b : Bindings) (n : String) :
    (b.rename f).value (f n) = asksFor f (b.value n) := by
  unfold Bindings.value
  rw [value?_rename hf hconstant]
  split <;> rfl

/-- With the values bound to the new names the outcome is the same, and if a name is asked for, it
is the new one. The functions that the expression calls are plain, and none is the test for
names. -/
theorem Tree.evaluate_rename [Library] (hqualified : ∀ n, ':' ∈ n.toList → f n = n) {t : Tree}
    (hcalls : ∀ n ∈ t.calls, Library.IsPlain (g n) ∧ g n ≠ "is_def_var") (ω ω' : Occasion)
    (b : Bindings) :
    (t.rename f g).evaluate ω (b.rename f) = asksFor f ((t.rename id g).evaluate ω' b) := by
  have hmethod : ∀ name ∈ t.calls, ∀ ω ω' ds, callFunction ω (b.rename f) (g name) ds =
      asksFor f (callFunction ω' b (g name) ds) := by
    intro name hname ω ω' ds
    have hplain := (hcalls name hname).1
    rw [asksFor_of_ne_needs (hplain.asksNothing ω' b ds)]
    exact hplain.same ω ω' _ _ ds
  refine evaluate_related keptByBind_asksFor t ⟨?_, ?_, ?_, hmethod⟩ ω ω'
  · exact fun name _ => value_rename hf hconstant b name
  · intro name _
    have hcolon : ':' ∈ (qualifiedName globalPath name).toList := by
      simp [globalPath, qualifiedName]
    rw [asksFor, Except.mapError, Interruption.rename, hqualified _ hcolon]
  · intro name hname ω ω' ds
    rw [call_eq_callFunction (hcalls name hname).2, call_eq_callFunction (hcalls name hname).2]
    exact hmethod name hname ω ω' ds

end

end

end Spreadsheet

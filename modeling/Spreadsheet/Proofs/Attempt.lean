import Mathlib.Data.List.Basic
import Spreadsheet.Proofs.Expression.Rebinding
import Spreadsheet.Proofs.Formula.Dependencies
import Spreadsheet.Proofs.Reading

/-!
# A resolution as one evaluation

A resolution evaluates its formula again and again, each time with the value of
one more cell. If it comes to a value, then its last evaluation alone does, with
the values of all cells that were asked for. Further bindings do not change it,
as long as they leave the constants of the formula their values and the formula
does not test what is bound. All this holds of formulas that call plain functions.
-/
namespace Spreadsheet

/-- Bindings that serve as well as those that were asked for: they give all of these names the same
values, the constants in the expression their own, and where the expression tests whether a name
has a value they bind nothing else. -/
structure Bindings.Serve (asked b : Bindings) (t : Tree) : Prop where
  lookup : ∀ e ∈ asked, b.lookup e.1 = some e.2
  constant : ∀ c ∈ Constant.all, c.name ∈ t.names → b.value? c.name = some (.number c.value)
  test : "is_def_var" ∈ t.calls → ∀ e ∈ b, ∃ a ∈ asked, a.1 = e.1

section
variable {asked b : Bindings} {name : String}

theorem mem_of_lookup {v : Value} (h : asked.lookup name = some v) : (name, v) ∈ asked := by
  obtain ⟨before, after, rfl, _⟩ := List.lookup_eq_some_iff.1 h
  simp

theorem exists_mem_of_lookup_ne_none (h : asked.lookup name ≠ none) : ∃ e ∈ asked, e.1 = name := by
  obtain ⟨v, hv⟩ := Option.ne_none_iff_exists'.1 h
  exact ⟨(name, v), mem_of_lookup hv, rfl⟩

theorem lookup_ne_none_of_mem {e : String × Value} (h : e ∈ asked) : asked.lookup e.1 ≠ none := by
  intro hnone
  simpa using List.lookup_eq_none_iff.1 hnone e h

theorem find?_constant_of_value {d : Datum} (hlookup : asked.lookup name = none)
    (h : asked.value? name = some d) : ∃ c ∈ Constant.all, c.name = name ∧ d = .number c.value := by
  rw [Bindings.value?, hlookup] at h
  obtain ⟨c, hc, hd⟩ := Option.map_eq_some_iff.1 h
  have hname := List.find?_some hc
  exact ⟨c, List.mem_of_find?_eq_some hc, eq_of_beq hname, hd.symm⟩

theorem Bindings.value_eq_ok {d : Datum} :
    asked.value name = .ok d ↔ asked.value? name = some d := by
  unfold Bindings.value
  split <;> simp_all

/-- Where the same names are bound, the same names have a value. -/
theorem Bindings.isSome_value? (h : asked.lookup name = none ↔ b.lookup name = none) :
    (asked.value? name).isSome = (b.value? name).isSome := by
  unfold Bindings.value?
  cases ha : asked.lookup name with
  | none => rw [h.1 ha]
  | some v =>
    cases hb : b.lookup name with
    | none =>
      rw [h.2 hb] at ha
      cases ha
    | some w => rfl

theorem Bindings.Serve.keep {t : Tree} (h : asked.Serve b t) : asked.Keep b t where
  value name hname d hd := by
    rw [Bindings.value_eq_ok] at hd ⊢
    cases hlookup : asked.lookup name with
    | some v =>
      rw [Bindings.value?, hlookup] at hd
      rw [Bindings.value?, h.lookup _ (mem_of_lookup hlookup)]
      exact hd
    | none =>
      obtain ⟨c, hc, rfl, rfl⟩ := find?_constant_of_value hlookup hd
      exact h.constant c hc hname
  test htest n := by
    refine (Bindings.isSome_value? ⟨fun hb => ?_, fun ha => ?_⟩).symm
    · by_contra hb'
      obtain ⟨e, he, rfl⟩ := exists_mem_of_lookup_ne_none hb'
      obtain ⟨a, ha, hae⟩ := h.test htest e he
      rw [← hae] at hb
      exact lookup_ne_none_of_mem ha hb
    · by_contra ha'
      obtain ⟨e, he, rfl⟩ := exists_mem_of_lookup_ne_none ha'
      rw [h.lookup e he] at ha
      cases ha

end

section
variable [Library]

namespace Formula
variable {f : Compiled}

theorem attempt_of_serve (hplain : Tree.IsPlain f.script) {asked b : Bindings} {v : Value}
    {ω : Occasion} (h : f.attempt ω asked = .resolved v) (hb : asked.Serve b f.script)
    (ω' : Occasion) : f.attempt ω' b = .resolved v := by
  unfold Compiled.attempt at h ⊢
  split at h
  · rename_i d hd
    rw [show Engine.evaluate ω' f.script b = .ok d from hplain.kept hb.keep ω ω' d hd]
    exact h
  · cases h
  · cases h

/-- A name of a formula with the answer of the cell that it was read as. -/
def Compiled.Asked (f : Compiled) (e : String × Value) (x : Reading) : Prop :=
  e.1 ∈ Tree.names f.script ∧ Position.ofName? e.1.toList = some x.cell ∧ x.answer = .ok e.2

/-- The last attempt of a dialogue has a name with its value for each of the readings. -/
theorem Dialogue.exists_asked (hasks : Tree.AsksAsWritten f.script) {ω : Occasion} {own : Position}
    {n : Nat} {b : Bindings} {l : List Reading} {r : Resolution} {v : Value}
    (h : Dialogue ω f own n b l r) (hv : r.outcome = .ok v) :
    ∃ (ω' : Occasion) (asked : Bindings), List.Forall₂ f.Asked asked l ∧
      f.attempt ω' (asked.reverse ++ b) = .resolved v := by
  induction h with
  | resolved hattempt =>
    cases hv
    exact ⟨_, [], .nil, hattempt⟩
  | failed => cases hv
  | repeated => cases hv
  | exhausted => cases hv
  | unrecognized => cases hv
  | itself => cases hv
  | refused => cases hv
  | @answered n b name q w l r hneeds _ hname hne _ ih =>
    obtain ⟨ω', asked, hasked, hattempt⟩ := ih hv
    refine ⟨ω', (name, w) :: asked,
      .cons ⟨mem_names_of_attempt hasks hneeds, hname, rfl⟩ hasked, ?_⟩
    rw [List.reverse_cons, List.append_assoc]
    exact hattempt

end Formula

namespace Grid
open Text Formula

/-- A name of a formula with the value that is read in the cell of that name. -/
def Supplies (g : Grid) (f : Compiled) (e : String × Value) (q : Position) : Prop :=
  e.1 ∈ Tree.names f.script ∧ Position.ofName? e.1.toList = some q ∧ g.reading q = .ok e.2

section
variable {g : Grid} {f : Compiled} {asked : Bindings} {e : String × Value}

theorem supplies_of_asked {l : List Reading} (h : List.Forall₂ f.Asked asked l)
    (hl : ∀ x ∈ l, x.answer = g.reading x.cell) :
    List.Forall₂ (g.Supplies f) asked (l.map Reading.cell) := by
  induction h with
  | nil => exact .nil
  | @cons e x asked l he _ ih =>
    obtain ⟨hx, hl⟩ := List.forall_mem_cons.1 hl
    obtain ⟨hname, hcell, hanswer⟩ := he
    exact .cons ⟨hname, hcell, hx.symm.trans hanswer⟩ (ih hl)

theorem exists_supplies {ds : List Position} (h : List.Forall₂ (g.Supplies f) asked ds)
    (he : e ∈ asked) : ∃ q, g.Supplies f e q := by
  induction h with
  | nil => cases he
  | @cons a q asked ds hq _ ih =>
    rcases List.mem_cons.1 he with rfl | he
    · exact ⟨q, hq⟩
    · exact ih he

/-- One name is never asked for with two values. -/
theorem lookup_of_supplies (h : ∀ e ∈ asked, ∃ q, g.Supplies f e q) (he : e ∈ asked) :
    asked.lookup e.1 = some e.2 := by
  obtain ⟨w, hw⟩ := Option.ne_none_iff_exists'.1 (lookup_ne_none_of_mem he)
  obtain ⟨q, _, hq, hread⟩ := h e he
  obtain ⟨q', _, hq', hread'⟩ := h _ (mem_of_lookup hw)
  cases hq.symm.trans hq'
  cases hread.symm.trans hread'
  exact hw

/-- No constant has the name of a cell. -/
theorem lookup_constant_of_supplies (h : ∀ e ∈ asked, ∃ q, g.Supplies f e q) :
    ∀ c ∈ Constant.all, asked.lookup c.name = none := by
  have hcell : ∀ c ∈ Constant.all, Position.ofName? c.name.toList = none := by decide
  intro c hc
  by_contra hlookup
  obtain ⟨e, he, hname⟩ := exists_mem_of_lookup_ne_none hlookup
  obtain ⟨q, _, hq, _⟩ := h e he
  rw [hname, hcell c hc] at hq
  cases hq

/-- What was asked for serves in any order. -/
theorem serve_of_supplies (h : ∀ e ∈ asked, ∃ q, g.Supplies f e q) :
    Bindings.Serve asked.reverse asked f.script where
  lookup e he := lookup_of_supplies h (List.mem_reverse.1 he)
  constant c hc _ := by
    have hfind : ∀ c ∈ Constant.all, (Constant.all.find? fun d => d.name == c.name) = some c := by
      decide
    rw [Bindings.value?, lookup_constant_of_supplies h c hc]
    exact congrArg (Option.map _) (hfind c hc)
  test _ e he := ⟨e, List.mem_reverse.2 he, rfl⟩

end

/-- A formula of plain functions that comes to a value comes to it in one evaluation with the values
of the cells that it depends on, on whatever occasion. So it does with further bindings, but for
those of its constants and those that it tests for. Only a blank text is never compiled. -/
theorem resolution_in_one_attempt {g : Grid} {ω : Occasion} {own : Position} {cs : List Char}
    {v : Value} (hplain : CallsPlain cs) (hv : (g.resolution ω own cs).outcome = .ok v) :
    ((trim cs).isEmpty = true ∧ v = Value.blank ∧ (g.resolution ω own cs).dependsOn = []) ∨
    ∃ (f : Compiled) (asked : Bindings), ofText cs = .ok f ∧
      List.Forall₂ (g.Supplies f) asked (g.resolution ω own cs).dependsOn ∧
      (∀ ω', f.attempt ω' asked = .resolved v) ∧
      ∀ b, asked.Serve b f.script → ∀ ω', f.attempt ω' b = .resolved v := by
  obtain ⟨l, hl, ha⟩ := exists_dialogue ω cs own operand g
  have hanswers : ∀ x ∈ l, x.answer = g.reading x.cell := (answers_operand ha).1
  change TextDialogue ω cs own l (g.resolution ω own cs) at hl
  generalize g.resolution ω own cs = r at hl hv ⊢
  cases hl with
  | blank hb =>
    cases hv
    exact .inl ⟨hb, rfl, rfl⟩
  | refused => cases hv
  | @compiled f _ _ hb hf hd =>
    have hcalls := hplain f hf
    have hasks :=
        Tree.asksAsWritten_of_asksNothing fun name hname => (hcalls name hname).asksNothing
    obtain ⟨ω', asked, hasked, hattempt⟩ := hd.exists_asked hasks hv
    rw [List.append_nil] at hattempt
    have hsupplies : List.Forall₂ (g.Supplies f) asked r.dependsOn := by
      rw [(hd.ending.of_ok hv).1]
      exact supplies_of_asked hasked hanswers
    refine .inr ⟨f, asked, hf, hsupplies, ?_, fun b hb => ?_⟩
    · exact attempt_of_serve hcalls hattempt (serve_of_supplies fun e => exists_supplies hsupplies)
    · refine attempt_of_serve hcalls hattempt ⟨fun e he => ?_, hb.constant, fun ht e he => ?_⟩
      · exact hb.lookup e (List.mem_reverse.1 he)
      · obtain ⟨a, ha, hname⟩ := hb.test ht e he
        exact ⟨a, List.mem_reverse.2 ha, hname⟩

end Grid

end

namespace Grid
open Text Formula

section
open scoped StandardLibrary

/-- One evaluation with both names bound gives what two retries give. -/
theorem resolution_in_one_attempt_choice : ∃ (g : Grid) (v : Value),
    g = Table.ofList [(⟨0, 0⟩, (Cell.formula "\"x\"".toList).resolved (.ok (.text "x")) [])] ∧
    (g.resolution .start ⟨4, 4⟩ "iif(1, a1 + B1, C1)".toList).outcome = .ok v ∧
    ∃ (f : Compiled) (asked : Bindings), ofText "iif(1, a1 + B1, C1)".toList = .ok f ∧
      List.Forall₂ (g.Supplies f) asked [⟨0, 0⟩, ⟨0, 1⟩] ∧
      (∀ ω', f.attempt ω' asked = .resolved v) ∧
      ∀ b, asked.Serve b f.script → ∀ ω', f.attempt ω' b = .resolved v := by
  obtain ⟨g, hg⟩ : ∃ g : Grid, g = Table.ofList
    [(⟨0, 0⟩, (Cell.formula "\"x\"".toList).resolved (.ok (.text "x")) [])] := ⟨_, rfl⟩
  have hdepends : (g.resolution .start ⟨4, 4⟩ "iif(1, a1 + B1, C1)".toList).dependsOn =
      [⟨0, 0⟩, ⟨0, 1⟩] := by
    rw [hg]
    decide +kernel
  have hvalue : (g.resolution .start ⟨4, 4⟩ "iif(1, a1 + B1, C1)".toList).outcome =
      .ok (.text "x0.0") := by
    rw [hg]
    decide +kernel
  rcases resolution_in_one_attempt (StandardLibrary.callsPlain (by decide +kernel)) hvalue with
    ⟨hblank, _⟩ | h
  · exact absurd hblank (by decide)
  · rw [hdepends] at h
    exact ⟨g, _, hg, hvalue, h⟩

end

/-- A formula comes to a value that one evaluation of it with more names bound does not come to. -/
def AttemptDiffers [Engine] (cs : List Char) : Prop :=
  ∃ (g : Grid) (own : Position) (v : Value) (f : Compiled) (b : Bindings),
    (g.resolution .start own cs).outcome = .ok v ∧ ofText cs = .ok f ∧
    (∀ q ∈ (g.resolution .start own cs).dependsOn, ∀ w, g.reading q = .ok w →
      b.lookup q.nameText = some w) ∧
    f.attempt .start b ≠ .resolved v

/-- A formula that reads no cell comes to a number, and to a text once a constant is one. -/
theorem attemptDiffers_of_constant [Engine] {cs : List Char}
    (hdepends : (resolution .empty .start ⟨0, 0⟩ cs).dependsOn = [])
    (hvalue : (resolution .empty .start ⟨0, 0⟩ cs).outcome = .ok (.number Constant.pi.value))
    (hattempt : (ofText cs).toOption.map (·.attempt .start [("PI", .text "x")]) =
      some (.resolved (.text "x"))) : AttemptDiffers cs := by
  cases hf : ofText cs with
  | error fault =>
    rw [hf] at hattempt
    cases hattempt
  | ok f =>
    rw [hf] at hattempt
    have htext : f.attempt .start [("PI", .text "x")] = .resolved (.text "x") :=
      Option.some.inj hattempt
    refine ⟨.empty, ⟨0, 0⟩, _, f, [("PI", .text "x")], hvalue, hf, ?_, ?_⟩
    · rw [hdepends]
      exact List.forall_mem_nil _
    · rw [htext]
      nofun

open scoped StandardLibrary in
/-- A constant that is bound to another value changes the result, also where only a text that is
evaluated has its name. -/
theorem exists_attempt_unlike_resolution : AttemptDiffers "PI".toList ∧
    @AttemptDiffers (@Library.engine (.evaluating [])) "eval!(\"PI\")".toList := by
  constructor
  · refine attemptDiffers_of_constant ?_ ?_ ?_ <;> decide +kernel
  · refine @attemptDiffers_of_constant (@Library.engine (.evaluating [])) _ ?_ ?_ ?_ <;>
      decide +kernel

end Grid

end Spreadsheet

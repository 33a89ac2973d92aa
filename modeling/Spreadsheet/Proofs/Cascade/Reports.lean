import Spreadsheet.Proofs.Cascade.Freshness
import Spreadsheet.Proofs.Content
import Spreadsheet.Proofs.Refresh.Cycles

/-!
# Cycles that a commit reports

A formula is taken for a cycle on its own only if it asks for its own cell, and
then it has recorded that. As long as a cascade settles, no other cell gets a
fault that speaks of a cycle, and a refresh after it leaves such faults only on
cycles. So the report of a commit can be false only when its cascade has run
out of its bound: it follows the cells in the texts of formulas, which a formula
may have in its text without ever reading them.
-/
namespace Spreadsheet
open Formula Relation

namespace Grid

/-- If the cell at a place has a fault that speaks of a cycle, it has read itself. -/
def AdmitsCycle (g : Grid) (p : Position) : Prop :=
  ∀ c, g.get? p = some c → c.isCircular = true → p ∈ c.dependsOn

section
variable [Engine] {g h : Grid} {ω : Occasion} {p q : Position} {c : Cell}

theorem mem_dependsOn_of_circular {cs : List Char} {fault : Fault}
    (ho : (g.resolution ω p cs).outcome = .error fault) (hk : fault.kind = .circularReference) :
    p ∈ (g.resolution ω p cs).dependsOn := by
  obtain ⟨l, hl, ha⟩ := exists_dialogue ω cs p operand g
  rcases hl.ending.of_circular ho hk with ⟨_, hp⟩ | ⟨x, hx, hanswer⟩
  · exact hp
  · rw [(answers_operand ha).1 x hx] at hanswer
    -- The answer of a cell is a propagated fault or speaks of a label.
    unfold reading at hanswer
    split at hanswer
    · exact (Cell.kind_of_operand hanswer hk).elim
    · cases hanswer

omit [Engine] in
theorem AdmitsCycle.insert (hc : c.isCircular = true → p ∈ c.dependsOn) (g : Grid) :
    AdmitsCycle (g.insert p c) p := by
  intro d hd
  rw [Table.get?_insert, if_pos rfl] at hd
  cases hd
  exact hc

omit [Engine] in
theorem AdmitsCycle.addsBlanks (hg : g.AdmitsCycle p) (hh : AddsBlanks g h) :
    h.AdmitsCycle p := by
  intro c hc hcirc
  rcases hh p with hp | ⟨_, hp⟩
  · exact hg c (hp ▸ hc) hcirc
  · cases hp.symm.trans hc
    cases hcirc

theorem AdmitsCycle.recompute (hg : g.AdmitsCycle p) (ω : Occasion) (q : Position) :
    (g.recompute ω q).AdmitsCycle p := by
  rcases recompute_cases ω g q with ⟨_, he⟩ | ⟨c, k, _, hf, hk, he⟩
  · rwa [he]
  rw [he]
  by_cases hqp : q = p
  · subst hqp
    refine AdmitsCycle.insert (fun hcirc => ?_) k
    obtain ⟨fault, ho, hkind⟩ := Cell.isCircular_eq_true.1 hcirc
    rw [Cell.dependsOn_resolved hf]
    exact mem_dependsOn_of_circular ho hkind
  · intro d hd
    rw [Table.get?_insert, if_neg hqp] at hd
    exact (hg.addsBlanks hk) d hd

theorem AdmitsCycle.cascade (hg : g.AdmitsCycle p) (ω : Occasion) (bound : Nat) (q : Position) :
    (Grid.cascade ω bound q g).2.AdmitsCycle p :=
  cascade_related (R := fun g h => g.AdmitsCycle p → h.AdmitsCycle p) (fun _ h => h)
    (fun h k hg => k (h hg)) (fun ω _ q hg => hg.recompute ω q) ω bound q g hg

/-- A formula that is entered reports nothing but its reading of its own cell. -/
theorem admitsCycle_enter (g : Grid) (ω : Occasion) (p : Position) (input : List Char) :
    (g.enter ω p input).AdmitsCycle p := by
  refine AdmitsCycle.insert (c := (g.evaluateInput ω p input).1) (fun hcirc => ?_) _
  obtain ⟨fault, ho, hkind⟩ := Cell.isCircular_eq_true.1 hcirc
  have hfault : (g.evaluateInput ω p input).1.hasFault = true := by
    simp [Cell.hasFault, Cell.fault?, ho]
  have hf := (g.evaluateInput_holdsContent ω p input).isFormula_of_hasFault hfault
  have hr := (evaluateInput_spec g ω p input).2 hf
  have hmem := mem_dependsOn_of_circular ((congrArg Resolution.outcome hr).trans ho) hkind
  rwa [hr] at hmem

omit [Engine] in
theorem isSome_cyclePath_of_self (hc : g.get? p = some c) (hp : p ∈ c.dependsOn) :
    (g.cyclePath p).isSome = true :=
  isSome_cyclePath_of_transGen .refl (.single ⟨c, hc, hp⟩)

/-- Whether a commit is followed by a refresh of the sheet. -/
def refreshesAfter (g : Grid) (ω : Occasion) (p : Position) (input : List Char) : Bool :=
  g.hasFaultAt p && !(g.evaluateInput (ω.stage 0) p input).1.hasFault

theorem commit_eq (g : Grid) (ω : Occasion) (p : Position) (input : List Char) :
    g.commit ω p input =
      if g.refreshesAfter ω p input then
        ((g.enter (ω.stage 0) p input).cascadeFrom (ω.stage 1) p).refresh (ω.stage 2)
      else (g.enter (ω.stage 0) p input).cascadeFrom (ω.stage 1) p := rfl

end

end Grid

namespace Document
open Grid

/-- A commit that leaves its cell with a fault that speaks of a cycle is right about it: from the
cell a cycle can be reached. For this its cascade has to settle, or the cell has to be a formula and
the sheet to be refreshed afterwards. -/
theorem commit_reports_cycle [Engine] {d : Document} {ω : Occasion} {p : Position}
    {input : List Char} {c : Cell} (hc : (d.set ω p input).grid.get? p = some c)
    (hcirc : c.isCircular = true)
    (hsettles : (d.grid.enter (ω.stage 0) p input).settles (ω.stage 1) p = true ∨
      c.isFormula = true ∧ d.grid.refreshesAfter ω p input = true) :
    ((d.set ω p input).grid.cyclePath p).isSome = true := by
  have hset : (d.set ω p input).grid = d.grid.commit ω p input := rfl
  have hadmits : (d.grid.enter (ω.stage 0) p input).settles (ω.stage 1) p = true →
      ((d.grid.enter (ω.stage 0) p input).cascadeFrom (ω.stage 1) p).AdmitsCycle p := by
    intro hs
    rw [cascadeFrom_of_true hs]
    exact (admitsCycle_enter d.grid _ p input).cascade _ _ p
  rw [hset, commit_eq] at hc ⊢
  split at hc
  · rename_i hr
    rw [if_pos hr]
    have hf : c.isFormula = true := by
      rcases hsettles with hs | ⟨hf, _⟩
      · rcases get?_refresh_cases hc with hf | rfl | hbefore
        · exact hf
        · cases hcirc
        · exact Cell.isFormula_of_mem_dependsOn (hadmits hs c hbefore hcirc)
      · exact hf
    obtain ⟨_, _, l, _, hpath, _⟩ := exists_cycle hc hf hcirc
    rw [hpath]
    rfl
  · rename_i hr
    rw [if_neg hr]
    have hs : (d.grid.enter (ω.stage 0) p input).settles (ω.stage 1) p = true := by
      rcases hsettles with hs | ⟨_, hr'⟩
      · exact hs
      · exact (hr hr').elim
    exact isSome_cyclePath_of_self hc (hadmits hs c hc hcirc)

section
open scoped StandardLibrary

/-- A formula of its own cell, entered where a number was. -/
theorem commit_reports_cycle_self : ∃ (d : Document) (c : Cell),
    d = new.set .start ⟨0, 0⟩ "5".toList ∧
      (d.set (.stage .start 1) ⟨0, 0⟩ "=A1".toList).grid.get? ⟨0, 0⟩ = some c ∧
    c.isCircular = true ∧
      ((d.set (.stage .start 1) ⟨0, 0⟩ "=A1".toList).grid.cyclePath ⟨0, 0⟩).isSome = true := by
  obtain ⟨d, hd⟩ : ∃ d : Document, d = new.set .start ⟨0, 0⟩ "5".toList := ⟨_, rfl⟩
  have hcell : ((d.set (.stage .start 1) ⟨0, 0⟩ "=A1".toList).grid.get? ⟨0, 0⟩).map
      Cell.isCircular = some true := by
    rw [hd]
    decide +kernel
  have hsettles : (d.grid.enter (.stage (.stage .start 1) 0) ⟨0, 0⟩ "=A1".toList).settles
      (.stage (.stage .start 1) 1) ⟨0, 0⟩ = true := by
    rw [hd]
    decide +kernel
  obtain ⟨c, hc, hcirc⟩ := Option.map_eq_some_iff.1 hcell
  exact ⟨d, c, hd, hc, hcirc, commit_reports_cycle hc hcirc (.inl hsettles)⟩

/-- The first formula has the second one in its text but never reads it. The commit of the second
reports a cycle, and the search from it finds none. -/
theorem exists_false_report : ∃ (d : Document) (c : Cell),
    d = new.set .start ⟨0, 1⟩ "=IIF(1,A1,C1)".toList ∧
    (d.set (.stage .start 1) ⟨0, 2⟩ "=B1".toList).grid.get? ⟨0, 2⟩ = some c ∧ c.isCircular = true ∧
    (d.set (.stage .start 1) ⟨0, 2⟩ "=B1".toList).grid.cyclePath ⟨0, 2⟩ = none := by
  obtain ⟨d, hd⟩ : ∃ d : Document, d = new.set .start ⟨0, 1⟩ "=IIF(1,A1,C1)".toList := ⟨_, rfl⟩
  have hcell : ((d.set (.stage .start 1) ⟨0, 2⟩ "=B1".toList).grid.get? ⟨0, 2⟩).map
      Cell.isCircular = some true := by
    rw [hd]
    decide +kernel
  have hpath : (d.set (.stage .start 1) ⟨0, 2⟩ "=B1".toList).grid.cyclePath ⟨0, 2⟩ = none := by
    rw [hd]
    decide +kernel
  obtain ⟨c, hc, hcirc⟩ := Option.map_eq_some_iff.1 hcell
  exact ⟨d, c, hd, hc, hcirc, hpath⟩

end

end Document

end Spreadsheet

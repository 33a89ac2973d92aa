import Spreadsheet.Command
import Spreadsheet.Proofs.Cascade.Freshness
import Spreadsheet.Proofs.Refresh.Pass

/-!
# Cells hold what was typed

A cell without a formula holds what its text says: nothing, a number or the text
itself. Every operation of a document keeps this, except that a cascade which
does not come to an end puts a fault in the cell that it started from, whatever
that cell is. No refresh takes the fault away again, as it evaluates nothing but
formulas. So the rule holds of all sessions in which every cascade settles, and
in all others such a fault is the only exception.
-/
namespace Spreadsheet

namespace Cell

/-- What a cell without a formula holds: nothing, the number that its text reads as, or the text. -/
def HoldsContent (c : Cell) : Prop :=
  match c.kind with
  | .empty => c.raw = "" ∧ c.outcome = .ok Value.blank
  | .number => ∃ x, Grid.finite? c.text = some x ∧ c.outcome = .ok (.number x)
  | .label => c.outcome = .ok (.text c.raw)
  | .formula => True

/-- A cell that would hold its content but for the fault of a cascade. -/
def IsSpoilt (c : Cell) : Prop :=
  ∃ d : Cell, ∃ fault : Fault, d.isFormula = false ∧ d.HoldsContent ∧
    fault.kind = .circularReference ∧ c = d.failing fault

section
variable {c : Cell} {fault : Fault}

theorem holdsContent_of_isFormula (h : c.isFormula = true) : c.HoldsContent := by
  have hk : c.kind = .formula := beq_iff_eq.1 h
  simp only [HoldsContent, hk]

theorem holdsContent_blank : Cell.blank.HoldsContent := ⟨rfl, rfl⟩

theorem HoldsContent.isFormula_of_hasFault (h : c.HoldsContent) (hf : c.hasFault = true) :
    c.isFormula = true := by
  unfold HoldsContent at h
  split at h
  · simp [hasFault, fault?, h.2] at hf
  · obtain ⟨x, _, ho⟩ := h
    simp [hasFault, fault?, ho] at hf
  · simp [hasFault, fault?, h] at hf
  · rename_i hk
    exact beq_iff_eq.2 hk

theorem HoldsContent.failing (h : c.HoldsContent) (hk : fault.kind = .circularReference) :
    (c.failing fault).HoldsContent ∨ (c.failing fault).IsSpoilt := by
  cases hf : c.isFormula with
  | true => exact .inl (holdsContent_of_isFormula hf)
  | false => exact .inr ⟨c, fault, hf, h, hk, rfl⟩

theorem IsSpoilt.failing (h : c.IsSpoilt) (hk : fault.kind = .circularReference) :
    (c.failing fault).IsSpoilt := by
  obtain ⟨d, _, hd, hc, _, rfl⟩ := h
  exact ⟨d, fault, hd, hc, hk, rfl⟩

end

end Cell

namespace Grid
open Formula

theorem kind_cascadeFault (g : Grid) (p : Position) :
    (g.cascadeFault p).kind = .circularReference := by
  unfold cascadeFault
  split <;> rfl

/-- Whether the cascade that a change of a cell sets off comes to an end within its bound. -/
def settles [Engine] (g : Grid) (ω : Occasion) (p : Position) : Bool :=
  (cascade (ω.stage 0) (2 * g.size) p g).1

def All (P : Cell → Prop) (g : Grid) : Prop := ∀ p c, g.get? p = some c → P c

theorem unmarkedCell_holdsContent (cs : List Char) (r : Resolution) :
    (unmarkedCell cs r).HoldsContent := by
  unfold unmarkedCell
  split
  · exact trivial
  · exact trivial
  · exact rfl

/-- What is typed is what the new cell holds. -/
theorem evaluateInput_holdsContent [Engine] (g : Grid) (ω : Occasion) (p : Position)
    (input : List Char) : (g.evaluateInput ω p input).1.HoldsContent := by
  unfold evaluateInput
  split
  · exact Cell.holdsContent_blank
  · exact rfl
  · exact trivial
  · split
    · rename_i x hx
      have htext : (Cell.number (Text.trim input) x).text = Text.trim input :=
        String.toList_ofList
      exact ⟨x, htext.symm ▸ hx, rfl⟩
    · exact unmarkedCell_holdsContent _ _

/-- After a refresh a cell is a formula, a blank cell that was read, or as it was before. -/
theorem get?_refresh_cases [Engine] {ω : Occasion} {g : Grid} {p : Position} {c : Cell}
    (hc : (g.refresh ω).get? p = some c) :
    c.isFormula = true ∨ c = Cell.blank ∨ g.get? p = some c := by
  have hlater := RefreshPass.later_evaluateAll ω g.prune.startRefresh.pending.length
    g.prune.startRefresh.pending g.prune.startRefresh
  rw [refresh_eq] at hc
  by_cases hp : p ∈ g.prune.startRefresh.pending
  · obtain ⟨d, hd, hf⟩ := mem_formulas.1 hp
    obtain ⟨e, he, hk, _⟩ := hlater.content p d hd
    cases hc.symm.trans he
    left
    rw [Cell.isFormula, hk, ← Cell.isFormula, hf]
  · right
    rcases hlater.settled p hp with hkeep | ⟨_, hblank⟩
    · rw [hc, startRefresh, get?_prune, eq_comm, Option.filter_eq_some_iff] at hkeep
      exact .inr hkeep.1
    · exact .inl (Option.some.inj (hc.symm.trans hblank))

/-! ## What every operation keeps of all cells -/

section
variable {P : Cell → Prop} {g h : Grid}

theorem All.insert (hg : g.All P) {c : Cell} (hc : P c) (p : Position) : All P (g.insert p c) := by
  intro q d hd
  rw [Table.get?_insert] at hd
  split at hd
  · cases hd
    exact hc
  · exact hg q d hd

theorem All.erase (hg : g.All P) (p : Position) : All P (g.erase p) := by
  intro q d hd
  rw [Table.get?_erase] at hd
  split at hd
  · cases hd
  · exact hg q d hd

theorem All.addsBlanks (hblank : P Cell.blank) (hg : g.All P) (hh : AddsBlanks g h) : h.All P := by
  intro q d hd
  rcases hh q with hq | ⟨_, hq⟩
  · exact hg q d (hq ▸ hd)
  · cases hq.symm.trans hd
    exact hblank

theorem All.failing (hfail : ∀ c fault, P c → fault.kind = .circularReference → P (c.failing fault))
    (hg : g.All P) (p : Position) {fault : Fault} (hk : fault.kind = .circularReference) :
    All P (g.modify p fun c => c.failing fault) := by
  cases hc : g.get? p with
  | none => rwa [modify_of_none hc]
  | some c =>
    rw [modify_of_get? hc]
    exact hg.insert (hfail c fault (hg p c hc) hk) p

theorem All.moved (hmoved : ∀ s c, c.isFormula = true → P c → P (shiftedCell s c))
    (hg : g.All P) (s : Shift) : (g.moved s).All P := by
  intro q d hd
  obtain ⟨⟨p, c⟩, hmem, he⟩ := List.mem_filterMap.1 (Table.mem_of_get?_ofList hd)
  obtain ⟨_, _, he⟩ := Option.map_eq_some_iff.1 he
  cases he
  have hc := hg p c ((Table.mem_entries_iff g p c).1 hmem)
  by_cases hf : c.isFormula = true
  · exact hmoved s c hf hc
  · dsimp only [shiftedCell]
    rwa [if_neg hf]

/- Of a formula only its text counts, of all other cells everything. -/
variable [Engine] {ω : Occasion}
  (hsame : ∀ c d : Cell, c.isFormula = true → d.kind = c.kind → d.raw = c.raw → P c → P d)
  (hblank : P Cell.blank)
include hsame hblank

theorem All.recompute (hg : g.All P) (ω : Occasion) (p : Position) : (g.recompute ω p).All P := by
  rcases recompute_cases ω g p with ⟨_, he⟩ | ⟨c, k, hc, hf, hk, he⟩
  · rwa [he]
  · rw [he]
    exact (hg.addsBlanks hblank hk).insert (hsame c (c.resolved _ _) hf rfl rfl (hg p c hc)) p

theorem All.cascade (hg : g.All P) (ω : Occasion) (bound : Nat) (p : Position) :
    (Grid.cascade ω bound p g).2.All P :=
  cascade_related (R := fun g h => g.All P → h.All P) (fun _ h => h)
    (fun h k hg => k (h hg)) (fun ω _ p hg => hg.recompute hsame hblank ω p) ω bound p g hg

/-- A cascade that settles computes formulas only. Another one puts a fault in its origin. -/
theorem All.cascadeFrom {p : Position} (hfail : g.settles ω p = true ∨
      ∀ c fault, P c → fault.kind = .circularReference → P (c.failing fault))
    (hg : g.All P) : (g.cascadeFrom ω p).All P := by
  have hfirst := hg.cascade hsame hblank (ω.stage 0) (2 * g.size) p
  cases hs : g.settles ω p with
  | true =>
    rw [cascadeFrom_of_true hs]
    exact hfirst
  | false =>
    rw [cascadeFrom_of_false hs]
    rw [hs] at hfail
    refine All.cascade hsame hblank ?_ _ _ p
    exact hfirst.failing (hfail.resolve_left Bool.false_ne_true) p (kind_cascadeFault _ p)

theorem All.refresh (hg : g.All P) : (g.refresh ω).All P := by
  intro q d hd
  rcases get?_refresh_cases hd with hf | rfl | hd'
  · rcases get?_prune_of_refresh hd with rfl | ⟨b, hb, hk, hr⟩
    · exact hblank
    · rw [get?_prune, Option.filter_eq_some_iff] at hb
      exact hsame b d (by rwa [Cell.isFormula, ← hk]) hk hr (hg q b hb.1)
  · exact hblank
  · exact hg q d hd'

variable (htyped : ∀ (g : Grid) (ω : Occasion) (p : Position) (input : List Char),
  P (g.evaluateInput ω p input).1)
include htyped

omit hsame in
theorem All.enter (hg : g.All P) (ω : Occasion) (p : Position) (input : List Char) :
    (g.enter ω p input).All P :=
  (hg.addsBlanks hblank ((g.evaluateInput_spec ω p input).1)).insert (htyped g ω p input) p

omit hsame in
theorem All.enterAll (hg : g.All P) (ω : Occasion) (inputs : List (Position × List Char)) :
    (Grid.enterAll ω inputs g).All P := by
  induction inputs generalizing ω g with
  | nil => exact hg
  | cons e inputs ih =>
    have henter := hg.enter hblank htyped (ω.stage 0) e.1 e.2
    simp only [Grid.enterAll]
    split
    · exact henter
    · exact ih henter _

theorem All.commit {p : Position} {input : List Char}
    (hfail : (g.enter (ω.stage 0) p input).settles (ω.stage 1) p = true ∨
      ∀ c fault, P c → fault.kind = .circularReference → P (c.failing fault))
    (hg : g.All P) : (g.commit ω p input).All P := by
  have hsettled : ((g.enter (ω.stage 0) p input).cascadeFrom (ω.stage 1) p).All P :=
    (hg.enter hblank htyped _ p input).cascadeFrom hsame hblank hfail
  unfold Grid.commit
  dsimp only
  split
  · exact hsettled.refresh hsame hblank
  · exact hsettled

end

end Grid

/-! ## Sessions -/

/-- Whether the cascade that a command sets off, if any, comes to an end within its bound. -/
def Command.settles [Engine] (ω : Occasion) : Command → Document → Bool
  | set p input, d => (d.grid.enter (ω.stage 0) p input).settles (ω.stage 1) p
  | clear p, d => !d.grid.contains p || Grid.settles (d.grid.erase p) ω p
  | copy origin target, d =>
    match d.grid.get? origin with
    | some c =>
      match Grid.copiedInput? c origin target with
      | some input => (d.grid.enter (ω.stage 0) target input).settles (ω.stage 1) target
      | none => true
    | none => !d.grid.contains target || Grid.settles (d.grid.erase target) ω target
  | _, _ => true

/-- A document that commands and loaded sheets lead to from a new one. If it is marked as settled,
each cascade on the way has come to an end. -/
inductive Document.Reachable [Engine] (isSettled : Bool) : Document → Prop
  | new : Reachable isSettled .new
  | command {d e : Document} (ω : Occasion) (c : Command) :
      (isSettled = true → c.settles ω d = true) → c.perform? ω d = some e →
      Reachable isSettled d → Reachable isSettled e
  | load {d : Document} (ω : Occasion) (s : Sheet) :
      Reachable isSettled d → Reachable isSettled (d.load ω s)

namespace Document
open Grid

section
variable [Engine] {P : Cell → Prop} {d e : Document} {ω : Occasion}
variable (hsame : ∀ c d : Cell, c.isFormula = true → d.kind = c.kind → d.raw = c.raw → P c → P d)
  (hblank : P Cell.blank)
include hsame hblank

theorem all_clear {p : Position}
    (hfail : (!d.grid.contains p || Grid.settles (d.grid.erase p) ω p) = true ∨
      ∀ c fault, P c → fault.kind = .circularReference → P (c.failing fault))
    (hd : d.grid.All P) : (d.clear ω p).grid.All P := by
  unfold clear
  split
  · rename_i hp
    refine (hd.erase p).cascadeFrom hsame hblank (hfail.imp_left fun hs => ?_)
    simpa [hp] using hs
  · exact hd

variable (htyped : ∀ (g : Grid) (ω : Occasion) (p : Position) (input : List Char),
  P (g.evaluateInput ω p input).1)
include htyped

theorem all_perform {c : Command} (hstep : c.perform? ω d = some e)
    (hmoved : ∀ s c, c.isFormula = true → P c → P (shiftedCell s c))
    (hfail : c.settles ω d = true ∨
      ∀ c fault, P c → fault.kind = .circularReference → P (c.failing fault))
    (hd : d.grid.All P) : e.grid.All P := by
  have hshift : ∀ s, (d.shift ω s).grid.All P := fun s =>
    (hd.moved hmoved s).refresh hsame hblank
  cases c with
  | set p input =>
    cases hstep
    exact hd.commit hsame hblank htyped hfail
  | clear p =>
    cases hstep
    exact all_clear hsame hblank hfail hd
  | insertRow row side =>
    obtain ⟨_, -, rfl⟩ := Option.map_eq_some_iff.1 hstep
    exact hshift _
  | insertColumn column side =>
    obtain ⟨_, -, rfl⟩ := Option.map_eq_some_iff.1 hstep
    exact hshift _
  | deleteRow row =>
    cases hstep
    exact hshift _
  | deleteColumn column =>
    cases hstep
    exact hshift _
  | width column width =>
    cases hstep
    exact hd
  | copy origin target =>
    simp only [Command.perform?, copy?, Command.settles] at hstep hfail
    cases hb : d.grid.get? origin with
    | some b =>
      simp only [hb] at hstep hfail
      obtain ⟨input, hinput, rfl⟩ := Option.map_eq_some_iff.1 hstep
      rw [hinput] at hfail
      exact hd.commit hsame hblank htyped hfail
    | none =>
      simp only [hb, Option.some.injEq] at hstep hfail
      subst hstep
      exact all_clear hsame hblank hfail hd
  | refresh =>
    cases hstep
    exact hd.refresh hsame hblank

theorem all_load (s : Sheet) : (d.load ω s).grid.All P := by
  have hempty : All P Table.empty := fun _ _ hc => by cases hc
  exact (hempty.enterAll hblank htyped _ s.cells).refresh hsame hblank

/-- What holds of blank cells and of what is typed, and what of a formula depends on its text alone
and lasts when lines are edited, holds of all cells of a session, if its cascades settle or their
faults do not change it. -/
theorem Reachable.all {isSettled : Bool}
    (hmoved : ∀ s c, c.isFormula = true → P c → P (shiftedCell s c))
    (hfail : isSettled = true ∨
      ∀ c fault, P c → fault.kind = .circularReference → P (c.failing fault))
    (h : Reachable isSettled d) : d.grid.All P := by
  induction h with
  | new => exact fun _ _ hc => by cases hc
  | command _ c hsettles hstep _ ih =>
    exact all_perform hsame hblank htyped hstep hmoved (hfail.imp_left hsettles) ih
  | load _ s _ _ => exact all_load hsame hblank htyped s

end

/-- What holds of formulas, of blank cells and of what is typed holds of all cells of a session, if
its cascades settle or their faults do not change it. -/
theorem all_of_reachable [Engine] {P : Cell → Prop} {d : Document}
    (hformula : ∀ c : Cell, c.isFormula = true → P c) (hblank : P Cell.blank)
    (htyped : ∀ (g : Grid) (ω : Occasion) (p : Position) (input : List Char),
      P (g.evaluateInput ω p input).1)
    {isSettled : Bool} (hfail : isSettled = true ∨
      ∀ c fault, P c → fault.kind = .circularReference → P (c.failing fault))
    (h : Reachable isSettled d) : d.grid.All P :=
  h.all (fun c d hf hk _ _ => hformula d (by rwa [Cell.isFormula, hk])) hblank htyped
    (fun s c hf _ => hformula _ (by rwa [isFormula_shiftedCell])) hfail

/-- In a session whose cascades settle a cell that is no formula holds its content and so has no
fault. In any other session it may have the fault of a cascade instead. -/
theorem cells_hold_content [Engine] {isSettled : Bool} {d : Document} (h : Reachable isSettled d)
    {p : Position} {c : Cell} (hc : d.grid.get? p = some c) :
    c.HoldsContent ∧ (c.hasFault = true → c.isFormula = true) ∨
      isSettled = false ∧ c.IsSpoilt := by
  have hformula : ∀ c : Cell, c.isFormula = true →
      c.HoldsContent ∨ isSettled = false ∧ c.IsSpoilt :=
    fun c hf => .inl (Cell.holdsContent_of_isFormula hf)
  have hfail : isSettled = true ∨ ∀ (c : Cell) (fault : Fault),
      (c.HoldsContent ∨ isSettled = false ∧ c.IsSpoilt) → fault.kind = .circularReference →
        (c.failing fault).HoldsContent ∨ isSettled = false ∧ (c.failing fault).IsSpoilt := by
    cases isSettled with
    | true => exact .inl rfl
    | false =>
      refine .inr fun c fault hc hk => ?_
      rcases hc with hc | ⟨_, hc⟩
      · exact (hc.failing hk).imp_right fun h => ⟨rfl, h⟩
      · exact .inr ⟨rfl, hc.failing hk⟩
  have hall := all_of_reachable hformula (.inl Cell.holdsContent_blank)
    (fun g ω q input => .inl (g.evaluateInput_holdsContent ω q input)) hfail h
  exact (hall p c hc).imp_left fun hc => ⟨hc, hc.isFormula_of_hasFault⟩

section
open scoped StandardLibrary

/-- A number next to a formula that reads it, after edits whose cascades settle. -/
theorem cells_hold_content_row : ∃ (d : Document) (c : Cell), Reachable true d ∧
    d.grid.get? ⟨0, 0⟩ = some c ∧ c.kind = .number ∧ c.HoldsContent := by
  obtain ⟨d, hd⟩ : ∃ d : Document, d = new.set .start ⟨0, 1⟩ "=A1".toList := ⟨_, rfl⟩
  have hreach : Reachable true d := by
    rw [hd]
    exact .command .start (.set ⟨0, 1⟩ "=A1".toList) (fun _ => by decide +kernel) rfl .new
  have hsettles : (Command.set ⟨0, 0⟩ "5".toList).settles .start d = true := by
    rw [hd]
    decide +kernel
  have hcell : ((d.set .start ⟨0, 0⟩ "5".toList).grid.get? ⟨0, 0⟩).map Cell.kind =
      some .number := by
    rw [hd]
    decide +kernel
  obtain ⟨c, hc, hk⟩ := Option.map_eq_some_iff.1 hcell
  have hedited : Reachable true (d.set .start ⟨0, 0⟩ "5".toList) :=
    .command .start (.set ⟨0, 0⟩ "5".toList) (fun _ => hsettles) rfl hreach
  refine ⟨_, c, hedited, hc, hk, ?_⟩
  rcases cells_hold_content hedited hc with ⟨hholds, _⟩ | ⟨hfalse, _⟩
  · exact hholds
  · cases hfalse

/-- Two formulas mention each other, but the first one never reads the second. A number that the
first one reads gets the fault of a cascade, although nothing on the sheet reads itself. -/
theorem exists_spoilt_number : ∃ (d : Document) (c : Cell), Reachable false d ∧
    d.grid.get? ⟨0, 0⟩ = some c ∧ c.kind = .number ∧ c.hasFault = true := by
  have hcell : ((((((new.set .start ⟨0, 2⟩ "=B1".toList).set .start ⟨0, 1⟩
      "=IIF(1,A1,C1)".toList).refresh .start).set .start ⟨0, 0⟩ "5".toList).grid.get? ⟨0, 0⟩).map
      fun c => (c.kind, c.hasFault)) = some (.number, true) := by
    decide +kernel
  obtain ⟨c, hc, hs⟩ := Option.map_eq_some_iff.1 hcell
  simp only [Prod.mk.injEq] at hs
  have hany : ∀ {d e : Document} (c : Command), c.perform? .start d = some e →
      Reachable false d → Reachable false e :=
    fun c hstep h => .command .start c (fun hfalse => by cases hfalse) hstep h
  exact ⟨_, c, hany (.set _ _) rfl (hany .refresh rfl (hany (.set _ _) rfl
    (hany (.set _ _) rfl .new))), hc, hs⟩

end

end Document

end Spreadsheet

import Spreadsheet.Proofs.Cascade.Reports
import Spreadsheet.Proofs.Formula.Quotation
import Spreadsheet.Proofs.Text.Trimming

/-!
# Literals on a sheet

A formula that is a literal reads nothing, and so it is the same at every place and
on every sheet. When it is typed into a cell the cell holds its text, and neither
the cascade that follows nor a refresh changes that; only the fault of a cascade
that does not come to an end takes its place.
-/
namespace Spreadsheet
open Text Formula

/-- A formula with the same resolution at every place, by every source and on every occasion. -/
def Formula.IsConstant [Engine] (cs : List Char) (r : Resolution) : Prop :=
  ∀ {σ : Type} (ω : Occasion) (own : Position) (operands : Operands σ) (s : σ),
    resolve ω cs own operands s = (r, s)

/-- The readings of a dialogue are answers of a source that gives them in turn. -/
theorem Formula.answers_in_turn (l : List Reading) : Answers (fun _ l => match l with
    | [] => (.ok Value.blank, [])
    | x :: l => (x.answer, l)) l l [] := by
  induction l with
  | nil => exact .nil []
  | cons x l ih => exact .cons rfl ih

section
variable [Engine] {ω : Occasion}

theorem Formula.TextDialogue.eq_of_isConstant {cs : List Char} {own : Position} {l : List Reading}
    {r r' : Resolution} (h : TextDialogue ω cs own l r') (hconst : IsConstant cs r) : r' = r :=
  congrArg Prod.fst ((h.resolve_eq (answers_in_turn l)).symm.trans (hconst ω own _ l))

namespace Grid

/-- The cell at a place is a formula with the given text, of which more is known. -/
def HoldsFormula (g : Grid) (p : Position) (cs : List Char) (P : Cell → Prop) : Prop :=
  ∃ c, g.get? p = some c ∧ c.isFormula = true ∧ c.text = cs ∧ P c

section
variable {g : Grid} {p : Position} {cs : List Char} {r : Resolution} {P : Cell → Prop}

/-- A constant formula is recomputed to what it was. -/
theorem HoldsFormula.recompute (hconst : IsConstant cs r) (hP : ∀ c : Cell, c.Stores r → P c)
    (h : g.HoldsFormula p cs P) (ω : Occasion) (q : Position) :
    (g.recompute ω q).HoldsFormula p cs P := by
  obtain ⟨c, hc, hf, htext, hholds⟩ := h
  rcases recompute_cases ω g q with ⟨-, he⟩ | ⟨d, k, hd, hfd, hk, he⟩
  · rw [he]
    exact ⟨c, hc, hf, htext, hholds⟩
  · rw [he]
    by_cases hqp : q = p
    · subst hqp
      cases hc.symm.trans hd
      have hsame : g.resolution (ω.cell q) q c.text = r := by rw [resolution, htext, hconst]
      rw [hsame]
      refine ⟨c.resolved r.outcome r.dependsOn, by rw [Table.get?_insert, if_pos rfl], hf, htext,
        hP _ ?_⟩
      rw [Cell.Stores, Cell.dependsOn_resolved hf]
      rfl
    · refine ⟨c, ?_, hf, htext, hholds⟩
      rw [Table.get?_insert, if_neg hqp]
      exact hk.get?_eq_some hc

theorem HoldsFormula.cascade (hconst : IsConstant cs r) (hP : ∀ c : Cell, c.Stores r → P c)
    (h : g.HoldsFormula p cs P) (ω : Occasion) (bound : Nat) (q : Position) :
    (Grid.cascade ω bound q g).2.HoldsFormula p cs P :=
  cascade_related (R := fun g h => g.HoldsFormula p cs P → h.HoldsFormula p cs P) (fun _ h => h)
    (fun h k hg => k (h hg)) (fun ω _ q hg => hg.recompute hconst hP ω q) ω bound q g h

/-- A cascade from a constant formula leaves it as it is, or does not come to an end. -/
theorem HoldsFormula.cascadeFrom (hconst : IsConstant cs r)
    (h : g.HoldsFormula p cs fun c => c.Stores r) (ω : Occasion) :
    (g.cascadeFrom ω p).HoldsFormula p cs fun c =>
      c.Stores r ∨ g.settles ω p = false ∧ c.isCircular = true := by
  have hfirst := h.cascade hconst (fun _ hc => hc) (ω.stage 0) (2 * g.size) p
  cases hs : g.settles ω p with
  | true =>
    rw [cascadeFrom_of_true hs]
    obtain ⟨c, hc, hf, htext, hstores⟩ := hfirst
    exact ⟨c, hc, hf, htext, .inl hstores⟩
  | false =>
    rw [cascadeFrom_of_false hs]
    refine HoldsFormula.cascade hconst (fun c hc => .inl hc) ?_ _ _ p
    obtain ⟨c, hc, hf, htext, -⟩ := hfirst
    rw [modify_of_get? hc]
    generalize hfault : Grid.cascadeFault _ p = fault
    refine ⟨c.failing fault, by rw [Table.get?_insert, if_pos rfl], hf, htext, .inr ⟨rfl, ?_⟩⟩
    exact Cell.isCircular_eq_true.2 ⟨fault, rfl, hfault ▸ kind_cascadeFault _ _⟩

/-- A refresh evaluates a constant formula anew, whatever fault it had. -/
theorem HoldsFormula.refresh (hconst : IsConstant cs r) (hne : cs ≠ [])
    (h : g.HoldsFormula p cs P) (ω : Occasion) :
    (g.refresh ω).HoldsFormula p cs fun c => c.Stores r := by
  obtain ⟨c, hc, hf, rfl, -⟩ := h
  have hpruned : g.prune.get? p = some c := by
    rw [get?_prune, Option.filter_eq_some_iff]
    refine ⟨hc, ?_⟩
    by_contra hempty
    exact hne (by simpa [Cell.isEmpty, Cell.text] using hempty)
  obtain ⟨d, hd, hk, hr⟩ := exists_get?_refresh ω hpruned
  have hfd : d.isFormula = true := by rwa [Cell.isFormula, hk]
  have htext : d.text = c.text := congrArg String.toList hr
  obtain ⟨v, hv, rfl⟩ := exists_visit hd hfd
  obtain ⟨older, -, e, l, he, -, hl, -⟩ := (accounts_refresh ω g).holdsIn hv
  cases hd.symm.trans he
  rw [htext] at hl
  exact ⟨d, hd, hfd, htext, (hl.eq_of_isConstant hconst).symm⟩

end

/-- What is typed in as a constant formula is held as such. -/
theorem HoldsFormula.enter {cs : List Char} {r : Resolution} (hconst : IsConstant cs r)
    (htrim : trimRight cs = cs) (g : Grid) (ω : Occasion) (p : Position) :
    (g.enter ω p ('=' :: cs)).HoldsFormula p cs fun c => c.Stores r := by
  have hinput : trim ('=' :: cs) = '=' :: cs := trim_cons (by decide) htrim
  have hcell : (g.evaluateInput ω p ('=' :: cs)).1 = formulaCell cs r := by
    rw [evaluateInput, hinput]
    simp only [hconst ω p operand g]
  exact ⟨formulaCell cs r, hcell ▸ get?_enter_self .., rfl, String.toList_ofList,
    (congrArg (Resolution.mk r.outcome) (Cell.dependsOn_resolved rfl _ _)).symm⟩

/-- A constant formula that is committed is held in the end, unless the cascade does not come to an
end and no refresh follows. -/
theorem holdsFormula_commit {cs : List Char} {r : Resolution} (hconst : IsConstant cs r)
    (hne : cs ≠ []) (htrim : trimRight cs = cs) (g : Grid) (ω : Occasion) (p : Position) :
    (g.commit ω p ('=' :: cs)).HoldsFormula p cs fun c => c.Stores r ∨
      c.isCircular = true ∧ (g.enter (ω.stage 0) p ('=' :: cs)).settles (ω.stage 1) p = false ∧
        g.refreshesAfter ω p ('=' :: cs) = false := by
  have hcascade := (HoldsFormula.enter hconst htrim g (ω.stage 0) p).cascadeFrom hconst (ω.stage 1)
  rw [commit_eq]
  split
  · obtain ⟨c, hc, hf, htext, hstores⟩ := hcascade.refresh hconst hne (ω.stage 2)
    exact ⟨c, hc, hf, htext, .inl hstores⟩
  · rename_i hr
    obtain ⟨c, hc, hf, htext, hstores⟩ := hcascade
    refine ⟨c, hc, hf, htext, hstores.imp_right fun ⟨hsettles, hcirc⟩ => ?_⟩
    exact ⟨hcirc, hsettles, by simpa using hr⟩

end Grid

end

theorem Formula.trimRight_inQuotes (s : List Char) : trimRight (inQuotes s) = inQuotes s :=
  trimRight_append_cons ('"' :: s) [] (by decide)

/-- A literal denotes its contents with percent signs and ranges written out, so exactly its
contents if it has none of them, for every library that allows an expression the two levels of a
literal. A cell into which it is typed holds this text, or the fault of a range in it, unless the
cascade of the commit does not come to an end and no refresh follows. In any formula the literals
are written out one by one, and they are taken out as they were typed exactly if there is nothing in
them to write out. -/
theorem Document.literals_denote_contents [Library] (hlevels : 2 ≤ Library.levelLimit)
    (d : Document) (ω : Occasion) (p : Position) (s : List Char) (hs : '"' ∉ s) :
    (∃ c, (d.set ω p ('=' :: inQuotes s)).grid.get? p = some c ∧ c.kind = .formula ∧
      c.text = inQuotes s ∧
      (c.outcome = (expandRanges s).map (fun t => .text (String.ofList t)) ∧ c.dependsOn = [] ∨
        c.isCircular = true ∧
          (d.grid.enter (ω.stage 0) p ('=' :: inQuotes s)).settles (ω.stage 1) p = false ∧
          d.grid.refreshesAfter ω p ('=' :: inQuotes s) = false)) ∧
    (expandRanges s = .ok s ↔ '%' ∉ s ∧ ¬['.', '.'] <:+: s) ∧
    ∀ cs ds, expandRanges cs = .ok ds →
      List.Forall₂ (fun l l' => expandRanges l = .ok l') (extractLiterals cs).literals
        (extractLiterals ds).literals ∧
      ((extractLiterals ds).literals = (extractLiterals cs).literals ↔
        ∀ l ∈ (extractLiterals cs).literals, expandRanges l = .ok l) := by
  refine ⟨?_, expandRanges_eq_self_iff, fun cs ds h => ?_⟩
  · have hconst : IsConstant (inQuotes s)
        ⟨(expandRanges s).map fun t => .text (String.ofList t), []⟩ :=
      fun ω own operands u => resolve_inQuotes hlevels hs ω own operands u
    obtain ⟨c, hc, hf, htext, hholds⟩ := Grid.holdsFormula_commit hconst (List.cons_ne_nil _ _)
      (trimRight_inQuotes s) d.grid ω p
    refine ⟨c, hc, beq_iff_eq.1 hf, htext, hholds.imp_left fun hstores => ?_⟩
    obtain ⟨houtcome, hdeps⟩ := Resolution.mk.inj hstores
    exact ⟨houtcome.symm, hdeps.symm⟩
  · have hliterals : List.Forall₂ (fun l l' => expandRanges l = .ok l')
        (extractLiterals cs).literals (extractLiterals ds).literals := forall₂_literals 0 h
    refine ⟨hliterals, fun hsame => ?_, fun hall => ?_⟩
    · rw [hsame] at hliterals
      exact List.forall₂_same.1 hliterals
    · have heq : List.Forall₂ (· = ·) (extractLiterals cs).literals
          (extractLiterals ds).literals := by
        refine (List.forall₂_and_left (extractLiterals cs).literals _ |>.2 ⟨hall, hliterals⟩).imp ?_
        rintro l l' ⟨hl, hl'⟩
        exact Except.ok.inj (hl.symm.trans hl')
      rw [List.forall₂_eq_eq_eq] at heq
      exact heq.symm

section
open scoped StandardLibrary

/-- A literal with a backslash, a line end, a single dot and a letter outside ASCII, and two
literals at the sides of a range. -/
theorem Document.literals_denote_contents_plain :
    (∃ c, (new.set .start ⟨0, 0⟩ ('=' :: inQuotes "C:\\1.5\\é\n".toList)).grid.get? ⟨0, 0⟩ =
        some c ∧
      c.kind = .formula ∧ c.outcome = .ok (.text "C:\\1.5\\é\n")) ∧
    ∃ ds, expandRanges "\"a.b\"+SUM(A1..A2)+\"c\"".toList = .ok ds ∧
      (extractLiterals ds).literals = ["a.b".toList, "c".toList] := by
  obtain ⟨⟨c, hc, hk, -, hholds⟩, hself, hliterals⟩ :=
    literals_denote_contents (by decide) new .start ⟨0, 0⟩ "C:\\1.5\\é\n".toList (by decide)
  constructor
  · have hsettles : (new.grid.enter (.stage .start 0) ⟨0, 0⟩
        ('=' :: inQuotes "C:\\1.5\\é\n".toList)).settles (.stage .start 1) ⟨0, 0⟩ = true := by
      decide +kernel
    rw [hsettles, hself.2 (by decide)] at hholds
    exact ⟨c, hc, hk, hholds.resolve_right (by simp) |>.1⟩
  · have hexpanded : expandRanges "\"a.b\"+SUM(A1..A2)+\"c\"".toList =
        .ok "\"a.b\"+SUM(A1,A2)+\"c\"".toList := by decide +kernel
    have htaken : (extractLiterals "\"a.b\"+SUM(A1..A2)+\"c\"".toList).literals =
        ["a.b".toList, "c".toList] := by decide +kernel
    refine ⟨_, hexpanded, ((hliterals _ _ hexpanded).2.2 fun l hl => ?_).trans htaken⟩
    refine expandRanges_eq_self_iff.2 ?_
    rw [htaken] at hl
    revert l
    decide

/-- A percent sign and a range are written out within the quotes, and where this is no range the
literal has a fault. -/
theorem Document.exists_literal_unlike_contents :
    (∃ c, (new.set .start ⟨0, 0⟩ "=\"50%\"".toList).grid.get? ⟨0, 0⟩ = some c ∧
      c.outcome = .ok (.text "50*1/100")) ∧
    (∃ c, (new.set .start ⟨0, 0⟩ "=\"A1..B1\"".toList).grid.get? ⟨0, 0⟩ = some c ∧
      c.outcome = .ok (.text "A1,B1")) ∧
    (∃ c, (new.set .start ⟨0, 0⟩ "=\"a..b\"".toList).grid.get? ⟨0, 0⟩ = some c ∧
      c.outcome = .error (.invalidRange "a..b")) ∧
    ∃ cs ds, expandRanges cs = .ok ds ∧
      (extractLiterals ds).literals ≠ (extractLiterals cs).literals := by
  refine ⟨Option.map_eq_some_iff.1 ?_, Option.map_eq_some_iff.1 ?_, Option.map_eq_some_iff.1 ?_,
    "\"50%\"".toList, "\"50*1/100\"".toList, ?_, ?_⟩
  all_goals decide +kernel

end

end Spreadsheet

import Spreadsheet.Proofs.Content
import Spreadsheet.Proofs.Formula.Rewriting
import Spreadsheet.Proofs.Insertion
import Spreadsheet.Proofs.Refresh.History
import Spreadsheet.Proofs.Table
import Spreadsheet.Proofs.Text.Trimming

/-!
# What is stored comes back

What is stored of a cell is its text with the mark of its kind. Whatever a
session does, the text of a cell is trimmed as an input is, and that of a number
reads as one. So the input of a cell makes a cell of the same kind and text
again. What the cells give while they are loaded one by one depends on their
order, but no more than their content is left after the refresh at the end.
-/
namespace Spreadsheet
open Text Formula

/-! ## Texts that an input leaves -/

namespace Formula

/-- References are replaced by texts that are trimmed, so that the end of a text stays trimmed. -/
theorem trimRight_replaceReferences {replacement : Position → Option (List Char)}
    (hreplacement : ∀ p cs, replacement p = some cs → cs ≠ [] ∧ trimRight cs = cs)
    {cs : List Char} (h : trimRight cs = cs) :
    trimRight (replaceReferences replacement cs) = replaceReferences replacement cs := by
  rw [replaceReferences]
  rcases List.eq_nil_or_concat (pieces cs) with hnil | ⟨pieces', last, hlast⟩
  · rw [hnil]
    rfl
  · have htext : pieces'.flatMap Piece.text ++ last.text = cs := by
      rw [← text_piecesFrom false cs, ← pieces, hlast, List.concat_eq_append, List.flatMap_append,
        List.flatMap_singleton]
    have hne : last.text ≠ [] := Piece.text_ne_nil last (by
      change last ∈ pieces cs
      simp [hlast])
    rw [hlast, List.concat_eq_append, List.flatMap_append, List.flatMap_singleton]
    -- The last piece stays as it was, or a replacement comes for it.
    cases hr : last.reference?.bind replacement with
    | none =>
      rw [← htext] at h
      exact (trimRight_append_eq_self_iff _ hne).2 ((trimRight_append_eq_self_iff _ hne).1 h)
    | some cs' =>
      obtain ⟨p, _, hp⟩ := Option.bind_eq_some_iff.1 hr
      obtain ⟨hne', htrim⟩ := hreplacement p cs' hp
      exact (trimRight_append_eq_self_iff _ hne').2 htrim

theorem trimRight_name (p : Position) : trimRight p.name = p.name :=
  trimRight_of_trim (trim_of_isAlphanum fun _ => Position.isAlphanum_of_mem_name)

theorem trimRight_shiftReferences (s : Shift) {cs : List Char} (h : trimRight cs = cs) :
    trimRight (shiftReferences s cs) = shiftReferences s cs := by
  refine trimRight_replaceReferences (fun p cs hp => ?_) h
  split at hp
  · split at hp
    · cases hp
    · cases hp
      exact ⟨Position.name_ne_nil _, trimRight_name _⟩
  · cases hp
    exact ⟨by decide, by decide⟩

end Formula

theorem Grid.finite?_of_mark {c : Char} (hc : c = '\'' ∨ c = '=') (cs : List Char) :
    Grid.finite? (c :: cs) = none := by
  rcases hc with rfl | rfl <;>
    simp [Grid.finite?, Number.read?, Number.special?, Number.unsigned?, sameIgnoringCase]

/-! ## Cells that come back -/

namespace Cell

/-- The text of a cell is what is left of an input. -/
def IsTyped (c : Cell) : Prop :=
  match c.kind with
  | .empty => c.raw = ""
  | .number => trim c.text = c.text ∧ (Grid.finite? c.text).isSome = true
  | .label | .formula => trimRight c.text = c.text

/-- A cell as its input makes it, before any evaluation. -/
def restored (c : Cell) : Cell :=
  match c.kind with
  | .empty => blank
  | .number => number c.text ((Grid.finite? c.text).getD 0)
  | .label => label c.text
  | .formula => formula c.text

section
variable {c d : Cell}

theorem IsTyped.congr (h : c.IsTyped) (hk : d.kind = c.kind) (hr : d.raw = c.raw) : d.IsTyped := by
  unfold IsTyped text at h ⊢
  rwa [hk, hr]

theorem kind_restored (c : Cell) : c.restored.kind = c.kind := by
  unfold restored
  split <;> exact Eq.symm ‹_›

theorem IsTyped.raw_restored (h : c.IsTyped) : c.restored.raw = c.raw := by
  unfold IsTyped at h
  unfold restored
  split
  · rename_i hk
    rw [hk] at h
    exact h.symm
  all_goals exact String.ofList_toList

theorem IsTyped.isEmpty_restored (h : c.IsTyped) : c.restored.isEmpty = c.isEmpty := by
  rw [isEmpty, isEmpty, h.raw_restored]

/-- The input of a cell with content is trimmed. -/
theorem IsTyped.trim_input (h : c.IsTyped) (hne : c.isEmpty = false) : trim c.input = c.input := by
  unfold IsTyped at h
  unfold input
  cases hk : c.kind with
  | empty =>
    rw [hk] at h
    simp [isEmpty, h] at hne
  | number =>
    rw [hk] at h
    exact h.1
  | label =>
    rw [hk] at h
    exact trim_cons (by decide) h
  | formula =>
    rw [hk] at h
    exact trim_cons (by decide) h

end

end Cell

namespace Grid

section
variable [Engine] {g : Grid} {p : Position} {c : Cell}

omit [Engine] in
theorem isTyped_unmarkedCell {cs : List Char} (h : trimRight cs = cs) (r : Resolution) :
    (unmarkedCell cs r).IsTyped := by
  have htext : ∀ c : Cell, c.raw = String.ofList cs → trimRight c.text = c.text := by
    intro c hc
    rw [Cell.text, hc, String.toList_ofList, h]
  unfold unmarkedCell
  split <;> exact htext _ rfl

/-- An input leaves a text that it could have been itself, but for the mark. -/
theorem isTyped_evaluateInput (g : Grid) (ω : Occasion) (p : Position) (input : List Char) :
    (g.evaluateInput ω p input).1.IsTyped := by
  have htrim := trimRight_trim input
  have htext : ∀ cs : List Char, trimRight cs = cs →
      trimRight (String.ofList cs).toList = (String.ofList cs).toList := by
    intro cs h
    rw [String.toList_ofList, h]
  unfold evaluateInput
  split
  · rfl
  · rename_i label hinput
    exact htext _ (trimRight_of_cons (hinput ▸ htrim))
  · rename_i formula hinput
    exact htext _ (trimRight_of_cons (hinput ▸ htrim))
  · split
    · rename_i x hx
      have hnumber : (Cell.number (trim input) x).text = trim input := String.toList_ofList
      refine ⟨?_, ?_⟩
      · rw [hnumber, trim_trim]
      · rw [hnumber, hx]
        rfl
    · exact isTyped_unmarkedCell htrim _

omit [Engine] in
theorem isTyped_shiftedCell (s : Shift) (hf : c.isFormula = true) (h : c.IsTyped) :
    (shiftedCell s c).IsTyped := by
  have hk : c.kind = .formula := beq_iff_eq.1 hf
  have hk' : (shiftedCell s c).kind = .formula :=
    beq_iff_eq.1 ((isFormula_shiftedCell s c).trans hf)
  unfold Cell.IsTyped at h ⊢
  rw [hk] at h
  rw [hk', text_shiftedCell hf]
  exact trimRight_shiftReferences s h

/-- The input of a cell makes the cell again, wherever and among whatever cells it is entered. -/
theorem unevaluated_evaluateInput (h : c.IsTyped) (hne : c.isEmpty = false) (g : Grid)
    (ω : Occasion) (p : Position) :
    (g.evaluateInput ω p c.input).1.unevaluated = c.restored := by
  unfold Cell.restored evaluateInput
  rw [h.trim_input hne]
  unfold Cell.IsTyped at h
  unfold Cell.input
  cases hk : c.kind with
  | empty =>
    rw [hk] at h
    simp [Cell.isEmpty, h] at hne
  | number =>
    rw [hk] at h
    obtain ⟨x, hx⟩ := Option.isSome_iff_exists.1 h.2
    rw [CellKind.mark, List.nil_append, hx]
    split
    · rename_i hnil
      rw [hnil] at hx
      simp [finite?, Number.read?_nil] at hx
    · rename_i hmark
      rw [hmark, finite?_of_mark (.inl rfl)] at hx
      cases hx
    · rename_i hmark
      rw [hmark, finite?_of_mark (.inr rfl)] at hx
      cases hx
    · simp only [hx]
      rfl
  | label => rfl
  | formula => rfl

end

end Grid

/-! ## Cells entered one after the other -/

namespace Grid

section
variable [Engine] {g h t : Grid} {p q : Position} {c : Cell}

omit [Engine] in
theorem AddsBlanks.get?_prune (hg : AddsBlanks g h) (q : Position) :
    h.prune.get? q = g.prune.get? q := by
  rw [Grid.get?_prune, Grid.get?_prune]
  rcases hg q with hq | ⟨hn, hb⟩
  · rw [hq]
  · rw [hn, hb]
    rfl

/-- Entering changes no other cell with content. -/
theorem unevaluated_get?_prune_enter (h : c.IsTyped) (hne : c.isEmpty = false) (g : Grid)
    (ω : Occasion) (p q : Position) : ((g.enter ω p c.input).prune.get? q).map Cell.unevaluated =
      if p = q then some c.restored else (g.prune.get? q).map Cell.unevaluated := by
  have hcell := unevaluated_evaluateInput h hne g ω p
  have hblanks := (evaluateInput_spec g ω p c.input).1.get?_prune q
  rw [Grid.get?_prune] at hblanks
  rw [Grid.get?_prune, get?_enter]
  split
  · have hempty : (g.evaluateInput ω p c.input).1.isEmpty = false := by
      have hraw := congrArg Cell.isEmpty hcell
      rw [h.isEmpty_restored, hne, Cell.isEmpty, Cell.raw_unevaluated] at hraw
      exact hraw
    rw [Option.filter_some_pos (by simp [hempty]), Option.map_some, hcell]
  · rw [hblanks]

theorem isStuckAt_enter (h : c.IsTyped) (hne : c.isEmpty = false)
    (hcut : c.isFormula = true → isUncuttable c.text = false) (g : Grid) (ω : Occasion)
    (p : Position) : (g.enter ω p c.input).isStuckAt p = false := by
  have hcell := unevaluated_evaluateInput h hne g ω p
  have hkind := congrArg Cell.kind hcell
  have hraw := congrArg Cell.raw hcell
  rw [Cell.kind_unevaluated, Cell.kind_restored] at hkind
  rw [Cell.raw_unevaluated, h.raw_restored] at hraw
  have hholds := g.evaluateInput_holdsContent ω p c.input
  have hspec := (evaluateInput_spec g ω p c.input).2
  rw [isStuckAt, get?_enter_self, Option.any_some]
  generalize (g.evaluateInput ω p c.input).1 = b at hkind hraw hholds hspec
  by_contra hstuck
  have hfault : b.fault? = some .uncuttable := by simpa using hstuck
  have hf : b.isFormula = true :=
    hholds.isFormula_of_hasFault (by rw [Cell.hasFault, hfault, Option.isSome_some])
  have houtcome : b.outcome = .error .uncuttable := by
    unfold Cell.fault? at hfault
    split at hfault
    · rename_i hout
      cases hfault
      exact hout
    · cases hfault
  have hun : isUncuttable b.text = true :=
    isUncuttable_of_resolution (g := g) (p := p) (by rw [hspec hf, houtcome])
  rw [Cell.text, hraw, ← Cell.text, hcut (by rwa [Cell.isFormula, ← hkind])] at hun
  cases hun

/-- The inputs of cells with content make the cells again, in any order and on any sheet. -/
theorem unevaluated_get?_prune_enterAll (htyped : t.All Cell.IsTyped) (hcut : t.isStuck = false)
    {inputs : List (Position × List Char)}
    (hinputs : ∀ e ∈ inputs, ∃ c, t.prune.get? e.1 = some c ∧ e.2 = c.input)
    (ω : Occasion) (g : Grid) (q : Position) :
    ((enterAll ω inputs g).prune.get? q).map Cell.unevaluated =
      if q ∈ inputs.map Prod.fst then (t.prune.get? q).map Cell.restored
      else (g.prune.get? q).map Cell.unevaluated := by
  induction inputs generalizing g ω with
  | nil => rw [if_neg (by simp)]; rfl
  | cons e inputs ih =>
    obtain ⟨⟨c, hc, hinput⟩, hrest⟩ := List.forall_mem_cons.1 hinputs
    obtain ⟨p, input⟩ := e
    dsimp only at hc hinput
    subst hinput
    have hc' := hc
    rw [get?_prune, Option.filter_eq_some_iff] at hc'
    have hne : c.isEmpty = false := by simpa using hc'.2
    have hstuck : (g.enter (ω.stage 0) p c.input).isStuckAt p = false := by
      refine isStuckAt_enter (htyped p c hc'.1) hne (fun hf => ?_) g (ω.stage 0) p
      have := List.any_eq_false.1 hcut (p, c) ((Table.mem_entries_iff t p c).2 hc'.1)
      simpa [hf] using this
    rw [enterAll, if_neg (by simp [hstuck]), ih hrest,
      unevaluated_get?_prune_enter (htyped p c hc'.1) hne]
    by_cases hq : q ∈ inputs.map Prod.fst
    · rw [if_pos hq, if_pos (by simp [hq])]
    · rw [if_neg hq]
      by_cases hp : p = q
      · subst hp
        rw [if_pos rfl, if_pos (by simp), hc, Option.map_some]
      · rw [if_neg hp, if_neg (by simpa [Ne.symm hp] using hq)]

/-- The stored inputs of a sheet, in any order, make a sheet with the same cells. -/
theorem unevaluated_get?_prune_ofInputs (htyped : t.All Cell.IsTyped) (hcut : t.isStuck = false)
    {inputs : List (Position × List Char)} (hinputs : inputs.Perm t.inputs) (ω : Occasion)
    (q : Position) : ((ofInputs ω inputs).prune.get? q).map Cell.unevaluated =
      (t.prune.get? q).map Cell.restored := by
  have hmem : ∀ e, e ∈ inputs ↔ ∃ c, t.prune.get? e.1 = some c ∧ e.2 = c.input := by
    intro e
    rw [hinputs.mem_iff, Grid.inputs, List.mem_map]
    constructor
    · rintro ⟨⟨p, c⟩, hc, rfl⟩
      exact ⟨c, (Table.mem_entries_iff _ p c).1 hc, rfl⟩
    · rintro ⟨c, hc, he⟩
      exact ⟨(e.1, c), (Table.mem_entries_iff _ e.1 c).2 hc, Prod.ext rfl he.symm⟩
  rw [ofInputs, sameContent_refresh _ _ q,
    unevaluated_get?_prune_enterAll htyped hcut fun e he => (hmem e).1 he]
  split
  · rfl
  · rename_i hq
    cases hc : t.prune.get? q with
    | none => rfl
    | some c =>
      exact absurd (List.mem_map_of_mem ((hmem (q, c.input)).2 ⟨c, hc, rfl⟩)) hq

/-- What depends on the kind and the text of a cell is the same for the cell that comes back. -/
theorem map_get?_prune_ofInputs {β : Type} {f : Cell → β}
    (hf : ∀ c d : Cell, d.kind = c.kind → d.raw = c.raw → f d = f c)
    (htyped : t.All Cell.IsTyped) (hcut : t.isStuck = false)
    {inputs : List (Position × List Char)} (hinputs : inputs.Perm t.inputs) (ω : Occasion)
    (q : Position) : ((ofInputs ω inputs).prune.get? q).map f = (t.prune.get? q).map f := by
  have hcells := congrArg (Option.map f) (unevaluated_get?_prune_ofInputs htyped hcut hinputs ω q)
  rw [Option.map_map, Option.map_map] at hcells
  have hsame : f ∘ Cell.unevaluated = f :=
    funext fun c => hf c _ (Cell.kind_unevaluated c) (Cell.raw_unevaluated c)
  rw [hsame] at hcells
  rw [hcells]
  cases hc : t.prune.get? q with
  | none => rfl
  | some c =>
    rw [get?_prune, Option.filter_eq_some_iff] at hc
    exact congrArg some (hf c _ (Cell.kind_restored c) (htyped q c hc.1).raw_restored)

theorem inputs_ofInputs (htyped : t.All Cell.IsTyped) (hcut : t.isStuck = false)
    {inputs : List (Position × List Char)} (hinputs : inputs.Perm t.inputs) (ω : Occasion) :
    (ofInputs ω inputs).inputs = t.inputs :=
  Table.map_entries_congr (map_get?_prune_ofInputs
    (fun c d hk hr => by rw [Cell.input, Cell.input, Cell.text, Cell.text, hk, hr])
    htyped hcut hinputs ω)

/-- Formulas that depend on no occasion are loaded as such. -/
theorem isRepeatable_ofInputs (htyped : t.All Cell.IsTyped) (hcut : t.isStuck = false)
    (hrepeatable : t.IsRepeatable) {inputs : List (Position × List Char)}
    (hinputs : inputs.Perm t.inputs) (ω : Occasion) : (ofInputs ω inputs).prune.IsRepeatable := by
  refine (isRepeatable_congr (funext fun q => ?_)).2 hrepeatable.prune
  have hcells := map_get?_prune_ofInputs (f := fun c => (c.isFormula, c.text))
    (fun c d hk hr => by rw [Cell.isFormula, Cell.isFormula, Cell.text, Cell.text, hk, hr])
    htyped hcut hinputs ω q
  unfold formulaText?
  cases hc : t.prune.get? q with
  | none =>
    rw [hc, Option.map_none, Option.map_eq_none_iff] at hcells
    rw [hcells]
  | some c =>
    rw [hc, Option.map_some, Option.map_eq_some_iff] at hcells
    obtain ⟨d, hd, he⟩ := hcells
    obtain ⟨hf, htext⟩ := Prod.mk.inj he
    rw [hd, Option.filter_some, Option.filter_some, hf]
    split
    · exact congrArg some htext
    · rfl

/-- The order in which cells are loaded leaves no trace where no formula depends on the occasion. -/
theorem ofInputs_congr (htyped : t.All Cell.IsTyped) (hcut : t.isStuck = false)
    (hrepeatable : t.IsRepeatable) {inputs others : List (Position × List Char)}
    (hinputs : inputs.Perm t.inputs) (hothers : others.Perm t.inputs) (ω ω' : Occasion) :
    ofInputs ω inputs = ofInputs ω' others := by
  have hcontent : (ofInputs ω inputs).SameContent (ofInputs ω' others) := fun q =>
    (unevaluated_get?_prune_ofInputs htyped hcut hinputs ω q).trans
      (unevaluated_get?_prune_ofInputs htyped hcut hothers ω' q).symm
  have hrefresh : ∀ ω inputs, (ofInputs ω inputs).refresh (ω.stage 1) = ofInputs ω inputs :=
    fun _ _ => refresh_congr (sameContent_refresh _ _)
  rw [← hrefresh ω inputs, ← hrefresh ω' others, refresh_congr hcontent,
    refresh_onOccasion (isRepeatable_ofInputs htyped hcut hrepeatable hothers ω')]

/-- A refresh after a load leaves the sheet as it is. -/
theorem refresh_ofInputs (htyped : t.All Cell.IsTyped) (hcut : t.isStuck = false)
    (hrepeatable : t.IsRepeatable) {inputs : List (Position × List Char)}
    (hinputs : inputs.Perm t.inputs) (ω ω' : Occasion) :
    (ofInputs ω inputs).refresh ω' = ofInputs ω inputs := by
  have hrepeats := isRepeatable_ofInputs htyped hcut hrepeatable hinputs ω
  exact (refresh_onOccasion hrepeats ω' (ω.stage 1)).trans (refresh_congr (sameContent_refresh _ _))

end

end Grid

/-! ## Widths -/

namespace ColumnWidths

theorem max_one_of_le {width : UInt64} (h : 1 ≤ width) : max width 1 = width := by
  change (if width ≤ 1 then 1 else width) = width
  split
  · exact UInt64.le_antisymm h ‹_›
  · rfl

theorem one_le_max (width : UInt64) : 1 ≤ max width 1 := by
  change 1 ≤ if width ≤ 1 then 1 else width
  split
  · exact UInt64.le_refl 1
  · exact UInt64.le_of_lt (UInt64.not_le.1 ‹_›)

def IsPositive (widths : ColumnWidths) : Prop :=
  ∀ col width, widths.get? col = some width → 1 ≤ width

theorem IsPositive.shift {widths : ColumnWidths} (h : widths.IsPositive) (s : Shift) :
    (widths.shift s).IsPositive := by
  intro col width hw
  unfold ColumnWidths.shift at hw
  split at hw
  · obtain ⟨e, he, hm⟩ := List.mem_filterMap.1 (Table.mem_of_get?_ofList hw)
    obtain ⟨_, _, hm⟩ := Option.map_eq_some_iff.1 hm
    cases hm
    exact h e.1 e.2 ((Table.mem_entries_iff widths e.1 e.2).1 he)
  · exact h _ _ hw

theorem isPositive_ofPairs (pairs : List (UInt64 × UInt64)) : (ofPairs pairs).IsPositive := by
  intro col width hw
  obtain ⟨e, _, he⟩ := List.mem_map.1 (Table.mem_of_get?_ofList hw)
  cases he
  exact one_le_max e.2

/-- The stored widths of a sheet, in any order, are set again as they were. -/
theorem ofPairs_of_perm {widths : ColumnWidths} (hpositive : widths.IsPositive)
    {pairs : List (UInt64 × UInt64)} (hpairs : pairs.Perm widths.entries) :
    ofPairs pairs = widths := by
  have hmem : ∀ e ∈ pairs, widths.get? e.1 = some e.2 := fun e he =>
    (Table.mem_entries_iff widths e.1 e.2).1 (hpairs.mem_iff.1 he)
  have hsame : (pairs.map fun e => (e.1, max e.2 1)) = pairs := by
    refine (List.map_congr_left fun e he => ?_).trans (List.map_id pairs)
    rw [max_one_of_le (hpositive e.1 e.2 (hmem e he))]
    rfl
  rw [ofPairs, hsame, Table.ofList_congr (fun e => hpairs.mem_iff), Table.ofList_entries]
  intro k a b ha hb
  rw [Table.mem_entries_iff] at ha hb
  exact Option.some.inj (ha.symm.trans hb)

end ColumnWidths

/-! ## Sessions -/

namespace Document
open Grid

section
variable [Engine] {d : Document} {isSettled : Bool}

theorem isTyped_of_reachable (h : Reachable isSettled d) : d.grid.All Cell.IsTyped :=
  h.all (fun _ _ _ hk hr hc => hc.congr hk hr) rfl isTyped_evaluateInput
    (fun s _ hf hc => isTyped_shiftedCell s hf hc) (.inr fun _ _ hc _ => hc.congr rfl rfl)

omit [Engine] in
theorem isPositive_setColumnWidth (h : d.widths.IsPositive) (col width : UInt64) :
    (d.setColumnWidth col width).widths.IsPositive := by
  intro col' width' hw
  unfold setColumnWidth at hw
  dsimp only at hw
  split at hw
  · rw [Table.get?_erase] at hw
    split at hw
    · cases hw
    · exact h _ _ hw
  · rw [Table.get?_insert] at hw
    split at hw
    · cases hw
      exact ColumnWidths.one_le_max width
    · exact h _ _ hw

theorem isPositive_clear (h : d.widths.IsPositive) (ω : Occasion) (p : Position) :
    (d.clear ω p).widths.IsPositive := by
  unfold clear
  split <;> exact h

theorem isPositive_perform (h : d.widths.IsPositive) {ω : Occasion} {c : Command} {e : Document}
    (hstep : c.perform? ω d = some e) : e.widths.IsPositive := by
  cases c with
  | insertRow row side | insertColumn column side =>
    obtain ⟨boundary, -, rfl⟩ := Option.map_eq_some_iff.1 hstep
    exact h.shift _
  | copy origin target =>
    simp only [Command.perform?, copy?] at hstep
    split at hstep
    · obtain ⟨input, -, rfl⟩ := Option.map_eq_some_iff.1 hstep
      exact h
    · cases hstep
      exact isPositive_clear h ω target
  | set p input | refresh =>
    cases hstep
    exact h
  | clear p =>
    cases hstep
    exact isPositive_clear h ω p
  | deleteRow | deleteColumn =>
    cases hstep
    exact h.shift _
  | width column width =>
    cases hstep
    exact isPositive_setColumnWidth h column width

theorem isPositive_of_reachable (h : Reachable isSettled d) : d.widths.IsPositive := by
  induction h with
  | new => exact fun _ _ hw => by cases hw
  | load _ s _ _ => exact ColumnWidths.isPositive_ofPairs s.widths
  | command _ c _ hstep _ ih => exact isPositive_perform ih hstep

end

/-- What is stored of a document of any session, loaded in any order into any document, gives its
cells and widths back. If its formulas depend on no occasion, nothing else is left, neither of the
order nor of the other document, and a refresh changes nothing. A text that cannot be cut into its
ranges is never evaluated to an end, so that there is no document with one. -/
theorem load_restores [Engine] {isSettled : Bool} {d : Document} (hd : Reachable isSettled d)
    (hcut : d.grid.isStuck = false) (hrepeatable : d.grid.IsRepeatable) {s : Sheet}
    (hcells : s.cells.Perm d.sheet.cells) (hwidths : s.widths.Perm d.sheet.widths) (e : Document)
    (ω ω' : Occasion) :
    (e.load ω s).sheet = d.sheet ∧
    (∀ p, ((e.load ω s).grid.prune.get? p).map (fun c => (c.kind, c.raw)) =
      (d.grid.prune.get? p).map fun c => (c.kind, c.raw)) ∧
    (e.load ω s).widths = d.widths ∧
    (e.load ω s).grid = (new.load ω' d.sheet).grid ∧
    (e.load ω s).refresh ω' = e.load ω s := by
  have htyped := isTyped_of_reachable hd
  have hwidths' : (e.load ω s).widths = d.widths :=
    ColumnWidths.ofPairs_of_perm (isPositive_of_reachable hd) hwidths
  refine ⟨?_, ?_, hwidths', ofInputs_congr htyped hcut hrepeatable hcells (.refl _) _ _, ?_⟩
  · rw [sheet, hwidths']
    exact congrArg (Sheet.mk · d.widths.entries) (inputs_ofInputs htyped hcut hcells ω)
  · exact map_get?_prune_ofInputs (fun c d hk hr => by rw [hk, hr]) htyped hcut hcells ω
  · exact congrArg (fun g => { e.load ω s with grid := g })
      (refresh_ofInputs htyped hcut hrepeatable hcells ω ω')

section
open scoped StandardLibrary

/-- A formula with a blank in front, a label and a width, loaded from behind over another cell. -/
theorem load_restores_reversed : ∃ d e : Document,
    d = ((new.set .start ⟨0, 0⟩ "=  IIF(1, B1, B7) ".toList).set .start ⟨0, 1⟩
      "' x ".toList).setColumnWidth 1 30 ∧
    e = (new.set .start ⟨4, 4⟩ "=A1".toList).load (.stage .start 1)
      ⟨d.sheet.cells.reverse, d.sheet.widths.reverse⟩ ∧
    e.sheet.cells = [(⟨0, 0⟩, "=  IIF(1, B1, B7)".toList), (⟨0, 1⟩, "' x".toList)] ∧
    e.sheet.widths = [(1, 30)] ∧ e.refresh .start = e := by
  obtain ⟨d, hd⟩ : ∃ d : Document, d = ((new.set .start ⟨0, 0⟩ "=  IIF(1, B1, B7) ".toList).set
    .start ⟨0, 1⟩ "' x ".toList).setColumnWidth 1 30 := ⟨_, rfl⟩
  have hreach : Reachable false d := by
    have hany : ∀ {d e : Document} (c : Command), c.perform? .start d = some e →
        Reachable false d → Reachable false e :=
      fun c hstep h => .command .start c (fun hfalse => by cases hfalse) hstep h
    rw [hd]
    exact hany (.width 1 30) rfl (hany (.set _ _) rfl (hany (.set _ _) rfl .new))
  have hcut : d.grid.isStuck = false := by
    rw [hd]
    decide +kernel
  have hrepeatable : d.grid.IsRepeatable := by
    rw [hd]
    exact StandardLibrary.sheet_isRepeatable (by decide +kernel)
  have hsheet : d.sheet.cells = [(⟨0, 0⟩, "=  IIF(1, B1, B7)".toList), (⟨0, 1⟩, "' x".toList)] ∧
      d.sheet.widths = [(1, 30)] := by
    rw [hd]
    decide +kernel
  obtain ⟨hloaded, _, _, _, hrefresh⟩ := load_restores hreach hcut hrepeatable
    (s := ⟨d.sheet.cells.reverse, d.sheet.widths.reverse⟩) (List.reverse_perm _)
    (List.reverse_perm _) (new.set .start ⟨4, 4⟩ "=A1".toList) (.stage .start 1) .start
  exact ⟨d, _, hd, rfl, by rw [hloaded, hsheet.1], by rw [hloaded, hsheet.2], hrefresh⟩

end

end Document

end Spreadsheet

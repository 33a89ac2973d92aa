import Spreadsheet.Proofs.Lines
import Spreadsheet.Proofs.Loading

/-!
# Drafts

The draft of a document is what of it can be stored: the kinds and texts of the
cells with content, and the widths. An evaluation changes no kind and no text,
and a blank cell that it leaves is not stored. So every command makes the next
draft of the last one alone, whatever the formulas give, if the inputs show by
themselves what they are.
-/
namespace Spreadsheet
open Text Formula

/-! ## Entries -/

/-- What is stored of a cell. -/
structure Entry where
  kind : CellKind
  text : List Char
deriving DecidableEq, Repr

def Cell.entry (c : Cell) : Entry := ⟨c.kind, c.text⟩

/-- Whether the sheet has no part in what an input makes: it is empty, marked or a finite number. -/
def Grid.IsPlain (input : List Char) : Prop :=
  trim input = [] ∨ (∃ cs, trim input = '\'' :: cs) ∨ (∃ cs, trim input = '=' :: cs) ∨
    (finite? (trim input)).isSome = true

namespace Entry

def ofTrimmed : List Char → Entry
  | [] => ⟨.empty, []⟩
  | '\'' :: label => ⟨.label, label⟩
  | '=' :: formula => ⟨.formula, formula⟩
  | text => ⟨.number, text⟩

/-- What is stored of the cell that a plain input makes. -/
def ofInput (input : List Char) : Entry := ofTrimmed (trim input)

/-- The input that a copy commits, if the displacement is in range. -/
def copiedInput? (e : Entry) (origin target : Position) : Option (List Char) :=
  if e.kind = .formula then do
    let dcol ← Position.displacement? origin.col target.col
    let drow ← Position.displacement? origin.row target.row
    return '=' :: offsetReferences dcol drow e.text
  else some (e.kind.mark ++ e.text)

/-- An entry after an edit of lines. -/
def shifted (s : Shift) (e : Entry) : Entry :=
  if e.kind = .formula then ⟨.formula, shiftReferences s e.text⟩ else e

end Entry

namespace Grid

section
variable {g : Grid} {p : Position} {c : Cell} {input : List Char}

/-- Whatever an input is taken for, its text stays. -/
theorem text_evaluateInput [Engine] (g : Grid) (ω : Occasion) (p : Position) (input : List Char) :
    (g.evaluateInput ω p input).1.text = (Entry.ofInput input).text := by
  have hunmarked : ∀ (cs : List Char) (r : Resolution), (unmarkedCell cs r).text = cs := by
    intro cs r
    unfold unmarkedCell
    split <;> exact String.toList_ofList
  unfold evaluateInput Entry.ofInput
  generalize trim input = text
  split
  · rfl
  · exact String.toList_ofList
  · exact String.toList_ofList
  · rw [Entry.ofTrimmed]
    · split
      · exact String.toList_ofList
      · exact hunmarked text _
    all_goals assumption

/-- A plain input makes the same cell wherever and among whatever cells it is entered. -/
theorem entry_evaluateInput [Engine] (h : IsPlain input) (g : Grid) (ω : Occasion) (p : Position) :
    (g.evaluateInput ω p input).1.entry = Entry.ofInput input := by
  refine congrArg₂ Entry.mk ?_ (text_evaluateInput g ω p input)
  change _ = (Entry.ofInput input).kind
  unfold IsPlain at h
  unfold evaluateInput Entry.ofInput
  generalize trim input = text at h ⊢
  split
  · rfl
  · rfl
  · rfl
  · rename_i hnil hlabel hformula
    have hfinite : (finite? text).isSome = true := by
      rcases h with h | ⟨cs, h⟩ | ⟨cs, h⟩ | h
      · exact absurd h hnil
      · exact absurd h (hlabel cs)
      · exact absurd h (hformula cs)
      · exact h
    obtain ⟨x, hx⟩ := Option.isSome_iff_exists.1 hfinite
    rw [Entry.ofTrimmed]
    · simp only [hx]
      rfl
    all_goals assumption

theorem isPlain_of_mark {mark : Char} (hmark : mark = '\'' ∨ mark = '=') (cs : List Char) :
    IsPlain (mark :: cs) := by
  rcases hmark with rfl | rfl
  · exact .inr (.inl ⟨_, trim_cons_of_not_isBlank (by decide) cs⟩)
  · exact .inr (.inr (.inl ⟨_, trim_cons_of_not_isBlank (by decide) cs⟩))

/-- What a copy commits is plain. -/
theorem isPlain_of_copiedInput (h : c.IsTyped) {origin target : Position}
    (hinput : copiedInput? c origin target = some input) : IsPlain input := by
  unfold copiedInput? at hinput
  split at hinput
  · obtain ⟨dcol, -, hinput⟩ := Option.bind_eq_some_iff.1 hinput
    obtain ⟨drow, -, hinput⟩ := Option.bind_eq_some_iff.1 hinput
    cases hinput
    exact isPlain_of_mark (.inr rfl) _
  · cases hinput
    unfold Cell.input
    unfold Cell.IsTyped at h
    cases hk : c.kind with
    | empty =>
      rw [hk] at h
      exact .inl (by rw [Cell.text, h]; rfl)
    | number =>
      rw [hk] at h
      refine .inr (.inr (.inr ?_))
      rw [CellKind.mark, List.nil_append, h.1, h.2]
    | label => exact isPlain_of_mark (.inl rfl) _
    | formula => exact isPlain_of_mark (.inr rfl) _

theorem copiedInput?_entry (c : Cell) (origin target : Position) :
    c.entry.copiedInput? origin target = copiedInput? c origin target := by
  simp only [Entry.copiedInput?, copiedInput?, Cell.isFormula, beq_iff_eq, Cell.entry, Cell.input]
  rfl

theorem entry_shiftedCell (s : Shift) (c : Cell) : (shiftedCell s c).entry = c.entry.shifted s := by
  by_cases hf : c.isFormula = true
  · have hk : c.entry.kind = .formula := beq_iff_eq.1 hf
    have hk' : (shiftedCell s c).kind = .formula :=
      beq_iff_eq.1 ((isFormula_shiftedCell s c).trans hf)
    rw [Entry.shifted, if_pos hk, Cell.entry, hk', text_shiftedCell hf]
    rfl
  · have hk : c.entry.kind ≠ .formula := fun hk => hf (beq_iff_eq.2 hk)
    rw [Entry.shifted, if_neg hk, shiftedCell, if_neg hf]

/-- A copy of a cell without content has none. -/
theorem text_ofInput_of_copiedInput (hempty : c.isEmpty = true) {origin target : Position}
    (hinput : copiedInput? c origin target = some input) : (Entry.ofInput input).text = [] := by
  have htext : c.text = [] := by
    rw [isEmpty_eq_isEmpty_text, List.isEmpty_iff] at hempty
    exact hempty
  unfold copiedInput? at hinput
  split at hinput
  · obtain ⟨dcol, -, hinput⟩ := Option.bind_eq_some_iff.1 hinput
    obtain ⟨drow, -, hinput⟩ := Option.bind_eq_some_iff.1 hinput
    have hoffset : offsetReferences dcol drow [] = [] := by
      rw [offsetReferences]
      split
      · rfl
      · rw [replaceReferences, pieces, piecesFrom]
        rfl
    cases hinput
    rw [htext, hoffset]
    rfl
  · cases hinput
    rw [Cell.input, htext, List.append_nil]
    cases c.kind <;> rfl

end

end Grid

/-! ## Entries of a sheet -/

/-- The entries of a sheet by their places. None of them has an empty text. -/
abbrev Entries := Table Position Entry

/-- An entry at a place; one with an empty text is none. -/
def Entries.put (t : Entries) (p : Position) (e : Entry) : Entries :=
  if e.text.isEmpty then t.erase p else t.insert p e

theorem Entries.get?_put (t : Entries) (p q : Position) (e : Entry) :
    (t.put p e).get? q =
      if p = q then (if e.text.isEmpty then none else some e) else t.get? q := by
  unfold put
  split <;> simp

/-- The entries after an edit of lines. -/
def Entries.shift (t : Entries) (s : Shift) : Entries :=
  Table.ofList (t.entries.filterMap fun e => (s.apply e.1).map fun p => (p, e.2.shifted s))

namespace Grid

def entered (g : Grid) : Entries := g.prune.map Cell.entry

section
variable {g h : Grid} {p : Position} {c : Cell} {input : List Char}

theorem get?_entered (g : Grid) (p : Position) :
    g.entered.get? p = (g.prune.get? p).map Cell.entry := Table.get?_map ..

theorem entered_congr (hgh : ∀ q, h.prune.get? q = g.prune.get? q) : h.entered = g.entered :=
  Table.ext_get? fun q => by rw [get?_entered, get?_entered, hgh]

theorem entered_refresh [Engine] (g : Grid) (ω : Occasion) :
    (g.refresh ω).entered = g.entered := by
  refine Table.ext_get? fun q => ?_
  have hentry : Cell.entry ∘ Cell.unevaluated = Cell.entry := by
    funext c
    rw [Function.comp_apply, Cell.entry, Cell.entry, Cell.text, Cell.text, Cell.kind_unevaluated,
      Cell.raw_unevaluated]
  have hcontent := congrArg (Option.map Cell.entry) (sameContent_refresh ω g q)
  rw [Option.map_map, Option.map_map, hentry] at hcontent
  rw [get?_entered, get?_entered, hcontent]

theorem AddsBlanks.entered_eq (hgh : AddsBlanks g h) : h.entered = g.entered :=
  entered_congr hgh.get?_prune

theorem entered_insert (g : Grid) (p : Position) (c : Cell) :
    entered (g.insert p c) = g.entered.put p c.entry := by
  refine Table.ext_get? fun q => ?_
  rw [Entries.get?_put, get?_entered, get?_entered, get?_prune, get?_prune, Table.get?_insert]
  have hempty : c.entry.text.isEmpty = c.isEmpty := (isEmpty_eq_isEmpty_text c).symm
  rw [hempty]
  split
  · cases hc : c.isEmpty <;> simp [Option.filter, hc]
  · rfl

theorem entered_erase (g : Grid) (p : Position) : entered (g.erase p) = g.entered.erase p := by
  refine Table.ext_get? fun q => ?_
  rw [Table.get?_erase, get?_entered, get?_entered, get?_prune, get?_prune, Table.get?_erase]
  split <;> rfl

/-- A cell of the same kind and text does not show among the entries. -/
theorem entered_insert_of_entry_eq (hc : g.get? p = some c) {d : Cell} (hd : d.entry = c.entry) :
    entered (g.insert p d) = g.entered := by
  rw [entered_insert, hd, ← entered_insert]
  refine entered_congr fun q => ?_
  rw [get?_prune, get?_prune, Table.get?_insert]
  split
  · rename_i he
    rw [← he, hc]
  · rfl

section
variable [Engine] (ω : Occasion)

theorem entered_recompute (g : Grid) (p : Position) : (g.recompute ω p).entered = g.entered := by
  rcases recompute_cases ω g p with ⟨_, he⟩ | ⟨c, k, hc, _, hk, he⟩
  · rw [he]
  · rw [he, entered_insert_of_entry_eq (d := c.resolved _ _) (hk.get?_eq_some hc) rfl,
      hk.entered_eq]

theorem entered_cascade (bound : Nat) (p : Position) (g : Grid) :
    (cascade ω bound p g).2.entered = g.entered :=
  cascade_related (R := fun g h => h.entered = g.entered) (fun _ => rfl) (fun h k => k.trans h)
    entered_recompute ω bound p g

omit [Engine] in
theorem entered_failing (g : Grid) (p : Position) (fault : Fault) :
    (g.modify p fun c => c.failing fault).entered = g.entered := by
  cases hc : g.get? p with
  | none => rw [modify_of_none hc]
  | some c => rw [modify_of_get? hc, entered_insert_of_entry_eq (d := c.failing fault) hc rfl]

/-- A cascade changes no entry, whether or not it comes to an end. -/
theorem entered_cascadeFrom (g : Grid) (p : Position) :
    (g.cascadeFrom ω p).entered = g.entered := by
  cases hs : (cascade (ω.stage 0) (2 * g.size) p g).1 with
  | true => rw [cascadeFrom_of_true hs, entered_cascade]
  | false =>
    rw [cascadeFrom_of_false hs, entered_cascade, entered_failing, entered_cascade]

theorem entered_commit (h : IsPlain input) (g : Grid) (p : Position) :
    (g.commit ω p input).entered = g.entered.put p (Entry.ofInput input) := by
  have hsettled : ((g.enter (ω.stage 0) p input).cascadeFrom (ω.stage 1) p).entered =
      g.entered.put p (Entry.ofInput input) := by
    rw [entered_cascadeFrom, enter]
    dsimp only
    rw [entered_insert, entry_evaluateInput h, (evaluateInput_spec g _ p input).1.entered_eq]
  unfold commit
  dsimp only
  split
  · rw [entered_refresh]
    exact hsettled
  · exact hsettled

theorem entered_clear (g : Grid) (p : Position) : (g.clear ω p).entered = g.entered.erase p := by
  rw [clear, entered_cascadeFrom, entered_erase]

theorem entered_shift (g : Grid) (s : Shift) : (g.shift ω s).entered = g.entered.shift s := by
  rw [shift, entered_refresh]
  refine Table.ext_get? fun q => ?_
  by_cases hq : ∃ p, s.apply p = some q
  · obtain ⟨p, hp⟩ := hq
    rw [Entries.shift, Table.get?_moved Shift.apply_injective g.entered hp, get?_entered,
      get?_entered, get?_prune, get?_prune, get?_moved_of_apply hp]
    cases g.get? p with
    | none => rfl
    | some c =>
      cases hc : c.isEmpty <;> simp [Option.filter, isEmpty_shiftedCell, entry_shiftedCell, hc]
  · have hnone : ∀ p, s.apply p ≠ some q := fun p hp => hq ⟨p, hp⟩
    rw [Entries.shift, Table.get?_moved_of_none g.entered hnone, get?_entered, get?_prune,
      moved, Table.get?_moved_of_none g hnone]
    rfl

end

end

end Grid

/-! ## Drafts -/

/-- What of a document can be stored, and the width that needs no storing. -/
structure Draft where
  entries : Entries
  widths : ColumnWidths
  defaultWidth : UInt64

/-- A command whose input, if it has one, is plain and holds no carriage return. -/
def Command.IsPlain : Command → Prop
  | set _ input => Grid.IsPlain input ∧ '\r' ∉ input
  | _ => True

namespace Draft

def put (f : Draft) (p : Position) (e : Entry) : Draft := { f with entries := f.entries.put p e }

def erase (f : Draft) (p : Position) : Draft := { f with entries := f.entries.erase p }

def copy? (f : Draft) (origin target : Position) : Option Draft :=
  match f.entries.get? origin with
  | some e => (e.copiedInput? origin target).map fun input => f.put target (.ofInput input)
  | none => some (f.erase target)

def shift (f : Draft) (s : Shift) : Draft :=
  { f with entries := f.entries.shift s, widths := f.widths.shift s }

def setColumnWidth (f : Draft) (col width : UInt64) : Draft :=
  let width := max width 1
  { f with
    widths := if width = f.defaultWidth then f.widths.erase col else f.widths.insert col width }

/-- What a command makes of a draft, if the program does not abort. -/
def perform? (f : Draft) : Command → Option Draft
  | .set p input => some (f.put p (.ofInput input))
  | .clear p => some (f.erase p)
  | .insertRow row side => (side.boundary? row).map fun boundary => f.shift (.insertRow boundary)
  | .deleteRow row => some (f.shift (.deleteRow row))
  | .insertColumn col side =>
    (side.boundary? col).map fun boundary => f.shift (.insertColumn boundary)
  | .deleteColumn col => some (f.shift (.deleteColumn col))
  | .width col width => some (f.setColumnWidth col width)
  | .copy origin target => f.copy? origin target
  | .refresh => some f

theorem defaultWidth_of_perform {f f' : Draft} {c : Command} (h : f.perform? c = some f') :
    f'.defaultWidth = f.defaultWidth := by
  cases c with
  | copy origin target =>
    simp only [perform?, copy?] at h
    split at h
    · obtain ⟨input, -, rfl⟩ := Option.map_eq_some_iff.1 h
      rfl
    · cases h
      rfl
  | insertRow | insertColumn =>
    obtain ⟨boundary, -, rfl⟩ := Option.map_eq_some_iff.1 h
    rfl
  | _ =>
    cases h
    rfl

end Draft

namespace Document

def draft (d : Document) : Draft := ⟨d.grid.entered, d.widths, d.defaultWidth⟩

section
variable [Engine]

theorem draft_set {input : List Char} (h : Grid.IsPlain input) (d : Document) (ω : Occasion)
    (p : Position) : (d.set ω p input).draft = d.draft.put p (.ofInput input) :=
  congrArg (Draft.mk · d.widths d.defaultWidth) (Grid.entered_commit ω h d.grid p)

theorem draft_clear (d : Document) (ω : Occasion) (p : Position) :
    (d.clear ω p).draft = d.draft.erase p := by
  unfold clear
  split
  · exact congrArg (Draft.mk · d.widths d.defaultWidth) (Grid.entered_clear ω d.grid p)
  · rename_i hp
    have hnone : d.grid.get? p = none := by simpa [Table.contains] using hp
    have hentered : d.grid.entered.get? p = none := by
      rw [Grid.get?_entered, Grid.get?_prune, hnone]
      rfl
    rw [Draft.erase, draft, Table.erase_of_get?_eq_none hentered]

theorem draft_shift (d : Document) (ω : Occasion) (s : Shift) :
    (d.shift ω s).draft = d.draft.shift s :=
  congrArg (Draft.mk · (d.widths.shift s) d.defaultWidth) (Grid.entered_shift ω d.grid s)

variable {d e : Document} {ω : Occasion}

theorem draft_copy (h : d.grid.All Cell.IsTyped) {origin target : Position}
    (hstep : d.copy? ω origin target = some e) : d.draft.copy? origin target = some e.draft := by
  have hentered : d.draft.entries.get? origin = (d.grid.prune.get? origin).map Cell.entry :=
    Grid.get?_entered d.grid origin
  rw [Grid.get?_prune] at hentered
  unfold copy? at hstep
  unfold Draft.copy?
  cases hc : d.grid.get? origin with
  | none =>
    rw [hc] at hentered hstep
    cases hstep
    rw [hentered]
    exact congrArg some (draft_clear d ω target).symm
  | some c =>
    rw [hc] at hentered hstep
    obtain ⟨input, hinput, rfl⟩ := Option.map_eq_some_iff.1 hstep
    have hset := draft_set (Grid.isPlain_of_copiedInput (h origin c hc) hinput) d ω target
    rw [hset, hentered]
    -- A cell without content is copied to one, and so no entry to none.
    cases hempty : c.isEmpty with
    | true =>
      rw [Option.filter_some_neg (by simp [hempty]), Option.map_none]
      rw [Draft.put, Entries.put, Grid.text_ofInput_of_copiedInput hempty hinput]
      rfl
    | false =>
      rw [Option.filter_some_pos (by simp [hempty]), Option.map_some]
      dsimp only
      rw [Grid.copiedInput?_entry, hinput]
      rfl

/-- A command makes the next draft of the last one alone. -/
theorem draft_perform (h : d.grid.All Cell.IsTyped) {c : Command} (hc : c.IsPlain)
    (hstep : c.perform? ω d = some e) : d.draft.perform? c = some e.draft := by
  cases c with
  | copy origin target => exact draft_copy h hstep
  | insertRow row side | insertColumn col side =>
    obtain ⟨boundary, hboundary, rfl⟩ := Option.map_eq_some_iff.1 hstep
    simp only [Draft.perform?, hboundary, Option.map_some, draft_shift]
  | set p input =>
    cases hstep
    exact congrArg some (draft_set hc.1 d ω p).symm
  | clear p =>
    cases hstep
    exact congrArg some (draft_clear d ω p).symm
  | deleteRow row | deleteColumn col =>
    cases hstep
    exact congrArg some (draft_shift d ω _).symm
  | width col width =>
    cases hstep
    rfl
  | refresh =>
    cases hstep
    exact congrArg (fun es => some (Draft.mk es d.widths d.defaultWidth))
      (Grid.entered_refresh d.grid ω).symm

end

end Document

end Spreadsheet

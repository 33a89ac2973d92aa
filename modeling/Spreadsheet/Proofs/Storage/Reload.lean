import Spreadsheet.Proofs.Draft
import Spreadsheet.Proofs.Storage.Tbl

/-!
# Documents that are saved and loaded

A text that was typed is trimmed, and a width is at least one. If no carriage
return was typed either, the line format loses nothing of a document but what its
formulas gave. So the draft of the document comes back, and what further commands
make of it is the same as if there had been no saving and loading in between.
-/
namespace Spreadsheet
open Text Formula

/-! ## Characters that do not come up -/

theorem Text.mem_of_mem_trim {c : Char} {cs : List Char} (h : c ∈ trim cs) : c ∈ cs := by
  rw [trim, trimRight, List.mem_reverse] at h
  have hleft := List.mem_reverse.1 ((List.dropWhile_sublist _).subset h)
  exact (List.dropWhile_sublist _).subset hleft

namespace Formula

theorem mem_replaceReferences {replacement : Position → Option (List Char)} {c : Char}
    {cs : List Char} (h : c ∈ replaceReferences replacement cs) :
    c ∈ cs ∨ ∃ p new, replacement p = some new ∧ c ∈ new := by
  obtain ⟨piece, hpiece, hc⟩ := List.mem_flatMap.1 h
  cases hr : piece.reference?.bind replacement with
  | none =>
    rw [hr, Option.getD_none] at hc
    left
    rw [← text_piecesFrom false cs]
    exact List.mem_flatMap.2 ⟨piece, hpiece, hc⟩
  | some new =>
    rw [hr, Option.getD_some] at hc
    obtain ⟨p, _, hp⟩ := Option.bind_eq_some_iff.1 hr
    exact .inr ⟨p, new, hp, hc⟩

variable {cs : List Char}

theorem return_not_mem_name (p : Position) : '\r' ∉ p.name :=
  Tbl.not_mem_of_isAlphanum (fun _ => Position.isAlphanum_of_mem_name) (by decide)

theorem return_not_mem_shiftReferences (s : Shift) (h : '\r' ∉ cs) :
    '\r' ∉ shiftReferences s cs := by
  intro hm
  rcases mem_replaceReferences hm with hm | ⟨p, new, hp, hm⟩
  · exact h hm
  · split at hp
    · split at hp
      · cases hp
      · cases hp
        exact return_not_mem_name _ hm
    · cases hp
      exact absurd hm (by decide)

theorem return_not_mem_offsetReferences (dcol drow : Int) (h : '\r' ∉ cs) :
    '\r' ∉ offsetReferences dcol drow cs := by
  rw [offsetReferences]
  split
  · exact h
  · intro hm
    rcases mem_replaceReferences hm with hm | ⟨p, new, hp, hm⟩
    · exact h hm
    · cases hp
      split at hm
      · exact return_not_mem_name _ hm
      · exact absurd hm (by decide)

end Formula

namespace Entry

theorem mem_of_mem_ofInput {c : Char} {input : List Char} (h : c ∈ (ofInput input).text) :
    c ∈ input := by
  refine mem_of_mem_trim ?_
  unfold ofInput at h
  generalize trim input = text at h ⊢
  unfold ofTrimmed at h
  split at h
  · cases h
  · exact List.mem_cons_of_mem _ h
  · exact List.mem_cons_of_mem _ h
  · exact h

theorem return_not_mem_copiedInput {e : Entry} {origin target : Position} {input : List Char}
    (h : '\r' ∉ e.text) (hinput : e.copiedInput? origin target = some input) : '\r' ∉ input := by
  unfold copiedInput? at hinput
  split at hinput
  · obtain ⟨dcol, -, hinput⟩ := Option.bind_eq_some_iff.1 hinput
    obtain ⟨drow, -, hinput⟩ := Option.bind_eq_some_iff.1 hinput
    cases hinput
    simpa using return_not_mem_offsetReferences _ _ h
  · cases hinput
    have hmark : '\r' ∉ e.kind.mark := by cases e.kind <;> decide
    exact List.not_mem_append hmark h

end Entry

/-! ## Drafts without carriage returns -/

namespace Draft

def HasNoReturn (f : Draft) : Prop := ∀ p e, f.entries.get? p = some e → '\r' ∉ e.text

section
variable {f : Draft}

theorem HasNoReturn.put (h : f.HasNoReturn) (p : Position) {e : Entry} (he : '\r' ∉ e.text) :
    (f.put p e).HasNoReturn := by
  intro q d hd
  rw [Draft.put, Entries.get?_put] at hd
  split at hd
  · split at hd
    · cases hd
    · cases hd
      exact he
  · exact h q d hd

theorem HasNoReturn.erase (h : f.HasNoReturn) (p : Position) : (f.erase p).HasNoReturn := by
  intro q d hd
  rw [Draft.erase, Table.get?_erase] at hd
  split at hd
  · cases hd
  · exact h q d hd

theorem HasNoReturn.shift (h : f.HasNoReturn) (s : Shift) : (f.shift s).HasNoReturn := by
  intro q d hd
  obtain ⟨e, he, hm⟩ := List.mem_filterMap.1 (Table.mem_of_get?_ofList hd)
  obtain ⟨_, _, hm⟩ := Option.map_eq_some_iff.1 hm
  cases hm
  have htext := h e.1 e.2 ((Table.mem_entries_iff f.entries e.1 e.2).1 he)
  unfold Entry.shifted
  split
  · exact return_not_mem_shiftReferences s htext
  · exact htext

theorem HasNoReturn.perform {f' : Draft} {c : Command} (h : f.HasNoReturn) (hc : c.IsPlain)
    (hstep : f.perform? c = some f') : f'.HasNoReturn := by
  cases c with
  | set p input =>
    cases hstep
    exact h.put p fun hm => hc.2 (Entry.mem_of_mem_ofInput hm)
  | clear p =>
    cases hstep
    exact h.erase p
  | insertRow row side | insertColumn col side =>
    obtain ⟨boundary, -, rfl⟩ := Option.map_eq_some_iff.1 hstep
    exact h.shift _
  | deleteRow row | deleteColumn col =>
    cases hstep
    exact h.shift _
  | copy origin target =>
    simp only [Draft.perform?, Draft.copy?] at hstep
    split at hstep
    · rename_i e he
      obtain ⟨input, hinput, rfl⟩ := Option.map_eq_some_iff.1 hstep
      refine h.put target fun hm => ?_
      exact Entry.return_not_mem_copiedInput (h origin e he) hinput (Entry.mem_of_mem_ofInput hm)
    · cases hstep
      exact h.erase target
  | width | refresh =>
    cases hstep
    exact h

end

end Draft

/-! ## Loaded texts -/

namespace Tbl

theorem mem_of_mem_unescape {c : Char} {cs : List Char} (h : c ∈ unescape cs) :
    c ∈ cs ∨ c = '\n' := by
  fun_induction unescape cs with
  | case1 => cases h
  | case2 cs ih =>
    rcases List.mem_cons.1 h with rfl | h
    · simp
    · exact (ih h).imp_left fun h => by simp [h]
  | case3 cs ih =>
    rcases List.mem_cons.1 h with rfl | h
    · exact .inr rfl
    · exact (ih h).imp_left fun h => by simp [h]
  | case4 d cs _ _ ih =>
    rcases List.mem_cons.1 h with rfl | h
    · simp
    · exact (ih h).imp_left fun h => by simp [h]

/-- The input of a line for a cell has the characters of the line, and line breaks. -/
theorem mem_of_readLine {line input : List Char} {p : Position}
    (h : readLine line = .ok (.cell p input)) {c : Char} (hc : c ∈ input) :
    c ∈ line ∨ c = '\n' := by
  unfold readLine readTrimmed at h
  split at h
  · cases h
  · cases h
  · split at h
    · cases h
    · rename_i key value hcut
      obtain ⟨_, _, heq⟩ := eq_of_cut hcut
      have hline : ∀ d ∈ trim value, d ∈ line := by
        intro d hd
        refine mem_of_mem_trim ?_
        rw [heq]
        exact List.mem_append_right _ (List.mem_cons_of_mem _ (mem_of_mem_trim hd))
      unfold readPair at h
      split at h
      · rw [readWidth] at h
        split at h
        · cases h
        · split at h <;> cases h
      · split at h
        · cases h
          exact (mem_of_mem_unescape hc).imp_left (hline c)
        · cases h

/-- Every cell of a sheet was read from some line. -/
theorem exists_line_of_mem_cells {number : Nat} {lines : List (List Char)} {s : Sheet}
    (h : readLines number lines = .ok s) :
    ∀ e ∈ s.cells, ∃ line ∈ lines, readLine line = .ok (.cell e.1 e.2) := by
  induction lines generalizing number s with
  | nil =>
    cases h
    simp [Sheet.empty]
  | cons line lines ih =>
    rw [readLines] at h
    split at h
    · cases h
    · rename_i item hitem
      cases hrest : readLines (number + 1) lines with
      | error fault =>
        rw [hrest] at h
        cases h
      | ok rest =>
        rw [hrest] at h
        cases h
        have hlines : ∀ e ∈ rest.cells, ∃ l ∈ line :: lines, readLine l = .ok (.cell e.1 e.2) :=
          fun e he => (ih hrest e he).imp fun l hl => ⟨List.mem_cons_of_mem _ hl.1, hl.2⟩
        cases item with
        | nothing => exact hlines
        | cell p input =>
          exact List.forall_mem_cons.2 ⟨⟨line, List.mem_cons_self, hitem⟩, hlines⟩
        | width col width => exact hlines

theorem return_not_mem_of_read {content : List Char} {s : Sheet} (h : read content = .ok s)
    (hreturn : '\r' ∉ content) : ∀ e ∈ s.cells, '\r' ∉ e.2 := by
  intro e he hm
  obtain ⟨line, hline, hread⟩ := exists_line_of_mem_cells h e he
  rcases mem_of_readLine hread hm with hm | hm
  · exact hreturn (mem_of_mem_splitOn hline hm)
  · exact absurd hm (by decide)

end Tbl

namespace Grid

variable {g : Grid} {p : Position} {input : List Char}

theorem return_not_mem_enterAll [Engine] {ω : Occasion} {inputs : List (Position × List Char)}
    (hg : g.All fun c => '\r' ∉ c.text) (hinputs : ∀ e ∈ inputs, '\r' ∉ e.2) :
    (enterAll ω inputs g).All fun c => '\r' ∉ c.text := by
  have hblank : '\r' ∉ Cell.blank.text := by decide
  induction inputs generalizing g ω with
  | nil => exact hg
  | cons e inputs ih =>
    obtain ⟨he, hinputs⟩ := List.forall_mem_cons.1 hinputs
    have henter : (g.enter (ω.stage 0) e.1 e.2).All fun c => '\r' ∉ c.text :=
      (hg.addsBlanks hblank (evaluateInput_spec g _ e.1 e.2).1).insert
        (fun hm => he (Entry.mem_of_mem_ofInput (text_evaluateInput g _ e.1 e.2 ▸ hm))) e.1
    rw [enterAll]
    split
    · exact henter
    · exact ih henter hinputs

theorem hasNoReturn_of_all {d : Document} (h : d.grid.All fun c => '\r' ∉ c.text) :
    d.draft.HasNoReturn := by
  intro q e he
  rw [Document.draft, get?_entered, Option.map_eq_some_iff] at he
  obtain ⟨c, hc, rfl⟩ := he
  rw [get?_prune, Option.filter_eq_some_iff] at hc
  exact h q c hc.1

end Grid

/-! ## Documents that can be stored -/

namespace Document

/-- What is stored of the document can be read again as it is. -/
structure IsStorable (d : Document) : Prop where
  typed : d.grid.All Cell.IsTyped
  positive : d.widths.IsPositive
  noReturn : d.draft.HasNoReturn

section
variable [Engine] {d : Document}

omit [Engine] in
theorem isStorable_new : new.IsStorable where
  typed _ _ hc := by cases hc
  positive _ _ hw := by cases hw
  noReturn _ _ he := by cases he

omit [Engine] in
/-- Nothing but the cells and the widths counts. -/
theorem IsStorable.congr {e : Document} (h : d.IsStorable) (hgrid : e.grid = d.grid)
    (hwidths : e.widths = d.widths) : e.IsStorable where
  typed := hgrid ▸ h.typed
  positive := hwidths ▸ h.positive
  noReturn := by
    have hentries : e.draft.entries = d.draft.entries := congrArg Grid.entered hgrid
    intro p entry hentry
    exact h.noReturn p entry (hentries ▸ hentry)

theorem isStorable_load (d : Document) (ω : Occasion) {s : Sheet}
    (h : ∀ e ∈ s.cells, '\r' ∉ e.2) : (d.load ω s).IsStorable where
  typed := all_load (P := Cell.IsTyped) (fun _ _ _ hk hr hc => hc.congr hk hr) rfl
    Grid.isTyped_evaluateInput s
  positive := ColumnWidths.isPositive_ofPairs s.widths
  noReturn := by
    have hempty : Grid.All (fun c => '\r' ∉ c.text) Table.empty := fun _ _ hc => by cases hc
    refine Grid.hasNoReturn_of_all ((Grid.return_not_mem_enterAll hempty h).refresh ?_ (by decide))
    intro c d _ _ hr hc
    rwa [Cell.text, hr]

theorem IsStorable.perform (h : d.IsStorable) {ω : Occasion} {c : Command} (hc : c.IsPlain)
    {e : Document} (hstep : c.perform? ω d = some e) : e.IsStorable where
  typed := all_perform (P := Cell.IsTyped) (fun _ _ _ hk hr hc => hc.congr hk hr) rfl
    Grid.isTyped_evaluateInput hstep (fun s _ hf hc => Grid.isTyped_shiftedCell s hf hc)
    (.inr fun _ _ hc _ => hc.congr rfl rfl) h.typed
  positive := isPositive_perform h.positive hstep
  noReturn := h.noReturn.perform hc (draft_perform h.typed hc hstep)

omit [Engine] in
theorem IsStorable.of_mem_sheet (h : d.IsStorable) :
    ∀ e ∈ d.sheet.cells, trim e.2 = e.2 ∧ '\r' ∉ e.2 := by
  intro e he
  obtain ⟨⟨p, c⟩, hc, rfl⟩ := List.mem_map.1 he
  rw [Table.mem_entries_iff] at hc
  have hentry : d.draft.entries.get? p = some c.entry := by
    rw [draft, Grid.get?_entered, hc, Option.map_some]
  rw [Grid.get?_prune, Option.filter_eq_some_iff] at hc
  refine ⟨(h.typed p c hc.1).trim_input (by simpa using hc.2), ?_⟩
  have hmark : '\r' ∉ c.kind.mark := by cases c.kind <;> decide
  exact List.not_mem_append hmark (h.noReturn p c.entry hentry)

omit [Engine] in
/-- The line format gives back what is stored of the document. -/
theorem IsStorable.read_write (h : d.IsStorable) : Tbl.read (Tbl.write d.sheet) = .ok d.sheet := by
  have hwidths : ∀ e ∈ d.sheet.widths, 1 ≤ e.2 := fun e he =>
    h.positive e.1 e.2 ((Table.mem_entries_iff d.widths e.1 e.2).1 he)
  have hsame : (d.sheet.cells.map fun e => (e.1, Tbl.unescape (Tbl.escape e.2))) =
      d.sheet.cells := by
    refine (List.map_congr_left fun e he => ?_).trans (List.map_id _)
    rw [Tbl.unescape_escape_of_not_mem (h.of_mem_sheet e he).2]
    rfl
  rw [Tbl.read_write (fun e he => (h.of_mem_sheet e he).1) hwidths, hsame]

/-- A document that is loaded from what is stored of another has its draft. -/
theorem IsStorable.draft_load (h : d.IsStorable) (hcut : d.grid.isStuck = false) (e : Document)
    (ω : Occasion) :
    (e.load ω d.sheet).draft = ⟨d.draft.entries, d.draft.widths, e.defaultWidth⟩ := by
  have hentries : (e.load ω d.sheet).grid.entered = d.grid.entered := by
    refine Table.ext_get? fun p => ?_
    rw [Grid.get?_entered, Grid.get?_entered]
    refine Grid.map_get?_prune_ofInputs (fun c d hk hr => ?_) h.typed hcut (.refl _) ω p
    rw [Cell.entry, Cell.entry, Cell.text, Cell.text, hk, hr]
  have hwidths : (e.load ω d.sheet).widths = d.widths :=
    ColumnWidths.ofPairs_of_perm h.positive (.refl _)
  exact congrArg₂ (Draft.mk · · e.defaultWidth) hentries hwidths

end

/-- What is stored of a document shows in its draft. -/
theorem sheet_congr {d e : Document} (h : d.draft = e.draft) : d.sheet = e.sheet := by
  have hinputs : ∀ g : Grid, g.inputs =
      g.entered.entries.map fun e => (e.1, e.2.kind.mark ++ e.2.text) := fun g => by
    rw [Grid.entered, Table.map, List.map_map]
    rfl
  obtain ⟨hentries, hwidths, _⟩ := Draft.mk.inj h
  rw [sheet, sheet, hinputs, hinputs, hentries, hwidths]

end Document

end Spreadsheet

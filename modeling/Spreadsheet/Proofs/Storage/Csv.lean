import Spreadsheet.Proofs.Table
import Spreadsheet.Proofs.Text.Trimming
import Spreadsheet.Storage.Csv

/-!
# Written cells read back

A field is read as what was written, whether it needs quotes or not, and the
character behind it ends it. So the records of a written sheet are its rows, from
the first of the sheet to the last with a cell, and the fields that are not blank
are the cells. They are listed in the order of reading, which leaves one list of
them.
-/
namespace Spreadsheet.Csv
open Text Position

/-! ## Fields -/

section
variable {mark : Char} {stop : Stop} {rest : List Char}

attribute [local simp] scan

/-- Without quotes a field is read up to the next character that ends one. -/
theorem scan_plain {field : List Char} (hmark : scan false (mark :: rest) = ⟨[], false, stop, rest⟩)
    (h : ∀ c ∈ field, isSpecial c = false) :
    scan false (field ++ mark :: rest) = ⟨field, false, stop, rest⟩ := by
  induction field with
  | nil => exact hmark
  | cons c field ih =>
    obtain ⟨hc, hfield⟩ := List.forall_mem_cons.1 h
    simp only [isSpecial, Bool.or_eq_false_iff, beq_eq_false_iff_ne] at hc
    rw [List.cons_append, scan, ih hfield]
    · rfl
    all_goals simp_all

/-- Within quotes a field is read up to the quote that is not doubled. -/
theorem scan_doubled (field : List Char)
    (hmark : scan false (mark :: rest) = ⟨[], false, stop, rest⟩)
    (hquote : mark ≠ '"') :
    scan true (replaceChar '"' ['"', '"'] field ++ '"' :: mark :: rest) =
      ⟨field, false, stop, rest⟩ := by
  induction field with
  | nil =>
    rw [replaceChar, List.flatMap_nil, List.nil_append, scan, hmark]
    exact fun _ he => hquote (List.cons.inj he).1
  | cons c field ih =>
    rw [replaceChar] at ih
    rw [replaceChar, List.flatMap_cons]
    by_cases hc : c = '"'
    · subst hc
      simp [scan, ih, Scanned.add]
    · rw [if_neg hc, List.singleton_append, List.cons_append, scan, ih]
      · rfl
      all_goals simp_all

/-- A written field is read as it was, up to the character behind it. -/
theorem scan_escape (field : List Char)
    (hmark : scan false (mark :: rest) = ⟨[], false, stop, rest⟩)
    (hquote : mark ≠ '"') :
    (scan false (escape field ++ mark :: rest)).field = field ∧
      (scan false (escape field ++ mark :: rest)).stop = stop ∧
      (scan false (escape field ++ mark :: rest)).rest = rest := by
  rw [escape]
  split
  · rw [List.cons_append, List.cons_append, List.append_assoc, List.singleton_append, scan,
      scan_doubled field hmark hquote]
    exact ⟨rfl, rfl, rfl⟩
  · rename_i hplain
    rw [Bool.or_eq_true, not_or, bne_iff_ne, Decidable.not_not] at hplain
    rw [scan_plain hmark (by simpa using hplain.1)]
    exact ⟨hplain.2, rfl, rfl⟩

end

/-! ## Records -/

theorem recordsFrom_of_comma {begun : Bool} {cs : List Char}
    (h : (scan false cs).stop = .comma) :
    recordsFrom begun cs =
      addField (scan false cs).field (recordsFrom true (scan false cs).rest) := by
  rw [recordsFrom, dif_neg (by simp [h]), if_pos h]

theorem recordsFrom_of_line {begun : Bool} {cs : List Char} (h : (scan false cs).stop = .line) :
    recordsFrom begun cs = [(scan false cs).field] :: recordsFrom false (scan false cs).rest := by
  rw [recordsFrom, dif_neg (by simp [h]), if_neg (by simp [h])]

/-- A row in its written form, without the line break. -/
def joined (row : List (List Char)) : List Char := [','].intercalate (row.map escape)

/-- A row is read as one record of its fields. -/
theorem recordsFrom_joined {row : List (List Char)} (hrow : row ≠ []) (begun : Bool)
    (rest : List Char) :
    recordsFrom begun (joined row ++ '\n' :: rest) = row :: recordsFrom false rest := by
  have hcomma : ∀ rest, scan false (',' :: rest) = ⟨[], false, .comma, rest⟩ := fun rest => by
    rw [scan]
  have hline : scan false ('\n' :: rest) = ⟨[], false, .line, rest⟩ := by rw [scan]
  induction row generalizing begun with
  | nil => exact absurd rfl hrow
  | cons field row ih =>
    cases row with
    | nil =>
      obtain ⟨hfield, hstop, hrest⟩ := scan_escape field hline (by decide)
      rw [joined, List.map_singleton, List.intercalate_singleton, recordsFrom_of_line hstop, hfield,
        hrest]
    | cons next row =>
      have hsplit : joined (field :: next :: row) ++ '\n' :: rest =
          escape field ++ ',' :: (joined (next :: row) ++ '\n' :: rest) := by
        simp [joined, List.intercalate_cons_cons]
      obtain ⟨hfield, hstop, hrest⟩ := scan_escape field
        (hcomma (joined (next :: row) ++ '\n' :: rest)) (by decide)
      rw [hsplit, recordsFrom_of_comma hstop, hfield, hrest, ih (List.cons_ne_nil _ _) true]
      rfl

theorem records_joined {rows : List (List (List Char))} (h : ∀ row ∈ rows, row ≠ []) :
    records (rows.flatMap fun row => joined row ++ ['\n']) = rows := by
  induction rows with
  | nil =>
    rw [List.flatMap_nil, records, recordsFrom]
    rfl
  | cons row rows ih =>
    obtain ⟨hrow, hrows⟩ := List.forall_mem_cons.1 h
    rw [List.flatMap_cons, List.append_assoc, List.singleton_append, records,
      recordsFrom_joined hrow, ← records, ih hrows]

theorem length_addField_le (field : List Char) (rs : List (List (List Char))) :
    (addField field rs).length ≤ max 1 rs.length := by
  cases rs <;> simp [addField]

/-- A text has at most one record for each of its characters. -/
theorem length_recordsFrom_le (begun : Bool) (cs : List Char) :
    (recordsFrom begun cs).length ≤ cs.length + begun.toNat := by
  fun_induction recordsFrom begun cs with
  | case1 begun cs s hstop hrecord =>
    cases cs with
    | nil =>
      simp [s, scan] at hrecord
      simp [hrecord]
    | cons c cs =>
      simp only [List.length_cons, List.length_nil]
      omega
  | case2 => simp
  | case3 begun cs s hstop hcomma ih =>
    have hlt : s.rest.length < cs.length := scan_rest_lt hstop
    have hle := length_addField_le s.field (recordsFrom true s.rest)
    simp only [Bool.toNat_true] at ih
    omega
  | case4 begun cs s hstop hcomma ih =>
    have hlt : s.rest.length < cs.length := scan_rest_lt hstop
    simp only [Bool.toNat_false, List.length_cons] at ih ⊢
    omega

/-- A record has at most one field for each character of the text and one more. -/
theorem length_of_mem_recordsFrom {begun : Bool} {cs : List Char} :
    ∀ record ∈ recordsFrom begun cs, record.length ≤ cs.length + 1 := by
  fun_induction recordsFrom begun cs with
  | case1 => simp
  | case2 => simp
  | case3 begun cs s hstop hcomma ih =>
    have hlt : s.rest.length < cs.length := scan_rest_lt hstop
    intro record hrecord
    cases hrs : recordsFrom true s.rest with
    | nil =>
      rw [hrs, addField, List.mem_singleton] at hrecord
      subst hrecord
      simp
    | cons first rs =>
      rw [hrs] at ih hrecord
      obtain ⟨hfirst, hrest⟩ := List.forall_mem_cons.1 ih
      rcases List.mem_cons.1 hrecord with rfl | hrecord
      · rw [List.length_cons]
        omega
      · have := hrest record hrecord
        omega
  | case4 begun cs s hstop hcomma ih =>
    have hlt : s.rest.length < cs.length := scan_rest_lt hstop
    intro record hrecord
    rcases List.mem_cons.1 hrecord with rfl | hrecord
    · simp
    · have := ih record hrecord
      omega

/-! ## Cells -/

/-- The cells of records, which are the rows from the first of the sheet. -/
def cellsOf (rows : List (List (List Char))) : List (Position × List Char) :=
  rows.zipIdx.flatMap fun e => recordCells e.2 e.1

theorem mem_recordCells {row : Nat} {record : List (List Char)} {p : Position} {text : List Char} :
    (p, text) ∈ recordCells row record ↔
      ∃ col, record[col]? = some text ∧ trim text ≠ [] ∧
        p = ⟨UInt64.ofNat row, UInt64.ofNat col⟩ := by
  simp only [recordCells, List.mem_map, List.mem_filter, Prod.exists, Prod.mk.injEq,
    List.mk_mem_zipIdx_iff_getElem?, Bool.not_eq_true', List.isEmpty_eq_false_iff]
  constructor
  · rintro ⟨field, col, ⟨hcol, hfield⟩, rfl, rfl⟩
    exact ⟨col, hcol, hfield, rfl⟩
  · rintro ⟨col, hcol, hfield, rfl⟩
    exact ⟨text, col, ⟨hcol, hfield⟩, rfl, rfl⟩

/-- The cells of records are the fields that are not blank. -/
theorem mem_cellsOf {rows : List (List (List Char))} {p : Position} {text : List Char} :
    (p, text) ∈ cellsOf rows ↔
      ∃ row col record, rows[row]? = some record ∧ record[col]? = some text ∧ trim text ≠ [] ∧
        p = ⟨UInt64.ofNat row, UInt64.ofNat col⟩ := by
  simp only [cellsOf, List.mem_flatMap, Prod.exists, List.mk_mem_zipIdx_iff_getElem?,
    mem_recordCells]
  constructor
  · rintro ⟨record, row, hrow, col, h⟩
    exact ⟨row, col, record, hrow, h⟩
  · rintro ⟨row, col, record, hrow, h⟩
    exact ⟨record, row, hrow, col, h⟩

theorem pairwise_zipIdx {α : Type} (es : List α) :
    es.zipIdx.Pairwise fun a b => a.2 < b.2 := by
  rw [← List.pairwise_map (f := Prod.snd) (R := (· < ·)), List.zipIdx_map_snd]
  exact List.pairwise_lt_range'

theorem ofNat_lt {a b : Nat} (h : a < b) (hb : b < UInt64.size) :
    UInt64.ofNat a < UInt64.ofNat b := by
  rw [UInt64.lt_iff_toNat_lt, UInt64.toNat_ofNat_of_lt' (h.trans hb), UInt64.toNat_ofNat_of_lt' hb]
  exact h

/-- Cells are listed in the order of reading. -/
theorem pairwise_cellsOf {rows : List (List (List Char))} (hrows : rows.length ≤ UInt64.size)
    (hrow : ∀ row ∈ rows, row.length ≤ UInt64.size) :
    (cellsOf rows).Pairwise fun a b => a.1.Before b.1 := by
  have hindex : ∀ {α : Type} {es : List α} {e : α × Nat}, e ∈ es.zipIdx → es.length ≤ UInt64.size →
      e.2 < UInt64.size := by
    intro α es e he hes
    exact (List.getElem?_eq_some_iff.1 (List.mk_mem_zipIdx_iff_getElem?.1 he)).1.trans_le hes
  refine List.pairwise_flatMap.2 ⟨fun e he => ?_, ?_⟩
  · have hlength := hrow e.1 (List.fst_mem_of_mem_zipIdx he)
    refine List.pairwise_map.2 (((pairwise_zipIdx e.1).filter _).imp_of_mem fun _ hb hlt => .inr ?_)
    exact ⟨rfl, ofNat_lt hlt (hindex (List.mem_filter.1 hb).1 hlength)⟩
  · refine (pairwise_zipIdx rows).imp_of_mem fun _ hb hlt x hx y hy => .inl ?_
    obtain ⟨_, _, _, hx⟩ := mem_recordCells.1 hx
    obtain ⟨_, _, _, hy⟩ := mem_recordCells.1 hy
    rw [hx, hy]
    exact ofNat_lt hlt (hindex hb hrows)

/-! ## Sheets -/

theorem le_max (a b : UInt64) : a ≤ max a b ∧ b ≤ max a b := by
  change a ≤ (if a ≤ b then b else a) ∧ b ≤ if a ≤ b then b else a
  split
  · rename_i h
    exact ⟨h, UInt64.le_refl b⟩
  · rename_i h
    exact ⟨UInt64.le_refl a, (UInt64.le_total a b).resolve_left h⟩

theorem le_largest {cs : List UInt64} {c : UInt64} (h : c ∈ cs) : c ≤ largest cs := by
  have hfold : ∀ (cs : List UInt64) (m : UInt64),
      m ≤ cs.foldl max m ∧ ∀ c ∈ cs, c ≤ cs.foldl max m := by
    intro cs
    induction cs with
    | nil => exact fun m => ⟨UInt64.le_refl m, by simp⟩
    | cons d cs ih =>
      intro m
      obtain ⟨hfirst, hcs⟩ := ih (max m d)
      obtain ⟨hm, hd⟩ := le_max m d
      exact ⟨UInt64.le_trans hm hfirst, List.forall_mem_cons.2 ⟨UInt64.le_trans hd hfirst, hcs⟩⟩
  exact (hfold cs 0).2 c h

/-- The largest of some is one of them. -/
theorem largest_mem {cs : List UInt64} (h : cs ≠ []) : largest cs ∈ cs := by
  have hfold : ∀ (cs : List UInt64) (m : UInt64), cs.foldl max m = m ∨ cs.foldl max m ∈ cs := by
    intro cs
    induction cs with
    | nil => exact fun m => .inl rfl
    | cons d cs ih =>
      intro m
      have hmax : max m d = m ∨ max m d = d := by
        change (if m ≤ d then d else m) = m ∨ (if m ≤ d then d else m) = d
        split
        · exact .inr rfl
        · exact .inl rfl
      rw [List.foldl_cons, List.mem_cons]
      rcases ih (max m d) with hfirst | hcs
      · rw [hfirst]
        exact hmax.imp_right .inl
      · exact .inr (.inr hcs)
  rcases hfold cs 0 with hzero | hmem
  · obtain ⟨c, hc⟩ := List.exists_mem_of_ne_nil cs h
    have hle := le_largest hc
    rw [largest, hzero, UInt64.le_zero_iff] at hle
    rw [largest, hzero, ← hle]
    exact hc
  · exact hmem

theorem getElem?_span {last : UInt64} {i : Nat} {c : UInt64} :
    (span 0 last)[i]? = some c ↔ i ≤ last.toNat ∧ UInt64.ofNat i = c := by
  simp only [span, List.getElem?_eq_some_iff, List.length_map, List.length_range, List.getElem_map,
    List.getElem_range, exists_prop, UInt64.toNat_zero, Nat.sub_zero, Nat.zero_add,
    Nat.lt_succ_iff]

theorem getElem?_span_of_le {last c : UInt64} (h : c ≤ last) : (span 0 last)[c.toNat]? = some c :=
  getElem?_span.2 ⟨UInt64.le_iff_toNat_le.1 h, UInt64.ofNat_toNat⟩

theorem length_span_le (last : UInt64) : (span 0 last).length ≤ UInt64.size := by
  rw [span, List.length_map, List.length_range]
  exact last.toNat_lt

/-- The texts of the rows that are written, a gap as an empty text. -/
def rows (cells : List (Position × List Char)) : List (List (List Char)) :=
  (span 0 (largest (cells.map fun e => e.1.row))).map fun row =>
    (span 0 (largest (cells.map fun e => e.1.col))).map fun col =>
      ((Table.ofList cells).get? ⟨row, col⟩).getD []

/-- Cells that lie within the limit of what is laid out. -/
def Fits (cells : List (Position × List Char)) : Prop :=
  ∀ e ∈ cells, e.1.col.toNat < sizeLimit ∧ e.1.row.toNat < sizeLimit

theorem largest_lt_iff {cs : List UInt64} {n : Nat} (hcs : cs ≠ []) :
    (largest cs).toNat < n ↔ ∀ c ∈ cs, c.toNat < n := by
  constructor
  · exact fun h c hc => (UInt64.le_iff_toNat_le.1 (le_largest hc)).trans_lt h
  · exact fun h => h _ (largest_mem hcs)

/-- The text of a sheet, when it has one. -/
theorem write?_eq {cells : List (Position × List Char)} (hcells : cells ≠ []) :
    (Fits cells → write? cells = some ((rows cells).flatMap fun row => joined row ++ ['\n'])) ∧
      (¬ Fits cells → write? cells = none) := by
  have hfield : ∀ text? : Option (List Char),
      (text?.map escape).getD [] = escape (text?.getD []) := by
    rintro (_ | text)
    · rfl
    · rfl
  have hlimit : ((largest (cells.map fun e => e.1.col)).toNat < sizeLimit ∧
      (largest (cells.map fun e => e.1.row)).toNat < sizeLimit) ↔ Fits cells := by
    rw [largest_lt_iff (by simpa using hcells), largest_lt_iff (by simpa using hcells), Fits,
      List.forall_mem_map, List.forall_mem_map]
    exact forall₂_and.symm
  rw [write?, if_neg (by simpa using hcells)]
  constructor
  · intro hfits
    rw [if_pos (hlimit.2 hfits), rows, List.flatMap_map]
    refine congrArg some (List.flatMap_congr fun row _ => ?_)
    rw [writeRow, joined, List.map_map]
    simp only [hfield, Function.comp_def]
  · exact fun hfits => if_neg (mt hlimit.1 hfits)

theorem write?_eq_none_iff {cells : List (Position × List Char)} :
    write? cells = none ↔ ¬ Fits cells := by
  by_cases hcells : cells = []
  · subst hcells
    simp [write?, Fits]
  · by_cases hfits : Fits cells
    · simp [(write?_eq hcells).1 hfits, hfits]
    · simp [(write?_eq hcells).2 hfits, hfits]

theorem records_of_write? {cells : List (Position × List Char)} {text : List Char}
    (hcells : cells ≠ []) (h : write? cells = some text) : records text = rows cells := by
  have hfits : Fits cells := by
    by_contra hfits
    rw [(write?_eq hcells).2 hfits] at h
    cases h
  rw [(write?_eq hcells).1 hfits, Option.some.injEq] at h
  subst h
  refine records_joined fun row hrow => ?_
  obtain ⟨r, _, rfl⟩ := List.mem_map.1 hrow
  simp [span]

/-- The cells of the rows of a sheet are its cells, but for those that are blank. -/
theorem mem_cellsOf_rows {cells : List (Position × List Char)}
    (hsorted : cells.Pairwise fun a b => a.1.Before b.1) {p : Position} {text : List Char} :
    (p, text) ∈ cellsOf (rows cells) ↔ (p, text) ∈ cells ∧ trim text ≠ [] := by
  have hget : ∀ {p : Position} {text : List Char},
      (Table.ofList cells).get? p = some text ↔ (p, text) ∈ cells := by
    intro p text
    rw [← Table.mem_entries_iff, Table.entries_ofList hsorted]
  rw [mem_cellsOf]
  constructor
  · rintro ⟨row, col, record, hrow, hcol, htext, rfl⟩
    refine ⟨?_, htext⟩
    simp only [rows, List.getElem?_map, Option.map_eq_some_iff, getElem?_span] at hrow
    obtain ⟨_, ⟨_, rfl⟩, rfl⟩ := hrow
    simp only [List.getElem?_map, Option.map_eq_some_iff, getElem?_span] at hcol
    obtain ⟨_, ⟨_, rfl⟩, hcell⟩ := hcol
    cases h : (Table.ofList cells).get? ⟨UInt64.ofNat row, UInt64.ofNat col⟩ with
    | none =>
      rw [h] at hcell
      exact absurd (hcell ▸ rfl) htext
    | some found =>
      rw [h] at hcell
      exact hget.1 (h.trans (congrArg some hcell))
  · rintro ⟨hmem, htext⟩
    have hrow : p.row ≤ largest (cells.map fun e => e.1.row) :=
      le_largest (List.mem_map_of_mem (f := fun e => e.1.row) hmem)
    have hcol : p.col ≤ largest (cells.map fun e => e.1.col) :=
      le_largest (List.mem_map_of_mem (f := fun e => e.1.col) hmem)
    have hrecord : (rows cells)[p.row.toNat]? = some
        ((span 0 (largest (cells.map fun e => e.1.col))).map fun col =>
          ((Table.ofList cells).get? ⟨p.row, col⟩).getD []) := by
      rw [rows, List.getElem?_map, getElem?_span_of_le hrow, Option.map_some]
    refine ⟨p.row.toNat, p.col.toNat, _, hrecord, ?_, htext, ?_⟩
    · rw [List.getElem?_map, getElem?_span_of_le hcol, Option.map_some, hget.2 hmem,
        Option.getD_some]
    · rw [UInt64.ofNat_toNat, UInt64.ofNat_toNat]

/-- Cells in the order of reading come back, but for those that are blank. -/
theorem read_of_write? {cells : List (Position × List Char)} {text : List Char}
    (hsorted : cells.Pairwise fun a b => a.1.Before b.1) (htexts : ∀ e ∈ cells, trim e.2 ≠ [])
    (h : write? cells = some text) : read text = cells := by
  by_cases hcells : cells = []
  · subst hcells
    obtain rfl : [] = text := Option.some.inj h
    rw [read, records, recordsFrom]
    rfl
  · have hread : read text = cellsOf (rows cells) :=
      congrArg cellsOf (records_of_write? hcells h)
    rw [hread]
    refine Table.eq_of_mem_iff (pairwise_cellsOf ?_ ?_) hsorted fun e => ?_
    · rw [rows, List.length_map]
      exact length_span_le _
    · intro row hrow
      obtain ⟨r, _, rfl⟩ := List.mem_map.1 hrow
      rw [List.length_map]
      exact length_span_le _
    · rw [mem_cellsOf_rows hsorted]
      exact ⟨And.left, fun he => ⟨he, htexts e he⟩⟩

/-- What is read is in the order of reading, and no text of it is blank. -/
theorem read_sorted {content : List Char} (h : content.length < UInt64.size) :
    (read content).Pairwise fun a b => a.1.Before b.1 := by
  have hlength := length_recordsFrom_le false content
  refine pairwise_cellsOf (hlength.trans ?_) fun record hrecord => ?_
  · simpa using h.le
  · exact (length_of_mem_recordsFrom record hrecord).trans h

theorem trim_of_mem_read {content : List Char} : ∀ e ∈ read content, trim e.2 ≠ [] := by
  intro e he
  obtain ⟨_, _, _, _, _, htext, _⟩ := mem_cellsOf.1 he
  exact htext

/-- What is read from a text with fewer characters than the limit lies within it. -/
theorem fits_read {content : List Char} (h : content.length < sizeLimit) :
    Fits (read content) := by
  have hsmall : ∀ {n : Nat}, n < sizeLimit → (UInt64.ofNat n).toNat < sizeLimit := fun hn =>
    (Nat.mod_le _ _).trans_lt hn
  intro e he
  obtain ⟨row, col, record, hrow, hcol, _, hp⟩ := mem_cellsOf.1 he
  obtain ⟨hlength, hrecord⟩ := List.getElem?_eq_some_iff.1 hrow
  have hrows : (records content).length ≤ content.length := length_recordsFrom_le false content
  have hfields := length_of_mem_recordsFrom record (hrecord ▸ List.getElem_mem hlength)
  have hfield : col < record.length := (List.getElem?_eq_some_iff.1 hcol).1
  rw [hp]
  constructor
  · refine hsmall ?_
    omega
  · refine hsmall ?_
    omega

/-- Cells in the order of reading whose texts are not blank come back from their written form, which
they have if and only if all of them lie within the limit. So a text that is read, written and read
again holds the cells that it held at first, and it can be written again whenever it has fewer
characters than the limit. -/
theorem written_cells_read_back (cells : List (Position × List Char)) (content : List Char) :
    (cells.Pairwise (fun a b => a.1.Before b.1) → (∀ e ∈ cells, trim e.2 ≠ []) →
      (write? cells = none ↔ ¬ Fits cells) ∧
        ∀ text, write? cells = some text → read text = cells) ∧
    (content.length < UInt64.size →
      (content.length < sizeLimit → write? (read content) ≠ none) ∧
        ∀ text, write? (read content) = some text → read text = read content) :=
  ⟨fun hsorted htexts =>
    ⟨write?_eq_none_iff, fun _ => read_of_write? hsorted htexts⟩,
  fun h =>
    ⟨fun hlength => mt write?_eq_none_iff.1 (not_not_intro (fits_read hlength)),
      fun _ => read_of_write? (read_sorted h) trim_of_mem_read⟩⟩

/-- Texts with a comma, quotes, line breaks and blanks at their ends, and gaps before and between
them. -/
theorem written_cells_read_back_gaps :
    ∃ (cells : List (Position × List Char)) (text content again : List Char),
    cells = [(⟨1, 1⟩, "a,\"b\"".toList), (⟨1, 3⟩, " x\r\n".toList), (⟨3, 0⟩, "\ry".toList)] ∧
    content = ",\"a \"\"\r\n\",\r\n\n b \rc ,\"\"".toList ∧
    cells.Pairwise (fun a b => a.1.Before b.1) ∧ (∀ e ∈ cells, trim e.2 ≠ []) ∧
    write? cells = some text ∧ read text = cells ∧
    content.length < UInt64.size ∧ content.length < sizeLimit ∧
    read content = [(⟨0, 1⟩, "a \"\r\n".toList), (⟨2, 0⟩, "b \rc".toList)] ∧
    write? (read content) = some again ∧ read again = read content := by
  obtain ⟨cells, hcells⟩ : ∃ cells : List (Position × List Char), cells =
    [(⟨1, 1⟩, "a,\"b\"".toList), (⟨1, 3⟩, " x\r\n".toList), (⟨3, 0⟩, "\ry".toList)] := ⟨_, rfl⟩
  obtain ⟨content, hcontent⟩ : ∃ content : List Char,
    content = ",\"a \"\"\r\n\",\r\n\n b \rc ,\"\"".toList := ⟨_, rfl⟩
  have hsorted : cells.Pairwise fun a b => a.1.Before b.1 := by
    rw [hcells]
    decide
  have htexts : ∀ e ∈ cells, trim e.2 ≠ [] := by
    rw [hcells]
    decide
  have hfits : Fits cells := by
    rw [hcells]
    unfold Fits
    decide
  have hlength : content.length < UInt64.size := by
    rw [hcontent]
    decide
  have hlimit : content.length < sizeLimit := by
    rw [hcontent]
    decide
  have hread : read content = [(⟨0, 1⟩, "a \"\r\n".toList), (⟨2, 0⟩, "b \rc".toList)] := by
    rw [hcontent]
    decide +kernel
  obtain ⟨hcells', hcontent'⟩ := written_cells_read_back cells content
  obtain ⟨hnone, hback⟩ := hcells' hsorted htexts
  obtain ⟨hwritten, hagain⟩ := hcontent' hlength
  obtain ⟨text, htext⟩ := Option.ne_none_iff_exists'.1 fun h => hnone.1 h hfits
  obtain ⟨again, hagain?⟩ := Option.ne_none_iff_exists'.1 (hwritten hlimit)
  exact ⟨cells, text, content, again, hcells, hcontent, hsorted, htexts, htext, hback text htext,
    hlength, hlimit, hread, hagain?, hagain again hagain?⟩

/-- A cell in the last column of a sheet has no written form. -/
theorem exists_cells_unwritten :
    ∃ cells : List (Position × List Char), cells = [(⟨0, UInt64.ofNat (UInt64.size - 1)⟩, ['5'])] ∧
      cells.Pairwise (fun a b => a.1.Before b.1) ∧ (∀ e ∈ cells, trim e.2 ≠ []) ∧
      write? cells = none := by
  refine ⟨_, rfl, List.pairwise_singleton _ _, by decide, write?_eq_none_iff.2 fun h => ?_⟩
  exact absurd (h _ (List.mem_singleton_self _)).1 (by decide)

end Spreadsheet.Csv

import Spreadsheet.Proofs.Position.Spelling
import Spreadsheet.Proofs.Text.Splitting
import Spreadsheet.Proofs.Text.Trimming
import Spreadsheet.Storage.Tbl

/-!
# Written sheets read back

Every item of a sheet has a line of its own, which is read as that item. The
name in front of the first colon has none, no line break is left in an escaped
input, and its first and last character are those of the input or a backslash.
So the lines are split where they were joined, and what they hold comes back in
its order. Of an input only the carriage returns are lost.
-/
namespace Spreadsheet.Tbl
open Text Position

/-! ## Escaped inputs -/

section
variable {c : Char} {cs : List Char}

/-- What a single character is escaped to. -/
def escapeChar (c : Char) : List Char :=
  if c = '\\' then ['\\', '\\'] else if c = '\n' then ['\\', 'n'] else if c = '\r' then [] else [c]

theorem escape_cons (c : Char) (cs : List Char) : escape (c :: cs) = escapeChar c ++ escape cs := by
  unfold escapeChar
  split_ifs with hslash hbreak hreturn
  · subst hslash
    rfl
  · subst hbreak
    rfl
  · subst hreturn
    rfl
  · rw [escape]
    · rfl
    all_goals assumption

theorem escape_append (xs ys : List Char) : escape (xs ++ ys) = escape xs ++ escape ys := by
  induction xs with
  | nil => rfl
  | cons c xs ih => rw [List.cons_append, escape_cons, escape_cons, ih, List.append_assoc]

theorem unescape_cons (hc : c ≠ '\\') (cs : List Char) : unescape (c :: cs) = c :: unescape cs := by
  rw [unescape]
  · rintro _ rfl
    exact absurd rfl hc
  · rintro _ rfl
    exact absurd rfl hc

/-- Nothing but the carriage returns is lost. -/
theorem unescape_escape (cs : List Char) : unescape (escape cs) = cs.filter fun c => c != '\r' := by
  induction cs with
  | nil => rfl
  | cons c cs ih =>
    rw [escape_cons]
    unfold escapeChar
    split_ifs with hslash hbreak hreturn
    · subst hslash
      simp [unescape, ih]
    · subst hbreak
      simp [unescape, ih]
    · subst hreturn
      simpa using ih
    · simp [unescape_cons hslash, ih, hreturn]

theorem unescape_escape_of_not_mem (h : '\r' ∉ cs) : unescape (escape cs) = cs := by
  rw [unescape_escape, List.filter_eq_self]
  intro c hc
  simpa using fun he : c = '\r' => h (he ▸ hc)

theorem not_mem_escape (cs : List Char) : '\n' ∉ escape cs := by
  induction cs with
  | nil => simp [escape]
  | cons c cs ih =>
    rw [escape_cons, List.mem_append, not_or]
    refine ⟨?_, ih⟩
    unfold escapeChar
    split_ifs with hslash hbreak hreturn
    all_goals simp_all [eq_comm]

/-- A character that is no blank is escaped to characters that are none. -/
theorem escapeChar_of_not_isBlank (hc : isBlank c = false) :
    escapeChar c = if c = '\\' then ['\\', '\\'] else [c] := by
  unfold escapeChar
  split_ifs with hslash hbreak hreturn
  · rfl
  · subst hbreak
    exact absurd hc (by decide)
  · subst hreturn
    exact absurd hc (by decide)
  · rfl

theorem trimRight_escapeChar (hc : isBlank c = false) :
    trimRight (escapeChar c) = escapeChar c := by
  rw [escapeChar_of_not_isBlank hc]
  refine trimRight_of_forall fun d hd => ?_
  split_ifs at hd with hslash
  · have : d = '\\' := by simpa using hd
    subst this
    decide
  · rwa [List.mem_singleton.1 hd]

/-- An escaped input is as trimmed as the input. -/
theorem trim_escape (h : trim cs = cs) : trim (escape cs) = escape cs := by
  obtain ⟨hhead, hlast⟩ := trim_eq_self_iff.1 h
  refine trim_eq_self_iff.2 ⟨?_, ?_⟩
  · cases cs with
    | nil => simp [escape]
    | cons c cs =>
      have hc := hhead c rfl
      rw [escape_cons, escapeChar_of_not_isBlank hc]
      split_ifs
      · simp [isBlank]
      · simpa using hc
  · rcases List.eq_nil_or_concat cs with rfl | ⟨front, last, rfl⟩
    · rfl
    · rw [List.concat_eq_append] at hlast ⊢
      have hc : isBlank last = false := by simpa using trimRight_eq_self_iff.1 hlast
      have hne : escapeChar last ≠ [] := by
        rw [escapeChar_of_not_isBlank hc]
        split_ifs <;> simp
      have hend : escape [last] = escapeChar last := by simp [escape_cons, escape]
      rw [escape_append, hend, trimRight_append_eq_self_iff _ hne]
      exact trimRight_escapeChar hc

end

/-! ## Lines -/

/-- A line with a name, a colon and a text is read as the two. -/
theorem readLine_pair {key value : List Char} (hkey : key ≠ []) (htrim : trim key = key)
    (hcolon : ':' ∉ key) (hcomment : '#' ∉ key) (hvalue : trim value = value) :
    readLine (key ++ ':' :: ' ' :: value) = readPair key value := by
  have hline : trim (key ++ ':' :: ' ' :: value) = key ++ ':' :: trimRight (' ' :: value) := by
    cases key with
    | nil => exact absurd rfl hkey
    | cons c key =>
      have hc := (trim_eq_self_iff.1 htrim).1 c rfl
      rw [List.cons_append, trim_cons_of_not_isBlank hc, trimRight_append_cons _ _ (by decide)]
      rfl
  have hrest : trim (trimRight (' ' :: value)) = value := by
    by_cases hv : value = []
    · subst hv
      decide
    · have hspace := (trimRight_append_eq_self_iff [' '] hv).2 (trimRight_of_trim hvalue)
      rw [List.singleton_append] at hspace
      rw [hspace, trim, trimLeft, List.dropWhile_cons_of_pos (by decide)]
      exact hvalue
  have hcut : cut (fun c => c = ':') (key ++ ':' :: trimRight (' ' :: value)) =
      some (key, trimRight (' ' :: value)) := by
    have hfront : ∀ c ∈ key, decide (c = ':') = false := by
      intro c hc
      exact decide_eq_false fun he => hcolon (he ▸ hc)
    rw [cut_append hfront]
    simp [cut]
  rw [readLine, hline]
  cases key with
  | nil => exact absurd rfl hkey
  | cons c key =>
    have hc : c ≠ '#' := fun he => hcomment (he ▸ List.mem_cons_self)
    rw [List.cons_append] at hcut ⊢
    rw [readTrimmed]
    · rw [hcut]
      dsimp only
      rw [htrim, hrest]
    · exact List.cons_ne_nil _ _
    · rintro _ he
      exact hc (List.cons.inj he).1

theorem not_mem_of_isAlphanum {c : Char} {cs : List Char} (h : ∀ d ∈ cs, d.isAlphanum = true)
    (hc : c.isAlphanum = false) : c ∉ cs := by
  intro hm
  rw [h c hm] at hc
  cases hc

theorem readLine_cellLine (p : Position) {input : List Char} (h : trim input = input) :
    readLine (cellLine p input) = .ok (.cell p (unescape (escape input))) := by
  have hname : ∀ c ∈ p.name, c.isAlphanum = true := fun _ => isAlphanum_of_mem_name
  rw [cellLine, readLine_pair (name_ne_nil p) (trim_of_isAlphanum hname)
    (not_mem_of_isAlphanum hname (by decide)) (not_mem_of_isAlphanum hname (by decide))
    (trim_escape h), readPair]
  -- A name starts with a capital and the mark of a width with a small letter.
  have hmark : dropLead? widthMark p.name = none := by
    refine dropLead?_of_head (fun hhead => ?_)
    have := isLower_of_mem_name (List.mem_of_mem_head? hhead)
    exact absurd this (by decide)
  rw [hmark]
  simp only [ofName?_name]

theorem readLine_widthLine (col : UInt64) {width : UInt64} (h : 1 ≤ width) :
    readLine (widthLine col width) = .ok (.width col width) := by
  have hletters : ∀ c ∈ columnLetters col, c.isAlphanum = true := fun _ hc =>
    isAlphanum_of_isAlpha (isAlpha_of_mem_columnLetters hc)
  have hdigits : ∀ c ∈ Decimal.digits width.toNat, c.isAlphanum = true := fun _ hc =>
    isAlphanum_of_isDigit (Decimal.isDigit_of_mem_digits hc)
  have hmark : ∀ {c : Char}, c ∉ widthMark → c.isAlphanum = false →
      c ∉ widthMark ++ columnLetters col := fun hmark hc =>
    List.not_mem_append hmark (not_mem_of_isAlphanum hletters hc)
  have htrim : trim (widthMark ++ columnLetters col) = widthMark ++ columnLetters col := by
    refine trim_eq_self_iff.2 ⟨by simp [widthMark, isBlank], ?_⟩
    exact (trimRight_append_eq_self_iff _ (columnLetters_ne_nil col)).2
      (trimRight_of_trim (trim_of_isAlphanum hletters))
  have hwidth : (Decimal.word? (Decimal.digits width.toNat)).filter (fun w => w != 0) =
      some width := by
    rw [Decimal.word?_digits, Option.filter_some_pos]
    rw [bne_iff_ne]
    rintro rfl
    exact absurd h (by decide)
  rw [widthLine, readLine_pair (List.append_ne_nil_of_right_ne_nil _ (columnLetters_ne_nil col))
    htrim (hmark (by decide) (by decide)) (hmark (by decide) (by decide))
    (trim_of_isAlphanum hdigits), readPair]
  have hlead : dropLead? widthMark (widthMark ++ columnLetters col) =
      some (columnLetters col) := rfl
  rw [hlead]
  dsimp only
  rw [readWidth, trim_of_isAlphanum hletters, column?_columnLetters]
  dsimp only
  rw [hwidth]

/-! ## Sheets -/

/-- Lines that are read as items are read as the sheet of the items, in their order. -/
theorem readLines_append {α : Type} {line : α → List Char} {item : α → Item} {es : List α}
    (h : ∀ e ∈ es, readLine (line e) = .ok (item e)) {rest : List (List Char)} {s : Sheet}
    (hrest : ∀ number, readLines number rest = .ok s) (number : Nat) :
    readLines number (es.map line ++ rest) = .ok (es.foldr (fun e s => (item e).addTo s) s) := by
  induction es generalizing number with
  | nil => exact hrest number
  | cons e es ih =>
    obtain ⟨he, hes⟩ := List.forall_mem_cons.1 h
    rw [List.map_cons, List.cons_append, readLines, he]
    dsimp only
    rw [ih hes]
    rfl

theorem foldr_addCell (text : Position × List Char → List Char)
    (cells : List (Position × List Char)) (s : Sheet) :
    cells.foldr (fun e s => s.addCell e.1 (text e)) s =
      ⟨cells.map (fun e => (e.1, text e)) ++ s.cells, s.widths⟩ := by
  induction cells with
  | nil => rfl
  | cons e cells ih => rw [List.foldr_cons, ih]; rfl

theorem foldr_addWidth (widths : List (UInt64 × UInt64)) (s : Sheet) :
    widths.foldr (fun e s => s.addWidth e.1 e.2) s = ⟨s.cells, widths ++ s.widths⟩ := by
  induction widths with
  | nil => rfl
  | cons e widths ih => rw [List.foldr_cons, ih]; rfl

theorem not_mem_lines (s : Sheet) : ∀ line ∈ lines s, '\n' ∉ line := by
  have halphanum : '\n'.isAlphanum = false := by decide
  intro line hline
  simp only [lines, List.cons_append, List.mem_cons, List.mem_append, List.mem_map] at hline
  rcases hline with rfl | ⟨e, _, rfl⟩ | ⟨e, _, rfl⟩
  · decide
  · have hletters : '\n' ∉ columnLetters e.1 := not_mem_of_isAlphanum
      (fun c hc => isAlphanum_of_isAlpha (isAlpha_of_mem_columnLetters hc)) halphanum
    have hdigits := not_mem_of_isAlphanum
      (fun c hc => isAlphanum_of_isDigit (Decimal.isDigit_of_mem_digits (n := e.2.toNat) hc))
      halphanum
    have hmark : '\n' ∉ widthMark := by decide
    simp [widthLine, hmark, hletters, hdigits]
  · have hname := not_mem_of_isAlphanum
      (fun c hc => isAlphanum_of_mem_name (p := e.1) (c := c) hc) halphanum
    simp [cellLine, hname, not_mem_escape]

/-- A written sheet is read as the sheet with its inputs escaped and read again. -/
theorem read_write {s : Sheet} (hcells : ∀ e ∈ s.cells, trim e.2 = e.2)
    (hwidths : ∀ e ∈ s.widths, 1 ≤ e.2) :
    read (write s) = .ok ⟨s.cells.map fun e => (e.1, unescape (escape e.2)), s.widths⟩ := by
  have hheader : readLine header = .ok .nothing := by decide
  have hend : ∀ number, readLines number [[]] = .ok Sheet.empty := fun _ => rfl
  have hcellLines : ∀ e ∈ s.cells,
      readLine (cellLine e.1 e.2) = .ok (.cell e.1 (unescape (escape e.2))) :=
    fun e he => readLine_cellLine e.1 (hcells e he)
  have hwidthLines : ∀ e ∈ s.widths, readLine (widthLine e.1 e.2) = .ok (.width e.1 e.2) :=
    fun e he => readLine_widthLine e.1 (hwidths e he)
  have hlines := readLines_append hwidthLines (readLines_append hcellLines hend)
  rw [read, write, splitOn_flatMap (not_mem_lines s), lines, List.append_assoc, List.cons_append,
    readLines, hheader]
  dsimp only
  rw [hlines]
  simp only [Item.addTo, foldr_addCell, foldr_addWidth, Sheet.empty, List.append_nil]
  rfl

/-- A sheet whose inputs are trimmed and whose widths are at least one comes back from its written
form with the same cells and widths in the same order. Each input is the same but for its carriage
returns, which are gone. -/
theorem written_sheet_reads_back {s : Sheet} (hcells : ∀ e ∈ s.cells, trim e.2 = e.2)
    (hwidths : ∀ e ∈ s.widths, 1 ≤ e.2) :
    read (write s) = .ok ⟨s.cells.map fun e => (e.1, e.2.filter fun c => c != '\r'), s.widths⟩ := by
  rw [read_write hcells hwidths]
  simp only [unescape_escape]

/-- A label with a colon, backslashes and line breaks, an empty input and a width, at the ends of
the sheet. -/
theorem written_sheet_reads_back_ends : ∃ s : Sheet,
    s.cells = [(⟨0, 18446744073709551615⟩, "'# a:\\\r\n\\n b\\".toList),
      (⟨18446744073709551615, 0⟩, [])] ∧
    s.widths = [(18446744073709551615, 1)] ∧
    (∀ e ∈ s.cells, trim e.2 = e.2) ∧ (∀ e ∈ s.widths, 1 ≤ e.2) ∧
    read (write s) = .ok ⟨[(⟨0, 18446744073709551615⟩, "'# a:\\\n\\n b\\".toList),
      (⟨18446744073709551615, 0⟩, [])], [(18446744073709551615, 1)]⟩ := by
  obtain ⟨s, hs⟩ : ∃ s : Sheet, s = ⟨[(⟨0, 18446744073709551615⟩, "'# a:\\\r\n\\n b\\".toList),
    (⟨18446744073709551615, 0⟩, [])], [(18446744073709551615, 1)]⟩ := ⟨_, rfl⟩
  have hcells : ∀ e ∈ s.cells, trim e.2 = e.2 := by
    rw [hs]
    decide
  have hwidths : ∀ e ∈ s.widths, 1 ≤ e.2 := by simp [hs]
  refine ⟨s, by rw [hs], by rw [hs], hcells, hwidths, ?_⟩
  rw [written_sheet_reads_back hcells hwidths, hs]
  rfl

end Spreadsheet.Tbl

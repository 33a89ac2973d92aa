import Spreadsheet.Proofs.Position.MovedRectangle
import Spreadsheet.Proofs.Position.Name
import Spreadsheet.Proofs.Position.Rectangle
import Spreadsheet.Proofs.Text.Splitting
import Spreadsheet.Storage.Markdown

/-!
# Written tables

The lines of a table are cut at the pipes that no backslash stands before. A text
in a table has no other pipes, and with a space around it a backslash at its end
stands before none. So every line has as many parts as there are columns, and one
more for the numbers of the rows, whatever the cells show, and each part holds the
text of its cell.
-/
namespace Spreadsheet.Markdown
open Text Position

/-! ## Lines and their parts -/

/-- How many pipes of a text no backslash stands before, given the character before the text. -/
def barePipes (before : Char) (cs : List Char) : Nat :=
  (cs.zip (before :: cs)).countP fun e => e.1 == '|' && e.2 != '\\'

/-- The parts of a text between such pipes. -/
def cutAtPipes (before : Char) : List Char → List (List Char)
  | [] => [[]]
  | c :: cs =>
    if c = '|' ∧ before ≠ '\\' then [] :: cutAtPipes c cs
    else
      match cutAtPipes c cs with
      | [] => [[c]]
      | part :: parts => (c :: part) :: parts

/-- A text with a space on each side. -/
def pad (cs : List Char) : List Char := ' ' :: (cs ++ [' '])

/-- A text without one space at its front. -/
def dropSpace : List Char → List Char
  | ' ' :: cs => cs
  | cs => cs

/-- A text without one space at each side. -/
def unpad (cs : List Char) : List Char := (dropSpace (dropSpace cs).reverse).reverse

/-- A text with a pipe in the place of a backslash and a pipe. -/
def unescape : List Char → List Char
  | '\\' :: '|' :: cs => '|' :: unescape cs
  | c :: cs => c :: unescape cs
  | [] => []

/-- The texts in a line of a table. Nothing stands before its first pipe and after its last. -/
def lineTexts (line : List Char) : List (List Char) :=
  (cutAtPipes '\n' line).tail.dropLast.map fun part => unescape (unpad part)

/-- A text with its line breaks as spaces and without carriage returns. -/
def onOneLine (cs : List Char) : List Char := replaceChar '\r' [] (replaceChar '\n' [' '] cs)

/-- A line of a table with the given parts between its pipes. -/
def tableLine (parts : List (List Char)) : List Char :=
  '|' :: parts.flatMap fun part => part ++ ['|']

section
variable {before c : Char} {cs rest part : List Char} {parts : List (List Char)}

theorem barePipes_cons : barePipes before (c :: cs) =
    barePipes c cs + if c = '|' ∧ before ≠ '\\' then 1 else 0 := by
  simp [barePipes, List.countP_cons]

theorem length_cutAtPipes : (cutAtPipes before cs).length = barePipes before cs + 1 := by
  induction cs generalizing before with
  | nil => rfl
  | cons c cs ih =>
    rw [cutAtPipes, barePipes_cons]
    split
    · rw [List.length_cons, ih]
    · have hlength : (cutAtPipes c cs).length = barePipes c cs + 1 := ih
      cases hparts : cutAtPipes c cs with
      | nil =>
        rw [hparts] at hlength
        simp at hlength
      | cons part parts =>
        rw [hparts] at hlength
        simpa using hlength

/-- What may stand between two pipes: no pipe of it is bare, nor would one behind it be escaped. -/
structure IsPart (before : Char) (part : List Char) : Prop where
  barePipes : barePipes before part = 0
  getLast? : (before :: part).getLast? ≠ some '\\'

theorem cutAtPipes_part (h : IsPart before part) (rest : List Char) :
    cutAtPipes before (part ++ '|' :: rest) = part :: cutAtPipes '|' rest := by
  induction part generalizing before with
  | nil =>
    have hbefore : before ≠ '\\' := by simpa using h.getLast?
    rw [List.nil_append, cutAtPipes, if_pos ⟨rfl, hbefore⟩]
  | cons c part ih =>
    obtain ⟨hpipes, hlast⟩ := h
    rw [barePipes_cons, Nat.add_eq_zero_iff] at hpipes
    rw [List.getLast?_cons_cons] at hlast
    have hc : ¬(c = '|' ∧ before ≠ '\\') := by simpa using hpipes.2
    rw [List.cons_append, cutAtPipes, if_neg hc, ih ⟨hpipes.1, hlast⟩]

/-- A line is cut into the parts that it is made of. -/
theorem cutAtPipes_tableLine (h : ∀ part ∈ parts, IsPart '|' part) :
    cutAtPipes '\n' (tableLine parts) = [] :: (parts ++ [[]]) := by
  have hparts : cutAtPipes '|' (parts.flatMap fun part => part ++ ['|']) = parts ++ [[]] := by
    induction parts with
    | nil => rfl
    | cons part parts ih =>
      obtain ⟨hpart, hparts⟩ := List.forall_mem_cons.1 h
      rw [List.flatMap_cons, List.append_assoc, List.singleton_append, cutAtPipes_part hpart,
        ih hparts, List.cons_append]
  rw [tableLine, cutAtPipes, if_pos (by decide), hparts]

theorem barePipes_tableLine (h : ∀ part ∈ parts, IsPart '|' part) :
    barePipes '\n' (tableLine parts) = parts.length + 1 := by
  have hlength := congrArg List.length (cutAtPipes_tableLine h)
  rw [length_cutAtPipes, List.length_cons, List.length_append, List.length_singleton] at hlength
  omega

/-! ## Escaped texts -/

theorem barePipes_escape (cs : List Char) : barePipes before (escape cs ++ [' ']) = 0 := by
  fun_induction escape cs generalizing before with
  | case1 => rfl
  | case2 cs ih => simp [barePipes_cons, ih]
  | case3 cs ih => simp [barePipes_cons, ih]
  | case4 cs ih => exact ih
  | case5 c cs hpipe _ _ ih => simpa [barePipes_cons, ih] using fun hc => absurd hc hpipe

theorem isPart_pad_escape (cs : List Char) : IsPart '|' (pad (escape cs)) where
  barePipes := by simpa [pad, barePipes_cons] using barePipes_escape cs
  getLast? := by
    have hpad : '|' :: pad (escape cs) = ('|' :: ' ' :: escape cs) ++ [' '] := rfl
    rw [hpad, List.getLast?_concat]
    decide

theorem escape_of_forall (h : ∀ c ∈ cs, c.isAlphanum = true) : escape cs = cs := by
  fun_induction escape cs with
  | case1 => rfl
  | case2 cs ih => exact absurd (h '|' List.mem_cons_self) (by decide)
  | case3 cs ih => exact absurd (h '\n' List.mem_cons_self) (by decide)
  | case4 cs ih => exact absurd (h '\r' List.mem_cons_self) (by decide)
  | case5 c cs _ _ _ ih => rw [ih (List.forall_mem_cons.1 h).2]

theorem line_break_not_mem_escape (cs : List Char) : '\n' ∉ escape cs := by
  fun_induction escape cs with
  | case1 => simp
  | case2 cs ih => simpa using ih
  | case3 cs ih => simpa using ih
  | case4 cs ih => exact ih
  | case5 c cs _ hbreak _ ih => simpa [ih] using Ne.symm hbreak

theorem head_escape (cs : List Char) : (escape cs).head? ≠ some '|' := by
  fun_induction escape cs with
  | case1 => simp
  | case2 => simp
  | case3 => simp
  | case4 cs ih => exact ih
  | case5 c cs hpipe => simpa using hpipe

theorem unescape_cons (h : c = '\\' → cs.head? ≠ some '|') :
    unescape (c :: cs) = c :: unescape cs := by
  rw [unescape]
  rintro rest rfl rfl
  exact h rfl rfl

/-- An escaped text is read back as what it is on one line. -/
theorem unescape_escape (cs : List Char) : unescape (escape cs) = onOneLine cs := by
  fun_induction escape cs with
  | case1 => rfl
  | case2 cs ih => simpa [unescape, onOneLine, replaceChar] using ih
  | case3 cs ih => simpa [unescape_cons, onOneLine, replaceChar] using ih
  | case4 cs ih => simpa [onOneLine, replaceChar] using ih
  | case5 c cs hpipe hbreak hreturn ih =>
    have hbreak : c ≠ '\n' := hbreak
    have hreturn : c ≠ '\r' := hreturn
    rw [unescape_cons fun _ => head_escape cs, ih]
    simp [onOneLine, replaceChar, hbreak, hreturn]

theorem onOneLine_of_forall (h : ∀ c ∈ cs, c.isAlphanum = true) : onOneLine cs = cs := by
  have hkept : ∀ {mark : Char} {replacement : List Char}, mark.isAlphanum = false →
      replaceChar mark replacement cs = cs := by
    intro mark replacement hmark
    rw [replaceChar, List.flatMap_congr (g := fun c => [c])]
    · exact List.flatMap_singleton' cs
    · intro c hc
      rw [if_neg]
      rintro rfl
      rw [h c hc] at hmark
      cases hmark
  rw [onOneLine, hkept (by decide), hkept (by decide)]

theorem unpad_pad (cs : List Char) : unpad (pad cs) = cs := by
  simp [unpad, pad, dropSpace]

theorem lineTexts_tableLine {texts : List (List Char)} :
    lineTexts (tableLine (texts.map fun text => pad (escape text))) = texts.map onOneLine := by
  rw [lineTexts, cutAtPipes_tableLine (by simpa using fun text _ => isPart_pad_escape text)]
  simp [unpad_pad, unescape_escape]

end

/-! ## Bounds -/

/-- Bounds that hold all of some positions and cannot be closer. -/
structure Bounds.IsTight (b : Bounds) (occupied : Position → Prop) : Prop where
  covers : ∀ p, occupied p → (b.firstRow ≤ p.row ∧ p.row ≤ b.lastRow) ∧
    b.firstColumn ≤ p.col ∧ p.col ≤ b.lastColumn
  firstRow : ∃ p, occupied p ∧ p.row = b.firstRow
  lastRow : ∃ p, occupied p ∧ p.row = b.lastRow
  firstColumn : ∃ p, occupied p ∧ p.col = b.firstColumn
  lastColumn : ∃ p, occupied p ∧ p.col = b.lastColumn

section
variable {b : Bounds} {ps : List Position}

theorem Bounds.IsTight.cover (h : b.IsTight (· ∈ ps)) (p : Position) :
    (b.cover p).IsTight (· ∈ ps ++ [p]) := by
  have hmin : ∀ x y : UInt64, min x y = x ∨ min x y = y := by
    intro x y
    simp only [← UInt64.toNat_inj, Shift.toNat_min]
    omega
  have hmax : ∀ x y : UInt64, max x y = x ∨ max x y = y := by
    intro x y
    simp only [← UInt64.toNat_inj, Shift.toNat_max]
    omega
  -- A bound is the old one, which another cell has, or that of the new cell.
  have hattained : ∀ {f : Position → UInt64} {x y : UInt64}, (∃ q ∈ ps, f q = x) →
      y = x ∨ y = f p → ∃ q ∈ ps ++ [p], f q = y := by
    rintro f x y ⟨q, hq, rfl⟩ (rfl | rfl)
    · exact ⟨q, List.mem_append_left _ hq, rfl⟩
    · exact ⟨p, List.mem_append_right _ List.mem_cons_self, rfl⟩
  refine ⟨fun q hq => ?_, hattained h.firstRow (hmin _ _), hattained h.lastRow (hmax _ _),
    hattained h.firstColumn (hmin _ _), hattained h.lastColumn (hmax _ _)⟩
  simp only [Bounds.cover, UInt64.le_iff_toNat_le, Shift.toNat_min, Shift.toNat_max]
  rcases List.mem_append.1 hq with hq | hq
  · have hcovers := h.covers q hq
    simp only [UInt64.le_iff_toNat_le] at hcovers
    omega
  · rw [List.mem_singleton.1 hq]
    omega

theorem Bounds.isTight_foldl {seen : List Position} (h : b.IsTight (· ∈ seen)) :
    (ps.foldl Bounds.cover b).IsTight (· ∈ seen ++ ps) := by
  induction ps generalizing b seen with
  | nil => simpa using h
  | cons p ps ih => simpa using ih (h.cover p)

theorem Bounds.isTight_of_ofPositions (h : Bounds.ofPositions? ps = some b) :
    b.IsTight (· ∈ ps) := by
  cases ps with
  | nil => cases h
  | cons p ps =>
    cases h
    have hfirst : (Bounds.ofPosition p).IsTight (· ∈ [p]) := by
      refine ⟨?_, ⟨p, ?_⟩, ⟨p, ?_⟩, ⟨p, ?_⟩, ⟨p, ?_⟩⟩ <;> simp [Bounds.ofPosition]
    exact Bounds.isTight_foldl hfirst

end

/-! ## Tables -/

/-- Whether a cell with content is at a position. -/
def Occupied (g : Grid) (p : Position) : Prop := ∃ c, g.get? p = some c ∧ c.isEmpty = false

theorem mem_keys_prune {g : Grid} {p : Position} : p ∈ g.prune.keys ↔ Occupied g p := by
  simp [Table.mem_keys_iff, Grid.get?_prune, Option.filter_eq_some_iff, Occupied]

theorem exists_bounds {g : Grid} (h : ∃ p, Occupied g p) :
    ∃ b, Bounds.ofPositions? g.prune.keys = some b ∧ b.IsTight (Occupied g) := by
  obtain ⟨p, hp⟩ := h
  cases hb : Bounds.ofPositions? g.prune.keys with
  | none =>
    have hnil : g.prune.keys = [] := by
      cases hkeys : g.prune.keys with
      | nil => rfl
      | cons q ps =>
        rw [hkeys] at hb
        cases hb
    rw [← mem_keys_prune, hnil] at hp
    cases hp
  | some b =>
    have htight := Bounds.isTight_of_ofPositions hb
    simp only [mem_keys_prune] at htight
    exact ⟨b, rfl, htight⟩

section
variable (d : Document) (places : Nat) (b : Bounds)

/-- The parts of the line of column letters. -/
def headParts : List (List Char) :=
  "   ".toList :: b.columns.map fun col => pad (columnLetters col)

/-- The parts of the line between the column letters and the rows. -/
def ruleParts : List (List Char) := "---".toList :: b.columns.map fun _ => "---".toList

/-- The number of a row and what its cells show. -/
def rowTexts (row : UInt64) : List (List Char) :=
  Decimal.digits (row.toNat + 1) :: b.columns.map fun col => d.display ⟨row, col⟩ places

def rowParts (row : UInt64) : List (List Char) :=
  (rowTexts d places b row).map fun text => pad (escape text)

/-- The lines of a table. -/
def tableLines : List (List Char) :=
  tableLine (headParts b) :: tableLine (ruleParts b) ::
    b.rows.map fun row => tableLine (rowParts d places b row)

theorem escape_digits (n : Nat) : escape (Decimal.digits n) = Decimal.digits n :=
  escape_of_forall fun _ hc => isAlphanum_of_isDigit (Decimal.isDigit_of_mem_digits hc)

theorem escape_columnLetters (col : UInt64) : escape (columnLetters col) = columnLetters col :=
  escape_of_forall fun _ hc => isAlphanum_of_isAlpha (isAlpha_of_mem_columnLetters hc)

theorem field_eq (cs : List Char) : field cs = pad cs ++ ['|'] := by simp [field, pad]

theorem rowLine_eq (row : UInt64) :
    rowLine d places b row = tableLine (rowParts d places b row) ++ ['\n'] := by
  simp [rowLine, tableLine, rowParts, rowTexts, field_eq, escape_digits, List.flatMap_map]

/-- A written table is its lines, each with the line break behind it. -/
theorem write?_eq {d : Document} {b : Bounds}
    (h : Bounds.ofPositions? d.grid.prune.keys = some b) (hlast : b.lastRow ≠ -1) :
    write? d places = some (("# Sheet".toList :: [] :: tableLines d places b).flatMap
      fun line => line ++ ['\n']) := by
  have htitle : title = "# Sheet".toList ++ ['\n'] ++ ['\n'] := rfl
  have hhead : headLine b = tableLine (headParts b) ++ ['\n'] := by
    change "|   |".toList ++ b.columns.flatMap (fun col => field (columnLetters col)) ++ ['\n'] = _
    simp [tableLine, headParts, field_eq, List.flatMap_map]
  have hrule : ruleLine b = tableLine (ruleParts b) ++ ['\n'] := by
    change "|---|".toList ++ b.columns.flatMap (fun _ => "---|".toList) ++ ['\n'] = _
    rw [tableLine, ruleParts, List.flatMap_cons, List.flatMap_map]
    rfl
  have hrows : rowLine d places b = fun row => tableLine (rowParts d places b row) ++ ['\n'] :=
    funext (rowLine_eq d places b)
  simp [write?, h, hlast, htitle, hhead, hrule, hrows, tableLines, List.flatMap_map]

theorem isPart_headParts : ∀ part ∈ headParts b, IsPart '|' part := by
  refine List.forall_mem_cons.2 ⟨⟨by decide, by decide⟩, List.forall_mem_map.2 fun col _ => ?_⟩
  rw [← escape_columnLetters]
  exact isPart_pad_escape _

theorem isPart_ruleParts : ∀ part ∈ ruleParts b, IsPart '|' part :=
  List.forall_mem_cons.2 ⟨⟨by decide, by decide⟩,
    List.forall_mem_map.2 fun _ _ => ⟨by decide, by decide⟩⟩

theorem isPart_rowParts (row : UInt64) : ∀ part ∈ rowParts d places b row, IsPart '|' part :=
  List.forall_mem_map.2 fun _ _ => isPart_pad_escape _

theorem barePipes_of_mem_tableLines :
    ∀ line ∈ tableLines d places b, barePipes '\n' line = b.columns.length + 2 := by
  refine List.forall_mem_cons.2 ⟨?_, List.forall_mem_cons.2 ⟨?_, List.forall_mem_map.2 ?_⟩⟩
  · rw [barePipes_tableLine (isPart_headParts b)]
    simp [headParts]
  · rw [barePipes_tableLine (isPart_ruleParts b)]
    simp [ruleParts]
  · intro row _
    rw [barePipes_tableLine (isPart_rowParts d places b row)]
    simp [rowParts, rowTexts]

theorem line_break_not_mem_tableLine {parts : List (List Char)}
    (h : ∀ part ∈ parts, '\n' ∉ part) : '\n' ∉ tableLine parts := by
  simpa [tableLine] using h

theorem line_break_not_mem_pad (cs : List Char) : '\n' ∉ pad (escape cs) := by
  simpa [pad] using line_break_not_mem_escape cs

theorem line_break_not_mem_tableLines : ∀ line ∈ tableLines d places b, '\n' ∉ line := by
  refine List.forall_mem_cons.2 ⟨?_, List.forall_mem_cons.2 ⟨?_, List.forall_mem_map.2 ?_⟩⟩
  · refine line_break_not_mem_tableLine (List.forall_mem_cons.2 ⟨by decide, ?_⟩)
    refine List.forall_mem_map.2 fun col _ => ?_
    rw [← escape_columnLetters]
    exact line_break_not_mem_pad _
  · refine line_break_not_mem_tableLine (List.forall_mem_cons.2 ⟨by decide, ?_⟩)
    exact List.forall_mem_map.2 fun _ _ => by decide
  · intro row _
    exact line_break_not_mem_tableLine (List.forall_mem_map.2 fun _ _ => line_break_not_mem_pad _)

theorem lineTexts_rowParts (row : UInt64) :
    lineTexts (tableLine (rowParts d places b row)) = Decimal.digits (row.toNat + 1) ::
      b.columns.map fun col => onOneLine (d.display ⟨row, col⟩ places) := by
  have hdigits : onOneLine (Decimal.digits (row.toNat + 1)) = Decimal.digits (row.toNat + 1) :=
    onOneLine_of_forall fun _ hc => isAlphanum_of_isDigit (Decimal.isDigit_of_mem_digits hc)
  rw [rowParts, lineTexts_tableLine, rowTexts, List.map_cons, hdigits, List.map_map]
  rfl

end

/-- A sheet has no table if and only if a cell with content is in the last row there can be. -/
theorem write?_eq_none_iff {d : Document} {places : Nat} :
    write? d places = none ↔ ∃ p, Occupied d.grid p ∧ p.row = -1 := by
  unfold write?
  cases hb : Bounds.ofPositions? d.grid.prune.keys with
  | none =>
    refine iff_of_false nofun ?_
    rintro ⟨p, hp, -⟩
    obtain ⟨b, hb', -⟩ := exists_bounds ⟨p, hp⟩
    cases hb.symm.trans hb'
  | some b =>
    have htight := Bounds.isTight_of_ofPositions hb
    simp only [mem_keys_prune] at htight
    dsimp only
    split
    · rename_i hlast
      obtain ⟨p, hp, hrow⟩ := htight.lastRow
      exact iff_of_true rfl ⟨p, hp, hrow.trans hlast⟩
    · rename_i hlast
      refine iff_of_false nofun ?_
      rintro ⟨p, hp, hrow⟩
      have hle := (htight.covers p hp).1.2
      have hlt := b.lastRow.toNat_lt
      rw [hrow, UInt64.le_iff_toNat_le] at hle
      exact hlast (UInt64.toNat_inj.1 (Nat.le_antisymm (Nat.le_of_lt_succ hlt) hle))

/-- A sheet with content, no cell of which is in the last row, is written as a title, a blank line,
a line of column letters, a rule and a line for each row from the first to the last with content.
Whatever the cells show, each line of the table has two pipes more than there are columns from the
first to the last with content, and a row is read back as its number and its cells. -/
theorem written_table_lines {d : Document} (places : Nat) (hcontent : ∃ p, Occupied d.grid p)
    (hrows : ∀ p, Occupied d.grid p → p.row.toNat + 1 < UInt64.size) :
    ∃ (text : List Char) (b : Bounds) (head rule : List Char) (rowLine : UInt64 → List Char),
      write? d places = some text ∧ b.IsTight (Occupied d.grid) ∧
      splitOn '\n' text =
        "# Sheet".toList :: [] :: head :: rule :: b.rows.map rowLine ++ [[]] ∧
      (∀ line ∈ head :: rule :: b.rows.map rowLine,
        barePipes '\n' line = b.lastColumn.toNat + 1 - b.firstColumn.toNat + 2) ∧
      ∀ row ∈ b.rows, lineTexts (rowLine row) = Decimal.digits (row.toNat + 1) ::
        b.columns.map fun col => onOneLine (d.display ⟨row, col⟩ places) := by
  obtain ⟨b, hb, htight⟩ := exists_bounds hcontent
  have hcolumns : b.columns.length = b.lastColumn.toNat + 1 - b.firstColumn.toNat := by
    simp [Bounds.columns, span]
  have hlast : b.lastRow ≠ -1 := by
    obtain ⟨p, hp, hlast⟩ := htight.lastRow
    have hlt := hrows p hp
    rintro he
    rw [hlast, he] at hlt
    exact absurd hlt (by decide)
  refine ⟨_, b, tableLine (headParts b), tableLine (ruleParts b),
    fun row => tableLine (rowParts d places b row), write?_eq places hb hlast, htight, ?_, ?_,
    fun row _ => lineTexts_rowParts d places b row⟩
  · rw [splitOn_flatMap]
    · rfl
    · refine List.forall_mem_cons.2 ⟨by decide, List.forall_mem_cons.2 ⟨by decide, ?_⟩⟩
      exact line_break_not_mem_tableLines d places b
  · rw [← hcolumns]
    exact barePipes_of_mem_tableLines d places b

/-- A pipe after a backslash, a backslash at the end of a text and the end of a line add nothing to
a table of two rows and three columns. A blank cell is not in it. -/
theorem written_table_lines_backslash : ∃ d : Document,
    d.grid = Table.ofList [(⟨1, 1⟩, .label "a\\|b\\".toList), (⟨2, 3⟩, .label "x\r\n|".toList),
      (⟨9, 0⟩, .blank)] ∧
    (∃ p, Occupied d.grid p) ∧ (∀ p, Occupied d.grid p → p.row.toNat + 1 < UInt64.size) ∧
    ∃ (text : List Char) (b : Bounds) (head rule : List Char) (rowLine : UInt64 → List Char),
      write? d 2 = some text ∧ b.IsTight (Occupied d.grid) ∧
      splitOn '\n' text =
        "# Sheet".toList :: [] :: head :: rule :: b.rows.map rowLine ++ [[]] ∧
      (∀ line ∈ head :: rule :: b.rows.map rowLine,
        barePipes '\n' line = b.lastColumn.toNat + 1 - b.firstColumn.toNat + 2) ∧
      ∀ row ∈ b.rows, lineTexts (rowLine row) = Decimal.digits (row.toNat + 1) ::
        b.columns.map fun col => onOneLine (d.display ⟨row, col⟩ 2) := by
  obtain ⟨d, hd⟩ : ∃ d : Document, d.grid = Table.ofList
      [(⟨1, 1⟩, .label "a\\|b\\".toList), (⟨2, 3⟩, .label "x\r\n|".toList), (⟨9, 0⟩, .blank)] :=
    ⟨{ Document.new with grid := _ }, rfl⟩
  have hcontent : ∃ p, Occupied d.grid p := by
    rw [hd]
    exact ⟨⟨1, 1⟩, .label "a\\|b\\".toList, rfl, by decide⟩
  have hrows : ∀ p, Occupied d.grid p → p.row.toNat + 1 < UInt64.size := by
    rintro p ⟨c, hc, -⟩
    rw [hd] at hc
    have hmem := Table.mem_of_get?_ofList hc
    simp only [List.mem_cons, Prod.mk.injEq, List.not_mem_nil, or_false] at hmem
    rcases hmem with ⟨rfl, -⟩ | ⟨rfl, -⟩ | ⟨rfl, -⟩ <;> decide
  exact ⟨d, hd, hcontent, hrows, written_table_lines 2 hcontent hrows⟩

example : write? { Document.new with grid := Table.ofList [(⟨1, 1⟩, .label "a\\|b\\".toList),
      (⟨2, 3⟩, .label "x\r\n|".toList), (⟨9, 0⟩, .blank)] } 2 =
    some ("# Sheet\n\n|   | B | C | D |\n|---|---|---|---|\n" ++
      "| 2 | a\\\\|b\\ |  |  |\n| 3 |  |  | x \\| |\n").toList := by decide +kernel

end Spreadsheet.Markdown

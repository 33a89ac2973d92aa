import Mathlib.Data.List.Forall2
import Spreadsheet.Proofs.Position.Spelling
import Spreadsheet.Proofs.Text.Splitting
import Spreadsheet.Storage.Tbl

/-!
# The grammar of lines

A trimmed line is empty, a comment, or two texts with a colon between them that
name a cell and its input or a column and its width. Every other line has one
fault. A sheet is read if all its lines are of the grammar, and then it holds
what they say in their order; otherwise the first line that is none of them
decides on the fault, whatever comes behind it.
-/
namespace Spreadsheet
open Text

namespace Tbl
open Position

/-! ## Lines -/

/-- A line that is no comment, and what stands before and behind its first colon. -/
def IsPair (line key value : List Char) : Prop :=
  line.head? ≠ some '#' ∧ ∃ before after, line = before ++ ':' :: after ∧ ':' ∉ before ∧
    trim before = key ∧ trim after = value

/-- What a trimmed line says. -/
inductive Says : List Char → Item → Prop
  | empty : Says [] .nothing
  | comment (text : List Char) : Says ('#' :: text) .nothing
  | cell {line key value : List Char} {p : Position} : IsPair line key value → Spells key p →
      Says line (.cell p (unescape value))
  | width {line letters value : List Char} {col w : UInt64} :
      IsPair line (widthMark ++ letters) value → SpellsColumn (trim letters) col →
      Decimal.Spells value w → 0 < w → Says line (.width col w)

/-- Why a trimmed line is none of the grammar. -/
inductive Refused : List Char → LineFault → Prop
  | noSeparator {line : List Char} : line ≠ [] → line.head? ≠ some '#' → ':' ∉ line →
      Refused line .noSeparator
  | invalidCell {line key value : List Char} : IsPair line key value → ¬widthMark <+: key →
      (∀ p, ¬Spells key p) → Refused line (.invalidCell key)
  | invalidColumn {line letters value : List Char} : IsPair line (widthMark ++ letters) value →
      (∀ col, ¬SpellsColumn (trim letters) col) → Refused line (.invalidColumn (trim letters))
  | invalidWidth {line letters value : List Char} {col : UInt64} :
      IsPair line (widthMark ++ letters) value → SpellsColumn (trim letters) col →
      (∀ w, Decimal.Spells value w → w = 0) → Refused line (.invalidWidth value)

section
variable {line key value letters : List Char} {item : Item} {fault : LineFault}

theorem readTrimmed_of_ne (hne : line ≠ []) (hcomment : line.head? ≠ some '#') :
    readTrimmed line = match cut (fun c => c = ':') line with
      | none => .error .noSeparator
      | some (key, value) => readPair (trim key) (trim value) := by
  unfold readTrimmed
  split
  · exact absurd rfl hne
  · exact absurd rfl hcomment
  · rfl

theorem IsPair.readTrimmed_eq (h : IsPair line key value) :
    readTrimmed line = readPair key value := by
  obtain ⟨hcomment, before, after, rfl, hcolon, rfl, rfl⟩ := h
  have hbefore : ∀ c ∈ before, decide (c = ':') = false :=
    fun c hc => decide_eq_false fun he => hcolon (he ▸ hc)
  have hcut : cut (fun c => c = ':') (before ++ ':' :: after) = some (before, after) := by
    rw [cut_append hbefore]
    simp [cut]
  rw [readTrimmed_of_ne (by simp) hcomment, hcut]

theorem readPair_width (letters value : List Char) :
    readPair (widthMark ++ letters) value = readWidth (trim letters) value := by
  rw [readPair, dropLead?_append_self]

theorem readPair_of_not_width (h : ¬widthMark <+: key) (value : List Char) :
    readPair key value = match ofName? key with
      | some p => .ok (.cell p (unescape value))
      | none => .error (.invalidCell key) := by
  unfold readPair
  split
  · rename_i letters hletters
    cases (dropLead?_eq_none h).symm.trans hletters
  · rfl

/-- The name of a cell holds no blank, and the mark of a width ends with one. -/
theorem not_widthMark_of_spells {p : Position} (h : Spells key p) : ¬widthMark <+: key := by
  intro hmark
  have hblank : ' ' ∈ key := hmark.subset (by decide)
  exact absurd (isAlphanum_of_ofName (ofName?_eq_some.2 h) ' ' hblank) (by decide)

theorem Says.readTrimmed_eq (h : Says line item) : readTrimmed line = .ok item := by
  cases h with
  | empty => rfl
  | comment text => rfl
  | cell hpair hspells =>
    rw [hpair.readTrimmed_eq, readPair_of_not_width (not_widthMark_of_spells hspells),
      ofName?_eq_some.2 hspells]
  | @width _ letters value col w hpair hcol hwidth hpos =>
    have hword : (Decimal.word? value).filter (fun w => w != 0) = some w := by
      rw [Decimal.word?_eq_some.2 hwidth, Option.filter_some_pos]
      exact bne_iff_ne.2 (UInt64.pos_iff_ne_zero.1 hpos)
    rw [hpair.readTrimmed_eq, readPair_width, readWidth, column?_eq_some.2 hcol]
    simp only [hword]

theorem Refused.readTrimmed_eq (h : Refused line fault) : readTrimmed line = .error fault := by
  cases h with
  | noSeparator hne hcomment hcolon =>
    have hline : ∀ c ∈ line, decide (c = ':') = false :=
      fun c hc => decide_eq_false fun he => hcolon (he ▸ hc)
    have hcut : cut (fun c => c = ':') line = none := by
      simpa [cut] using cut_append hline []
    rw [readTrimmed_of_ne hne hcomment, hcut]
  | invalidCell hpair hmark hnone =>
    have hname := Option.eq_none_iff_forall_ne_some.2 fun p => mt ofName?_eq_some.1 (hnone p)
    rw [hpair.readTrimmed_eq, readPair_of_not_width hmark, hname]
  | invalidColumn hpair hnone =>
    have hcol := Option.eq_none_iff_forall_ne_some.2 fun col => mt column?_eq_some.1 (hnone col)
    rw [hpair.readTrimmed_eq, readPair_width, readWidth, hcol]
  | @invalidWidth letters value col hpair hcol hzero =>
    have hwidth : (Decimal.word? value).filter (fun w => w != 0) = none := by
      refine Option.filter_eq_none_iff.2 fun w hw => ?_
      simp [hzero w (Decimal.word?_eq_some.1 hw)]
    rw [hpair.readTrimmed_eq, readPair_width, readWidth, column?_eq_some.2 hcol]
    simp only [hwidth]

/-- A line is of the grammar or has a fault. -/
theorem exists_says_or_refused (line : List Char) :
    (∃ item, Says line item) ∨ ∃ fault, Refused line fault := by
  by_cases hne : line = []
  · subst hne
    exact .inl ⟨_, .empty⟩
  by_cases hcomment : line.head? = some '#'
  · obtain ⟨text, rfl⟩ := List.head?_eq_some_iff.1 hcomment
    exact .inl ⟨_, .comment text⟩
  by_cases hcolon : ':' ∈ line
  swap
  · exact .inr ⟨_, .noSeparator hne hcomment hcolon⟩
  obtain ⟨before, after, hline, hfirst⟩ := List.eq_append_cons_of_mem hcolon
  have hpair : IsPair line (trim before) (trim after) :=
    ⟨hcomment, before, after, hline, hfirst, rfl, rfl⟩
  by_cases hmark : widthMark <+: trim before
  · obtain ⟨letters, hletters⟩ := hmark
    rw [← hletters] at hpair
    by_cases hcol : ∃ col, SpellsColumn (trim letters) col
    swap
    · exact .inr ⟨_, .invalidColumn hpair (not_exists.1 hcol)⟩
    obtain ⟨col, hcol⟩ := hcol
    by_cases hwidth : ∃ w, Decimal.Spells (trim after) w ∧ w ≠ 0
    · obtain ⟨w, hw, hpos⟩ := hwidth
      exact .inl ⟨_, .width hpair hcol hw (UInt64.pos_iff_ne_zero.2 hpos)⟩
    · refine .inr ⟨_, .invalidWidth hpair hcol fun w hw => ?_⟩
      exact not_not.1 fun hpos => hwidth ⟨w, hw, hpos⟩
  · by_cases hcell : ∃ p, Spells (trim before) p
    · obtain ⟨p, hp⟩ := hcell
      exact .inl ⟨_, .cell hpair hp⟩
    · exact .inr ⟨_, .invalidCell hpair hmark (not_exists.1 hcell)⟩

theorem readTrimmed_eq_ok : readTrimmed line = .ok item ↔ Says line item := by
  refine ⟨fun h => ?_, Says.readTrimmed_eq⟩
  rcases exists_says_or_refused line with ⟨other, hother⟩ | ⟨fault, hfault⟩
  · cases h.symm.trans hother.readTrimmed_eq
    exact hother
  · cases h.symm.trans hfault.readTrimmed_eq

theorem readTrimmed_eq_error : readTrimmed line = .error fault ↔ Refused line fault := by
  refine ⟨fun h => ?_, Refused.readTrimmed_eq⟩
  rcases exists_says_or_refused line with ⟨item, hitem⟩ | ⟨other, hother⟩
  · cases h.symm.trans hitem.readTrimmed_eq
  · cases h.symm.trans hother.readTrimmed_eq
    exact hother

/-- No line is both of the grammar and refused. -/
theorem exists_says_iff : (∃ item, Says line item) ↔ ¬∃ fault, Refused line fault := by
  refine ⟨?_, (exists_says_or_refused line).resolve_right⟩
  rintro ⟨item, hitem⟩ ⟨fault, hfault⟩
  cases hitem.readTrimmed_eq.symm.trans hfault.readTrimmed_eq

end

/-! ## Sheets -/

def Item.cell? : Item → Option (Position × List Char)
  | cell p input => some (p, input)
  | nothing | width .. => none

def Item.width? : Item → Option (UInt64 × UInt64)
  | width col w => some (col, w)
  | nothing | cell .. => none

/-- The sheet of the items of lines. -/
def sheetOf (items : List Item) : Sheet where
  cells := items.filterMap Item.cell?
  widths := items.filterMap Item.width?

theorem sheetOf_cons (item : Item) (items : List Item) :
    sheetOf (item :: items) = item.addTo (sheetOf items) := by
  cases item <;> rfl

theorem exists_forall₂_iff {α β : Type} {R : α → β → Prop} {as : List α} :
    (∃ bs, List.Forall₂ R as bs) ↔ ∀ a ∈ as, ∃ b, R a b := by
  induction as with
  | nil => simp
  | cons a as ih =>
    rw [List.forall_mem_cons, ← ih]
    constructor
    · rintro ⟨_, h⟩
      obtain ⟨b, bs, hb, hbs, -⟩ := List.forall₂_cons_left_iff.1 h
      exact ⟨⟨b, hb⟩, bs, hbs⟩
    · rintro ⟨⟨b, hb⟩, bs, hbs⟩
      exact ⟨b :: bs, .cons hb hbs⟩

section
variable {lines : List (List Char)} {number : Nat}

theorem readLines_eq_ok {s : Sheet} : readLines number lines = .ok s ↔
    ∃ items, List.Forall₂ (fun line item => Says (trim line) item) lines items ∧
      s = sheetOf items := by
  induction lines generalizing number s with
  | nil =>
    constructor
    · intro h
      cases h
      exact ⟨[], .nil, rfl⟩
    · rintro ⟨_, ⟨⟩, rfl⟩
      rfl
  | cons line lines ih =>
    rw [readLines, readLine]
    cases hline : readTrimmed (trim line) with
    | error fault =>
      refine iff_of_false nofun ?_
      rintro ⟨items, hitems, -⟩
      obtain ⟨item, _, hsays, -⟩ := List.forall₂_cons_left_iff.1 hitems
      cases hline.symm.trans hsays.readTrimmed_eq
    | ok item =>
      have hsays := readTrimmed_eq_ok.1 hline
      dsimp only
      constructor
      · intro h
        cases hrest : readLines (number + 1) lines with
        | error fault =>
          rw [hrest] at h
          cases h
        | ok rest =>
          rw [hrest] at h
          cases h
          obtain ⟨items, hitems, rfl⟩ := ih.1 hrest
          exact ⟨item :: items, .cons hsays hitems, (sheetOf_cons item items).symm⟩
      · rintro ⟨items, hitems, rfl⟩
        obtain ⟨other, items, hother, hrest, rfl⟩ := List.forall₂_cons_left_iff.1 hitems
        cases hline.symm.trans hother.readTrimmed_eq
        rw [ih.2 ⟨items, hrest, rfl⟩, sheetOf_cons]
        rfl

/-- The lines in front of the first one with a fault are of the grammar; those behind it do not
count. -/
theorem readLines_eq_error {n : Nat} {fault : LineFault} :
    readLines number lines = .error (n, fault) ↔ ∃ before line after,
      lines = before ++ line :: after ∧ (∀ l ∈ before, ∃ item, Says (trim l) item) ∧
        Refused (trim line) fault ∧ n = number + before.length := by
  induction lines generalizing number with
  | nil =>
    refine iff_of_false nofun ?_
    rintro ⟨before, line, after, hnil, _⟩
    simp at hnil
  | cons line lines ih =>
    rw [readLines, readLine]
    cases hline : readTrimmed (trim line) with
    | error first =>
      have hrefused := readTrimmed_eq_error.1 hline
      dsimp only
      constructor
      · intro h
        cases h
        exact ⟨[], line, lines, rfl, List.forall_mem_nil _, hrefused, rfl⟩
      · rintro ⟨before, other, after, hlines, hbefore, hother, rfl⟩
        cases before with
        | nil =>
          obtain ⟨rfl, -⟩ := List.cons.inj hlines
          cases hline.symm.trans hother.readTrimmed_eq
          rfl
        | cons l before =>
          obtain ⟨rfl, -⟩ := List.cons.inj hlines
          exact absurd ⟨first, hrefused⟩ (exists_says_iff.1 (hbefore _ List.mem_cons_self))
    | ok item =>
      have hsays := readTrimmed_eq_ok.1 hline
      dsimp only
      constructor
      · intro h
        cases hrest : readLines (number + 1) lines with
        | ok rest =>
          rw [hrest] at h
          cases h
        | error first =>
          rw [hrest] at h
          cases h
          obtain ⟨before, other, after, rfl, hbefore, hother, rfl⟩ := ih.1 hrest
          refine ⟨line :: before, other, after, rfl,
            List.forall_mem_cons.2 ⟨⟨item, hsays⟩, hbefore⟩, hother, ?_⟩
          rw [List.length_cons]
          omega
      · rintro ⟨before, other, after, hlines, hbefore, hother, rfl⟩
        cases before with
        | nil =>
          obtain ⟨rfl, -⟩ := List.cons.inj hlines
          exact absurd ⟨fault, hother⟩ (exists_says_iff.1 ⟨item, hsays⟩)
        | cons l before =>
          obtain ⟨-, rfl⟩ := List.cons.inj hlines
          have hnumber : number + (before.length + 1) = number + 1 + before.length := by omega
          have hrest := (List.forall_mem_cons.1 hbefore).2
          rw [ih.2 ⟨before, other, after, rfl, hrest, hother, hnumber⟩]
          rfl

end

/-- A sheet is read exactly if every line, once trimmed, is of the grammar, and then its cells and
widths are those of the lines in their order. Otherwise the fault is that of the first line that is
not, with its number counted from one, whatever the lines behind it hold. -/
theorem read_accepts_grammar (content : List Char) :
    ((∃ s, read content = .ok s) ↔
      ∀ line ∈ splitOn '\n' content, ∃ item, Says (trim line) item) ∧
    (∀ s, read content = .ok s ↔ ∃ items,
      List.Forall₂ (fun line item => Says (trim line) item) (splitOn '\n' content) items ∧
        s.cells = items.filterMap Item.cell? ∧ s.widths = items.filterMap Item.width?) ∧
    (∀ number fault, read content = .error (number, fault) ↔ ∃ before line after,
      splitOn '\n' content = before ++ line :: after ∧
        (∀ l ∈ before, ∃ item, Says (trim l) item) ∧ Refused (trim line) fault ∧
        number = before.length + 1) ∧
    ∀ line, (∃ item, Says line item) ↔ ¬∃ fault, Refused line fault := by
  have hok : ∀ s, read content = .ok s ↔ ∃ items,
      List.Forall₂ (fun line item => Says (trim line) item) (splitOn '\n' content) items ∧
        s.cells = items.filterMap Item.cell? ∧ s.widths = items.filterMap Item.width? := by
    rintro ⟨cells, widths⟩
    simp only [read, readLines_eq_ok, sheetOf, Sheet.mk.injEq]
  refine ⟨?_, hok, fun number fault => ?_, fun _ => exists_says_iff⟩
  · rw [← exists_forall₂_iff]
    constructor
    · rintro ⟨s, hs⟩
      obtain ⟨items, hitems, -⟩ := (hok s).1 hs
      exact ⟨items, hitems⟩
    · rintro ⟨items, hitems⟩
      exact ⟨sheetOf items, readLines_eq_ok.2 ⟨items, hitems, rfl⟩⟩
  · rw [read, readLines_eq_error]
    simp only [Nat.add_comm 1]

/-- The letters of a width may stand behind more blanks than one, which makes them no column. -/
theorem exists_width_behind_blanks : ∃ content key value s,
    splitOn '\n' content = [content] ∧ trim content = content ∧ IsPair content key value ∧
    (∀ p, ¬Spells key p) ∧
    (∀ letters col, key = widthMark ++ letters → ¬SpellsColumn letters col) ∧
    read content = .ok s ∧ s.widths = [(1, 30)] := by
  refine ⟨"width  B: 30".toList, "width  B".toList, "30".toList, ⟨[], [(1, 30)]⟩, by decide,
    by decide, ⟨by decide, "width  B".toList, " 30".toList, by decide, by decide, by decide,
      by decide⟩, fun p hp => ?_, fun letters col hkey hcol => ?_, by decide, rfl⟩
  · exact not_widthMark_of_spells hp (by decide)
  · have hletters : " B".toList = letters :=
      @List.append_cancel_left _ widthMark " B".toList letters hkey
    exact absurd (hcol.isAlpha ' ' (hletters ▸ List.mem_cons_self)) (by decide)

end Tbl

end Spreadsheet

import Mathlib.Data.List.Forall2
import Spreadsheet.Command
import Spreadsheet.Proofs.Text.Case
import Spreadsheet.Proofs.Text.Splitting
import Spreadsheet.Proofs.Text.Words

/-!
# Commands read back

A command is written as a verb with its arguments, or as a cell with an equals
sign and the input. A cell name has a digit and no verb has one, so that the
first word of an assignment is never a verb, whatever the input is. Every way to
write a command is read as this command.
-/
namespace Spreadsheet
open Text Position

/-! ## Verbs -/

namespace Verb

/-- The words for a verb: its name and, of all but one, a short form. -/
def spellings : Verb → List (List Char)
  | clear => ["clear".toList, "del".toList]
  | insertRow => ["insert-row".toList, "ir".toList]
  | deleteRow => ["delete-row".toList, "dr".toList]
  | insertColumn => ["insert-col".toList, "ic".toList]
  | deleteColumn => ["delete-col".toList, "dc".toList]
  | width => ["width".toList, "cw".toList]
  | copy => ["copy".toList, "cp".toList]
  | refresh => ["refresh".toList]

variable {v : Verb} {w spelling : List Char}

theorem ofWord?_of_same (hspelling : spelling ∈ v.spellings)
    (h : sameIgnoringCase w spelling = true) : ofWord? w = some v := by
  have hall : ∀ s ∈ v.spellings, ofLetters? (String.ofList (s.map Char.toLower)) = some v := by
    cases v <;> decide
  rw [ofWord?, map_toLower_of_same h]
  exact hall spelling hspelling

theorem not_isBlank_of_mem_spellings (hspelling : spelling ∈ v.spellings) :
    spelling ≠ [] ∧ ∀ c ∈ spelling, isBlank c = false := by
  have hall : ∀ s ∈ v.spellings, s ≠ [] ∧ ∀ c ∈ s, isBlank c = false := by
    cases v <;> decide
  exact hall spelling hspelling

/-- No verb has a digit. -/
theorem ofWord?_of_isDigit {c : Char} (hc : c ∈ w) (hdigit : c.isDigit = true) :
    ofWord? w = none := by
  have hletters : ∀ s v, ofLetters? s = some v → ∀ c ∈ s.toList, c.isDigit = false := by
    intro s v h
    unfold ofLetters? at h
    split at h
    all_goals first
      | decide
      | cases h
  refine Option.eq_none_iff_forall_ne_some.2 fun v hv => ?_
  have hlower : c.toLower ∈ (String.ofList (w.map Char.toLower)).toList := by
    rw [String.toList_ofList]
    exact List.mem_map_of_mem hc
  have hsame : c.toLower = c := by
    have hc := isAlpha_of_isDigit hdigit
    unfold Char.isAlpha Char.isUpper at hc
    simp only [Bool.or_eq_false_iff, decide_eq_false_iff_not] at hc
    unfold Char.toLower
    split <;> grind
  have hfalse := hletters _ v hv _ hlower
  rw [hsame, hdigit] at hfalse
  cases hfalse

end Verb

def Side.word : Side → List Char
  | before => "before".toList
  | after => "after".toList

/-! ## Ways to write a command -/

namespace Command

/-- The verb of a command and its arguments, with columns in letters and rows counted from one. An
assignment has no verb. -/
def form : Command → Option (Verb × List (List Char))
  | set _ _ => none
  | clear p => some (.clear, [p.name])
  | insertRow row side => some (.insertRow, [rowDigits row, side.word])
  | deleteRow row => some (.deleteRow, [rowDigits row])
  | insertColumn col side => some (.insertColumn, [columnLetters col, side.word])
  | deleteColumn col => some (.deleteColumn, [columnLetters col])
  | width col w => some (.width, [columnLetters col, Decimal.digits w.toNat])
  | copy origin target => some (.copy, [origin.name, target.name])
  | refresh => some (.refresh, [])

/-- Whether a command can be written: a row, counted from one, has to be a 64-bit number, and blanks
around an input are not read. -/
def Writable : Command → Prop
  | set _ input => trim input = input
  | insertRow row _ | deleteRow row => row.toNat + 1 < UInt64.size
  | _ => True

instance : DecidablePred Writable
  | set _ input => inferInstanceAs (Decidable (trim input = input))
  | insertRow row _ | deleteRow row => inferInstanceAs (Decidable (row.toNat + 1 < UInt64.size))
  | clear _ | insertColumn _ _ | deleteColumn _ | width _ _ | copy _ _ | refresh =>
    instDecidableTrue

/-- A text that writes a command. All but an input may be in any case, and blanks may stand around
the words and the equals sign. -/
inductive Writes : List Char → Command → Prop
  | verb {c : Command} {v : Verb} {arguments : List (List Char)} {spelling text : List Char}
      {words : List (List Char)} : c.form = some (v, arguments) → spelling ∈ v.spellings →
      List.Forall₂ (fun w plain => sameIgnoringCase w plain = true) words
        (spelling :: arguments) →
      Spaced words text → Writes text c
  | assignment {p : Position} {input name front left right back : List Char} :
      sameIgnoringCase name p.name = true → (∀ c ∈ front, isBlank c = true) →
      (∀ c ∈ left, isBlank c = true) → (∀ c ∈ right, isBlank c = true) →
      (∀ c ∈ back, isBlank c = true) →
      Writes (front ++ name ++ left ++ '=' :: (right ++ input ++ back)) (set p input)

section
variable {c : Command} {v : Verb} {arguments words : List (List Char)} {text w : List Char}

theorem ofName?_of_same {p : Position} (h : sameIgnoringCase w p.name = true) :
    ofName? w = some p := by
  rw [← ofName?_map_toUpper, map_toUpper_of_same h, ofName?_map_toUpper, ofName?_name]

theorem column?_of_same {col : UInt64} (h : sameIgnoringCase w (columnLetters col) = true) :
    column? w = some col := by
  rw [← column?_map_toUpper, map_toUpper_of_same h, column?_map_toUpper, column?_columnLetters]

theorem side?_of_same {side : Side} (h : sameIgnoringCase w side.word = true) :
    side? w = some side := by
  cases side with
  | before => exact if_pos h
  | after =>
    have hbefore : sameIgnoringCase w "before".toList = false := by
      rw [sameIgnoringCase, map_toUpper_of_same h]
      decide
    rw [side?, hbefore]
    exact if_pos h

theorem insertion_of_same {side : Side} (v : Verb) (index : List Char)
    (h : sameIgnoringCase w side.word = true) : insertion v [index, w] = .ok (index, side) := by
  rw [insertion, side?_of_same h]

theorem readCell_of_same {p : Position} (h : sameIgnoringCase w p.name = true) :
    readCell w = .ok p := by
  rw [readCell, orFault, ofName?_of_same h]

theorem readColumn_of_same {col : UInt64} (h : sameIgnoringCase w (columnLetters col) = true) :
    readColumn w = .ok col := by
  rw [readColumn, orFault, column?_of_same h]

theorem readWidth_of_same {n : UInt64}
    (h : sameIgnoringCase w (Decimal.digits n.toNat) = true) : readWidth w = .ok n := by
  rw [readWidth, orFault, eq_digits_of_same h, Decimal.word?_digits]

/-- The number of a row, counted from one, is a 64-bit number unless the row is the last one. -/
theorem readRow_of_same {row : UInt64} (hrow : row.toNat + 1 < UInt64.size)
    (h : sameIgnoringCase w (rowDigits row) = true) : readRow w = .ok row := by
  have hsucc : (UInt64.ofNat (row.toNat + 1)).toNat = row.toNat + 1 :=
    UInt64.toNat_ofNat_of_lt' hrow
  have hword : Decimal.word? w = some (UInt64.ofNat (row.toNat + 1)) := by
    rw [eq_digits_of_same h, ← Decimal.word?_digits, hsucc]
  rw [readRow, orFault, Command.row?, hword, Option.bind_some, hsucc, ofOrdinal?_succ]

theorem readArguments_of_form (hform : c.form = some (v, arguments)) (hc : c.Writable)
    (hwords : List.Forall₂ (fun w plain => sameIgnoringCase w plain = true) words arguments) :
    readArguments v words = .ok c := by
  cases c <;> cases hform <;>
    simp only [List.forall₂_cons_right_iff, List.forall₂_nil_right_iff] at hwords
  case clear p =>
    obtain ⟨w, _, hw, rfl, rfl⟩ := hwords
    rw [readArguments, readCell_of_same hw]
    rfl
  case insertRow row side =>
    obtain ⟨w, _, hw, ⟨x, _, hx, rfl, rfl⟩, rfl⟩ := hwords
    simp only [readArguments, insertion_of_same _ _ hx, bind, Except.bind,
      readRow_of_same hc hw]
    rfl
  case deleteRow row =>
    obtain ⟨w, _, hw, rfl, rfl⟩ := hwords
    rw [readArguments, readRow_of_same hc hw]
    rfl
  case insertColumn col side =>
    obtain ⟨w, _, hw, ⟨x, _, hx, rfl, rfl⟩, rfl⟩ := hwords
    simp only [readArguments, insertion_of_same _ _ hx, bind, Except.bind, readColumn_of_same hw]
    rfl
  case deleteColumn col =>
    obtain ⟨w, _, hw, rfl, rfl⟩ := hwords
    rw [readArguments, readColumn_of_same hw]
    rfl
  case width col n =>
    obtain ⟨w, _, hw, ⟨x, _, hx, rfl, rfl⟩, rfl⟩ := hwords
    rw [readArguments, readColumn_of_same hw, readWidth_of_same hx]
    rfl
  case copy origin target =>
    obtain ⟨w, _, hw, ⟨x, _, hx, rfl, rfl⟩, rfl⟩ := hwords
    rw [readArguments, readCell_of_same hw, readCell_of_same hx]
    rfl
  case refresh =>
    subst hwords
    rfl

/-- The words of a command are none of them empty, and have no blanks. -/
theorem not_isBlank_of_form (hform : c.form = some (v, arguments)) :
    ∀ w ∈ arguments, w ≠ [] ∧ ∀ d ∈ w, isBlank d = false := by
  have hname : ∀ p : Position, p.name ≠ [] ∧ ∀ d ∈ p.name, isBlank d = false := fun p =>
    ⟨name_ne_nil p, fun _ hd => isBlank_of_isAlphanum (isAlphanum_of_mem_name hd)⟩
  have hcolumn : ∀ col, columnLetters col ≠ [] ∧ ∀ d ∈ columnLetters col, isBlank d = false :=
    fun col => ⟨columnLetters_ne_nil col, fun _ hd =>
      isBlank_of_isAlphanum (isAlphanum_of_isAlpha (isAlpha_of_mem_columnLetters hd))⟩
  have hdigits : ∀ n, Decimal.digits n ≠ [] ∧ ∀ d ∈ Decimal.digits n, isBlank d = false :=
    fun n => ⟨Decimal.digits_ne_nil n, fun _ hd =>
      isBlank_of_isAlphanum (isAlphanum_of_isDigit (Decimal.isDigit_of_mem_digits hd))⟩
  have hside : ∀ side : Side, side.word ≠ [] ∧ ∀ d ∈ side.word, isBlank d = false := by
    rintro ⟨⟩ <;> decide
  cases c <;> cases hform
  case clear p => exact List.forall_mem_singleton.2 (hname p)
  case insertRow row side =>
    exact List.forall_mem_cons.2 ⟨hdigits _, List.forall_mem_singleton.2 (hside side)⟩
  case deleteRow row => exact List.forall_mem_singleton.2 (hdigits _)
  case insertColumn col side =>
    exact List.forall_mem_cons.2 ⟨hcolumn col, List.forall_mem_singleton.2 (hside side)⟩
  case deleteColumn col => exact List.forall_mem_singleton.2 (hcolumn col)
  case width col n =>
    exact List.forall_mem_cons.2 ⟨hcolumn col, List.forall_mem_singleton.2 (hdigits _)⟩
  case copy origin target =>
    exact List.forall_mem_cons.2 ⟨hname origin, List.forall_mem_singleton.2 (hname target)⟩
  case refresh => exact List.forall_mem_nil _

/-- Words stay words in another case. -/
theorem not_isBlank_of_same {plains : List (List Char)}
    (hwords : List.Forall₂ (fun w plain => sameIgnoringCase w plain = true) words plains)
    (hplains : ∀ w ∈ plains, w ≠ [] ∧ ∀ d ∈ w, isBlank d = false) :
    ∀ w ∈ words, w ≠ [] ∧ ∀ d ∈ w, isBlank d = false := by
  induction hwords with
  | nil => exact List.forall_mem_nil _
  | cons hsame _ ih =>
    obtain ⟨⟨hne, hblank⟩, hplains⟩ := List.forall_mem_cons.1 hplains
    exact List.forall_mem_cons.2
      ⟨⟨ne_nil_of_same hsame hne, forall_of_same isBlank_toUpper hsame hblank⟩, ih hplains⟩

theorem read_of_verb {spelling : List Char} (hform : c.form = some (v, arguments))
    (hspelling : spelling ∈ v.spellings) (hc : c.Writable)
    (hwords : List.Forall₂ (fun w plain => sameIgnoringCase w plain = true) words
      (spelling :: arguments)) (hspaced : Spaced words text) : read text = .ok c := by
  have hsame : ∀ w ∈ words, w ≠ [] ∧ ∀ d ∈ w, isBlank d = false :=
    not_isBlank_of_same hwords
      (List.forall_mem_cons.2 ⟨Verb.not_isBlank_of_mem_spellings hspelling,
        not_isBlank_of_form hform⟩)
  obtain ⟨word, others, hword, hothers, rfl⟩ := List.forall₂_cons_right_iff.1 hwords
  rw [read, readTrimmed, words_trim, hspaced.words_eq hsame]
  dsimp only
  rw [Verb.ofWord?_of_same hspelling hword]
  exact readArguments_of_form hform hc hothers

/-- A cell in front of an equals sign is no verb, and the equals sign is the first one. -/
theorem read_of_assignment {p : Position} {input name front left right back : List Char}
    (hname : sameIgnoringCase name p.name = true) (hfront : ∀ c ∈ front, isBlank c = true)
    (hleft : ∀ c ∈ left, isBlank c = true) (hright : ∀ c ∈ right, isBlank c = true)
    (hback : ∀ c ∈ back, isBlank c = true) (hinput : trim input = input) :
    read (front ++ name ++ left ++ '=' :: (right ++ input ++ back)) = .ok (set p input) := by
  have hreads : ofName? name = some p := ofName?_of_same hname
  have halphanum : ∀ c ∈ name, c.isAlphanum = true := isAlphanum_of_ofName hreads
  have hblank : ∀ c ∈ name, isBlank c = false := fun c hc => isBlank_of_isAlphanum (halphanum c hc)
  have hne : name ≠ [] := ne_nil_of_ofName hreads
  -- Trimmed, the text begins with the name, and has the equals sign behind it.
  have htrim : trim (front ++ name ++ left ++ '=' :: (right ++ input ++ back)) =
      name ++ (left ++ '=' :: trimRight (right ++ input ++ back)) := by
    rw [List.append_assoc, List.append_assoc, trim_of_forall_append hfront]
    cases name with
    | nil => exact absurd rfl hne
    | cons c name =>
      rw [List.cons_append, trim_cons_of_not_isBlank (hblank c List.mem_cons_self),
        ← List.append_assoc, trimRight_append_cons _ _ (by decide), List.append_assoc]
      rfl
  have hverb : Verb.ofWord? (name ++ (left ++ '=' :: trimRight (right ++ input ++ back)).takeWhile
      fun d => !isBlank d) = none := by
    obtain ⟨_, digits, rfl, _, hdigits, _, hall⟩ := split_of_ofName hreads
    obtain ⟨d, hd⟩ := List.exists_mem_of_ne_nil digits hdigits
    exact Verb.ofWord?_of_isDigit (List.mem_append_left _ (List.mem_append_right _ hd)) (hall d hd)
  have hcut : cut (fun c => c = '=') (name ++ (left ++ '=' :: trimRight (right ++ input ++ back))) =
      some (name ++ left, trimRight (right ++ input ++ back)) := by
    have hnone : ∀ c ∈ name ++ left, decide (c = '=') = false := by
      intro c hc
      refine decide_eq_false ?_
      rintro rfl
      rcases List.mem_append.1 hc with hc | hc
      · exact absurd (halphanum _ hc) (by decide)
      · exact absurd (hleft _ hc) (by decide)
    rw [← List.append_assoc, cut_append hnone]
    simp [cut]
  have hvalue : trim (trimRight (right ++ input ++ back)) = input := by
    rw [trim_trimRight, trim_append_of_forall hback, trim_of_forall_append hright, hinput]
  rw [read, htrim, readTrimmed, words_append hne hblank]
  dsimp only
  rw [hverb]
  dsimp only
  rw [readAssignment, hcut]
  dsimp only
  rw [trim_append_of_forall hleft, trim_of_isAlphanum halphanum, readCell_of_same hname, hvalue]
  rfl

/-- Every command has a verb, except assignments. -/
theorem exists_spelling (v : Verb) : ∃ spelling, spelling ∈ v.spellings :=
  List.exists_mem_of_ne_nil _ (by cases v <;> decide)

theorem exists_writes (c : Command) : ∃ text, Writes text c := by
  have hsame : ∀ w : List Char, sameIgnoringCase w w = true := fun _ => beq_self_eq_true _
  cases hform : c.form with
  | none =>
    cases c with
    | set p input =>
      exact ⟨_, .assignment (hsame p.name) (List.forall_mem_nil _) (List.forall_mem_nil _)
        (List.forall_mem_nil _) (List.forall_mem_nil _)⟩
    | _ => cases hform
  | some written =>
    obtain ⟨v, arguments⟩ := written
    obtain ⟨spelling, hspelling⟩ := exists_spelling v
    obtain ⟨text, htext⟩ := exists_spaced (spelling :: arguments)
    exact ⟨text, .verb hform hspelling (List.forall₂_same.2 fun w _ => hsame w) htext⟩

/-- Every command can be written, and is read back from each text that writes it. An assignment is
so for every input, with commands or further equals signs in it. -/
theorem read_of_writes (c : Command) (hc : c.Writable) :
    (∃ text, Writes text c) ∧ ∀ text, Writes text c → read text = .ok c := by
  refine ⟨exists_writes c, fun text htext => ?_⟩
  cases htext with
  | verb hform hspelling hwords hspaced => exact read_of_verb hform hspelling hc hwords hspaced
  | assignment hname hfront hleft hright hback =>
    exact read_of_assignment hname hfront hleft hright hback hc

theorem read_of_writes_clearing_input :
    (set ⟨1, 1⟩ "clear = A1".toList).Writable ∧
      read " b2\t=clear = A1 ".toList = .ok (set ⟨1, 1⟩ "clear = A1".toList) := by
  have hwrites : Writes
      ([' '] ++ "b2".toList ++ ['\t'] ++ '=' :: ([] ++ "clear = A1".toList ++ [' ']))
      (set ⟨1, 1⟩ "clear = A1".toList) :=
    .assignment (by decide +kernel) (by decide) (by decide) (by decide) (by decide)
  exact ⟨by decide, (read_of_writes _ (by decide)).2 _ hwrites⟩

end

end Command

end Spreadsheet

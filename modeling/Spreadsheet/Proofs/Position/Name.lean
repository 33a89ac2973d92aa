import Mathlib.Data.List.Basic
import Spreadsheet.Formula.Builtin
import Spreadsheet.Position.Name
import Spreadsheet.Text.Word

/-!
# Reading back cell names

The name of a cell is read back as that cell, and reading does not mind the case
of letters. A name is made of ASCII letters with ASCII digits after them. Some
names of functions are cell names too.
-/
namespace Spreadsheet

namespace Text

theorem isLower_toUpper (c : Char) : c.toUpper.isLower = false := by
  unfold Char.isLower Char.toUpper
  split <;> grind [UInt32.toNat_add, Char.toNat_val]

theorem toUpper_eq_self {c : Char} (h : c.isLower = false) : c.toUpper = c := by
  unfold Char.isLower at h
  simp only [Bool.and_eq_false_iff, decide_eq_false_iff_not] at h
  unfold Char.toUpper
  split <;> grind

theorem isAlpha_toUpper (c : Char) : c.toUpper.isAlpha = c.isAlpha := by
  unfold Char.isAlpha Char.isLower Char.isUpper Char.toUpper
  split <;> grind [UInt32.toNat_add, Char.toNat_val]

theorem isDigit_toUpper (c : Char) : c.toUpper.isDigit = c.isDigit := by
  unfold Char.isDigit Char.toUpper
  split <;> grind [UInt32.toNat_add, Char.toNat_val]

theorem isLower_of_isDigit {c : Char} (h : c.isDigit = true) : c.isLower = false := by
  unfold Char.isDigit at h
  unfold Char.isLower
  grind

theorem isAlpha_of_isDigit {c : Char} (h : c.isDigit = true) : c.isAlpha = false := by
  unfold Char.isDigit at h
  unfold Char.isAlpha Char.isLower Char.isUpper
  grind

theorem isDigit_of_isAlpha {c : Char} (h : c.isAlpha = true) : c.isDigit = false :=
  eq_false_of_ne_true (mt isAlpha_of_isDigit (ne_false_of_eq_true h))

theorem isAlphanum_of_isAlpha {c : Char} (h : c.isAlpha = true) : c.isAlphanum = true := by
  rw [Char.isAlphanum, h]
  rfl

theorem isAlphanum_of_isDigit {c : Char} (h : c.isDigit = true) : c.isAlphanum = true := by
  rw [Char.isAlphanum, h, Bool.or_true]

end Text

namespace Position
open Text

/-! ## Columns and rows -/

theorem letterValue_letter (n : Nat) : letterValue (letter n) = n % 26 + 1 ∧
    (letter n).isAlpha = true := by
  have h : n % 26 < 26 := Nat.mod_lt _ (by decide)
  simp only [letter, letterValue]
  generalize n % 26 = k at h ⊢
  revert k
  decide

theorem lettersValue_append (cs : List Char) (c : Char) :
    lettersValue (cs ++ [c]) = 26 * lettersValue cs + letterValue c := by
  simp [lettersValue]

@[simp] theorem lettersValue_letters (n : Nat) : lettersValue (letters n) = n := by
  fun_induction letters n with
  | case1 => rfl
  | case2 n hn ih =>
    rw [lettersValue_append, ih, (letterValue_letter _).1]
    omega

theorem isAlpha_of_mem_letters {n : Nat} {c : Char} (h : c ∈ letters n) : c.isAlpha = true := by
  fun_induction letters n with
  | case1 => cases h
  | case2 n _ ih =>
    rcases List.mem_append.1 h with h | h
    · exact ih h
    · rw [List.mem_singleton.1 h]
      exact (letterValue_letter _).2

theorem isLower_of_mem_letters {n : Nat} {c : Char} (h : c ∈ letters n) : c.isLower = false := by
  have hletter : ∀ n, (letter n).isLower = false := by
    intro n
    have h : n % 26 < 26 := Nat.mod_lt _ (by decide)
    rw [letter]
    generalize n % 26 = k at h ⊢
    revert k
    decide
  fun_induction letters n with
  | case1 => cases h
  | case2 n _ ih =>
    rcases List.mem_append.1 h with h | h
    · exact ih h
    · rw [List.mem_singleton.1 h]
      exact hletter _

theorem letters_ne_nil {n : Nat} (h : n ≠ 0) : letters n ≠ [] := by
  rw [letters, if_neg h]
  simp

theorem ofOrdinal?_succ (x : UInt64) : ofOrdinal? (x.toNat + 1) = some x := by
  have hx := x.toNat_lt
  have hn : ((x.toNat + 1 : Nat) : Int) - 1 = x.toNat := by omega
  rw [ofOrdinal?, coordinate?, hn, Int.toNat_natCast, UInt64.ofNat_toNat]
  exact if_pos ⟨by omega, by simp only [UInt64.size]; omega⟩

theorem isAlpha_of_mem_columnLetters {col : UInt64} {c : Char} (h : c ∈ columnLetters col) :
    c.isAlpha = true :=
  isAlpha_of_mem_letters h

theorem isDigit_of_mem_rowDigits {row : UInt64} {c : Char} (h : c ∈ rowDigits row) :
    c.isDigit = true :=
  Decimal.isDigit_of_mem_digits h

theorem columnLetters_ne_nil (col : UInt64) : columnLetters col ≠ [] :=
  letters_ne_nil (Nat.succ_ne_zero _)

theorem rowDigits_ne_nil (row : UInt64) : rowDigits row ≠ [] := Decimal.digits_ne_nil _

theorem column?_columnLetters (col : UInt64) : column? (columnLetters col) = some col := by
  have hall : (columnLetters col).all Char.isAlpha = true :=
    List.all_eq_true.2 fun _ => isAlpha_of_mem_columnLetters
  have hvalue : lettersValue (columnLetters col) = col.toNat + 1 := lettersValue_letters _
  simp [column?, hall, columnLetters_ne_nil, hvalue, ofOrdinal?_succ]

/-! ## Names -/

theorem name_ne_nil (p : Position) : p.name ≠ [] := by
  simp [name, columnLetters_ne_nil]

theorem isAlphanum_of_mem_name {p : Position} {c : Char} (h : c ∈ p.name) :
    c.isAlphanum = true := by
  rcases List.mem_append.1 h with h | h
  · exact isAlphanum_of_isAlpha (isAlpha_of_mem_columnLetters h)
  · exact isAlphanum_of_isDigit (isDigit_of_mem_rowDigits h)

/-- Names are written in capitals. -/
theorem isLower_of_mem_name {p : Position} {c : Char} (h : c ∈ p.name) : c.isLower = false := by
  rcases List.mem_append.1 h with h | h
  · exact isLower_of_mem_letters h
  · exact isLower_of_isDigit (isDigit_of_mem_rowDigits h)

/-- The letters of a name and its digits. -/
theorem splitAt_letters {letters digits : List Char} (hl : ∀ c ∈ letters, c.isAlpha = true)
    (hd : ∀ c ∈ digits, c.isDigit = true) :
    (letters ++ digits).takeWhile Char.isAlpha = letters ∧
      (letters ++ digits).dropWhile Char.isAlpha = digits := by
  have hrest : digits.takeWhile Char.isAlpha = [] ∧ digits.dropWhile Char.isAlpha = digits := by
    cases digits with
    | nil => exact ⟨rfl, rfl⟩
    | cons d ds =>
      have := isAlpha_of_isDigit (hd d List.mem_cons_self)
      simp [this]
  rw [List.takeWhile_append_of_pos hl, List.dropWhile_append_of_pos hl, hrest.1, hrest.2]
  exact ⟨List.append_nil _, rfl⟩

/-- The name of a cell is read back as the cell. -/
@[simp] theorem ofName?_name (p : Position) : ofName? p.name = some p := by
  obtain ⟨hl, hd⟩ := splitAt_letters
    (fun c (hc : c ∈ columnLetters p.col) => isAlpha_of_mem_columnLetters hc)
    (fun c (hc : c ∈ rowDigits p.row) => isDigit_of_mem_rowDigits hc)
  have hnatural : Decimal.isNatural (rowDigits p.row) = true := by
    simp only [Decimal.isNatural, Bool.and_eq_true, List.all_eq_true]
    exact ⟨by simp [rowDigits_ne_nil], fun _ => isDigit_of_mem_rowDigits⟩
  have hvalue : Decimal.value (rowDigits p.row) = p.row.toNat + 1 := Decimal.value_digits _
  simp [ofName?, name, hl, hd, column?_columnLetters, hnatural, hvalue, ofOrdinal?_succ]

/-- A cell name is a run of ASCII letters and a run of digits after it, neither of them empty. -/
theorem split_of_ofName {cs : List Char} {p : Position} (h : ofName? cs = some p) :
    ∃ letters digits, cs = letters ++ digits ∧ letters ≠ [] ∧ digits ≠ [] ∧
      (∀ c ∈ letters, c.isAlpha = true) ∧ ∀ c ∈ digits, c.isDigit = true := by
  simp only [ofName?, Option.bind_eq_bind, Option.bind_eq_some_iff] at h
  obtain ⟨col, hcol, h⟩ := h
  split at h
  · rename_i hnatural
    simp only [Decimal.isNatural, Bool.and_eq_true, List.all_eq_true] at hnatural
    refine ⟨cs.takeWhile Char.isAlpha, cs.dropWhile Char.isAlpha,
      List.takeWhile_append_dropWhile.symm, ?_, ?_, ?_, hnatural.2⟩
    · intro hnil
      simp [column?, hnil] at hcol
    · intro hnil
      simp [hnil] at hnatural
    · exact List.all_eq_true.1 List.all_takeWhile
  · cases h

theorem isAlphanum_of_ofName {cs : List Char} {p : Position} (h : ofName? cs = some p) :
    ∀ c ∈ cs, c.isAlphanum = true := by
  obtain ⟨letters, digits, rfl, _, _, hl, hd⟩ := split_of_ofName h
  intro c hc
  rcases List.mem_append.1 hc with hc | hc
  · exact isAlphanum_of_isAlpha (hl c hc)
  · exact isAlphanum_of_isDigit (hd c hc)

theorem ne_nil_of_ofName {cs : List Char} {p : Position} (h : ofName? cs = some p) : cs ≠ [] := by
  obtain ⟨letters, digits, rfl, hne, _⟩ := split_of_ofName h
  simp [hne]

theorem isAlpha_head_of_ofName {cs : List Char} {p : Position} (h : ofName? cs = some p) :
    ∀ c ∈ cs.head?, c.isAlpha = true := by
  obtain ⟨front, digits, rfl, hne, _, hl, _⟩ := split_of_ofName h
  intro c hc
  cases front with
  | nil => exact absurd rfl hne
  | cons first front =>
    cases hc
    exact hl c List.mem_cons_self

theorem isDigit_last_of_ofName {cs : List Char} {p : Position} (h : ofName? cs = some p) :
    ∀ c ∈ cs.getLast?, c.isDigit = true := by
  obtain ⟨front, digits, rfl, _, hne, _, hd⟩ := split_of_ofName h
  intro c hc
  rw [List.getLast?_append_of_ne_nil _ hne] at hc
  exact hd c (List.mem_of_getLast? hc)

/-! ## Names of functions -/

theorem column?_map_toUpper (cs : List Char) : column? (cs.map Char.toUpper) = column? cs := by
  have hvalue : ∀ n, (cs.map Char.toUpper).foldl (fun n c => 26 * n + letterValue c) n =
      cs.foldl (fun n c => 26 * n + letterValue c) n := by
    intro n
    simp only [List.foldl_map, letterValue, toUpper_eq_self (isLower_toUpper _)]
  have hall : (cs.map Char.toUpper).all Char.isAlpha = cs.all Char.isAlpha := by
    simp only [List.all_map, Function.comp_def, isAlpha_toUpper]
  simp only [column?, lettersValue, hvalue, hall, List.isEmpty_map]

theorem ofName?_map_toUpper (cs : List Char) : ofName? (cs.map Char.toUpper) = ofName? cs := by
  have halpha : Char.isAlpha ∘ Char.toUpper = Char.isAlpha := funext isAlpha_toUpper
  simp only [ofName?, List.takeWhile_map, List.dropWhile_map, halpha, column?_map_toUpper]
  have hnatural : Decimal.isNatural ((cs.dropWhile Char.isAlpha).map Char.toUpper) =
      Decimal.isNatural (cs.dropWhile Char.isAlpha) := by
    simp [Decimal.isNatural, List.all_map, Function.comp_def, isDigit_toUpper]
  rw [hnatural]
  -- Digits have no case.
  by_cases h : Decimal.isNatural (cs.dropWhile Char.isAlpha) = true
  · have hdigits : (cs.dropWhile Char.isAlpha).map Char.toUpper = cs.dropWhile Char.isAlpha := by
      simp only [Decimal.isNatural, Bool.and_eq_true, List.all_eq_true] at h
      exact (List.map_congr_left fun d hd => toUpper_eq_self (isLower_of_isDigit (h.2 d hd))).trans
        (List.map_id _)
    rw [hdigits]
  · simp [h]

/-- A function with a name that is also a cell name has the name of that cell. -/
theorem isName_of_ofName {cs : List Char} {p : Position} (hb : Builtin.isName cs = true)
    (h : ofName? cs = some p) : Builtin.isName p.name = true := by
  obtain ⟨b, hb⟩ := Option.isSome_iff_exists.1 hb
  unfold Builtin.find? at hb
  have hname : b.name = String.ofList (cs.map Char.toUpper) := by
    simpa using List.find?_some hb
  have hall : ∀ b ∈ Builtin.all, ∀ q ∈ ofName? b.name.toList, Builtin.isName q.name = true := by
    decide +kernel
  refine hall b (List.mem_of_find?_eq_some hb) p ?_
  rw [hname, String.toList_ofList, ofName?_map_toUpper]
  exact h

end Position
end Spreadsheet

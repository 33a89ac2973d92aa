import Mathlib.Data.List.Induction
import Mathlib.Data.Nat.Digits.Defs
import Spreadsheet.Proofs.Position.Name

/-!
# Names and positions

A name spells a position in letters and digits. Its letters are the column,
counted from one, in the base of the twenty-six letters without a zero, its
digits the row, counted from one, in decimal. Exactly the spellings of positions
on the sheet are read, and every position has one spelling in capitals without
leading zeros, its name.
-/
namespace Spreadsheet.Position
open Text

/-- The place of a letter of either case in the alphabet, counted from one. -/
def alphabetPlace (c : Char) : Nat := c.toUpper.toNat - 'A'.toNat + 1

/-- The number that letters are in base twenty-six, with digits from one to twenty-six. -/
def bijectiveValue (letters : List Char) : Nat :=
  Nat.ofDigits 26 (letters.reverse.map alphabetPlace)

/-- The number that decimal digits are. -/
def decimalValue (digits : List Char) : Nat :=
  Nat.ofDigits 10 (digits.reverse.map fun c => c.toNat - '0'.toNat)

/-- ASCII letters with ASCII digits after them, one or more of each. -/
structure IsSpelling (letters digits : List Char) : Prop where
  letters_ne_nil : letters ≠ []
  digits_ne_nil : digits ≠ []
  isAlpha : ∀ c ∈ letters, c.isAlpha = true
  isDigit : ∀ c ∈ digits, c.isDigit = true

/-- Whether a number counted from one is a coordinate of the sheet counted from zero. -/
def IsOrdinal (n : Nat) : Prop := 1 ≤ n ∧ n - 1 < UInt64.size

section
variable {front digits cs : List Char} {c : Char} {p : Position}

/-! ## The values of letters and digits -/

theorem bijectiveValue_append (cs : List Char) (c : Char) :
    bijectiveValue (cs ++ [c]) = alphabetPlace c + 26 * bijectiveValue cs := by
  simp [bijectiveValue, Nat.ofDigits_cons]

theorem decimalValue_append (cs : List Char) (c : Char) :
    decimalValue (cs ++ [c]) = (c.toNat - '0'.toNat) + 10 * decimalValue cs := by
  simp [decimalValue, Nat.ofDigits_cons]

theorem exists_toUpper_of_isAlpha (h : c.isAlpha = true) :
    ∃ n < 26, c.toUpper = Char.ofNat (65 + n) := by
  have hletter : (65 ≤ c.toNat ∧ c.toNat ≤ 90) ∨ (97 ≤ c.toNat ∧ c.toNat ≤ 122) := by
    unfold Char.isAlpha Char.isUpper Char.isLower at h
    simpa [UInt32.le_iff_toNat_le, ← Char.toNat_val] using h
  have hsmall : ∀ n < 26, (Char.ofNat (97 + n)).toUpper = Char.ofNat (65 + n) ∧
      (Char.ofNat (65 + n)).toUpper = Char.ofNat (65 + n) := by decide
  rcases hletter with ⟨hlow, hhigh⟩ | ⟨hlow, hhigh⟩
  · refine ⟨c.toNat - 65, by omega, ?_⟩
    rw [← (hsmall (c.toNat - 65) (by omega)).2, Nat.add_sub_cancel' hlow, Char.ofNat_toNat]
  · refine ⟨c.toNat - 97, by omega, ?_⟩
    rw [← (hsmall (c.toNat - 97) (by omega)).1, Nat.add_sub_cancel' hlow, Char.ofNat_toNat]

/-- A letter has the place that it is read as, and in capitals is the letter of this place. -/
theorem alphabetPlace_spec (h : c.isAlpha = true) : letterValue c = alphabetPlace c ∧
    1 ≤ alphabetPlace c ∧ alphabetPlace c ≤ 26 ∧ letter (alphabetPlace c - 1) = c.toUpper := by
  obtain ⟨n, hn, hc⟩ := exists_toUpper_of_isAlpha h
  have hletter : ∀ n < 26, (Char.ofNat (65 + n)).toNat = 65 + n := by decide
  have hA : 'A'.toNat = 65 := rfl
  have hplace : alphabetPlace c = n + 1 := by
    rw [alphabetPlace, hc, hletter n hn, hA]
    omega
  refine ⟨?_, by omega, by omega, ?_⟩
  · rw [letterValue, hc, hletter n hn, hplace]
    omega
  · rw [hplace, hc, letter, Nat.add_sub_cancel, Nat.mod_eq_of_lt hn]

theorem lettersValue_eq_bijectiveValue (h : ∀ c ∈ front, c.isAlpha = true) :
    lettersValue front = bijectiveValue front := by
  induction front using List.reverseRecOn with
  | nil => rfl
  | append_singleton cs c ih =>
    obtain ⟨hcs, hc⟩ := List.forall_mem_append.1 h
    have hplace := (alphabetPlace_spec (hc c (List.mem_singleton_self c))).1
    rw [lettersValue_append, bijectiveValue_append, ih hcs, hplace, Nat.add_comm]

theorem value_eq_decimalValue (digits : List Char) :
    Decimal.value digits = decimalValue digits := by
  induction digits using List.reverseRecOn with
  | nil => rfl
  | append_singleton cs c ih =>
    rw [decimalValue_append, Decimal.value_append, ih]
    simp only [List.foldl_cons, List.foldl_nil, Decimal.digitValue]
    omega

/-! ## Writing back what was read -/

/-- Letters are written back in capitals. -/
theorem letters_bijectiveValue (h : ∀ c ∈ front, c.isAlpha = true) :
    letters (bijectiveValue front) = front.map Char.toUpper := by
  induction front using List.reverseRecOn with
  | nil => simp [bijectiveValue, letters]
  | append_singleton cs c ih =>
    obtain ⟨hcs, hc⟩ := List.forall_mem_append.1 h
    obtain ⟨-, hlow, hhigh, hletter⟩ := alphabetPlace_spec (hc c (List.mem_singleton_self c))
    have hdiv : (alphabetPlace c + 26 * bijectiveValue cs - 1) / 26 = bijectiveValue cs := by omega
    have hmod : letter (alphabetPlace c + 26 * bijectiveValue cs - 1) =
        letter (alphabetPlace c - 1) := by
      simp only [letter]
      congr 2
      omega
    rw [bijectiveValue_append, letters, if_neg (by omega), hdiv, hmod, ih hcs, hletter,
      List.map_append, List.map_singleton]

theorem digit_toNat_sub (h : c.isDigit = true) : c.toNat - '0'.toNat < 10 ∧
    Decimal.digit (c.toNat - '0'.toNat) = c := by
  have hdigit : 48 ≤ c.toNat ∧ c.toNat ≤ 57 := by
    simpa [Char.isDigit, UInt32.le_iff_toNat_le, ← Char.toNat_val] using h
  have hzero : '0'.toNat = 48 := rfl
  refine ⟨by omega, ?_⟩
  rw [Decimal.digit, hzero, Nat.mod_eq_of_lt (by omega), Nat.add_sub_cancel' hdigit.1,
    Char.ofNat_toNat]

/-- What is left of digits without the zeros in front of them: nothing if they are zero, and else
the digits of their value. -/
theorem dropWhile_zero (h : ∀ c ∈ digits, c.isDigit = true) : digits.dropWhile (· == '0') =
    if decimalValue digits = 0 then [] else Decimal.digits (decimalValue digits) := by
  induction digits using List.reverseRecOn with
  | nil => rfl
  | append_singleton cs c ih =>
    obtain ⟨hcs, hc⟩ := List.forall_mem_append.1 h
    obtain ⟨hlt, hdigit⟩ := digit_toNat_sub (hc c (List.mem_singleton_self c))
    rw [decimalValue_append, List.dropWhile_append, ih hcs]
    by_cases hzero : decimalValue cs = 0
    · simp only [hzero, if_true, List.isEmpty_nil, Nat.mul_zero, Nat.add_zero]
      by_cases hc0 : c = '0'
      · subst hc0
        rfl
      · have hne : c.toNat - '0'.toNat ≠ 0 := by
          intro he
          rw [he] at hdigit
          exact hc0 hdigit.symm
        rw [if_neg hne, Decimal.digits, if_pos hlt, hdigit]
        simp [hc0]
    · have hdiv : (c.toNat - '0'.toNat + 10 * decimalValue cs) / 10 = decimalValue cs := by omega
      have hmod : Decimal.digit (c.toNat - '0'.toNat + 10 * decimalValue cs) = c := by
        rw [Decimal.digit] at hdigit ⊢
        rw [Nat.add_mul_mod_self_left]
        exact hdigit
      have hpos : ¬(c.toNat - '0'.toNat + 10 * decimalValue cs = 0) := by omega
      have hlong : ¬(c.toNat - '0'.toNat + 10 * decimalValue cs < 10) := by
        generalize c.toNat - '0'.toNat = d
        omega
      rw [if_neg hzero, if_neg hpos, Decimal.digits.eq_1 (_ + _), if_neg hlong, hdiv, hmod]
      simp [Decimal.digits_ne_nil]

/-! ## What is read -/

theorem ofOrdinal?_eq_some {n : Nat} {x : UInt64} : ofOrdinal? n = some x ↔ x.toNat + 1 = n := by
  constructor
  · intro h
    rw [ofOrdinal?, coordinate?] at h
    split at h
    · rename_i hfits
      cases h
      rw [UInt64.toNat_ofNat_of_lt' (by omega)]
      omega
    · cases h
  · rintro rfl
    exact ofOrdinal?_succ x

/-- The numbers from which a coordinate is made are those that have one. -/
theorem isOrdinal_iff {n : Nat} : IsOrdinal n ↔ ∃ x : UInt64, x.toNat + 1 = n := by
  constructor
  · rintro ⟨hpos, hlt⟩
    exact ⟨UInt64.ofNat (n - 1), by rw [UInt64.toNat_ofNat_of_lt' hlt]; omega⟩
  · rintro ⟨x, rfl⟩
    exact ⟨by omega, x.toNat_lt⟩

/-- A text is read as a position exactly if it is a spelling of it. -/
theorem ofName?_eq_some : ofName? cs = some p ↔ ∃ front digits, cs = front ++ digits ∧
    IsSpelling front digits ∧ bijectiveValue front = p.col.toNat + 1 ∧
    decimalValue digits = p.row.toNat + 1 := by
  constructor
  · intro h
    obtain ⟨front, digits, rfl, hfront, hdigits, hl, hd⟩ := split_of_ofName h
    obtain ⟨htake, hdrop⟩ := splitAt_letters hl hd
    simp only [ofName?, htake, hdrop, Option.bind_eq_bind, Option.bind_eq_some_iff] at h
    obtain ⟨col, hcol, h⟩ := h
    split at h
    · obtain ⟨row, hrow, hp⟩ := Option.bind_eq_some_iff.1 h
      cases hp
      rw [column?] at hcol
      split at hcol
      · refine ⟨front, digits, rfl, ⟨hfront, hdigits, hl, hd⟩, ?_, ?_⟩
        · rw [← lettersValue_eq_bijectiveValue hl]
          exact (ofOrdinal?_eq_some.1 hcol).symm
        · rw [← value_eq_decimalValue]
          exact (ofOrdinal?_eq_some.1 hrow).symm
      · cases hcol
    · cases h
  · rintro ⟨front, digits, rfl, hspelling, hcol, hrow⟩
    obtain ⟨htake, hdrop⟩ := splitAt_letters hspelling.isAlpha hspelling.isDigit
    have hcolumn : column? front = some p.col := by
      rw [column?, if_pos, lettersValue_eq_bijectiveValue hspelling.isAlpha]
      · exact ofOrdinal?_eq_some.2 hcol.symm
      · simpa [hspelling.letters_ne_nil] using hspelling.isAlpha
    have hnatural : Decimal.isNatural digits = true := by
      simpa [Decimal.isNatural, hspelling.digits_ne_nil] using hspelling.isDigit
    have hordinal : ofOrdinal? (Decimal.value digits) = some p.row := by
      rw [value_eq_decimalValue]
      exact ofOrdinal?_eq_some.2 hrow.symm
    simp [ofName?, htake, hdrop, hcolumn, hnatural, hordinal]

/-- A text is a spelling in one way at most. -/
theorem spelling_unique {front' digits' : List Char} (h : IsSpelling front digits)
    (h' : IsSpelling front' digits') (heq : front ++ digits = front' ++ digits') :
    front = front' ∧ digits = digits' := by
  obtain ⟨htake, hdrop⟩ := splitAt_letters h.isAlpha h.isDigit
  obtain ⟨htake', hdrop'⟩ := splitAt_letters h'.isAlpha h'.isDigit
  rw [heq] at htake hdrop
  exact ⟨htake.symm.trans htake', hdrop.symm.trans hdrop'⟩

/-- The name of a position is its spelling in capitals without zeros in front of the digits. -/
theorem name_of_spelling (h : IsSpelling front digits)
    (hcol : bijectiveValue front = p.col.toNat + 1) (hrow : decimalValue digits = p.row.toNat + 1) :
    p.name = front.map Char.toUpper ++ digits.dropWhile (· == '0') := by
  have hpos : decimalValue digits ≠ 0 := by omega
  rw [name, columnLetters, rowDigits, ← hcol, ← hrow, letters_bijectiveValue h.isAlpha,
    dropWhile_zero h.isDigit, if_neg hpos]

end

/-- Names and positions correspond. Every position is read back from its name. A text is read
exactly if it is letters with digits after them whose values are those of a column and a row, and
then the name of the position is the text in capitals without zeros in front of its digits. -/
theorem names_are_spellings :
    (∀ p : Position, ofName? p.name = some p) ∧
    (∀ cs, (ofName? cs).isSome = true ↔ ∃ front digits, cs = front ++ digits ∧
      IsSpelling front digits ∧ IsOrdinal (bijectiveValue front) ∧
      IsOrdinal (decimalValue digits)) ∧
    ∀ front digits p, IsSpelling front digits → ofName? (front ++ digits) = some p →
      p.col.toNat = bijectiveValue front - 1 ∧ p.row.toNat = decimalValue digits - 1 ∧
      p.name = front.map Char.toUpper ++ digits.dropWhile (· == '0') := by
  refine ⟨ofName?_name, ?_, ?_⟩
  · intro cs
    rw [Option.isSome_iff_exists]
    constructor
    · rintro ⟨p, hp⟩
      obtain ⟨front, digits, hcs, hspelling, hcol, hrow⟩ := ofName?_eq_some.1 hp
      exact ⟨front, digits, hcs, hspelling, isOrdinal_iff.2 ⟨_, hcol.symm⟩,
        isOrdinal_iff.2 ⟨_, hrow.symm⟩⟩
    · rintro ⟨front, digits, hcs, hspelling, hcol, hrow⟩
      obtain ⟨col, hcol⟩ := isOrdinal_iff.1 hcol
      obtain ⟨row, hrow⟩ := isOrdinal_iff.1 hrow
      exact ⟨⟨row, col⟩, ofName?_eq_some.2 ⟨front, digits, hcs, hspelling, hcol.symm, hrow.symm⟩⟩
  · intro front digits p hspelling hp
    obtain ⟨front', digits', heq, hspelling', hcol, hrow⟩ := ofName?_eq_some.1 hp
    obtain ⟨rfl, rfl⟩ := spelling_unique hspelling hspelling' heq
    exact ⟨by omega, by omega, name_of_spelling hspelling hcol hrow⟩

/-- The spelling `ab007` is that of the cell `AB7`. -/
theorem names_are_spellings_ab007 : IsSpelling ['a', 'b'] ['0', '0', '7'] ∧
    ofName? ['a', 'b', '0', '0', '7'] = some ⟨6, 27⟩ ∧
    (⟨6, 27⟩ : Position).name = ['A', 'B', '7'] := by
  have hspelling : IsSpelling ['a', 'b'] ['0', '0', '7'] :=
    ⟨by decide, by decide, List.forall_mem_cons.2 ⟨rfl, List.forall_mem_singleton.2 rfl⟩,
      List.forall_mem_cons.2 ⟨rfl, List.forall_mem_cons.2 ⟨rfl, List.forall_mem_singleton.2 rfl⟩⟩⟩
  have hread : ofName? ['a', 'b', '0', '0', '7'] = some ⟨6, 27⟩ := by decide
  exact ⟨hspelling, hread, (names_are_spellings.2.2 _ _ _ hspelling hread).2.2⟩

end Spreadsheet.Position

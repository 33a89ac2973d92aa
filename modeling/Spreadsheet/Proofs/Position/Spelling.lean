import Spreadsheet.Proofs.Position.Naming

/-!
# What columns, cells and numbers are spelled

Letters, digits and both together are read exactly if their values are those of
a column, a 64-bit number or a cell of the sheet. A number may have a plus sign
in front.
-/
namespace Spreadsheet
open Text

namespace Position

/-- Letters of either case that are a column, counted from one. -/
structure SpellsColumn (letters : List Char) (col : UInt64) : Prop where
  ne_nil : letters ≠ []
  isAlpha : ∀ c ∈ letters, c.isAlpha = true
  value : bijectiveValue letters = col.toNat + 1

/-- Letters and digits that are a column and a row, counted from one. -/
def Spells (key : List Char) (p : Position) : Prop :=
  ∃ front digits, key = front ++ digits ∧ IsSpelling front digits ∧
    bijectiveValue front = p.col.toNat + 1 ∧ decimalValue digits = p.row.toNat + 1

theorem column?_eq_some {letters : List Char} {col : UInt64} :
    column? letters = some col ↔ SpellsColumn letters col := by
  simp only [column?, Bool.and_eq_true, Bool.not_eq_true', List.isEmpty_eq_false_iff,
    List.all_eq_true, Option.ite_none_right_eq_some, ofOrdinal?_eq_some]
  constructor
  · rintro ⟨⟨hne, hall⟩, hvalue⟩
    exact ⟨hne, hall, by rw [← lettersValue_eq_bijectiveValue hall, hvalue]⟩
  · rintro ⟨hne, hall, hvalue⟩
    exact ⟨⟨hne, hall⟩, by rw [lettersValue_eq_bijectiveValue hall, hvalue]⟩

end Position

/-- Digits, perhaps with a plus sign in front, that are a 64-bit number. -/
def Text.Decimal.Spells (numeral : List Char) (n : UInt64) : Prop :=
  ∃ digits, (numeral = digits ∨ numeral = '+' :: digits) ∧ digits ≠ [] ∧
    (∀ c ∈ digits, c.isDigit = true) ∧ Position.decimalValue digits = n.toNat

theorem Text.Decimal.word?_eq_some {numeral : List Char} {n : UInt64} :
    word? numeral = some n ↔ Spells numeral n := by
  have hbody : ∀ digits : List Char, (if isNatural digits && value digits < UInt64.size then
      some (UInt64.ofNat (value digits)) else none) = some n ↔ digits ≠ [] ∧
        (∀ c ∈ digits, c.isDigit = true) ∧ Position.decimalValue digits = n.toNat := by
    intro digits
    simp only [isNatural, Bool.and_eq_true, Bool.not_eq_true', List.isEmpty_eq_false_iff,
      List.all_eq_true, decide_eq_true_eq, Option.ite_none_right_eq_some, Option.some.injEq,
      Position.value_eq_decimalValue]
    constructor
    · rintro ⟨⟨⟨hne, hall⟩, hlt⟩, rfl⟩
      exact ⟨hne, hall, (UInt64.toNat_ofNat_of_lt' hlt).symm⟩
    · rintro ⟨hne, hall, hvalue⟩
      exact ⟨⟨⟨hne, hall⟩, hvalue ▸ n.toNat_lt⟩, by rw [hvalue, UInt64.ofNat_toNat]⟩
  unfold word?
  split
  · rename_i digits
    rw [hbody]
    constructor
    · exact fun h => ⟨digits, .inr rfl, h⟩
    · rintro ⟨others, rfl | heq, h⟩
      · exact absurd (h.2.1 '+' List.mem_cons_self) (by decide)
      · exact (List.cons.inj heq).2 ▸ h
  · rename_i hplus
    rw [hbody]
    constructor
    · exact fun h => ⟨numeral, .inl rfl, h⟩
    · rintro ⟨digits, rfl | heq, h⟩
      · exact h
      · exact absurd heq (hplus digits)

theorem Text.Decimal.word?_digits (n : UInt64) : word? (digits n.toNat) = some n := by
  refine word?_eq_some.2 ⟨_, .inl rfl, digits_ne_nil _, fun _ => isDigit_of_mem_digits, ?_⟩
  rw [← Position.value_eq_decimalValue, value_digits]

end Spreadsheet

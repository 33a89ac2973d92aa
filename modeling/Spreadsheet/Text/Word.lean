import Spreadsheet.Text.WordRanges

/-!
# Word characters

A word is a maximal run of word characters. Among the ASCII characters these
are the letters, the digits and the underscore.
-/
namespace Spreadsheet.Text

def isAsciiWord (c : Char) : Bool := c.isAlphanum || c == '_'

theorem isAsciiWord_of_isAlpha {c : Char} (h : c.isAlpha = true) : isAsciiWord c = true := by
  delta isAsciiWord Char.isAlphanum
  rw [h]
  rfl

/-- A letter, mark, decimal digit, connecting punctuation or joiner. -/
def isWord (c : Char) : Bool :=
  if c.toNat < 128 then isAsciiWord c
  else wordRanges.any fun r => decide (r.1 ≤ c.toNat) && decide (c.toNat ≤ r.2)

theorem isWord_of_isAlphanum {c : Char} (h : c.isAlphanum = true) : isWord c = true := by
  have hc : c.toNat < 128 := by
    delta Char.isAlphanum Char.isAlpha Char.isUpper Char.isLower Char.isDigit at h
    simp only [Bool.or_eq_true, Bool.and_eq_true, decide_eq_true_eq, ge_iff_le,
      UInt32.le_iff_toNat_le] at h
    delta Char.toNat
    rcases h with (⟨_, h⟩ | ⟨_, h⟩) | ⟨_, h⟩ <;> exact Nat.lt_of_le_of_lt h (by decide)
  simp [isWord, hc, isAsciiWord, h]

end Spreadsheet.Text

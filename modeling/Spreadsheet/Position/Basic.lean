/-!
# Positions on a sheet

A position is a zero-based row and column, each a 64-bit word, so a sheet has an
end in both directions. Positions are ordered row by row. Moving a position is
exact: a step past either end of the sheet has no result.
-/
namespace Spreadsheet

/-- A zero-based row and column. -/
structure Position where
  row : UInt64
  col : UInt64
deriving DecidableEq, Repr, Inhabited

namespace Position

/-- The order of reading: rows first, then columns. -/
def Before (p q : Position) : Prop := p.row < q.row ∨ p.row = q.row ∧ p.col < q.col

instance (p q : Position) : Decidable (p.Before q) :=
  inferInstanceAs (Decidable (p.row < q.row ∨ p.row = q.row ∧ p.col < q.col))

theorem before_iff (p q : Position) : p.Before q ↔
    p.row.toNat < q.row.toNat ∨ p.row.toNat = q.row.toNat ∧ p.col.toNat < q.col.toNat := by
  simp only [Before, UInt64.lt_iff_toNat_lt, UInt64.toNat_inj]

theorem ext_toNat {p q : Position} (hr : p.row.toNat = q.row.toNat)
    (hc : p.col.toNat = q.col.toNat) : p = q := by
  cases p
  cases q
  simp only [mk.injEq]
  exact ⟨UInt64.toNat_inj.1 hr, UInt64.toNat_inj.1 hc⟩

theorem not_before_self (p : Position) : ¬p.Before p := by
  rw [before_iff]
  omega

theorem Before.trans {p q r : Position} (h : p.Before q) (k : q.Before r) : p.Before r := by
  rw [before_iff] at *
  omega

theorem before_or_eq_or_before (p q : Position) : p.Before q ∨ p = q ∨ q.Before p := by
  rw [before_iff, before_iff]
  by_cases hr : p.row.toNat = q.row.toNat
  · by_cases hc : p.col.toNat = q.col.toNat
    · exact .inr (.inl (ext_toNat hr hc))
    · omega
  · omega

theorem Before.ne {p q : Position} (h : p.Before q) : p ≠ q :=
  fun e => not_before_self q (e ▸ h)

theorem Before.asymm {p q : Position} (h : p.Before q) : ¬q.Before p :=
  fun k => not_before_self p (h.trans k)

/-- A whole number as a row or column, if the sheet has it. -/
def coordinate? (n : Int) : Option UInt64 :=
  if 0 ≤ n ∧ n < UInt64.size then some (UInt64.ofNat n.toNat) else none

/-- The position a number of columns to the right and of rows down. -/
def offset (p : Position) (dcol drow : Int) : Option Position := do
  let col ← coordinate? (p.col.toNat + dcol)
  let row ← coordinate? (p.row.toNat + drow)
  return ⟨row, col⟩

/-- A coordinate as a signed number of 64 bits, which is negative in the far half of the sheet. -/
def signed (n : UInt64) : Int := (n.toNat : Int).bmod UInt64.size

/-- The signed difference of two coordinates, if it fits in 64 bits. Where it does not the program
aborts. -/
def displacement? (origin target : UInt64) : Option Int :=
  let n := signed target - signed origin
  if -9223372036854775808 ≤ n ∧ n < 9223372036854775808 then some n else none

end Position

end Spreadsheet

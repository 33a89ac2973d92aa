import Spreadsheet.Proofs.Draft
import Spreadsheet.Proofs.Formula.Rewriting

/-!
# Copied references

A copy moves the references of a formula by the way from its cell to the new
place. In each direction this way is the difference of two signed 64-bit numbers.
If the coordinates are in one half of the sheet, this is the way between them, so
that a reference moves by exactly this way and is lost where this leads off the
sheet. If they are in different halves and near to each other, the difference is
out of range and the program aborts. If they are far apart, it is in range but not
the way, and a reference is lost that would have stayed on the sheet.
-/
namespace Spreadsheet
open Text Position Formula

namespace Position
variable {origin target x : UInt64} {p q : Position} {n dcol drow : Int}

/-- A number that a line of the sheet has. -/
def IsCoordinate (n : Int) : Prop := 0 ≤ n ∧ n < UInt64.size

/-- Where a coordinate goes with the way from one coordinate to another. -/
def along (origin target x : UInt64) : Int := x.toNat + ((target.toNat : Int) - origin.toNat)

/-- The way between two coordinates is a signed 64-bit number. -/
def Near (origin target : UInt64) : Prop :=
  -UInt64.size ≤ ((target.toNat : Int) - origin.toNat) * 2 ∧
    ((target.toNat : Int) - origin.toNat) * 2 < UInt64.size

/-- Two coordinates are in the same half of the sheet. -/
def SameHalf (origin target : UInt64) : Prop :=
  origin.toNat * 2 < UInt64.size ↔ target.toNat * 2 < UInt64.size

instance (n : Int) : Decidable (IsCoordinate n) := inferInstanceAs (Decidable (_ ∧ _))

instance (origin target : UInt64) : Decidable (Near origin target) :=
  inferInstanceAs (Decidable (_ ∧ _))

instance (origin target : UInt64) : Decidable (SameHalf origin target) :=
  inferInstanceAs (Decidable (_ ↔ _))

theorem isCoordinate_toNat (x : UInt64) : IsCoordinate x.toNat :=
  ⟨Int.natCast_nonneg _, Int.ofNat_lt.2 x.toNat_lt⟩

theorem IsCoordinate.exists_toNat {n : Int} (h : IsCoordinate n) :
    ∃ x : UInt64, (x.toNat : Int) = n :=
  ⟨_, coordinate?_eq_some.1 (if_pos h)⟩

theorem signed_eq (x : UInt64) : signed x =
    if x.toNat * 2 < UInt64.size then (x.toNat : Int) else x.toNat - UInt64.size := by
  have hx := x.toNat_lt
  have hsize : UInt64.size = 18446744073709551616 := rfl
  have hwrapped := Int.sub_bmod_right (x.toNat : Int) UInt64.size
  unfold signed
  split
  · exact Int.bmod_eq_of_le_mul_two (by omega) (by omega)
  · exact hwrapped.symm.trans (Int.bmod_eq_of_le_mul_two (by omega) (by omega))

/-- The difference is out of range between near coordinates in different halves, and only there. -/
theorem displacement?_eq_none : displacement? origin target = none ↔
    Near origin target ∧ ¬ SameHalf origin target := by
  have ho := origin.toNat_lt
  have ht := target.toNat_lt
  simp only [displacement?, signed_eq, Near, SameHalf, UInt64.size] at ho ht ⊢
  split_ifs <;> simp only [true_iff, false_iff] <;> omega

/-- Between near coordinates the difference is the way, if it is in range. -/
theorem displacement_of_near (h : Near origin target) (hn : displacement? origin target = some n) :
    n = (target.toNat : Int) - origin.toNat := by
  have hhalf : SameHalf origin target := by
    by_contra hhalf
    rw [displacement?_eq_none.2 ⟨h, hhalf⟩] at hn
    cases hn
  rw [displacement?, Option.ite_none_right_eq_some, Option.some.injEq] at hn
  obtain ⟨-, rfl⟩ := hn
  simp only [signed_eq, SameHalf] at hhalf ⊢
  split_ifs <;> omega

/-- Between other coordinates the way is wrong by as many lines as a sheet has. -/
theorem displacement_of_far (h : ¬ Near origin target)
    (hn : displacement? origin target = some n) :
    n = (target.toNat : Int) - origin.toNat - UInt64.size ∨
      n = (target.toNat : Int) - origin.toNat + UInt64.size := by
  have ho := origin.toNat_lt
  have ht := target.toNat_lt
  rw [displacement?, Option.ite_none_right_eq_some, Option.some.injEq] at hn
  obtain ⟨-, rfl⟩ := hn
  simp only [signed_eq, Near, UInt64.size] at h ho ht ⊢
  split_ifs <;> omega

theorem displacement?_self (x : UInt64) : displacement? x x = some 0 := by
  rw [displacement?, Int.sub_self]
  rfl

theorem eq_of_displacement (h : displacement? origin target = some 0) : target = origin := by
  have ho := origin.toNat_lt
  have ht := target.toNat_lt
  rw [← UInt64.toNat_inj]
  by_cases hnear : Near origin target
  · have := displacement_of_near hnear h
    omega
  · have hfar := displacement_of_far hnear h
    simp only [UInt64.size] at ho ht hfar
    omega

theorem offset_eq_some : p.offset dcol drow = some q ↔
    (q.col.toNat : Int) = p.col.toNat + dcol ∧ (q.row.toNat : Int) = p.row.toNat + drow := by
  rw [← coordinate?_eq_some, ← coordinate?_eq_some]
  simp only [offset, Option.bind_eq_bind, Option.bind_eq_some_iff, Option.pure_def,
    Option.some.injEq]
  constructor
  · rintro ⟨col, hcol, row, hrow, rfl⟩
    exact ⟨hcol, hrow⟩
  · rintro ⟨hcol, hrow⟩
    exact ⟨q.col, hcol, q.row, hrow, rfl⟩

/-- Of the right way and a wrong one at most one leads to a line of the sheet. -/
theorem not_isCoordinate_of_far (h : ¬ Near origin target)
    (hn : displacement? origin target = some n) (hx : IsCoordinate (x.toNat + n)) :
    ¬ IsCoordinate (along origin target x) := by
  have hfar := displacement_of_far h hn
  unfold IsCoordinate along at *
  omega

end Position

namespace Formula
variable {origin target p : Position}

/-- What a copy has to make of a reference: the name of the cell that is the same way from it as the
copy is from the original or, where there is no such cell, the marker of a lost one. -/
inductive CopiedAs (origin target p : Position) : List Char → Prop
  | moved {q : Position} : (q.col.toNat : Int) = along origin.col target.col p.col →
      (q.row.toNat : Int) = along origin.row target.row p.row → CopiedAs origin target p q.name
  | lost : ¬ (IsCoordinate (along origin.col target.col p.col) ∧
      IsCoordinate (along origin.row target.row p.row)) → CopiedAs origin target p lostReference

/-- The marker is no name, and the cell of a name is on the sheet. -/
theorem CopiedAs.eq_lostReference_iff {w : List Char} (h : CopiedAs origin target p w) :
    w = lostReference ↔ ¬ (IsCoordinate (along origin.col target.col p.col) ∧
      IsCoordinate (along origin.row target.row p.row)) := by
  cases h with
  | lost h => exact iff_of_true rfl h
  | @moved q hcol hrow =>
    refine iff_of_false (fun hname => ?_) (not_not.2 ?_)
    · have hmark : '#' ∈ q.name := hname ▸ by decide
      exact absurd (isAlphanum_of_mem_name hmark) (by decide)
    · rw [← hcol, ← hrow]
      exact ⟨isCoordinate_toNat _, isCoordinate_toNat _⟩

/-- What a copy makes of a reference. -/
def copiedName (dcol drow : Int) (p : Position) : List Char :=
  (p.offset dcol drow).elim lostReference Position.name

section
variable {dcol drow : Int} (hdcol : displacement? origin.col target.col = some dcol)
  (hdrow : displacement? origin.row target.row = some drow)
include hdcol hdrow

theorem copiedAs_copiedName (hcol : Near origin.col target.col) (hrow : Near origin.row target.row)
    (p : Position) : CopiedAs origin target p (copiedName dcol drow p) := by
  rw [copiedName, displacement_of_near hcol hdcol, displacement_of_near hrow hdrow]
  cases hq : p.offset _ _ with
  | some q =>
    obtain ⟨hqcol, hqrow⟩ := offset_eq_some.1 hq
    exact .moved hqcol hqrow
  | none =>
    refine .lost ?_
    rintro ⟨hqcol, hqrow⟩
    obtain ⟨col, hcol⟩ := hqcol.exists_toNat
    obtain ⟨row, hrow⟩ := hqrow.exists_toNat
    rw [offset_eq_some (q := ⟨row, col⟩) |>.2 ⟨hcol, hrow⟩] at hq
    cases hq

theorem copiedName_of_far (h : ¬ (Near origin.col target.col ∧ Near origin.row target.row))
    (hcol : IsCoordinate (along origin.col target.col p.col))
    (hrow : IsCoordinate (along origin.row target.row p.row)) :
    copiedName dcol drow p = lostReference := by
  rw [copiedName]
  cases hq : p.offset _ _ with
  | none => rfl
  | some q =>
    obtain ⟨hqcol, hqrow⟩ := offset_eq_some.1 hq
    refine absurd ⟨?_, ?_⟩ h
    · by_contra hfar
      exact not_isCoordinate_of_far hfar hdcol (hqcol ▸ isCoordinate_toNat _) hcol
    · by_contra hfar
      exact not_isCoordinate_of_far hfar hdrow (hqrow ▸ isCoordinate_toNat _) hrow

/-- Only the way to the same place is none, so that a copy to another one renames its references. -/
theorem offsetReferences_of_ne (hne : target ≠ origin) (cs : List Char) :
    offsetReferences dcol drow cs =
      replaceReferences (fun p => some (copiedName dcol drow p)) cs := by
  have hzero : ¬ (dcol = 0 ∧ drow = 0) := by
    rintro ⟨rfl, rfl⟩
    refine hne (Position.ext_toNat ?_ ?_)
    · rw [eq_of_displacement hdrow]
    · rw [eq_of_displacement hdcol]
  rw [offsetReferences, if_neg hzero]
  refine congrArg (replaceReferences · cs) (funext fun p => ?_)
  rw [copiedName]
  cases p.offset dcol drow <;> rfl

end

end Formula

namespace Document
variable {d e : Document} {ω : Occasion} {origin target : Position} {c : Cell}

theorem entered_set_formula [Engine] (d : Document) (ω : Occasion) (p : Position)
    (text : List Char) : (d.set ω p ('=' :: text)).grid.entered =
      d.grid.entered.put p ⟨.formula, trimRight text⟩ := by
  rw [set, withGrid, Grid.entered_commit ω (Grid.isPlain_of_mark (.inr rfl) _), Entry.ofInput,
    trim_cons_of_not_isBlank (by decide)]
  rfl

section
variable [Engine] (hc : d.grid.get? origin = some c) (hf : c.isFormula = true)
include hc hf

/-- A formula is copied by two differences that are in range. -/
theorem copy?_eq_some_iff : d.copy? ω origin target = some e ↔
    ∃ dcol drow, displacement? origin.col target.col = some dcol ∧
      displacement? origin.row target.row = some drow ∧
      e = d.set ω target ('=' :: offsetReferences dcol drow c.text) := by
  simp only [copy?, hc, Grid.copiedInput?, if_pos hf, Option.map_eq_some_iff,
    Option.bind_eq_bind, Option.bind_eq_some_iff, Option.pure_def, Option.some.injEq]
  constructor
  · rintro ⟨_, ⟨dcol, hdcol, drow, hdrow, rfl⟩, rfl⟩
    exact ⟨dcol, drow, hdcol, hdrow, rfl⟩
  · rintro ⟨dcol, drow, hdcol, hdrow, rfl⟩
    exact ⟨_, ⟨dcol, hdcol, drow, hdrow, rfl⟩, rfl⟩

/-- The program aborts in place of a copy between near coordinates in different halves. -/
theorem copy?_eq_none_iff : d.copy? ω origin target = none ↔
    Near origin.col target.col ∧ ¬ SameHalf origin.col target.col ∨
      Near origin.row target.row ∧ ¬ SameHalf origin.row target.row := by
  rw [← displacement?_eq_none, ← displacement?_eq_none, Option.eq_none_iff_forall_ne_some]
  simp only [ne_eq, copy?_eq_some_iff hc hf]
  cases hdcol : displacement? origin.col target.col with
  | none => simp
  | some dcol => cases hdrow : displacement? origin.row target.row <;> simp

end

section
open scoped StandardLibrary

end

end Document

end Spreadsheet

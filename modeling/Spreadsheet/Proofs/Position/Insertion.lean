import Mathlib.Logic.Function.Basic
import Spreadsheet.Formula.Builtin
import Spreadsheet.Proofs.Position.Line
import Spreadsheet.Proofs.Position.Name

/-!
# Where an inserted line moves the cells

An insertion moves every position from its boundary on by one line, and only the
last line is pushed off. If that line is taken to go where the new one comes in,
the insertion permutes the positions of the sheet. The names of the cells move
along, while all other names stay as they are.
-/
namespace Spreadsheet
open Position Text

/-- How an insertion moves a coordinate, the last one to the place of the new line. -/
def raised (boundary x : UInt64) : UInt64 :=
  if boundary ≤ x then if x.toNat + 1 < UInt64.size then x + 1 else boundary else x

theorem toNat_raised (b x : UInt64) : (raised b x).toNat =
    if b.toNat ≤ x.toNat then
      if x.toNat + 1 < UInt64.size then x.toNat + 1 else b.toNat
    else x.toNat := by
  rw [raised]
  simp only [UInt64.le_iff_toNat_le]
  split
  · split
    · rw [UInt64.toNat_add]
      have hone : (1 : UInt64).toNat = 1 := rfl
      rw [hone]
      simp only [UInt64.size] at *
      omega
    · rfl
  · rfl

theorem raised_injective (b : UInt64) : Function.Injective (raised b) := by
  intro x y h
  rw [← UInt64.toNat_inj] at h ⊢
  rw [toNat_raised, toNat_raised] at h
  have hx := x.toNat_lt
  have hy := y.toNat_lt
  have hb := b.toNat_lt
  simp only [UInt64.size] at h
  split at h <;> split at h <;> (try split at h) <;> (try split at h) <;> omega

namespace Shift

/-- Where an insertion moves a position, one that is pushed off the sheet into the new line. -/
def place (s : Shift) (p : Position) : Position :=
  if s.isInsertion then s.axis.put p (raised s.index (s.axis.of p)) else p

section
variable {s : Shift} {p p' : Position}

theorem place_injective (hs : s.isInsertion = true) : Function.Injective s.place := by
  intro p q hpq
  rw [place, place, if_pos hs, if_pos hs] at hpq
  exact Axis.eq_of_put hpq (raised_injective _ (by simpa using congrArg s.axis.of hpq))

theorem place_of_apply (hs : s.isInsertion = true) (h : s.apply p = some p') : p' = s.place p := by
  rw [apply_eq, Option.map_eq_some_iff] at h
  obtain ⟨x, hx, rfl⟩ := h
  rw [line_of_isInsertion hs] at hx
  have hlt := x.toNat_lt
  have hraised : x = raised s.index (s.axis.of p) := by
    rw [← UInt64.toNat_inj, toNat_raised, UInt64.size]
    split_ifs <;> omega
  rw [place, if_pos hs, ← hraised]

end

end Shift

/-! ## Names that move along -/

/-- A name after its cell has moved. What is no name of a cell as cells are written stays. -/
def Position.movedName (move : Position → Position) (n : String) : String :=
  match ofName? n.toList with
  | some p => if n = p.nameText then (move p).nameText else n
  | none => n

section
variable {move : Position → Position} {n : String} {p q : Position}

@[simp] theorem Position.ofName?_nameText (p : Position) : ofName? p.nameText.toList = some p := by
  rw [nameText, String.toList_ofList, ofName?_name]

theorem Position.nameText_injective : Function.Injective nameText := by
  intro p q h
  have hname := ofName?_nameText p
  rw [h, ofName?_nameText] at hname
  exact (Option.some.inj hname).symm

@[simp] theorem Position.movedName_nameText (p : Position) :
    movedName move p.nameText = (move p).nameText := by
  rw [movedName, ofName?_nameText]
  exact if_pos rfl

theorem Position.movedName_of_none (h : ofName? n.toList = none) : movedName move n = n := by
  rw [movedName, h]

theorem Position.movedName_cases (move : Position → Position) (n : String) :
    (∃ p : Position, n = p.nameText ∧ movedName move n = (move p).nameText) ∨
      (∀ p : Position, n ≠ p.nameText) ∧ movedName move n = n := by
  by_cases h : ∃ p : Position, n = p.nameText
  · obtain ⟨p, rfl⟩ := h
    exact .inl ⟨p, rfl, movedName_nameText p⟩
  · have hne : ∀ p : Position, n ≠ p.nameText := fun p hp => h ⟨p, hp⟩
    refine .inr ⟨hne, ?_⟩
    unfold movedName
    split
    · exact if_neg (hne _)
    · rfl

theorem Position.movedName_injective (hmove : Function.Injective move) :
    Function.Injective (movedName move) := by
  intro m n h
  rcases movedName_cases move m with ⟨p, rfl, hm⟩ | ⟨hne, hm⟩ <;>
    rcases movedName_cases move n with ⟨q, rfl, hn⟩ | ⟨hne', hn⟩ <;> rw [hm, hn] at h
  · rw [hmove (nameText_injective h)]
  · exact absurd h.symm (hne' _)
  · exact absurd h (hne _)
  · exact h

/-- The name of a cell, written as cells are, moves with the cell. -/
theorem Position.ofName?_movedName (hn : ∀ p, ofName? n.toList = some p → n = p.nameText) :
    ofName? (movedName move n).toList = (ofName? n.toList).map move := by
  cases h : ofName? n.toList with
  | none => rw [movedName_of_none h, h, Option.map_none]
  | some p => rw [hn p h, movedName_nameText, ofName?_nameText, Option.map_some]

theorem movedName_constant {c : Constant} (hc : c ∈ Constant.all) :
    movedName move c.name = c.name := by
  refine movedName_of_none ?_
  revert c
  decide +kernel

theorem movedName_qualified (h : ':' ∈ n.toList) : movedName move n = n := by
  refine movedName_of_none ?_
  cases hn : ofName? n.toList with
  | none => rfl
  | some p => exact absurd (isAlphanum_of_ofName hn ':' h) (by decide)

end

end Spreadsheet

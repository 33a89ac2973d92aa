import Spreadsheet.Proofs.Formula.Rewriting
import Spreadsheet.Proofs.Lines

/-!
# Lines beside a line

A line that is inserted before another one moves this line and the ones behind
it, and a line that is inserted after it only those behind it. The cells, the
references to them and the widths of columns move by one line, or off the sheet
at its end, and all other ones stay. After the last line there is no boundary to
insert at, though, and in place of an insertion the program aborts.
-/
namespace Spreadsheet
open Position Formula

/-! ## Where the lines go -/

/-- Whether a line inserted beside another one moves a line. -/
def Side.moves : Side → UInt64 → UInt64 → Bool
  | before, index, x => index ≤ x
  | after, index, x => index < x

/-- Where a line goes if some lines move on by one, nothing if it is pushed off the sheet. -/
def carriedLine? (moves : UInt64 → Bool) (x : UInt64) : Option UInt64 :=
  if moves x then coordinate? (x.toNat + 1) else some x

namespace Axis
variable {axis : Axis} {moves : UInt64 → Bool} {p : Position} {x : UInt64}

/-- Where a position goes if some lines move on by one, nothing if it is pushed off the sheet. -/
def carried? (axis : Axis) (moves : UInt64 → Bool) (p : Position) : Option Position :=
  (carriedLine? moves (axis.of p)).map (axis.put p)

def insertion : Axis → UInt64 → Shift
  | row, boundary => .insertRow boundary
  | column, boundary => .insertColumn boundary

theorem line_insertion (axis : Axis) (b : UInt64) :
    (axis.insertion b).line = carriedLine? fun x => b ≤ x := by
  funext x
  cases axis <;> simp only [insertion, Shift.line, carriedLine?, decide_eq_true_eq]

theorem apply_insertion (axis : Axis) (b : UInt64) :
    (axis.insertion b).apply = axis.carried? fun x => b ≤ x := by
  funext p
  rw [Shift.apply_eq, line_insertion]
  cases axis <;> rfl

/-- The positions that stay are those in the lines that do not move. -/
theorem carried?_eq_self_iff : axis.carried? moves p = some p ↔ moves (axis.of p) = false := by
  rw [carried?, Option.map_eq_some_iff]
  simp only [put_eq_self_iff, exists_eq_right]
  cases hmoves : moves (axis.of p) with
  | false => simp [carriedLine?, hmoves]
  | true =>
    rw [carriedLine?, if_pos hmoves, coordinate?_eq_some]
    exact iff_of_false (by omega) (by decide)

end Axis

/-! ## What an insertion leaves -/

/-- The name that a reference to a carried cell gets, nothing if the cell stays. -/
def carriedName? (carried? : Position → Option Position) (p : Position) : Option (List Char) :=
  match carried? p with
  | some q => if q = p then none else some q.name
  | none => some lostReference

/-- The second cell is the first one with its references carried along: they are replaced where they
stand, and nothing else is. -/
structure Cell.CarriedAlong (carried? : Position → Option Position) (c c' : Cell) : Prop where
  kind : c'.kind = c.kind
  text : c.isFormula = true →
    InPlace (carriedName? carried?) 0 (locatedReferences c.text) c.text c'.text
  same : c.isFormula = false → c' = c

/-- The second document is the first one with a line more: some lines have moved on by one, with
their cells and widths and the references to them. -/
structure Document.Inserted (axis : Axis) (moves : UInt64 → Bool) (d d' : Document) : Prop where
  cells : ∀ {p q}, axis.carried? moves p = some q →
    Option.Rel (Cell.CarriedAlong (axis.carried? moves))
      (d.grid.prune.get? p) (d'.grid.prune.get? q)
  free : ∀ {q}, (∀ p, axis.carried? moves p ≠ some q) → d'.grid.prune.get? q = none
  widths : axis = .column → ∀ {x y}, carriedLine? moves x = some y →
    d'.widths.get? y = d.widths.get? x
  freeWidth : axis = .column → ∀ {y}, (∀ x, carriedLine? moves x ≠ some y) →
    d'.widths.get? y = none
  sameWidths : axis = .row → d'.widths = d.widths

namespace Cell

theorem carriedAlong_of_carriedBy {s : Shift} {o o' : Option Cell}
    (h : Option.Rel (CarriedBy s) o o') : Option.Rel (CarriedAlong s.apply) o o' := by
  cases h with
  | none => exact .none
  | @some c c' h =>
    exact .some
      { kind := h.kind
        text := fun hf => h.text hf ▸ inPlace_replaceReferences (carriedName? s.apply) c.text
        same := h.same }

end Cell

namespace Document

theorem inserted_shift [Engine] (ω : Occasion) (axis : Axis) (b : UInt64) (d : Document) :
    Inserted axis (fun x => b ≤ x) d (d.shift ω (axis.insertion b)) where
  cells hp := by
    rw [← axis.apply_insertion] at hp ⊢
    exact Cell.carriedAlong_of_carriedBy (Grid.get?_prune_shift ω hp)
  free hq := by
    rw [← axis.apply_insertion] at hq
    exact Grid.get?_prune_shift_of_none ω hq
  widths haxis _ _ hx := by
    subst haxis
    rw [← Axis.line_insertion .column] at hx
    exact ColumnWidths.get?_shift rfl hx
  freeWidth haxis _ hy := by
    subst haxis
    rw [← Axis.line_insertion .column] at hy
    exact ColumnWidths.get?_shift_of_none rfl hy
  sameWidths haxis := by
    subst haxis
    rfl

end Document

/-! ## Where the boundary is -/

namespace Side
variable {side : Side} {index b : UInt64}

/-- There is a boundary but after the last line. -/
theorem boundary?_eq_none : side.boundary? index = none ↔
    side = after ∧ index.toNat + 1 = UInt64.size := by
  cases side with
  | before => exact iff_of_false nofun nofun
  | after =>
    have hlast : index = -1 ↔ index.toNat + 1 = UInt64.size := by
      rw [← UInt64.toNat_inj, ← Nat.succ_inj]
      rfl
    rw [boundary?, ← hlast, ite_eq_left_iff]
    simp

/-- An insertion beside a line moves the lines from its boundary on. -/
theorem moves_of_boundary (h : side.boundary? index = some b) :
    side.moves index = fun x => decide (b ≤ x) := by
  funext x
  cases side with
  | before =>
    cases h
    rfl
  | after =>
    rw [boundary?, Option.ite_none_left_eq_some] at h
    obtain ⟨hne, he⟩ := h
    cases he
    have hlt : index.toNat + 1 < UInt64.size := by
      refine Nat.lt_of_le_of_ne index.toNat_lt fun hlast => hne ?_
      exact UInt64.toNat_inj.1 (Nat.succ.inj hlast)
    have hsucc : (index + 1).toNat = index.toNat + 1 := by
      rw [UInt64.toNat_add]
      exact Nat.mod_eq_of_lt hlt
    refine decide_eq_decide.2 ?_
    rw [UInt64.lt_iff_toNat_lt, UInt64.le_iff_toNat_le, hsucc]
    exact Nat.lt_iff_add_one_le

end Side

namespace Document
section
variable [Engine] {d e : Document} {ω : Occasion} {side : Side} {index : UInt64}

/-- An insertion of a line beside another along either axis. -/
def insertLine? (axis : Axis) (d : Document) (ω : Occasion) (index : UInt64) (side : Side) :
    Option Document :=
  match axis with
  | .row => d.insertRow? ω index side
  | .column => d.insertColumn? ω index side

theorem insertLine?_eq (axis : Axis) : d.insertLine? axis ω index side =
    (side.boundary? index).map fun b => d.shift ω (axis.insertion b) := by
  cases axis <;> rfl

theorem insertLine?_eq_none (axis : Axis) : d.insertLine? axis ω index side = none ↔
    side = .after ∧ index.toNat + 1 = UInt64.size := by
  rw [insertLine?_eq, Option.map_eq_none_iff, Side.boundary?_eq_none]

theorem inserted_of_insertLine (axis : Axis) (h : d.insertLine? axis ω index side = some e) :
    Inserted axis (side.moves index) d e := by
  rw [insertLine?_eq, Option.map_eq_some_iff] at h
  obtain ⟨b, hb, rfl⟩ := h
  rw [Side.moves_of_boundary hb]
  exact inserted_shift ω axis b d

end

section
open scoped StandardLibrary

end

end Document

end Spreadsheet

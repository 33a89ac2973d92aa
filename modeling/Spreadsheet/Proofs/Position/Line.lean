import Mathlib.Data.List.Basic
import Spreadsheet.Position.Shift

/-!
# Where the lines go

An edit of lines moves the coordinates along one axis and leaves the other ones as
they are. An insertion moves every line from its boundary on by one, a deletion
every line behind its own back by one. A coordinate comes from at most one, and
those that stay keep their order, so that an edit takes positions to different
places in the same order of reading.
-/
namespace Spreadsheet
open Position

/-! ## Axes -/

/-- The directions in which the lines of a sheet are counted. -/
inductive Axis where
  | row
  | column
deriving DecidableEq, Repr

namespace Axis
variable {axis : Axis} {p q : Position} {x y : UInt64}

/-- The line of a position. -/
def of : Axis → Position → UInt64
  | row, p => p.row
  | column, p => p.col

/-- The position in another line. -/
def put : Axis → Position → UInt64 → Position
  | row, p, x => ⟨x, p.col⟩
  | column, p, x => ⟨p.row, x⟩

/-- The other axis. -/
def across : Axis → Axis
  | row => column
  | column => row

@[simp] theorem of_put (axis : Axis) (p : Position) (x : UInt64) : axis.of (axis.put p x) = x := by
  cases axis <;> rfl

@[simp] theorem across_of_put (axis : Axis) (p : Position) (x : UInt64) :
    axis.across.of (axis.put p x) = axis.across.of p := by
  cases axis <;> rfl

@[simp] theorem put_put (axis : Axis) (p : Position) (x y : UInt64) :
    axis.put (axis.put p x) y = axis.put p y := by
  cases axis <;> rfl

@[simp] theorem put_of (axis : Axis) (p : Position) : axis.put p (axis.of p) = p := by
  cases axis <;> rfl

theorem put_eq_self_iff : axis.put p x = p ↔ x = axis.of p := by
  cases axis <;> cases p <;> simp [put, of]

/-- Positions are the same if they are in the same line and the same when put in one. -/
theorem eq_of_put (h : axis.put p x = axis.put q y) (hline : axis.of p = axis.of q) : p = q := by
  rw [← axis.put_of p, ← axis.put_put p x, h, axis.put_put, hline, axis.put_of]

end Axis

theorem Position.coordinate?_eq_some {n : Int} {x : UInt64} :
    coordinate? n = some x ↔ (x.toNat : Int) = n := by
  have hx := x.toNat_lt
  simp only [coordinate?, UInt64.size, Option.ite_none_right_eq_some, Option.some.injEq]
  constructor
  · rintro ⟨hn, rfl⟩
    rw [UInt64.toNat_ofNat']
    omega
  · rintro rfl
    exact ⟨by omega, by simp⟩

theorem Position.coordinate?_toNat (x : UInt64) : coordinate? (x.toNat + 0) = some x :=
  coordinate?_eq_some.2 (Int.add_zero _).symm

/-- The position some steps along an axis. -/
def Axis.step : Axis → Position → Int → Option Position
  | row, p, n => p.offset 0 n
  | column, p, n => p.offset n 0

theorem Axis.step_eq (axis : Axis) (p : Position) (n : Int) :
    axis.step p n = (coordinate? ((axis.of p).toNat + n)).map (axis.put p) := by
  cases axis with
  | row =>
    rw [step, offset, coordinate?_toNat, of]
    cases coordinate? (p.row.toNat + n) <;> rfl
  | column =>
    rw [step, offset, coordinate?_toNat, of]
    cases coordinate? (p.col.toNat + n) <;> rfl

namespace Shift

/-! ## Lines -/

/-- The axis along which an edit moves the lines. -/
def axis : Shift → Axis
  | insertRow _ | deleteRow _ => .row
  | insertColumn _ | deleteColumn _ => .column

/-- The line that goes, or the place at which a new one comes in. -/
def index : Shift → UInt64
  | insertRow b | insertColumn b => b
  | deleteRow i | deleteColumn i => i

def isInsertion : Shift → Bool
  | insertRow _ | insertColumn _ => true
  | deleteRow _ | deleteColumn _ => false

/-- Where a row goes under an edit of rows, and a column under one of columns. -/
def line : Shift → UInt64 → Option UInt64
  | insertRow boundary, x | insertColumn boundary, x =>
    if boundary ≤ x then coordinate? (x.toNat + 1) else some x
  | deleteRow index, x | deleteColumn index, x =>
    if x = index then none else if index < x then coordinate? (x.toNat + -1) else some x

section
variable {s : Shift} {p q r p' q' : Position} {a b x y z a' b' : UInt64}

theorem axis_of_isColumnEdit (hs : s.isColumnEdit = true) : s.axis = .column := by
  cases s with
  | insertRow | deleteRow => cases hs
  | insertColumn | deleteColumn => rfl

/-- An edit moves a position by moving its line. -/
theorem apply_eq (s : Shift) (p : Position) :
    s.apply p = (s.line (s.axis.of p)).map (s.axis.put p) := by
  have hinsert : ∀ (axis : Axis) (b : UInt64), (if b ≤ axis.of p then axis.step p 1 else some p) =
      (if b ≤ axis.of p then coordinate? ((axis.of p).toNat + 1) else some (axis.of p)).map
        (axis.put p) := by
    intro axis b
    split
    · exact axis.step_eq p 1
    · rw [Option.map_some, Axis.put_of]
  have hdelete : ∀ (axis : Axis) (i : UInt64), (if axis.of p = i then none
      else if i < axis.of p then axis.step p (-1) else some p) =
      (if axis.of p = i then none else if i < axis.of p then coordinate? ((axis.of p).toNat + -1)
        else some (axis.of p)).map (axis.put p) := by
    intro axis i
    split
    · rfl
    · split
      · exact axis.step_eq p (-1)
      · rw [Option.map_some, Axis.put_of]
  cases s with
  | insertRow b => exact hinsert .row b
  | insertColumn b => exact hinsert .column b
  | deleteRow i => exact hdelete .row i
  | deleteColumn i => exact hdelete .column i

/-- A new line moves the lines from its place on one step ahead. -/
theorem line_of_isInsertion (hs : s.isInsertion = true) : s.line x = some z ↔
    s.index.toNat ≤ x.toNat ∧ z.toNat = x.toNat + 1 ∨
      x.toNat < s.index.toNat ∧ z.toNat = x.toNat := by
  cases s with
  | deleteRow i => cases hs
  | deleteColumn i => cases hs
  | insertRow b | insertColumn b =>
    simp only [line, index, UInt64.le_iff_toNat_le]
    split
    · rw [coordinate?_eq_some]
      omega
    · rw [Option.some.injEq, ← UInt64.toNat_inj]
      omega

/-- A line that goes moves the lines behind it one step back. -/
theorem line_of_not_isInsertion (hs : s.isInsertion = false) : s.line x = some z ↔
    s.index.toNat < x.toNat ∧ z.toNat + 1 = x.toNat ∨
      x.toNat < s.index.toNat ∧ z.toNat = x.toNat := by
  cases s with
  | insertRow b => cases hs
  | insertColumn b => cases hs
  | deleteRow i | deleteColumn i =>
    simp only [line, index, UInt64.lt_iff_toNat_lt, ← UInt64.toNat_inj]
    split
    · simp [*]
    split
    · rw [coordinate?_eq_some]
      omega
    · rw [Option.some.injEq, ← UInt64.toNat_inj]
      omega

/-- Lines that stay keep their order. -/
theorem line_lt (ha : s.line a = some a') (hb : s.line b = some b') (hab : a < b) : a' < b' := by
  rw [UInt64.lt_iff_toNat_lt] at *
  cases hs : s.isInsertion with
  | true =>
    rw [line_of_isInsertion hs] at ha hb
    omega
  | false =>
    rw [line_of_not_isInsertion hs] at ha hb
    omega

theorem line_injective (hx : s.line x = some z) (hy : s.line y = some z) : x = y := by
  rw [← UInt64.toNat_inj]
  cases hs : s.isInsertion with
  | true =>
    rw [line_of_isInsertion hs] at hx hy
    omega
  | false =>
    rw [line_of_not_isInsertion hs] at hx hy
    omega

/-! ## Positions -/

/-- No two positions go to the same place. -/
theorem apply_injective (hp : s.apply p = some r) (hq : s.apply q = some r) : p = q := by
  rw [apply_eq, Option.map_eq_some_iff] at hp hq
  obtain ⟨x, hx, rfl⟩ := hp
  obtain ⟨y, hy, he⟩ := hq
  have hxy : y = x := by simpa using congrArg s.axis.of he
  exact Axis.eq_of_put he.symm (line_injective hx (hxy ▸ hy))

/-- Positions that stay keep their order of reading. -/
theorem before_of_moved (hp : s.apply p = some p') (hq : s.apply q = some q')
    (hpq : p.Before q) : p'.Before q' := by
  rw [apply_eq, Option.map_eq_some_iff] at hp hq
  obtain ⟨x, hx, rfl⟩ := hp
  obtain ⟨y, hy, rfl⟩ := hq
  cases haxis : s.axis with
  | row =>
    rw [haxis] at hx hy
    refine hpq.imp (line_lt hx hy) fun h => ⟨?_, h.2⟩
    rw [Axis.of, h.1, ← Axis.of, hy] at hx
    exact (Option.some.inj hx).symm
  | column =>
    rw [haxis] at hx hy
    exact hpq.imp_right fun h => ⟨h.1, line_lt hx hy h.2⟩

end

end Shift

end Spreadsheet

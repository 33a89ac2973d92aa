import Mathlib.Data.List.Basic
import Spreadsheet.Position.Rectangle

/-!
# Listed rectangles

The positions between two corners, in the order of reading, are one list. It is the
one that is made row by row, and has as many positions as the sides span.
-/
namespace Spreadsheet.Position

/-- All positions between two corners, each once, row by row and from left to right. -/
structure IsRectangle (p q : Position) (cells : List Position) : Prop where
  mem : ∀ s, s ∈ cells ↔ (min p.row q.row ≤ s.row ∧ s.row ≤ max p.row q.row) ∧
    min p.col q.col ≤ s.col ∧ s.col ≤ max p.col q.col
  sorted : cells.Pairwise Before

section
variable {a b c : UInt64} {p q : Position} {cells others : List Position}

/-- Positions make one list in the order of reading. -/
theorem eq_of_sorted (h : cells.Pairwise Before) (k : others.Pairwise Before)
    (hmem : ∀ s, s ∈ cells ↔ s ∈ others) : cells = others := by
  have hperm : cells.Perm others :=
    (List.perm_ext_iff_of_nodup (h.imp Before.ne) (k.imp Before.ne)).2 hmem
  exact hperm.eq_of_pairwise (fun s t _ _ hst hts => absurd hts hst.asymm) h k

theorem toNat_of_span {i : Nat} (hi : i < b.toNat + 1 - a.toNat) :
    (UInt64.ofNat (a.toNat + i)).toNat = a.toNat + i := by
  have hb := b.toNat_lt
  exact UInt64.toNat_ofNat_of_lt' (Nat.lt_of_le_of_lt (by omega : a.toNat + i ≤ b.toNat) hb)

theorem mem_span : c ∈ span a b ↔ a ≤ c ∧ c ≤ b := by
  rw [span, List.mem_map, UInt64.le_iff_toNat_le, UInt64.le_iff_toNat_le]
  constructor
  · rintro ⟨i, hi, rfl⟩
    rw [List.mem_range] at hi
    rw [toNat_of_span hi]
    omega
  · rintro ⟨ha, hb⟩
    refine ⟨c.toNat - a.toNat, List.mem_range.2 (by omega), ?_⟩
    rw [Nat.add_sub_cancel' ha, UInt64.ofNat_toNat]

theorem sorted_span (a b : UInt64) : (span a b).Pairwise (· < ·) := by
  rw [span, List.pairwise_map]
  refine List.pairwise_lt_range.imp_of_mem fun {i j} hi hj hij => ?_
  rw [UInt64.lt_iff_toNat_lt, toNat_of_span (List.mem_range.1 hi),
    toNat_of_span (List.mem_range.1 hj)]
  omega

theorem isRectangle_rectangle (p q : Position) : IsRectangle p q (rectangle p q) where
  mem s := by
    simp only [rectangle, List.mem_flatMap, List.mem_map, mem_span]
    constructor
    · rintro ⟨row, hrow, col, hcol, rfl⟩
      exact ⟨hrow, hcol⟩
    · rintro ⟨hrow, hcol⟩
      exact ⟨s.row, hrow, s.col, hcol, rfl⟩
  sorted := by
    rw [rectangle, List.pairwise_flatMap]
    refine ⟨fun row _ => ?_, (sorted_span _ _).imp fun {row row'} hlt s hs t ht => ?_⟩
    · rw [List.pairwise_map]
      exact (sorted_span _ _).imp fun hlt => .inr ⟨rfl, hlt⟩
    · obtain ⟨col, _, rfl⟩ := List.mem_map.1 hs
      obtain ⟨col', _, rfl⟩ := List.mem_map.1 ht
      exact .inl hlt

theorem length_rectangle (p q : Position) : (rectangle p q).length = rectangleSize p q := by
  simp only [rectangle, rectangleSize, List.length_flatMap, List.length_map, List.map_const',
    List.sum_replicate_nat]
  simp only [span, List.length_map, List.length_range]

/-- There is one list of the positions between two corners. -/
theorem IsRectangle.eq_rectangle (h : IsRectangle p q cells) : cells = rectangle p q :=
  eq_of_sorted h.sorted (isRectangle_rectangle p q).sorted fun s =>
    (h.mem s).trans ((isRectangle_rectangle p q).mem s).symm

theorem IsRectangle.ne_nil (h : IsRectangle p q cells) : cells ≠ [] := by
  have hbetween : ∀ a b : UInt64, min a b ≤ a ∧ a ≤ max a b := by
    intro a b
    change (if a ≤ b then a else b) ≤ a ∧ a ≤ if a ≤ b then b else a
    simp only [UInt64.le_iff_toNat_le]
    split <;> constructor <;> omega
  exact List.ne_nil_of_mem ((h.mem p).2 ⟨hbetween _ _, hbetween _ _⟩)

/-- The positions that two corners span are listed unless there are too many of them. -/
theorem rectangle?_of_isRectangle (h : IsRectangle p q cells) :
    rectangle? p q = if cells.length ≤ 100000 then some cells else none := by
  rw [h.eq_rectangle, length_rectangle]
  rfl

end

end Spreadsheet.Position

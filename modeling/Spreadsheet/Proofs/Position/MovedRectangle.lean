import Spreadsheet.Proofs.Position.Line
import Spreadsheet.Proofs.Position.Rectangle

/-!
# Rectangles whose corners move

An edit of lines moves the corners of a rectangle, and the rectangle with them.
Its cells that stay on the sheet go where the edit takes them. What the moved
corners span besides are the cells of a new line, if it comes in between the
corners: after the first line of the rectangle and not after its last one.
-/
namespace Spreadsheet
open Position

namespace Position

/-- Whether a position comes no later than another one in the order of reading. -/
def notAfter (p q : Position) : Bool := !decide (q.Before p)

section
variable {p q : Position} {cells others : List Position}

theorem notAfter_iff : p.notAfter q = true ↔ ¬q.Before p := by
  simp [notAfter]

theorem notAfter_trans (p q r : Position) (h : p.notAfter q = true) (k : q.notAfter r = true) :
    p.notAfter r = true := by
  rw [notAfter_iff] at *
  rcases before_or_eq_or_before p q with hpq | rfl | hqp
  · exact fun hrp => k (hrp.trans hpq)
  · exact k
  · exact absurd hqp h

theorem notAfter_total (p q : Position) : (p.notAfter q || q.notAfter p) = true := by
  rw [Bool.or_eq_true, notAfter_iff, notAfter_iff]
  rcases before_or_eq_or_before p q with h | rfl | h
  · exact .inl h.asymm
  · exact .inl (not_before_self p)
  · exact .inr h.asymm

/-- Two lists in the order of reading without a common position are merged into one. -/
theorem sorted_merge (h : cells.Pairwise Before) (k : others.Pairwise Before)
    (hdisjoint : ∀ t ∈ cells, t ∉ others) : (cells.merge others notAfter).Pairwise Before := by
  have hle : ∀ {cells : List Position}, cells.Pairwise Before →
      cells.Pairwise fun a b => a.notAfter b = true :=
    fun h => h.imp fun hab => notAfter_iff.2 hab.asymm
  have hsorted := List.pairwise_merge notAfter_trans notAfter_total cells others (hle h) (hle k)
  have hnodup : (cells.merge others notAfter).Nodup := by
    rw [(List.merge_perm_append notAfter).nodup_iff, List.nodup_append]
    exact ⟨h.imp Before.ne, k.imp Before.ne, fun a ha b hb he => hdisjoint a ha (he ▸ hb)⟩
  refine (hsorted.and hnodup).imp fun {a b} hab => ?_
  rcases before_or_eq_or_before a b with h | rfl | h
  · exact h
  · exact absurd rfl hab.2
  · exact absurd h (notAfter_iff.1 hab.1)

end

end Position

namespace Axis
variable {axis : Axis} {p q t : Position} {x y : UInt64}

/-- The line of a position is one of those from the line of one position to that of another. -/
def Between (axis : Axis) (p q t : Position) : Prop :=
  min (axis.of p) (axis.of q) ≤ axis.of t ∧ axis.of t ≤ max (axis.of p) (axis.of q)

theorem mem_rectangle (axis : Axis) :
    t ∈ rectangle p q ↔ axis.Between p q t ∧ axis.across.Between p q t := by
  rw [(isRectangle_rectangle p q).mem]
  cases axis with
  | row => rfl
  | column => exact and_comm

theorem between_put : axis.Between (axis.put p x) (axis.put q y) t ↔
    min x y ≤ axis.of t ∧ axis.of t ≤ max x y := by
  rw [Between, of_put, of_put]

/-- Where the corners go along the axis does not matter across it. -/
theorem across_between_put : axis.across.Between (axis.put p x) (axis.put q y) t ↔
    axis.across.Between p q t := by
  rw [Between, across_of_put, across_of_put, Between]

theorem across_between_of_put :
    axis.across.Between p q (axis.put t x) ↔ axis.across.Between p q t := by
  rw [Between, across_of_put, Between]

end Axis

namespace Shift

/-- The cells of the new line in the rectangle between two corners, if it comes in between them. -/
def newCells (s : Shift) (p q : Position) : List Position :=
  if s.isInsertion = true ∧ min (s.axis.of p) (s.axis.of q) < s.index ∧
      s.index ≤ max (s.axis.of p) (s.axis.of q) then
    rectangle (s.axis.put p s.index) (s.axis.put q s.index)
  else []

section
variable {s : Shift} {a b x z a' b' : UInt64} {p q t p' q' : Position}
    {cells cells' : List Position}

theorem toNat_min (a b : UInt64) : (min a b).toNat = min a.toNat b.toNat := by
  change (if a ≤ b then a else b).toNat = _
  simp only [UInt64.le_iff_toNat_le]
  split <;> omega

theorem toNat_max (a b : UInt64) : (max a b).toNat = max a.toNat b.toNat := by
  change (if a ≤ b then b else a).toNat = _
  simp only [UInt64.le_iff_toNat_le]
  split <;> omega

/-- Between two lines that have moved are the lines that were between them, and the new line. -/
theorem line_between (ha : s.line a = some a') (hb : s.line b = some b') :
    min a' b' ≤ z ∧ z ≤ max a' b' ↔
      (∃ x, (min a b ≤ x ∧ x ≤ max a b) ∧ s.line x = some z) ∨
        s.isInsertion = true ∧ z = s.index ∧ min a b < z ∧ z ≤ max a b := by
  have hz := z.toNat_lt
  have ha' := a.toNat_lt
  have hb' := b.toNat_lt
  have hat : ∀ n < UInt64.size, ∃ x : UInt64, x.toNat = n :=
    fun n hn => ⟨UInt64.ofNat n, UInt64.toNat_ofNat_of_lt' hn⟩
  simp only [UInt64.size] at hat
  cases hs : s.isInsertion with
  | true =>
    rw [line_of_isInsertion hs] at ha hb
    simp only [line_of_isInsertion hs, UInt64.le_iff_toNat_le, UInt64.lt_iff_toNat_lt, toNat_min,
      toNat_max, ← UInt64.toNat_inj, true_and]
    constructor
    · intro h
      by_cases hnew : z.toNat = s.index.toNat ∧ min a.toNat b.toNat < z.toNat
      · exact .inr ⟨hnew.1, hnew.2, by omega⟩
      · left
        by_cases hz : s.index.toNat < z.toNat
        · obtain ⟨x, hx⟩ := hat (z.toNat - 1) (by omega)
          exact ⟨x, by omega, by omega⟩
        · exact ⟨z, by omega, by omega⟩
    · rintro (⟨x, hx, hxz⟩ | h) <;> omega
  | false =>
    rw [line_of_not_isInsertion hs] at ha hb
    simp only [line_of_not_isInsertion hs, UInt64.le_iff_toNat_le, toNat_min, toNat_max,
      Bool.false_eq_true, false_and, or_false]
    constructor
    · intro h
      by_cases hz : s.index.toNat ≤ z.toNat
      · obtain ⟨x, hx⟩ := hat (z.toNat + 1) (by omega)
        exact ⟨x, by omega, by omega⟩
      · exact ⟨z, by omega, by omega⟩
    · rintro ⟨x, hx, hxz⟩
      omega

theorem between_self (x b : UInt64) : min b b ≤ x ∧ x ≤ max b b ↔ x = b := by
  simp only [UInt64.le_iff_toNat_le, toNat_min, toNat_max, ← UInt64.toNat_inj]
  omega

theorem mem_newCells : t ∈ s.newCells p q ↔
    (s.isInsertion = true ∧ s.axis.of t = s.index ∧
      min (s.axis.of p) (s.axis.of q) < s.axis.of t ∧
      s.axis.of t ≤ max (s.axis.of p) (s.axis.of q)) ∧ s.axis.across.Between p q t := by
  rw [newCells]
  split
  · rename_i h
    rw [s.axis.mem_rectangle, Axis.between_put, Axis.across_between_put, between_self]
    exact and_congr_left fun _ => ⟨fun ht => ⟨h.1, ht, ht.symm ▸ h.2⟩, fun ht => ht.2.1⟩
  · rename_i h
    refine iff_of_false List.not_mem_nil fun ⟨⟨hs, ht, hbetween⟩, _⟩ => h ⟨hs, ?_⟩
    rwa [ht] at hbetween

theorem sorted_newCells (s : Shift) (p q : Position) : (s.newCells p q).Pairwise Before := by
  rw [newCells]
  split
  · exact (isRectangle_rectangle _ _).sorted
  · exact .nil

/-- Nothing moves to a new line. -/
theorem not_mem_newCells_of_apply {r : Position} (h : s.apply r = some t) :
    t ∉ s.newCells p q := by
  intro ht
  obtain ⟨⟨hs, hindex, -⟩, -⟩ := mem_newCells.1 ht
  rw [apply_eq, Option.map_eq_some_iff] at h
  obtain ⟨x, hx, rfl⟩ := h
  rw [Axis.of_put] at hindex
  rw [line_of_isInsertion hs, hindex] at hx
  omega

/-- The cells of a rectangle that stay, where they go, and those of a new line are the cells of the
rectangle between the corners where they go. -/
theorem isRectangle_merge (hp : s.apply p = some p') (hq : s.apply q = some q') :
    IsRectangle p' q'
      (((rectangle p q).filterMap s.apply).merge (s.newCells p q) notAfter) where
  mem t := by
    rw [apply_eq, Option.map_eq_some_iff] at hp hq
    obtain ⟨x, hx, rfl⟩ := hp
    obtain ⟨y, hy, rfl⟩ := hq
    rw [List.mem_merge, List.mem_filterMap, mem_newCells]
    refine Iff.trans ?_ (s.axis.mem_rectangle.symm.trans ((isRectangle_rectangle _ _).mem t))
    rw [Axis.between_put, Axis.across_between_put, line_between hx hy, or_and_right]
    refine or_congr_left ⟨?_, ?_⟩
    · rintro ⟨r, hr, happly⟩
      rw [s.axis.mem_rectangle] at hr
      rw [apply_eq, Option.map_eq_some_iff] at happly
      obtain ⟨z, hz, rfl⟩ := happly
      exact ⟨⟨s.axis.of r, hr.1, by rwa [Axis.of_put]⟩, Axis.across_between_of_put.2 hr.2⟩
    · rintro ⟨⟨z, hz, hline⟩, ht⟩
      refine ⟨s.axis.put t z, s.axis.mem_rectangle.2 ⟨?_, Axis.across_between_of_put.2 ht⟩, ?_⟩
      · rwa [Axis.Between, Axis.of_put]
      · rw [apply_eq, Axis.of_put, hline, Option.map_some, Axis.put_put, Axis.put_of]
  sorted := by
    refine sorted_merge ?_ (sorted_newCells s p q) fun t ht => ?_
    · exact (isRectangle_rectangle p q).sorted.filterMap s.apply
        fun a b hab a' ha b' hb => before_of_moved ha hb hab
    · obtain ⟨r, _, hr⟩ := List.mem_filterMap.1 ht
      exact not_mem_newCells_of_apply hr

/-- An edit of lines that keeps both corners of a rectangle takes it to the rectangle between the
moved corners. Of one whose line goes, the other cells are left. A new line comes in with its cells
between the corners, if it comes after the first line of the rectangle and not after the last. -/
theorem rectangle?_of_moved_corners (hp : s.apply p = some p') (hq : s.apply q = some q')
    (hcells : rectangle? p q = some cells) (hcells' : rectangle? p' q' = some cells') :
    (s.isInsertion = false → cells' = cells.filterMap s.apply) ∧
      (s.isInsertion = true →
        cells' = (cells.filterMap s.apply).merge (s.newCells p q) notAfter) := by
  have hlisted : ∀ {p q : Position} {cells : List Position}, rectangle? p q = some cells →
      cells = rectangle p q := by
    intro p q cells h
    unfold rectangle? at h
    split at h
    · exact (Option.some.inj h).symm
    · cases h
  have hmerge : cells' = (cells.filterMap s.apply).merge (s.newCells p q) notAfter := by
    rw [hlisted hcells, hlisted hcells', (isRectangle_merge hp hq).eq_rectangle]
  refine ⟨fun hs => ?_, fun _ => hmerge⟩
  have hnone : s.newCells p q = [] := by
    rw [newCells, hs]
    exact if_neg fun h => Bool.noConfusion h.1
  rw [hmerge, hnone, List.merge_right]

end

/-- Two rows of two cells, whose corners are given from the last to the first, and a row that comes
in between them. Of three rows with the middle one deleted two are left. -/
theorem rectangle?_of_moved_corners_reversed :
    (insertRow 1).apply ⟨1, 1⟩ = some ⟨2, 1⟩ ∧ (insertRow 1).apply ⟨0, 0⟩ = some ⟨0, 0⟩ ∧
    rectangle? ⟨2, 1⟩ ⟨0, 0⟩ =
      some (List.merge [⟨0, 0⟩, ⟨0, 1⟩, ⟨2, 0⟩, ⟨2, 1⟩] [⟨1, 0⟩, ⟨1, 1⟩] notAfter) ∧
    (deleteRow 1).apply ⟨2, 0⟩ = some ⟨1, 0⟩ ∧ (deleteRow 1).apply ⟨0, 1⟩ = some ⟨0, 1⟩ ∧
    rectangle? ⟨1, 0⟩ ⟨0, 1⟩ = some [⟨0, 0⟩, ⟨0, 1⟩, ⟨1, 0⟩, ⟨1, 1⟩] := by
  have hlast : (insertRow 1).apply ⟨1, 1⟩ = some ⟨2, 1⟩ := by decide
  have hfirst : (insertRow 1).apply ⟨0, 0⟩ = some ⟨0, 0⟩ := by decide
  have htwo : rectangle? ⟨1, 1⟩ ⟨0, 0⟩ = some [⟨0, 0⟩, ⟨0, 1⟩, ⟨1, 0⟩, ⟨1, 1⟩] := by decide
  have hthree : rectangle? ⟨2, 1⟩ ⟨0, 0⟩ = some (rectangle ⟨2, 1⟩ ⟨0, 0⟩) := if_pos (by decide)
  have hbottom : (deleteRow 1).apply ⟨2, 0⟩ = some ⟨1, 0⟩ := by decide
  have htop : (deleteRow 1).apply ⟨0, 1⟩ = some ⟨0, 1⟩ := by decide
  have hwhole : rectangle? ⟨2, 0⟩ ⟨0, 1⟩ =
      some [⟨0, 0⟩, ⟨0, 1⟩, ⟨1, 0⟩, ⟨1, 1⟩, ⟨2, 0⟩, ⟨2, 1⟩] := by decide
  have hleft : rectangle? ⟨1, 0⟩ ⟨0, 1⟩ = some (rectangle ⟨1, 0⟩ ⟨0, 1⟩) := if_pos (by decide)
  have hinserted := (rectangle?_of_moved_corners hlast hfirst htwo hthree).2 rfl
  have hdeleted := (rectangle?_of_moved_corners hbottom htop hwhole hleft).1 rfl
  have hmoved : [⟨0, 0⟩, ⟨0, 1⟩, ⟨1, 0⟩, ⟨1, 1⟩].filterMap (insertRow 1).apply =
      [⟨0, 0⟩, ⟨0, 1⟩, ⟨2, 0⟩, ⟨2, 1⟩] := by decide
  have hnew : (insertRow 1).newCells ⟨1, 1⟩ ⟨0, 0⟩ = [⟨1, 0⟩, ⟨1, 1⟩] := by decide
  refine ⟨hlast, hfirst, ?_, hbottom, htop, ?_⟩
  · rw [hthree, hinserted, hmoved, hnew]
  · rw [hleft, hdeleted]
    decide

end Shift

end Spreadsheet

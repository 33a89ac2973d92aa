import Spreadsheet.Text.Blank

/-!
# Texts cut and split

A text is cut at the first character of a class, so that a front without one
passes by, or behind a given beginning. Joined pieces are split again if none of
them holds the separator.
-/
namespace Spreadsheet.Text

theorem cut_append {p : Char → Bool} {xs : List Char} (h : ∀ c ∈ xs, p c = false)
    (ys : List Char) : cut p (xs ++ ys) = (cut p ys).map fun r => (xs ++ r.1, r.2) := by
  induction xs with
  | nil => simp
  | cons x xs ih =>
    obtain ⟨hx, hxs⟩ := List.forall_mem_cons.1 h
    rw [List.cons_append, cut, hx, ih hxs, Option.map_map]
    rfl

theorem cut_cons {p : Char → Bool} {c : Char} (hc : p c = false) (cs : List Char) :
    cut p (c :: cs) = (cut p cs).map fun r => (c :: r.1, r.2) := by
  rw [cut, hc]
  rfl

theorem dropLead?_append_self (lead cs : List Char) : dropLead? lead (lead ++ cs) = some cs := by
  induction lead with
  | nil => rfl
  | cons l lead ih => rw [List.cons_append, dropLead?, if_pos rfl, ih]

theorem dropLead?_eq_none {lead cs : List Char} (h : ¬lead <+: cs) : dropLead? lead cs = none :=
  Option.eq_none_iff_forall_ne_some.2 fun rest hrest =>
    h ⟨rest, (eq_of_dropLead hrest).symm⟩

theorem splitOn_append {separator : Char} {piece : List Char} (h : separator ∉ piece)
    (cs : List Char) :
    splitOn separator (piece ++ separator :: cs) = piece :: splitOn separator cs := by
  induction piece with
  | nil => rw [List.nil_append, splitOn, if_pos rfl]
  | cons c piece ih =>
    obtain ⟨hc, hpiece⟩ := not_or.1 (mt List.mem_cons.2 h)
    rw [List.cons_append, splitOn, if_neg (Ne.symm hc), ih hpiece]

/-- Pieces that each end with a separator are split into the pieces and an empty end. -/
theorem splitOn_flatMap {separator : Char} {pieces : List (List Char)}
    (h : ∀ piece ∈ pieces, separator ∉ piece) :
    splitOn separator (pieces.flatMap fun piece => piece ++ [separator]) = pieces ++ [[]] := by
  induction pieces with
  | nil => rfl
  | cons piece pieces ih =>
    obtain ⟨hpiece, hpieces⟩ := List.forall_mem_cons.1 h
    rw [List.flatMap_cons, List.append_assoc, List.singleton_append, splitOn_append hpiece,
      ih hpieces, List.cons_append]

theorem mem_of_mem_splitOn {separator c : Char} {piece cs : List Char}
    (hpiece : piece ∈ splitOn separator cs) (hc : c ∈ piece) : c ∈ cs := by
  induction cs generalizing piece with
  | nil =>
    rw [splitOn, List.mem_singleton] at hpiece
    rwa [hpiece] at hc
  | cons d cs ih =>
    rw [splitOn] at hpiece
    split at hpiece
    · rcases List.mem_cons.1 hpiece with rfl | hpiece
      · cases hc
      · exact List.mem_cons_of_mem _ (ih hpiece hc)
    · split at hpiece
      · rw [List.mem_singleton] at hpiece
        rw [hpiece] at hc
        exact List.mem_cons.2 ((List.mem_cons.1 hc).imp_right fun h => by cases h)
      · rename_i first rest hsplit
        rcases List.mem_cons.1 hpiece with rfl | hpiece
        · have hfirst : first ∈ splitOn separator cs := hsplit ▸ List.mem_cons_self
          exact List.mem_cons.2 ((List.mem_cons.1 hc).imp_right (ih hfirst))
        · have hrest : piece ∈ splitOn separator cs := hsplit ▸ List.mem_cons_of_mem _ hpiece
          exact List.mem_cons_of_mem _ (ih hrest hc)

end Spreadsheet.Text

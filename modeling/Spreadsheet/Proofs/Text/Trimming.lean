import Mathlib.Data.List.DropRight
import Spreadsheet.Text.Blank

/-!
# Trimmed texts

A trimmed text stays as it is when it is trimmed again. Whether it has blanks at
its end shows in any end of it that is not empty.
-/
namespace Spreadsheet.Text

variable {c : Char} {cs ys : List Char}

theorem trimRight_eq_self_iff :
    trimRight cs = cs ↔ ∀ h : cs ≠ [], isBlank (cs.getLast h) = false := by
  change List.rdropWhile isBlank cs = cs ↔ _
  simpa only [Bool.not_eq_true] using List.rdropWhile_eq_self_iff (p := isBlank) (l := cs)

theorem trimRight_trimRight (cs : List Char) : trimRight (trimRight cs) = trimRight cs :=
  List.rdropWhile_idempotent isBlank cs

theorem trimRight_trim (cs : List Char) : trimRight (trim cs) = trim cs := trimRight_trimRight _

/-- A text has blanks at its end if and only if an end of it has. -/
theorem trimRight_append_eq_self_iff (xs : List Char) (hys : ys ≠ []) :
    trimRight (xs ++ ys) = xs ++ ys ↔ trimRight ys = ys := by
  simp only [trimRight_eq_self_iff, List.getLast_append_of_ne_nil _ hys]
  exact ⟨fun h _ => h (List.append_ne_nil_of_right_ne_nil _ hys), fun h _ => h hys⟩

theorem trimRight_of_cons (h : trimRight (c :: cs) = c :: cs) : trimRight cs = cs := by
  cases cs with
  | nil => rfl
  | cons d cs => exact (trimRight_append_eq_self_iff [c] (List.cons_ne_nil d cs)).1 h

/-- Blanks at the end of a text are dropped behind its last character that is none. -/
theorem trimRight_append_cons (xs ys : List Char) (hc : isBlank c = false) :
    trimRight (xs ++ c :: ys) = xs ++ c :: trimRight ys := by
  rw [trimRight, List.reverse_append, List.reverse_cons, List.append_assoc, List.dropWhile_append]
  split
  · rename_i hall
    rw [List.isEmpty_iff] at hall
    rw [List.singleton_append, List.dropWhile_cons_of_neg (by simp [hc]), trimRight, hall]
    simp
  · simp [trimRight]

theorem trim_cons_of_not_isBlank (hc : isBlank c = false) (cs : List Char) :
    trim (c :: cs) = c :: trimRight cs := by
  rw [trim, trimLeft, List.dropWhile_cons_of_neg (by simp [hc])]
  exact trimRight_append_cons [] cs hc

/-- A text with a mark in front is trimmed if it has no blanks at its end. -/
theorem trim_cons (hc : isBlank c = false) (h : trimRight cs = cs) : trim (c :: cs) = c :: cs := by
  rw [trim_cons_of_not_isBlank hc, h]

theorem trim_trim (cs : List Char) : trim (trim cs) = trim cs := by
  cases h : trim cs with
  | nil => rfl
  | cons c rest =>
    have hr : trimRight rest = rest := trimRight_of_cons (h ▸ trimRight_trim cs)
    refine trim_cons ?_ hr
    -- The first character that is left was the first one that is no blank.
    have hhead := List.head?_dropWhile_not isBlank cs
    obtain ⟨more, hmore⟩ := List.rdropWhile_prefix isBlank (cs.dropWhile isBlank)
    change trim cs ++ more = cs.dropWhile isBlank at hmore
    rw [← hmore, h] at hhead
    simpa using hhead

theorem trimRight_of_trim (h : trim cs = cs) : trimRight cs = cs := h ▸ trimRight_trim cs

/-- A trimmed text has no blank at its front and none at its end. -/
theorem trim_eq_self_iff :
    trim cs = cs ↔ (∀ c ∈ cs.head?, isBlank c = false) ∧ trimRight cs = cs := by
  cases cs with
  | nil => simp [trim, trimLeft, trimRight]
  | cons c cs =>
    constructor
    · intro h
      refine ⟨fun d hd => ?_, trimRight_of_trim h⟩
      cases hd
      by_contra hc
      have hlength := congrArg List.length h
      rw [trim, trimLeft, List.dropWhile_cons_of_pos (by simpa using hc)] at hlength
      have hle := (List.rdropWhile_prefix isBlank (cs.dropWhile isBlank)).length_le
      have hle' := length_dropWhile_le isBlank cs
      change (List.rdropWhile isBlank (cs.dropWhile isBlank)).length = _ at hlength
      rw [List.length_cons] at hlength
      omega
    · rintro ⟨hc, h⟩
      exact trim_cons (hc c rfl) (trimRight_of_cons h)

theorem trimRight_of_forall (h : ∀ c ∈ cs, isBlank c = false) : trimRight cs = cs :=
  trimRight_eq_self_iff.2 fun hcs => h _ (List.getLast_mem hcs)

/-- Blanks at the end of a text do not count. -/
theorem trimRight_append_of_forall (h : ∀ c ∈ ys, isBlank c = true) (xs : List Char) :
    trimRight (xs ++ ys) = trimRight xs := by
  have hys : ∀ c ∈ ys.reverse, isBlank c = true := fun c hc => h c (List.mem_reverse.1 hc)
  rw [trimRight, List.reverse_append, List.dropWhile_append_of_pos hys, trimRight]

theorem trim_append_of_forall (h : ∀ c ∈ ys, isBlank c = true) (xs : List Char) :
    trim (xs ++ ys) = trim xs := by
  rw [trim, trim, trimLeft, trimLeft, List.dropWhile_append]
  split
  · rename_i hall
    rw [List.isEmpty_iff] at hall
    rw [hall, List.dropWhile_eq_nil_iff.2 h]
  · exact trimRight_append_of_forall h _

theorem trim_of_forall_append {xs : List Char} (h : ∀ c ∈ xs, isBlank c = true)
    (ys : List Char) : trim (xs ++ ys) = trim ys := by
  rw [trim, trimLeft, List.dropWhile_append_of_pos h, trim, trimLeft]

/-- Trimming takes away blanks only. -/
theorem exists_blanks_around_trim (cs : List Char) : ∃ front back,
    cs = front ++ trim cs ++ back ∧ (∀ c ∈ front, isBlank c = true) ∧
      ∀ c ∈ back, isBlank c = true := by
  refine ⟨cs.takeWhile isBlank, (trimLeft cs).rtakeWhile isBlank, ?_,
    List.all_eq_true.1 List.all_takeWhile, fun c => List.mem_rtakeWhile_imp⟩
  have hright : trim cs ++ (trimLeft cs).rtakeWhile isBlank = trimLeft cs :=
    List.rdropWhile_append_rtakeWhile ..
  rw [List.append_assoc, hright]
  exact List.takeWhile_append_dropWhile.symm

theorem trim_trimRight (cs : List Char) : trim (trimRight cs) = trim cs := by
  have hright : trimRight cs ++ cs.rtakeWhile isBlank = cs :=
    List.rdropWhile_append_rtakeWhile ..
  conv_rhs => rw [← hright, trim_append_of_forall fun c => List.mem_rtakeWhile_imp]

theorem isBlank_of_isAlphanum (h : c.isAlphanum = true) : isBlank c = false := by
  unfold Char.isAlphanum Char.isAlpha Char.isUpper Char.isLower Char.isDigit at h
  simp only [Bool.or_eq_true, Bool.and_eq_true, decide_eq_true_eq, UInt32.le_iff_toNat_le,
    ge_iff_le, Char.toNat_val, Char.reduceToNat] at h
  simp only [isBlank, Bool.or_eq_false_iff, Bool.and_eq_false_iff, decide_eq_false_iff_not,
    beq_eq_false_iff_ne]
  omega

theorem trim_of_isAlphanum (h : ∀ c ∈ cs, c.isAlphanum = true) : trim cs = cs :=
  trim_eq_self_iff.2 ⟨fun c hc => isBlank_of_isAlphanum (h c (List.mem_of_mem_head? hc)),
    trimRight_of_forall fun c hc => isBlank_of_isAlphanum (h c hc)⟩

end Spreadsheet.Text

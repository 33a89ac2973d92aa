import Spreadsheet.Proofs.Text.Runs
import Spreadsheet.Proofs.Text.Trimming

/-!
# Words with blanks between them

The words of a text are found again however many blanks stand between them and
at its ends. So a text and the trimmed text have the same words.
-/
namespace Spreadsheet.Text

/-- Words with blanks between them, and perhaps at the two ends. -/
inductive Spaced : List (List Char) → List Char → Prop
  | nil {blanks : List Char} : (∀ c ∈ blanks, isBlank c = true) → Spaced [] blanks
  | cons {blanks word rest : List Char} {words : List (List Char)} :
      (∀ c ∈ blanks, isBlank c = true) → (∀ c ∈ rest.head?, isBlank c = true) →
      Spaced words rest → Spaced (word :: words) (blanks ++ word ++ rest)

variable {w xs ys cs : List Char}

/-- A run of characters that are no blanks is the front of a word. -/
theorem words_append (hne : w ≠ []) (hw : ∀ c ∈ w, isBlank c = false) (cs : List Char) :
    words (w ++ cs) = (w ++ cs.takeWhile fun d => !isBlank d) ::
      words (cs.dropWhile fun d => !isBlank d) := by
  cases w with
  | nil => exact absurd rfl hne
  | cons c w =>
    obtain ⟨hc, hw⟩ := List.forall_mem_cons.1 hw
    have hrun : ∀ d ∈ w, (!isBlank d) = true := fun d hd => by rw [hw d hd]; rfl
    rw [List.cons_append, words, hc, List.takeWhile_append_of_pos hrun,
      List.dropWhile_append_of_pos hrun]
    rfl

theorem words_of_forall_append (h : ∀ c ∈ xs, isBlank c = true) (cs : List Char) :
    words (xs ++ cs) = words cs := by
  induction xs with
  | nil => rfl
  | cons c xs ih =>
    obtain ⟨hc, hxs⟩ := List.forall_mem_cons.1 h
    rw [List.cons_append, words, if_pos hc, ih hxs]

theorem words_append_of_forall (h : ∀ c ∈ ys, isBlank c = true) (cs : List Char) :
    words (cs ++ ys) = words cs := by
  cases ys with
  | nil => rw [List.append_nil]
  | cons d ys =>
    have hd : (!isBlank d) = false := by rw [h d List.mem_cons_self]; rfl
    fun_induction words cs with
    | case1 => simpa [words] using words_of_forall_append h []
    | case2 c cs hc ih => rw [List.cons_append, words, if_pos hc, ih]
    | case3 c cs hc ih =>
      obtain ⟨htake, hdrop⟩ := takeWhile_append_cons (p := fun d => !isBlank d) hd cs ys
      rw [List.cons_append, words, if_neg hc, htake, hdrop, ih]

@[simp] theorem words_trim (cs : List Char) : words (trim cs) = words cs := by
  obtain ⟨front, back, hcs, hfront, hback⟩ := exists_blanks_around_trim cs
  conv_rhs => rw [hcs, words_append_of_forall hback, words_of_forall_append hfront]

theorem Spaced.words_eq {ws : List (List Char)} (h : Spaced ws cs)
    (hws : ∀ w ∈ ws, w ≠ [] ∧ ∀ c ∈ w, isBlank c = false) : words cs = ws := by
  induction h with
  | nil hblanks => simpa [words] using words_of_forall_append hblanks []
  | @cons blanks word rest ws hblanks hrest _ ih =>
    obtain ⟨⟨hne, hword⟩, hws⟩ := List.forall_mem_cons.1 hws
    have hend : ∀ c ∈ rest.head?, (!isBlank c) = false := fun c hc => by rw [hrest c hc]; rfl
    obtain ⟨htake, hdrop⟩ := takeWhile_append_of_head (p := fun d => !isBlank d)
      (List.forall_mem_nil _) hend
    rw [List.nil_append] at htake hdrop
    rw [List.append_assoc, words_of_forall_append hblanks, words_append hne hword, htake, hdrop,
      List.append_nil, ih hws]

theorem exists_spaced (ws : List (List Char)) : ∃ cs, Spaced ws cs := by
  induction ws with
  | nil => exact ⟨[], .nil (List.forall_mem_nil _)⟩
  | cons w ws ih =>
    obtain ⟨rest, hrest⟩ := ih
    -- A blank in front of the rest keeps the first word apart.
    have hblank : Spaced ws (' ' :: rest) := by
      have hspace : ∀ c ∈ [' '], isBlank c = true := by decide
      cases hrest with
      | nil hblanks => exact .nil (List.forall_mem_append.2 ⟨hspace, hblanks⟩)
      | cons hblanks hhead hrest =>
        exact .cons (List.forall_mem_append.2 ⟨hspace, hblanks⟩) hhead hrest
    exact ⟨[] ++ w ++ ' ' :: rest, .cons (List.forall_mem_nil _) (by simp; decide) hblank⟩

end Spreadsheet.Text

import Mathlib.Data.List.Basic
import Spreadsheet.Text.Blank
import Spreadsheet.Text.Word

/-!
# Words outside the quotes

A text is followed character by character, within quotes and outside of them. In
the text of a formula nothing is escaped within quotes; in the text of an
expression a backslash takes the next character with it. The words of interest
are the maximal ones that begin with a letter outside the quotes.
-/
namespace Spreadsheet.Text

/-- What holds of all characters of a text is decided on the text, and not on all characters. -/
instance (priority := high) decidableForallMem (cs : List Char) (P : Char → Prop)
    [DecidablePred P] : Decidable (∀ c ∈ cs, P c) :=
  List.decidableBAll P cs

/-- Where a character stands. -/
inductive Quoting where
  | outside
  | inside
  | escaped
deriving DecidableEq, Repr

/-- Where the next character stands. -/
def Quoting.next (escapes : Bool) : Quoting → Char → Quoting
  | outside, c => if c = '"' then inside else outside
  | inside, c =>
    if c = '"' then outside else if escapes && c == '\\' then escaped else inside
  | escaped, _ => inside

/-- Where a text ends that begins in a given place. -/
def quotingAfter (escapes : Bool) (q : Quoting) (cs : List Char) : Quoting :=
  cs.foldl (Quoting.next escapes) q

/-- Whether a text ends within a word, given whether one reaches up to its front. -/
def endsInWord (afterWord : Bool) (cs : List Char) : Bool :=
  cs.foldl (fun _ c => isWord c) afterWord

/-- The words that begin with a letter outside the quotes, each with what follows it. -/
def runs (escapes afterWord : Bool) (q : Quoting) : List Char → List (List Char × List Char)
  | [] => []
  | c :: cs =>
    let others := runs escapes (isWord c) (q.next escapes c) cs
    if q = .outside ∧ afterWord = false ∧ c.isAlpha = true then
      (c :: cs.takeWhile isWord, cs.dropWhile isWord) :: others
    else others

section
variable {escapes afterWord : Bool} {q : Quoting} {c : Char} {cs xs ys : List Char}

attribute [local simp] runs

theorem isWord_of_isAsciiWord (h : isAsciiWord c = true) : isWord c = true := by
  rcases (Bool.or_eq_true ..).mp h with h | h
  · exact isWord_of_isAlphanum h
  · rw [beq_iff_eq.1 h]
    rfl

theorem isWord_of_isAlpha (h : c.isAlpha = true) : isWord c = true :=
  isWord_of_isAsciiWord (isAsciiWord_of_isAlpha h)

theorem isWord_of_isDigit (h : c.isDigit = true) : isWord c = true :=
  isWord_of_isAlphanum (by simp [Char.isAlphanum, h])

theorem isAsciiWord_of_not_isWord (h : isWord c = false) : isAsciiWord c = false :=
  eq_false_of_ne_true (mt isWord_of_isAsciiWord (ne_true_of_eq_false h))

theorem isAlpha_of_not_isWord (h : isWord c = false) : c.isAlpha = false :=
  eq_false_of_ne_true (mt isWord_of_isAlpha (ne_true_of_eq_false h))

theorem isDigit_of_not_isWord (h : isWord c = false) : c.isDigit = false :=
  eq_false_of_ne_true (mt isWord_of_isDigit (ne_true_of_eq_false h))

theorem ne_quote_of_isWord (h : isWord c = true) : c ≠ '"' := by
  rintro rfl
  exact absurd h (by decide)

@[simp] theorem endsInWord_nil : endsInWord afterWord [] = afterWord := rfl

@[simp] theorem endsInWord_cons : endsInWord afterWord (c :: cs) = endsInWord (isWord c) cs := rfl

@[simp] theorem endsInWord_append :
    endsInWord afterWord (xs ++ ys) = endsInWord (endsInWord afterWord xs) ys :=
  List.foldl_append

theorem endsInWord_eq_false (ha : afterWord = false) (h : ∀ c ∈ cs, isWord c = false) :
    endsInWord afterWord cs = false := by
  induction cs generalizing afterWord with
  | nil => exact ha
  | cons c cs ih =>
    rw [List.forall_mem_cons] at h
    exact ih h.1 h.2

theorem endsInWord_eq_true (hne : cs ≠ []) (h : ∀ c ∈ cs, isWord c = true) :
    endsInWord afterWord cs = true := by
  induction cs generalizing afterWord with
  | nil => exact absurd rfl hne
  | cons c cs ih =>
    rw [List.forall_mem_cons] at h
    cases cs with
    | nil => exact h.1
    | cons d cs => exact @ih (isWord c) (List.cons_ne_nil d cs) h.2

@[simp] theorem quotingAfter_nil : quotingAfter escapes q [] = q := rfl

@[simp] theorem quotingAfter_cons :
    quotingAfter escapes q (c :: cs) = quotingAfter escapes (q.next escapes c) cs := rfl

@[simp] theorem quotingAfter_append :
    quotingAfter escapes q (xs ++ ys) = quotingAfter escapes (quotingAfter escapes q xs) ys :=
  List.foldl_append

theorem next_outside (h : c ≠ '"') : Quoting.next escapes .outside c = .outside := by
  simp [Quoting.next, h]

theorem quotingAfter_outside (h : '"' ∉ cs) : quotingAfter escapes .outside cs = .outside := by
  induction cs with
  | nil => rfl
  | cons c cs ih =>
    rw [List.mem_cons, not_or] at h
    rw [quotingAfter_cons, next_outside (Ne.symm h.1), ih h.2]

/-- The words of a later part are words of the whole. -/
theorem runs_subset_append (escapes afterWord : Bool) (q : Quoting) (xs ys : List Char) :
    runs escapes (endsInWord afterWord xs) (quotingAfter escapes q xs) ys ⊆
      runs escapes afterWord q (xs ++ ys) := by
  induction xs generalizing afterWord q with
  | nil => exact List.Subset.refl _
  | cons x xs ih =>
    rw [List.cons_append, runs]
    split
    · exact List.subset_cons_of_subset _ (ih ..)
    · exact ih ..

theorem runs_cons_of_not_isAlpha (h : c.isAlpha = false) :
    runs escapes afterWord q (c :: cs) = runs escapes (isWord c) (q.next escapes c) cs := by
  simp [runs, h]

/-- Nothing but letters begins a word. -/
theorem runs_append_of_no_letter (h : ∀ c ∈ xs, c.isAlpha = false) :
    runs escapes afterWord q (xs ++ ys) =
      runs escapes (endsInWord afterWord xs) (quotingAfter escapes q xs) ys := by
  induction xs generalizing afterWord q with
  | nil => rfl
  | cons x xs ih =>
    rw [List.forall_mem_cons] at h
    rw [List.cons_append, runs_cons_of_not_isAlpha h.1, ih h.2]
    rfl

/-- No run goes on after its end. -/
theorem head_dropWhile {p : Char → Bool} : ∀ c ∈ (cs.dropWhile p).head?, p c = false := by
  intro c hc
  have hhead := List.head?_dropWhile_not p cs
  rw [Option.mem_def.1 hc] at hhead
  simpa using hhead

/-- A run of characters ends where another one follows. -/
theorem takeWhile_append_of_head {p : Char → Bool} (hxs : ∀ c ∈ xs, p c = true)
    (hys : ∀ c ∈ ys.head?, p c = false) :
    (xs ++ ys).takeWhile p = xs ∧ (xs ++ ys).dropWhile p = ys := by
  rw [List.takeWhile_append_of_pos hxs, List.dropWhile_append_of_pos hxs]
  cases ys with
  | nil => exact ⟨List.append_nil _, rfl⟩
  | cons c ys => simp [hys c rfl]

/-- A character that is not of a class is in no text of that class. -/
theorem not_mem_of_eq_false {p : Char → Bool} {d : Char} (h : ∀ c ∈ cs, p c = true)
    (hd : p d = false) : d ∉ cs := fun hmem => by
  rw [h d hmem] at hd
  cases hd

/-- A run does not go on after a character that is not of its class. -/
theorem takeWhile_append_cons {p : Char → Bool} {d : Char} (hd : p d = false) (xs ys : List Char) :
    (xs ++ d :: ys).takeWhile p = xs.takeWhile p ∧
      (xs ++ d :: ys).dropWhile p = xs.dropWhile p ++ d :: ys := by
  induction xs with
  | nil => simp [hd]
  | cons c xs ih =>
    by_cases hc : p c = true
    · simp [hc, ih]
    · simp [hc]

/-- A narrower class of characters takes the whole word if what follows it is no word character. -/
theorem takeWhile_isWord {p : Char → Bool} (hp : ∀ c, p c = true → isWord c = true)
    (h : ∀ c ∈ (cs.dropWhile p).head?, isWord c = false) :
    cs.takeWhile isWord = cs.takeWhile p ∧ cs.dropWhile isWord = cs.dropWhile p := by
  have hall : ∀ c ∈ cs.takeWhile p, isWord c = true := fun c hc =>
    hp c (List.all_eq_true.1 List.all_takeWhile c hc)
  have hcs : cs.takeWhile p ++ cs.dropWhile p = cs := List.takeWhile_append_dropWhile
  have hrest : (cs.dropWhile p).takeWhile isWord = [] ∧
      (cs.dropWhile p).dropWhile isWord = cs.dropWhile p := by
    cases hd : cs.dropWhile p with
    | nil => exact ⟨rfl, rfl⟩
    | cons d rest =>
      rw [hd] at h
      have := h d rfl
      exact ⟨by simp [this], by simp [this]⟩
  constructor
  · rw [← hcs, List.takeWhile_append_of_pos hall, hrest.1, List.append_nil, hcs]
  · rw [← hcs, List.dropWhile_append_of_pos hall, hrest.2, hcs]

/-- Within a word no other begins. -/
theorem runs_word_append (h : ∀ c ∈ xs, isWord c = true) :
    runs escapes true .outside (xs ++ ys) = runs escapes true .outside ys := by
  induction xs with
  | nil => rfl
  | cons x xs ih =>
    rw [List.forall_mem_cons] at h
    rw [List.cons_append, runs, h.1, next_outside (ne_quote_of_isWord h.1)]
    simpa using ih h.2

/-- In a text that begins with letters, digits or underscores the first word is known. -/
theorem mem_runs_word_append {x : List Char × List Char} (hne : xs ≠ [])
    (h : ∀ c ∈ xs, isWord c = true)
    (hx : x ∈ runs escapes afterWord .outside (xs ++ ys)) :
    afterWord = false ∧ x = (xs ++ ys.takeWhile isWord, ys.dropWhile isWord) ∨
      x ∈ runs escapes true .outside ys := by
  cases xs with
  | nil => exact absurd rfl hne
  | cons c xs =>
    obtain ⟨hc, hxs⟩ := List.forall_mem_cons.1 h
    rw [List.cons_append, runs, hc, next_outside (ne_quote_of_isWord hc),
      runs_word_append hxs] at hx
    split at hx
    · rename_i hstart
      rcases List.mem_cons.1 hx with rfl | hx
      · refine .inl ⟨hstart.2.1, ?_⟩
        rw [List.takeWhile_append_of_pos hxs, List.dropWhile_append_of_pos hxs, List.cons_append]
      · exact .inr hx
    · exact .inr hx

theorem next_ne_outside (hq : q ≠ .outside) (hc : c ≠ '"') : q.next escapes c ≠ .outside := by
  cases q with
  | outside => exact absurd rfl hq
  | inside =>
    simp only [Quoting.next, if_neg hc]
    split <;> nofun
  | escaped => nofun

/-- Quotes that are never closed hide everything. -/
theorem runs_eq_nil (hq : q ≠ .outside) (h : '"' ∉ cs) : runs escapes afterWord q cs = [] := by
  induction cs generalizing afterWord q with
  | nil => rfl
  | cons c cs ih =>
    rw [List.mem_cons, not_or] at h
    simp [runs, hq, ih (next_ne_outside hq (Ne.symm h.1)) h.2]

end

end Spreadsheet.Text

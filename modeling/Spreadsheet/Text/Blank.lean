/-!
# Blanks, trimming and cutting of text

Text is handled as a list of characters. A blank is a character with the
Unicode property White_Space. Trimming drops blanks at both ends, `words` cuts
at runs of blanks, and `cut` splits at the first character of a class.
-/
namespace Spreadsheet.Text

/-- The Unicode property White_Space. -/
def isBlank (c : Char) : Bool :=
  let n := c.toNat
  (9 ≤ n && n ≤ 13) || n == 0x20 || n == 0x85 || n == 0xA0 || n == 0x1680 ||
    (0x2000 ≤ n && n ≤ 0x200A) || n == 0x2028 || n == 0x2029 || n == 0x202F ||
    n == 0x205F || n == 0x3000

/-- The blanks that may stand between the symbols of an expression. -/
def isAsciiBlank (c : Char) : Bool :=
  let n := c.toNat
  n == 9 || n == 10 || n == 12 || n == 13 || n == 0x20

theorem isBlank_of_isAsciiBlank {c : Char} (h : isAsciiBlank c = true) : isBlank c = true := by
  simp only [isAsciiBlank, Bool.or_eq_true] at h
  simp only [isBlank, Bool.or_eq_true]
  rcases h with (((h | h) | h) | h) | h <;> simp_all

theorem length_dropWhile_le (p : Char → Bool) (cs : List Char) :
    (cs.dropWhile p).length ≤ cs.length :=
  (List.dropWhile_sublist p).length_le

def trimLeft (cs : List Char) : List Char := cs.dropWhile isBlank

def trimRight (cs : List Char) : List Char := (cs.reverse.dropWhile isBlank).reverse

/-- The text without the blanks at its two ends. -/
def trim (cs : List Char) : List Char := trimRight (trimLeft cs)

/-- The parts before and after the first character of the class, which is dropped. -/
def cut (p : Char → Bool) : List Char → Option (List Char × List Char)
  | [] => none
  | c :: cs => if p c then some ([], cs) else (cut p cs).map fun r => (c :: r.1, r.2)

/-- Cutting loses the one character at the cut. -/
theorem eq_of_cut {p : Char → Bool} {cs before after : List Char}
    (h : cut p cs = some (before, after)) : ∃ c, p c = true ∧ cs = before ++ c :: after := by
  induction cs generalizing before with
  | nil => simp [cut] at h
  | cons c cs ih =>
    rw [cut] at h
    split at h
    · rename_i hc
      cases h
      exact ⟨c, hc, rfl⟩
    · obtain ⟨⟨b, a⟩, hr, he⟩ := Option.map_eq_some_iff.1 h
      cases he
      obtain ⟨d, hd, rfl⟩ := ih hr
      exact ⟨d, hd, rfl⟩

theorem length_lt_of_cut {p : Char → Bool} {cs before after : List Char}
    (h : cut p cs = some (before, after)) : after.length < cs.length := by
  obtain ⟨c, _, rfl⟩ := eq_of_cut h
  simp only [List.length_append, List.length_cons]
  omega

/-- The pieces between the occurrences of a separator, one more than there are separators. -/
def splitOn (separator : Char) : List Char → List (List Char)
  | [] => [[]]
  | c :: cs =>
    if c = separator then [] :: splitOn separator cs
    else
      match splitOn separator cs with
      | [] => [[c]]
      | piece :: rest => (c :: piece) :: rest

/-- The maximal runs of characters that are not blank. -/
def words : List Char → List (List Char)
  | [] => []
  | c :: cs =>
    if isBlank c then words cs
    else (c :: cs.takeWhile fun d => !isBlank d) :: words (cs.dropWhile fun d => !isBlank d)
termination_by cs => cs.length
decreasing_by
  · simp
  · have := length_dropWhile_le (fun d => !isBlank d) cs
    simp only [List.length_cons]
    omega

/-- The rest of the text after a given beginning. -/
def dropLead? : List Char → List Char → Option (List Char)
  | [], cs => some cs
  | _ :: _, [] => none
  | l :: lead, c :: cs => if l = c then dropLead? lead cs else none

theorem dropLead?_of_head {l : Char} {lead cs : List Char} (h : cs.head? ≠ some l) :
    dropLead? (l :: lead) cs = none := by
  cases cs with
  | nil => rfl
  | cons c cs =>
    have hc : l ≠ c := fun hc => h (congrArg some hc.symm)
    rw [dropLead?, if_neg hc]

theorem eq_of_dropLead {lead cs rest : List Char} (h : dropLead? lead cs = some rest) :
    cs = lead ++ rest := by
  fun_induction dropLead? lead cs with
  | case1 cs =>
    cases h
    rfl
  | case2 => cases h
  | case3 l lead cs ih => rw [ih h, List.cons_append]
  | case4 => cases h

/-- Equality up to the case of ASCII letters. -/
def sameIgnoringCase (a b : List Char) : Bool := a.map Char.toUpper == b.map Char.toUpper

/-- Every occurrence of a character replaced by a text. -/
def replaceChar (c : Char) (replacement : List Char) (cs : List Char) : List Char :=
  cs.flatMap fun d => if d = c then replacement else [d]

end Spreadsheet.Text

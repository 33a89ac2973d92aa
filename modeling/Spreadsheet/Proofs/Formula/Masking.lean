import Mathlib.Algebra.Ring.Parity
import Spreadsheet.Proofs.Formula.Quotation
import Spreadsheet.Proofs.Formula.Rewriting

/-!
# Literals and the text that is hidden

Literals are found twice. They are taken out by a search for one quote and then
the next, and the reading of references goes through the text character by
character and turns what is in quotes into blanks, as many as there are bytes.
Both part a text by its quotes in the same way. So the literals can be put back,
and what is hidden from the reading of references is the literals and what
follows a quote that is never closed.
-/
namespace Spreadsheet.Formula
open Text

/-! ## A text parted by its quotes -/

/-- A text by its quotes: it is plain, or it ends in a quote that is never closed, or it
begins with a literal and what stands before that. -/
inductive Parted where
  | plain (text : List Char) (htext : '"' ∉ text)
  | unclosed (text hidden : List Char) (htext : '"' ∉ text) (hhidden : '"' ∉ hidden)
  | literal (text s : List Char) (htext : '"' ∉ text) (hs : '"' ∉ s) (rest : Parted)

namespace Parted

/-- What is in quotes, from left to right. -/
def literals : Parted → List (List Char)
  | plain .. => []
  | unclosed .. => []
  | literal _ s _ _ rest => s :: rest.literals

/-- The text with something in the place of each literal, which are numbered from the given
number on, and of what an unclosed quote hides. -/
def write (put : Nat → List Char → List Char) (hide : List Char → List Char) :
    Nat → Parted → List Char
  | _, plain text _ => text
  | _, unclosed text hidden _ _ => text ++ '"' :: hide hidden
  | number, literal text s _ _ rest => text ++ put number s ++ write put hide (number + 1) rest

/-- The text as it is written. -/
def source : Nat → Parted → List Char := write (fun _ => inQuotes) id

section
variable {number : Nat} {cs xs ys : List Char}

theorem source_unclosed (number : Nat) {text hidden : List Char} (htext : '"' ∉ text)
    (hhidden : '"' ∉ hidden) :
    source number (unclosed text hidden htext hhidden) = text ++ '"' :: hidden := rfl

theorem source_literal (number : Nat) {text s : List Char} (htext : '"' ∉ text) (hs : '"' ∉ s)
    (rest : Parted) : source number (literal text s htext hs rest) =
      text ++ '"' :: (s ++ '"' :: source (number + 1) rest) := by
  simp [source, write, inQuotes]

theorem no_quote_of_mem_literals (p : Parted) : ∀ s ∈ p.literals, '"' ∉ s := by
  induction p with
  | plain => exact List.forall_mem_nil _
  | unclosed => exact List.forall_mem_nil _
  | literal text s htext hs rest ih => exact List.forall_mem_cons.2 ⟨hs, ih⟩

theorem exists_source_eq (number : Nat) (cs : List Char) : ∃ p, source number p = cs := by
  induction hlength : cs.length using Nat.strongRecOn generalizing cs number with
  | _ n ih =>
    by_cases hquote : '"' ∈ cs
    · obtain ⟨text, rest, rfl, htext⟩ := List.eq_append_cons_of_mem hquote
      by_cases hclosed : '"' ∈ rest
      · obtain ⟨s, after, rfl, hs⟩ := List.eq_append_cons_of_mem hclosed
        have hless : after.length < n := by
          rw [← hlength]
          simp only [List.length_append, List.length_cons]
          omega
        obtain ⟨p, rfl⟩ := ih _ hless (number + 1) after rfl
        exact ⟨literal text s htext hs p, source_literal ..⟩
      · exact ⟨unclosed text rest htext hclosed, rfl⟩
    · exact ⟨plain cs hquote, rfl⟩

/-- What stands before the first quote, and what stands after it. -/
theorem eq_of_append_quote {xs' ys' : List Char} (hxs : '"' ∉ xs) (hxs' : '"' ∉ xs')
    (h : xs ++ '"' :: ys = xs' ++ '"' :: ys') : xs = xs' ∧ ys = ys' := by
  have hcut : cut isQuote (xs ++ '"' :: ys) = some (xs, ys) := cut_literal hxs ys
  rw [h, cut_literal hxs'] at hcut
  cases hcut
  exact ⟨rfl, rfl⟩

/-- A text is parted in one way only. -/
theorem source_injective (number : Nat) : Function.Injective (source number) := by
  intro p q h
  induction p generalizing number q with
  | plain text htext =>
    cases q with
    | plain text' htext' =>
      cases h
      rfl
    | unclosed text' hidden' htext' hhidden' =>
      rw [source_unclosed] at h
      change text = _ at h
      exact absurd (h ▸ List.mem_append_cons_self) htext
    | literal text' s' htext' hs' rest' =>
      rw [source_literal] at h
      change text = _ at h
      exact absurd (h ▸ List.mem_append_cons_self) htext
  | unclosed text hidden htext hhidden =>
    rw [source_unclosed] at h
    cases q with
    | plain text' htext' =>
      change _ = text' at h
      exact absurd (h ▸ List.mem_append_cons_self) htext'
    | unclosed text' hidden' htext' hhidden' =>
      obtain ⟨rfl, rfl⟩ := eq_of_append_quote htext htext' h
      rfl
    | literal text' s' htext' hs' rest' =>
      rw [source_literal] at h
      obtain ⟨rfl, hhidden_eq⟩ := eq_of_append_quote htext htext' h
      exact absurd (hhidden_eq ▸ List.mem_append_cons_self) hhidden
  | literal text s htext hs rest ih =>
    rw [source_literal] at h
    cases q with
    | plain text' htext' =>
      change _ = text' at h
      exact absurd (h ▸ List.mem_append_cons_self) htext'
    | unclosed text' hidden' htext' hhidden' =>
      rw [source_unclosed] at h
      obtain ⟨rfl, hhidden_eq⟩ := eq_of_append_quote htext htext' h
      exact absurd (hhidden_eq ▸ List.mem_append_cons_self) hhidden'
    | literal text' s' htext' hs' rest' =>
      rw [source_literal] at h
      obtain ⟨rfl, hafter⟩ := eq_of_append_quote htext htext' h
      obtain ⟨rfl, hrest⟩ := eq_of_append_quote hs hs' hafter
      rw [ih (number + 1) hrest]

/-! ## Literals are taken out -/

/-- The text with a placeholder for each literal. -/
def extracted : Nat → Parted → List Char := write (fun number _ => placeholder number) id

theorem extractFrom_source (number : Nat) (p : Parted) :
    extractFrom number (source number p) = ⟨extracted number p, p.literals⟩ := by
  induction p generalizing number with
  | plain text htext => exact extractFrom_of_no_quote htext
  | unclosed text hidden htext hhidden =>
    rw [source_unclosed, extractFrom_append htext, extractFrom_unclosed hhidden]
    rfl
  | literal text s htext hs rest ih =>
    rw [source_literal, extractFrom_append htext, extractFrom_literal hs, ih, ← List.append_assoc]
    rfl

/-- Each literal takes two quotes with it. -/
theorem count_source (number : Nat) (p : Parted) : (source number p).count '"' =
    2 * p.literals.length + (extracted number p).count '"' := by
  induction p generalizing number with
  | plain => exact (Nat.zero_add _).symm
  | unclosed => exact (Nat.zero_add _).symm
  | literal text s htext hs rest ih =>
    change _ = 2 * (rest.literals.length + 1) +
      (text ++ placeholder number ++ extracted (number + 1) rest).count '"'
    rw [source_literal, List.count_append, List.count_cons_self, List.count_append,
      List.count_cons_self, ih, List.count_append, List.count_append,
      List.count_eq_zero.2 hs, List.count_eq_zero.2 (no_quote_placeholder number)]
    omega

theorem count_extracted (number : Nat) (p : Parted) : (extracted number p).count '"' ≤ 1 := by
  have h := count_extractFrom number (source number p)
  rwa [extractFrom_source] at h

theorem length_literals (number : Nat) (p : Parted) :
    p.literals.length = (source number p).count '"' / 2 := by
  have h := count_extracted number p
  rw [count_source]
  omega

/-- A quote stays if there is an odd number of them. -/
theorem mem_extracted (number : Nat) (p : Parted) :
    '"' ∈ extracted number p ↔ Odd ((source number p).count '"') := by
  have h := count_extracted number p
  rw [← List.count_pos_iff, count_source, Nat.odd_iff]
  omega

end

end Parted

/-! ## What is in quotes is hidden -/

/-- As many blanks as a text has bytes. -/
def blanked (cs : List Char) : List Char := List.replicate (byteSize cs) ' '

/-- Turns what is in quotes into blanks, given whether the text begins in quotes. -/
def maskFrom (quoted : Bool) : List Char → List Char
  | [] => []
  | c :: cs =>
    if isQuote c then c :: maskFrom (!quoted) cs
    else if quoted then List.replicate c.utf8Size ' ' ++ maskFrom quoted cs
    else c :: maskFrom quoted cs

def mask (cs : List Char) : List Char := maskFrom false cs

section
variable {c : Char} {cs w : List Char} {n : Nat}

theorem maskFrom_quote (quoted : Bool) (cs : List Char) :
    maskFrom quoted ('"' :: cs) = '"' :: maskFrom (!quoted) cs := rfl

theorem maskFrom_false_append (hw : '"' ∉ w) (cs : List Char) :
    maskFrom false (w ++ cs) = w ++ maskFrom false cs := by
  induction w with
  | nil => rfl
  | cons c w ih =>
    rw [List.mem_cons, not_or] at hw
    have hquote : isQuote c = false := beq_false_of_ne (Ne.symm hw.1)
    rw [List.cons_append, maskFrom, hquote, ih hw.2]
    rfl

theorem maskFrom_true_append (hw : '"' ∉ w) (cs : List Char) :
    maskFrom true (w ++ cs) = blanked w ++ maskFrom true cs := by
  induction w with
  | nil => rfl
  | cons c w ih =>
    rw [List.mem_cons, not_or] at hw
    have hquote : isQuote c = false := beq_false_of_ne (Ne.symm hw.1)
    rw [List.cons_append, maskFrom, hquote, ih hw.2, blanked, blanked, byteSize_cons,
      List.replicate_add, List.append_assoc]
    rfl

theorem mask_source (number : Nat) (p : Parted) : mask (p.source number) =
    p.write (fun _ s => inQuotes (blanked s)) blanked number := by
  induction p generalizing number with
  | plain text htext =>
    have h := maskFrom_false_append htext []
    rwa [List.append_nil, maskFrom, List.append_nil] at h
  | unclosed text hidden htext hhidden =>
    have h := maskFrom_true_append hhidden []
    rw [List.append_nil, maskFrom, List.append_nil] at h
    rw [Parted.source_unclosed, mask, maskFrom_false_append htext, maskFrom_quote, Bool.not_false,
      h]
    rfl
  | literal text s htext hs rest ih =>
    rw [Parted.source_literal, mask, maskFrom_false_append htext, maskFrom_quote, Bool.not_false,
      maskFrom_true_append hs, maskFrom_quote, Bool.not_true]
    change text ++ '"' :: (blanked s ++ '"' :: mask (Parted.source (number + 1) rest)) = _
    rw [ih]
    simp [Parted.write, inQuotes]

theorem byteSize_replicate_blank (n : Nat) : byteSize (List.replicate n ' ') = n := by
  induction n with
  | zero => rfl
  | succ n ih =>
    rw [List.replicate_succ, byteSize_cons, ih, Nat.add_comm]
    rfl

theorem byteSize_maskFrom (quoted : Bool) (cs : List Char) :
    byteSize (maskFrom quoted cs) = byteSize cs := by
  fun_induction maskFrom quoted cs with
  | case1 => rfl
  | case2 _ c cs _ ih => rw [byteSize_cons, ih, byteSize_cons]
  | case3 c cs _ ih => rw [byteSize_append, byteSize_replicate_blank, ih, byteSize_cons]
  | case4 _ c cs _ _ ih => rw [byteSize_cons, ih, byteSize_cons]

/-! ## References in a text with nothing in quotes -/

/-- Splits a text into words and single characters, in quotes and outside of them. -/
def plainPieces : List Char → List Piece
  | [] => []
  | c :: cs =>
    if isWord c then .word (c :: cs.takeWhile isWord) :: plainPieces (cs.dropWhile isWord)
    else .other c :: plainPieces cs
termination_by cs => cs.length
decreasing_by
  · have := length_dropWhile_le isWord cs
    simp only [List.length_cons]
    omega
  · simp

theorem locate_other (n : Nat) (c : Char) (pieces : List Piece) :
    locate n (.other c :: pieces) = locate (n + c.utf8Size) pieces := rfl

theorem locate_plainPieces_cons (hc : isWord c = false) (n : Nat) (cs : List Char) :
    locate n (plainPieces (c :: cs)) = locate (n + c.utf8Size) (plainPieces cs) := by
  rw [plainPieces, hc]
  rfl

theorem locate_plainPieces_blanks (k n : Nat) (cs : List Char) :
    locate n (plainPieces (List.replicate k ' ' ++ cs)) = locate (n + k) (plainPieces cs) := by
  induction k generalizing n with
  | zero => rfl
  | succ k ih =>
    rw [List.replicate_succ, List.cons_append, locate_plainPieces_cons (by decide), ih,
      Nat.add_assoc, Nat.add_comm k 1]
    rfl

theorem head_maskFrom_false (cs : List Char) : (maskFrom false cs).head? = cs.head? := by
  cases cs with
  | nil => rfl
  | cons c cs =>
    rw [maskFrom]
    split <;> rfl

/-- The references of a text are found in the masked text without regard to quotes. -/
theorem locate_maskFrom (n : Nat) (quoted : Bool) (cs : List Char) :
    locate n (plainPieces (maskFrom quoted cs)) = locate n (piecesFrom quoted cs) := by
  fun_induction piecesFrom quoted cs generalizing n with
  | case1 => rw [maskFrom, plainPieces]
  | case2 quoted c cs hquote ih =>
    cases beq_iff_eq.1 hquote
    rw [maskFrom_quote, locate_plainPieces_cons (by decide), ih, locate_other]
  | case3 quoted c cs hquote hplain ih =>
    rw [locate_other, ← ih, maskFrom, if_neg hquote]
    cases quoted with
    | true => exact locate_plainPieces_blanks ..
    | false => exact locate_plainPieces_cons (by simpa using hplain) ..
  | case4 quoted c cs hquote hplain ih =>
    obtain ⟨rfl, hc⟩ : quoted = false ∧ isWord c = true := by simpa using hplain
    have hword : ∀ d ∈ cs.takeWhile isWord, isWord d = true :=
      List.all_eq_true.1 List.all_takeWhile
    have hmask : maskFrom false cs =
        cs.takeWhile isWord ++ maskFrom false (cs.dropWhile isWord) := by
      rw [← maskFrom_false_append fun h => ne_quote_of_isWord (hword _ h) rfl,
        List.takeWhile_append_dropWhile]
    have hend : ∀ d ∈ (maskFrom false (cs.dropWhile isWord)).head?, isWord d = false := by
      rw [head_maskFrom_false]
      exact head_dropWhile
    obtain ⟨htake, hdrop⟩ := takeWhile_append_of_head hword hend
    rw [maskFrom, if_neg hquote, if_neg Bool.false_ne_true, hmask, plainPieces, if_pos hc, htake,
      hdrop, locate, locate, ih]

/-- A text is parted by its quotes in one way. What is taken out is the literals, with a
numbered placeholder in the place of each, and they go back in that place. The mask turns the
same literals into blanks, and what follows a quote that is never closed; it keeps the places
of all bytes, and the references are those of the masked text. -/
theorem literals_restored_and_masked (cs : List Char) : ∃ p : Parted,
    (p.source 0 = cs ∧ ∀ q : Parted, q.source 0 = cs → q = p) ∧
    extractLiterals cs = ⟨p.write (fun number _ => placeholder number) id 0, p.literals⟩ ∧
    (∀ s ∈ p.literals, '"' ∉ s) ∧
    p.literals.length = cs.count '"' / 2 ∧
    ('"' ∈ (extractLiterals cs).text ↔ Odd (cs.count '"')) ∧
    mask cs = p.write (fun _ s => inQuotes (blanked s)) blanked 0 ∧
    byteSize (mask cs) = byteSize cs ∧
    locate 0 (plainPieces (mask cs)) = locatedReferences cs := by
  obtain ⟨p, rfl⟩ := Parted.exists_source_eq 0 cs
  have hextracted := Parted.extractFrom_source 0 p
  refine ⟨p, ⟨rfl, fun q h => Parted.source_injective 0 h⟩, hextracted,
    p.no_quote_of_mem_literals, p.length_literals 0, ?_, mask_source 0 p,
    byteSize_maskFrom false _, locate_maskFrom 0 false _⟩
  rw [extractLiterals, hextracted]
  exact p.mem_extracted 0

-- A placeholder that stands in the formula itself is text like any other.
example : extractLiterals "STR(0)&\"é\"&\"B1".toList =
    ⟨"STR(0)&STR(0)&\"B1".toList, ["é".toList]⟩ := by decide +kernel

example : mask "STR(0)&\"é\"&\"B1".toList = "STR(0)&\"  \"&\"  ".toList := by decide +kernel

end

end Spreadsheet.Formula

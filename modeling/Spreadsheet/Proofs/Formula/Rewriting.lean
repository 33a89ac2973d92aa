import Mathlib.Algebra.Group.Nat.Even
import Mathlib.Data.List.Basic
import Spreadsheet.Formula.Reference
import Spreadsheet.Proofs.Position.Name
import Spreadsheet.Proofs.Text.Runs

/-!
# References rewritten in place

A reference is a maximal run of word characters outside the quotes that is a cell
name and no function. The references of a text stand apart, with gaps between them,
and rewriting puts other names in their places and leaves the gaps. It can be done
in the text itself, from the first reference to the last: each stands as far from
its first offset as the new names before it differ in length from the old ones.
-/
namespace Spreadsheet.Formula
open Text Position

/-! ## What a reference is -/

/-- A text between two others that is a reference to a cell. -/
structure IsReference (before written after : List Char) (cell : Position) : Prop where
  outside : Even (before.count '"')
  starts : ∀ c ∈ before.getLast?, isWord c = false
  ends : ∀ c ∈ after.head?, isWord c = false
  spelled : ∃ front digits, written = front ++ digits ∧ front ≠ [] ∧ digits ≠ [] ∧
    (∀ c ∈ front, c.isAlpha = true) ∧ ∀ c ∈ digits, c.isDigit = true
  reads : ofName? written = some cell
  not_isName : Builtin.isName written = false

section
variable {before written after cs ds : List Char} {cell : Position} {quoted : Bool} {c : Char}
  {r : Located} {rs : List Located} {n : Nat} {f : Position → Option (List Char)}

theorem byteSize_append (cs ds : List Char) : byteSize (cs ++ ds) = byteSize cs + byteSize ds := by
  induction cs with
  | nil => exact (Nat.zero_add _).symm
  | cons c cs ih =>
    change c.utf8Size + byteSize (cs ++ ds) = c.utf8Size + byteSize cs + byteSize ds
    rw [ih, Nat.add_assoc]

theorem byteSize_cons (c : Char) (cs : List Char) :
    byteSize (c :: cs) = c.utf8Size + byteSize cs := rfl

theorem reference?_word : (Piece.word written).reference? = some cell ↔
    ofName? written = some cell ∧ Builtin.isName written = false := by
  simp [Piece.reference?, Option.filter_eq_some_iff]

theorem isWord_of_ofName (h : ofName? written = some cell) : ∀ c ∈ written, isWord c = true :=
  fun c hc => isWord_of_isAlphanum (isAlphanum_of_ofName h c hc)

/-- A reference in the rest of a text, where the front of the text may end within quotes. -/
structure IsReferenceFrom (quoted : Bool) (cs : List Char) (n : Nat) (r : Located)
    (before after : List Char) : Prop where
  text : cs = before ++ r.written ++ after
  start : r.start = n + byteSize before
  outside : Even (before.count '"') ↔ quoted = false
  starts : ∀ c ∈ before.getLast?, isWord c = false
  ends : ∀ c ∈ after.head?, isWord c = false
  reads : ofName? r.written = some r.cell
  not_isName : Builtin.isName r.written = false

/-- A character outside of words is passed, and a quote opens or closes a literal. -/
theorem exists_isReferenceFrom_cons (hc : quoted = true ∨ isWord c = false) :
    (∃ before after, IsReferenceFrom quoted (c :: cs) n r before after) ↔
      ∃ before after, IsReferenceFrom (if c = '"' then !quoted else quoted) cs (n + c.utf8Size) r
        before after := by
  have hparity : ∀ before : List Char, (Even ((c :: before).count '"') ↔ quoted = false) ↔
      (Even (before.count '"') ↔ (if c = '"' then !quoted else quoted) = false) := by
    intro before
    by_cases hquote : c = '"'
    · subst hquote
      rw [List.count_cons_self, Nat.even_add_one, if_pos rfl]
      cases quoted <;> simp
    · rw [List.count_cons_of_ne hquote, if_neg hquote]
  constructor
  · rintro ⟨before, after, h⟩
    cases before with
    | nil =>
      obtain ⟨d, w, hw⟩ := List.exists_cons_of_ne_nil (ne_nil_of_ofName h.reads)
      have htext := h.text
      rw [hw] at htext
      have hd : isWord d = true := isWord_of_ofName h.reads d (hw ▸ List.mem_cons_self)
      rw [← (List.cons.inj htext).1] at hd
      have hquoted := h.outside.1 ⟨0, rfl⟩
      rcases hc with hc | hc
      · rw [hquoted] at hc
        cases hc
      · rw [hd] at hc
        cases hc
    | cons d before =>
      obtain ⟨rfl, htext⟩ := List.cons.inj h.text
      refine ⟨before, after, htext, ?_, (hparity before).1 h.outside, ?_, h.ends, h.reads,
        h.not_isName⟩
      · rw [h.start, byteSize_cons, Nat.add_assoc]
      · intro e he
        refine h.starts e ?_
        rw [List.getLast?_cons, Option.mem_def.1 he]
        rfl
  · rintro ⟨before, after, h⟩
    refine ⟨c :: before, after, ?_, ?_, (hparity before).2 h.outside, ?_, h.ends, h.reads,
      h.not_isName⟩
    · rw [h.text]
      rfl
    · rw [h.start, byteSize_cons, Nat.add_assoc]
    · intro e he
      cases before with
      | nil =>
        cases he
        by_cases hquote : c = '"'
        · subst hquote
          rfl
        · have houtside := h.outside.1 ⟨0, rfl⟩
          rw [if_neg hquote] at houtside
          exact hc.resolve_left (by simp [houtside])
      | cons d before =>
        refine h.starts e ?_
        rwa [List.getLast?_cons_cons] at he

theorem mem_locate_cons {piece : Piece} {pieces : List Piece} :
    r ∈ locate n (piece :: pieces) ↔
      (piece.reference? = some r.cell ∧ r.written = piece.text ∧ r.start = n) ∨
      r ∈ locate (n + byteSize piece.text) pieces := by
  rw [locate]
  cases hcell : piece.reference? with
  | none => simp
  | some cell =>
    rw [List.mem_cons]
    refine or_congr_left ⟨?_, ?_⟩
    · rintro rfl
      exact ⟨rfl, rfl, rfl⟩
    · rintro ⟨hsame, hwritten, hstart⟩
      cases r
      cases hsame
      cases hwritten
      cases hstart
      rfl

/-- A word that no other word character stands beside is a reference or holds none. -/
theorem exists_isReferenceFrom_word {w rest : List Char} (hne : w ≠ [])
    (hw : ∀ c ∈ w, isWord c = true) (hrest : ∀ c ∈ rest.head?, isWord c = false) :
    (∃ before after, IsReferenceFrom false (w ++ rest) n r before after) ↔
      ((Piece.word w).reference? = some r.cell ∧ r.written = w ∧ r.start = n) ∨
      ∃ before after, IsReferenceFrom false rest (n + byteSize w) r before after := by
  have hquotes : w.count '"' = 0 :=
    List.count_eq_zero_of_not_mem fun hmem => ne_quote_of_isWord (hw _ hmem) rfl
  constructor
  · rintro ⟨before, after, h⟩
    have hwritten := isWord_of_ofName h.reads
    have htext := h.text
    rw [List.append_assoc] at htext
    rcases List.append_eq_append_iff.1 htext with ⟨t, rfl, ht⟩ | ⟨t, rfl, ht⟩
    · refine .inr ⟨t, after, by rw [ht, List.append_assoc], ?_, ?_, ?_, h.ends, h.reads,
        h.not_isName⟩
      · rw [h.start, byteSize_append, Nat.add_assoc]
      · rw [← h.outside, List.count_append, hquotes, Nat.zero_add]
      · intro c hc
        refine h.starts c ?_
        rw [List.getLast?_append, Option.mem_def.1 hc]
        rfl
    · have hbefore : before = [] := by
        by_contra hbefore
        have hlast : before.getLast hbefore ∈ before.getLast? :=
          List.getLast?_eq_some_getLast hbefore
        have hword := hw _ (List.mem_append_left t (List.getLast_mem hbefore))
        rw [h.starts _ hlast] at hword
        cases hword
      subst hbefore
      rw [List.nil_append] at hw ⊢
      have hsame := (takeWhile_append_of_head hwritten h.ends).1
      rw [ht, (takeWhile_append_of_head hw hrest).1] at hsame
      exact .inl ⟨reference?_word.2 (hsame ▸ ⟨h.reads, h.not_isName⟩), hsame.symm, h.start⟩
  · rintro (⟨hcell, hsame, hstart⟩ | ⟨before, after, h⟩)
    · obtain ⟨hreads, hname⟩ := reference?_word.1 hcell
      subst hsame
      exact ⟨[], rest, rfl, hstart.trans (Nat.add_zero n).symm, by simp, by simp, hrest, hreads,
        hname⟩
    · refine ⟨w ++ before, after, ?_, ?_, ?_, ?_, h.ends, h.reads, h.not_isName⟩
      · rw [h.text, List.append_assoc, List.append_assoc, List.append_assoc]
      · rw [h.start, byteSize_append, Nat.add_assoc]
      · rw [List.count_append, hquotes, Nat.zero_add]
        exact h.outside
      · intro c hc
        rw [List.getLast?_append] at hc
        cases hlast : before.getLast? with
        | some d =>
          rw [hlast] at hc
          cases hc
          exact h.starts _ hlast
        | none =>
          -- No reference begins right after the word.
          obtain rfl := List.getLast?_eq_none_iff.1 hlast
          obtain ⟨d, written, hd⟩ := List.exists_cons_of_ne_nil (ne_nil_of_ofName h.reads)
          have hhead := hrest d (by rw [h.text, hd]; rfl)
          rw [isWord_of_ofName h.reads d (hd ▸ List.mem_cons_self)] at hhead
          cases hhead

theorem mem_locate_piecesFrom : r ∈ locate n (piecesFrom quoted cs) ↔
    ∃ before after, IsReferenceFrom quoted cs n r before after := by
  induction quoted, cs using piecesFrom.induct generalizing n with
  | case1 quoted =>
    rw [piecesFrom]
    refine iff_of_false List.not_mem_nil ?_
    rintro ⟨before, after, h⟩
    have hnil := List.append_eq_nil_iff.1 h.text.symm
    exact ne_nil_of_ofName h.reads (List.append_eq_nil_iff.1 hnil.1).2
  | case2 quoted c cs hc ih =>
    obtain rfl : c = '"' := by simpa [isQuote] using hc
    rw [piecesFrom, if_pos hc, exists_isReferenceFrom_cons (.inr rfl), if_pos rfl, ← ih]
    exact .rfl
  | case3 quoted c cs hc hother ih =>
    have hquote : c ≠ '"' := by simpa [isQuote] using hc
    rw [piecesFrom, if_neg hc, if_pos hother, exists_isReferenceFrom_cons (by simpa using hother),
      if_neg hquote, ← ih]
    exact .rfl
  | case4 quoted c cs hc hword ih =>
    rw [Bool.or_eq_true, not_or, Bool.not_eq_true, Bool.not_eq_true', Bool.not_eq_false] at hword
    obtain ⟨rfl, hword⟩ := hword
    have htext : c :: cs = (c :: cs.takeWhile isWord) ++ cs.dropWhile isWord := by
      rw [List.cons_append, List.takeWhile_append_dropWhile]
    have hall : ∀ d ∈ c :: cs.takeWhile isWord, isWord d = true :=
      List.forall_mem_cons.2 ⟨hword, List.all_eq_true.1 List.all_takeWhile⟩
    rw [piecesFrom, if_neg hc, if_neg (by simp [hword]), mem_locate_cons, ih, htext,
      exists_isReferenceFrom_word (List.cons_ne_nil _ _) hall head_dropWhile]
    exact .rfl

theorem mem_locatedReferences : r ∈ locatedReferences cs ↔ ∃ before after,
    cs = before ++ r.written ++ after ∧ r.start = byteSize before ∧
      IsReference before r.written after r.cell := by
  rw [locatedReferences, pieces, mem_locate_piecesFrom]
  constructor
  · rintro ⟨before, after, h⟩
    exact ⟨before, after, h.text, h.start.trans (Nat.zero_add _), h.outside.2 rfl, h.starts, h.ends,
      split_of_ofName h.reads, h.reads, h.not_isName⟩
  · rintro ⟨before, after, htext, hstart, h⟩
    exact ⟨before, after, htext, hstart.trans (Nat.zero_add _).symm, iff_of_true h.outside rfl,
      h.starts, h.ends, h.reads, h.not_isName⟩

/-! ## Names in the places of others -/

/-- Two texts that have the same gaps between references, which begin at an offset in the first
text; those with a replacement have it in the second. -/
inductive InPlace (f : Position → Option (List Char)) :
    Nat → List Located → List Char → List Char → Prop
  | done {n : Nat} (rest : List Char) : InPlace f n [] rest rest
  | reference {n : Nat} {r : Located} {rs : List Located} {gap cs ds : List Char} :
      r.start = n + byteSize gap → InPlace f r.stop rs cs ds →
      InPlace f n (r :: rs) (gap ++ r.written ++ cs) (gap ++ (f r.cell).getD r.written ++ ds)

theorem InPlace.append (h : InPlace f (n + byteSize written) rs cs ds) :
    InPlace f n rs (written ++ cs) (written ++ ds) := by
  cases h with
  | done => exact .done _
  | @reference _ r rs gap cs ds hstart h =>
    have hgap : r.start = n + byteSize (written ++ gap) := by
      rw [hstart, byteSize_append, Nat.add_assoc]
    have hreference := InPlace.reference (f := f) hgap h
    simp only [List.append_assoc] at hreference ⊢
    exact hreference

theorem inPlace_locate (f : Position → Option (List Char)) (n : Nat) (ps : List Piece) :
    InPlace f n (locate n ps) (ps.flatMap Piece.text)
      (ps.flatMap fun piece => (piece.reference?.bind f).getD piece.text) := by
  induction ps generalizing n with
  | nil => exact .done []
  | cons piece ps ih =>
    rw [locate, List.flatMap_cons, List.flatMap_cons]
    cases piece.reference? with
    | none => exact (ih _).append
    | some cell => exact @InPlace.reference f _ _ _ [] _ _ (Nat.add_zero n).symm (ih _)

theorem text_piecesFrom (quoted : Bool) (cs : List Char) :
    (piecesFrom quoted cs).flatMap Piece.text = cs := by
  fun_induction piecesFrom quoted cs with
  | case1 => rfl
  | case2 _ _ _ _ ih => rw [List.flatMap_cons, ih]; rfl
  | case3 _ _ _ _ _ ih => rw [List.flatMap_cons, ih]; rfl
  | case4 _ c cs _ _ ih =>
    rw [List.flatMap_cons, ih, Piece.text, List.cons_append, List.takeWhile_append_dropWhile]

/-- References are replaced where they stand, and nothing else is. -/
theorem inPlace_replaceReferences (f : Position → Option (List Char)) (cs : List Char) :
    InPlace f 0 (locatedReferences cs) cs (replaceReferences f cs) := by
  have h := inPlace_locate f 0 (pieces cs)
  rwa [pieces, text_piecesFrom] at h

/-- The references of a text come one after the other. -/
theorem InPlace.sorted (h : InPlace f n rs cs ds) :
    (∀ r ∈ rs, n ≤ r.start) ∧ rs.Pairwise fun r s => r.stop ≤ s.start := by
  induction h with
  | done => exact ⟨List.forall_mem_nil _, .nil⟩
  | @reference n r rs gap cs ds hstart _ ih =>
    have hle : n ≤ r.start := hstart ▸ Nat.le_add_right n _
    refine ⟨List.forall_mem_cons.2 ⟨hle, fun s hs => ?_⟩, List.pairwise_cons.2 ih⟩
    exact Nat.le_trans hle (Nat.le_trans (Nat.le_add_right _ _) (ih.1 s hs))

/-! ## Offsets that are corrected -/

/-- A text cut at an offset, nothing if the offset is past its end or within a character. -/
def cutAt : Nat → List Char → Option (List Char × List Char)
  | 0, cs => some ([], cs)
  | _ + 1, [] => none
  | n + 1, c :: cs =>
    if c.utf8Size ≤ n + 1 then
      (cutAt (n + 1 - c.utf8Size) cs).map fun parts => (c :: parts.1, parts.2)
    else none

/-- A text with a name in the place of what stands from one offset up to another. -/
def replaceSpan (start stop : Nat) (name cs : List Char) : Option (List Char) :=
  if start ≤ stop then do
    let (front, _) ← cutAt start cs
    let (_, back) ← cutAt stop cs
    return front ++ name ++ back
  else none

/-- Puts names in the places of references, each as far from its offset as the text has grown. -/
def replaceAll (f : Position → Option (List Char)) :
    Int → List Located → List Char → Option (List Char)
  | _, [], out => some out
  | growth, r :: rs, out =>
    match f r.cell with
    | none => replaceAll f growth rs out
    | some name => do
      let out ← replaceSpan (r.start + growth).toNat (r.stop + growth).toNat name out
      replaceAll f (growth + (byteSize name - byteSize r.written)) rs out

theorem cutAt_byteSize (cs ds : List Char) : cutAt (byteSize cs) (cs ++ ds) = some (cs, ds) := by
  induction cs with
  | nil => simp [byteSize, cutAt]
  | cons c cs ih =>
    obtain ⟨n, hn⟩ : ∃ n, byteSize (c :: cs) = n + 1 :=
      Nat.exists_eq_add_one.2 (Nat.lt_of_lt_of_le c.utf8Size_pos (Nat.le_add_right _ _))
    rw [byteSize_cons] at hn
    rw [byteSize_cons, hn, List.cons_append, cutAt, if_pos (by omega),
      (by omega : n + 1 - c.utf8Size = byteSize cs), ih]
    rfl

theorem replaceSpan_byteSize (cs written name ds : List Char) :
    replaceSpan (byteSize cs) (byteSize cs + byteSize written) name (cs ++ written ++ ds) =
      some (cs ++ name ++ ds) := by
  rw [replaceSpan, if_pos (Nat.le_add_right _ _), ← byteSize_append, cutAt_byteSize,
    List.append_assoc, cutAt_byteSize]
  rfl

/-- In a text that is rewritten up to a gap, the rest is rewritten at the corrected offsets. No
offset is within a character. -/
theorem InPlace.replaceAll_eq (h : InPlace f n rs cs ds) {front : List Char} {growth : Int}
    (hgrowth : (byteSize front : Int) = n + growth) :
    replaceAll f growth rs (front ++ cs) = some (front ++ ds) := by
  induction h generalizing front growth with
  | done rest => rfl
  | @reference n r rs gap cs ds hstart _ ih =>
    have hfront : ∀ name : List Char, (byteSize (front ++ gap ++ name) : Int) =
        r.stop + (growth + (byteSize name - byteSize r.written)) := by
      intro name
      rw [byteSize_append, byteSize_append, Located.stop, hstart]
      omega
    rw [replaceAll]
    cases f r.cell with
    | none =>
      have hsame : (byteSize (front ++ gap ++ r.written) : Int) = r.stop + growth := by
        rw [hfront]
        omega
      simpa using ih hsame
    | some name =>
      have hspan := replaceSpan_byteSize (front ++ gap) r.written name cs
      have hbegin : (r.start + growth).toNat = byteSize (front ++ gap) := by
        rw [byteSize_append, hstart]
        omega
      have hend : (r.stop + growth).toNat = byteSize (front ++ gap) + byteSize r.written := by
        rw [byteSize_append, Located.stop, hstart]
        omega
      have hrest := ih (hfront name)
      simp only [List.append_assoc] at hspan hrest ⊢
      rw [hbegin, hend, hspan]
      exact hrest

end

/-! ## Edits and copies -/

/-- The name that a reference gets from a structural edit, nothing if it stays as it is written. -/
def shiftedName? (shift : Shift) (cell : Position) : Option (List Char) :=
  match shift.apply cell with
  | some moved => if moved = cell then none else some moved.name
  | none => some lostReference

/-- The name that a reference gets in a copy, nothing if it stays as it is written. -/
def offsetName? (dcol drow : Int) (cell : Position) : Option (List Char) :=
  if dcol = 0 ∧ drow = 0 then none
  else some (match cell.offset dcol drow with
    | some moved => moved.name
    | none => lostReference)

/-- The references of a text are its maximal words outside the quotes that are cell names and no
functions, one after the other. An edit or a copy puts other names in their places and leaves what
is between them. Done in the text itself, at offsets that are corrected by the growth of the text,
this cuts no character and has the same result. -/
theorem references_rewritten_in_place (cs : List Char) :
    (∀ r, r ∈ locatedReferences cs ↔ ∃ before after, cs = before ++ r.written ++ after ∧
      r.start = byteSize before ∧ IsReference before r.written after r.cell) ∧
    (locatedReferences cs).Pairwise (fun r s => r.stop ≤ s.start) ∧
    (∀ shift, InPlace (shiftedName? shift) 0 (locatedReferences cs) cs (shiftReferences shift cs) ∧
      replaceAll (shiftedName? shift) 0 (locatedReferences cs) cs =
        some (shiftReferences shift cs)) ∧
    ∀ dcol drow, InPlace (offsetName? dcol drow) 0 (locatedReferences cs) cs
        (offsetReferences dcol drow cs) ∧
      replaceAll (offsetName? dcol drow) 0 (locatedReferences cs) cs =
        some (offsetReferences dcol drow cs) := by
  have hreplaced : ∀ {f : Position → Option (List Char)} {ds : List Char},
      replaceReferences f cs = ds → InPlace f 0 (locatedReferences cs) cs ds ∧
        replaceAll f 0 (locatedReferences cs) cs = some ds := by
    rintro f ds rfl
    have h := inPlace_replaceReferences f cs
    have hnone : (byteSize [] : Int) = (0 : Nat) + 0 := rfl
    exact ⟨h, h.replaceAll_eq hnone⟩
  refine ⟨fun _ => mem_locatedReferences, ?_, fun shift => hreplaced rfl,
    fun dcol drow => hreplaced ?_⟩
  · exact (inPlace_replaceReferences (fun _ => none) cs).sorted.2
  · rw [offsetReferences]
    by_cases hzero : dcol = 0 ∧ drow = 0
    · have hnone : offsetName? dcol drow = fun _ => none := funext fun _ => if_pos hzero
      rw [hnone, if_pos hzero, replaceReferences]
      simp only [Option.bind_fun_none, Option.getD_none]
      exact text_piecesFrom false cs
    · have hsome : offsetName? dcol drow = fun cell => some (match cell.offset dcol drow with
          | some moved => moved.name
          | none => lostReference) := funext fun _ => if_neg hzero
      rw [if_neg hzero]
      exact congrArg (replaceReferences · cs) hsome

/-- A name that grows moves the one after it, behind a character of two bytes. -/
example : replaceAll (shiftedName? (.insertRow 8)) 0 (locatedReferences "A9+é+\"A9\"+z9".toList)
    "A9+é+\"A9\"+z9".toList = some "A10+é+\"A9\"+Z10".toList := by decide +kernel

end Spreadsheet.Formula

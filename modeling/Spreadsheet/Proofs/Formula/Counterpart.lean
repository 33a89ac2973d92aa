import Spreadsheet.Proofs.Formula.Lowering

/-!
# Texts with other cells

A text is the counterpart of another if the two are the same but for the names
of cells, each of which is that of the cell's new place. Such names stand apart:
not in a longer word, not after a point, and before nothing that makes them the
name of anything else. All other words are the same in both texts and name no
cell, save that of a function. So whatever looks ahead in the one text, without
going by letters, finds in the other one the same or what corresponds to it.
-/
namespace Spreadsheet.Formula
open Text Expression

/-- What stands before a place: a character of a word, a point and blanks, or something else. -/
inductive Spot where
  | free
  | word
  | point
deriving DecidableEq, Repr

namespace Spot

def next (s : Spot) (c : Char) : Spot :=
  if isWord c then .word
  else if c = '.' then .point
  else if isBlank c = true ∧ s = .point then .point
  else .free

/-- Whether a name or a word may begin at the second place if it may at the first. -/
def Admits (s t : Spot) : Prop := (s = .free → t = .free) ∧ (s = .word → t = .word)

theorem Admits.refl (s : Spot) : s.Admits s := ⟨id, id⟩

theorem admits_point (t : Spot) : point.Admits t := ⟨nofun, nofun⟩

theorem Admits.next {s t : Spot} (h : s.Admits t) (c : Char) : (s.next c).Admits (t.next c) := by
  unfold Spot.next
  split
  · exact .refl _
  split
  · exact .refl _
  split
  · exact admits_point _
  · rename_i hs
    split
    · rename_i ht
      cases s with
      | free => rw [h.1 rfl] at ht; cases ht.2
      | word => rw [h.2 rfl] at ht; cases ht.2
      | point => exact absurd ⟨ht.1, rfl⟩ hs
    · exact .refl _

theorem next_of_isWord {c : Char} (s : Spot) (h : isWord c = true) : s.next c = .word := if_pos h

theorem next_point (s : Spot) : s.next '.' = .point := by
  rw [Spot.next, if_neg (by decide), if_pos rfl]

theorem next_ne_word {c : Char} (s : Spot) (h : isWord c = false) : s.next c ≠ .word := by
  unfold Spot.next
  rw [if_neg (by simp [h])]
  split
  · nofun
  · split <;> nofun

end Spot

/-- Whether a character, given what follows it, hides nothing and belongs to no path or field; a
lost reference may begin with it. -/
def isPassed (c : Char) (cs : List Char) : Bool :=
  c != '"' && c != ':' && (!hides c cs || (dropLead? lostReference (c :: cs)).isSome)

/-- Whether what follows a name leaves it the name of an operand. -/
def endsName (cs : List Char) : Bool :=
  match trimLeft cs with
  | [] => true
  | c :: rest => !isWord c && !(['(', '"', '.'].contains c) && (c != '!' || rest.head? == some '=')

/-- How cells and functions are written in a text, and what in it is passed over as a whole. -/
structure Script where
  writes : List Char → Position → Prop
  calls : List Char → Bool
  block : List Char → Prop
  ofName_of_writes : ∀ {w p}, writes w p → Position.ofName? w = some p
  head_of_block : ∀ {b}, block b → b.head? = some '"'

/-- Whether the word at the front of a text is the same in a counterpart: it names no cell, unless
it names a function that is called, and is not the test for names. -/
def Script.staysWord (k : Script) (cs : List Char) : Bool :=
  cs.takeWhile isWord != "is_def_var".toList &&
    ((Position.ofName? (cs.takeWhile isWord)).isNone ||
      k.calls (cs.takeWhile isWord) && (afterParenthesis? (cs.dropWhile isWord)).isSome)

/-- The second text is the first one with every cell at its new place. -/
inductive Counterpart (k : Script) (move : Position → Position) :
    Spot → List Char → List Char → Prop
  | nil {s : Spot} : Counterpart k move s [] []
  | char {s : Spot} {c : Char} {cs cs' : List Char} : isPassed c cs = true →
      isPassed c cs' = true → (isWord c = true → s ≠ .word →
        k.staysWord (c :: cs) = true ∧ k.staysWord (c :: cs') = true) →
      Counterpart k move (s.next c) cs cs' → Counterpart k move s (c :: cs) (c :: cs')
  | name {p : Position} {w w' cs cs' : List Char} : k.writes w p → k.writes w' (move p) →
      endsName cs = true → endsName cs' = true → Counterpart k move .word cs cs' →
      Counterpart k move .free (w ++ cs) (w' ++ cs')
  | block {s : Spot} {b cs cs' : List Char} : k.block b → Counterpart k move .free cs cs' →
      Counterpart k move s (b ++ cs) (b ++ cs')
  | unclosed {s : Spot} {cs : List Char} : '"' ∉ cs → Counterpart k move s ('"' :: cs) ('"' :: cs)

section
variable {k : Script} {move : Position → Position} {s t : Spot} {c : Char} {cs cs' w : List Char}
  {p : Char → Bool}

theorem Counterpart.weaken (h : Counterpart k move s cs cs') (hst : s.Admits t) :
    Counterpart k move t cs cs' := by
  induction h generalizing t with
  | nil => exact .nil
  | char hc hc' hword _ ih =>
    exact .char hc hc' (fun hw ht => hword hw fun hs => ht (hst.2 hs)) (ih (hst.next _))
  | name hw hw' hend hend' hcs _ =>
    cases hst.1 rfl
    exact .name hw hw' hend hend' hcs
  | block hb hcs _ => exact .block hb hcs
  | unclosed hcs => exact .unclosed hcs

/-! ## What lies ahead -/

theorem Script.exists_cons (hw : ∃ p, k.writes w p) :
    ∃ c cs, w = c :: cs ∧ c.isAlpha = true := by
  obtain ⟨p, hw⟩ := hw
  have hname := k.ofName_of_writes hw
  obtain ⟨c, cs, rfl⟩ := List.exists_cons_of_ne_nil (Position.ne_nil_of_ofName hname)
  exact ⟨c, cs, rfl, Position.isAlpha_head_of_ofName hname c rfl⟩

theorem Script.exists_block {b : List Char} (hb : k.block b) : ∃ cs, b = '"' :: cs :=
  List.head?_eq_some_iff.1 (k.head_of_block hb)

/-- Two counterparts begin alike, unless each begins with a letter. -/
theorem Counterpart.head (h : Counterpart k move s cs cs') : cs.head? = cs'.head? ∨
    s = .free ∧ (∃ c d, cs.head? = some c ∧ cs'.head? = some d ∧ c.isAlpha = true ∧
      d.isAlpha = true) := by
  cases h with
  | nil => exact .inl rfl
  | char => exact .inl rfl
  | name hw hw' =>
    obtain ⟨c, cs, rfl, hc⟩ := Script.exists_cons ⟨_, hw⟩
    obtain ⟨d, ds, rfl, hd⟩ := Script.exists_cons ⟨_, hw'⟩
    exact .inr ⟨rfl, c, d, rfl, rfl, hc, hd⟩
  | block hb =>
    obtain ⟨b, rfl⟩ := Script.exists_block hb
    exact .inl rfl
  | unclosed => exact .inl rfl

theorem Counterpart.head_eq (h : Counterpart k move s cs cs') (hs : s ≠ .free) :
    cs.head? = cs'.head? :=
  h.head.resolve_right fun hr => hs hr.1

/-- What is true of no letter is true of the heads of both texts or of neither. -/
theorem Counterpart.any_head (h : Counterpart k move s cs cs')
    (hp : ∀ c : Char, c.isAlpha = true → p c = false) : cs.head?.any p = cs'.head?.any p := by
  rcases h.head with he | ⟨_, c, d, hc, hd, hc', hd'⟩
  · rw [he]
  · rw [hc, hd]
    simp [hp c hc', hp d hd']

theorem Counterpart.head_eq_some (h : Counterpart k move s cs cs') (hc : c.isAlpha = false) :
    cs.head? = some c ↔ cs'.head? = some c := by
  have hany := h.any_head (p := fun d => d == c) fun d hd => by
    refine beq_false_of_ne ?_
    rintro rfl
    rw [hc] at hd
    cases hd
  have hiff : ∀ cs : List Char, cs.head? = some c ↔ cs.head?.any (fun d => d == c) = true := by
    intro cs
    cases cs <;> simp
  rw [hiff, hiff, hany]

theorem dropLead_lostReference (hc : c ≠ '#') (cs : List Char) :
    dropLead? lostReference (c :: cs) = none := by
  simp [lostReference, dropLead?, Ne.symm hc]

theorem eq_of_lostReference (h : (dropLead? lostReference (c :: cs)).isSome = true) :
    c = '#' ∧ ∃ rest, cs = 'R' :: 'E' :: 'F' :: '!' :: rest := by
  obtain ⟨rest, hrest⟩ := Option.isSome_iff_exists.1 h
  have hcs : c :: cs = '#' :: 'R' :: 'E' :: 'F' :: '!' :: rest := eq_of_dropLead hrest
  exact ⟨(List.cons.inj hcs).1, rest, (List.cons.inj hcs).2⟩

theorem isSome_dropLead_lostReference_iff (hpassed : isPassed '#' cs = true) :
    (dropLead? lostReference ('#' :: cs)).isSome = true ↔ cs.head? ≠ some '\x7b' := by
  simp only [isPassed, hides, Bool.and_eq_true, Bool.or_eq_true, Bool.not_eq_true'] at hpassed
  rcases hpassed.2 with hhead | hlost
  · have hhead : cs.head? = some '\x7b' := by simpa [backtick] using hhead
    obtain ⟨rest, rfl⟩ := List.head?_eq_some_iff.1 hhead
    simp [lostReference, dropLead?]
  · obtain ⟨-, rest, rfl⟩ := eq_of_lostReference hlost
    simp only [List.head?_cons, ne_eq, Option.some.injEq]
    exact iff_of_true hlost (by decide)

/-- A lost reference stands in both texts or in neither. -/
theorem isSome_dropLead_lostReference (hpassed : isPassed c cs = true)
    (hpassed' : isPassed c cs' = true) (h : Counterpart k move t cs cs') :
    (dropLead? lostReference (c :: cs)).isSome = (dropLead? lostReference (c :: cs')).isSome := by
  by_cases hc : c = '#'
  · subst hc
    rw [Bool.eq_iff_iff, isSome_dropLead_lostReference_iff hpassed,
      isSome_dropLead_lostReference_iff hpassed', not_iff_not]
    exact h.head_eq_some (by decide)
  · rw [dropLead_lostReference hc, dropLead_lostReference hc]

/-- Inside a word two counterparts go on alike to its end. -/
theorem Counterpart.dropWhile (h : Counterpart k move .word cs cs')
    (hp : ∀ c, p c = true → isWord c = true) : cs.takeWhile p = cs'.takeWhile p ∧
      Counterpart k move .word (cs.dropWhile p) (cs'.dropWhile p) := by
  have hquote : p '"' = false := by
    by_contra hq
    exact absurd (hp '"' (by simpa using hq)) (by decide)
  generalize hs : Spot.word = s at h
  induction h with
  | nil => exact ⟨rfl, .nil⟩
  | @char s c cs cs' hc hc' hword hcs ih =>
    subst hs
    by_cases hpc : p c = true
    · obtain ⟨htake, hdrop⟩ := ih (Spot.next_of_isWord _ (hp c hpc)).symm
      rw [List.takeWhile_cons_of_pos hpc, List.takeWhile_cons_of_pos hpc, htake,
        List.dropWhile_cons_of_pos hpc, List.dropWhile_cons_of_pos hpc]
      rw [Spot.next_of_isWord _ (hp c hpc)] at hdrop
      exact ⟨rfl, hdrop⟩
    · rw [List.takeWhile_cons_of_neg hpc, List.takeWhile_cons_of_neg hpc,
        List.dropWhile_cons_of_neg hpc, List.dropWhile_cons_of_neg hpc]
      exact ⟨rfl, .char hc hc' hword hcs⟩
  | name => cases hs
  | block hb hcs =>
    obtain ⟨b, rfl⟩ := Script.exists_block hb
    simp only [List.cons_append, List.takeWhile_cons, List.dropWhile_cons, hquote,
      Bool.false_eq_true, if_false, true_and]
    exact .block hb hcs
  | unclosed hcs =>
    simp only [List.takeWhile_cons, List.dropWhile_cons, hquote, Bool.false_eq_true, if_false,
      true_and]
    exact .unclosed hcs

theorem Counterpart.of_cons {x : List Char} (h : Counterpart k move s (c :: cs) x)
    (hc : s ≠ .free ∨ c.isAlpha = false) (hq : c ≠ '"') : ∃ cs', x = c :: cs' ∧
      isPassed c cs = true ∧ isPassed c cs' = true ∧
      (isWord c = true → s ≠ .word →
        k.staysWord (c :: cs) = true ∧ k.staysWord (c :: cs') = true) ∧
      Counterpart k move (s.next c) cs cs' := by
  generalize hcs : c :: cs = text at h
  cases h with
  | nil => cases hcs
  | char hpassed hpassed' hword hrest =>
    cases hcs
    exact ⟨_, rfl, hpassed, hpassed', hword, hrest⟩
  | name hw =>
    obtain ⟨d, w, rfl, hd⟩ := Script.exists_cons ⟨_, hw⟩
    cases hcs
    rcases hc with hs | hc
    · exact absurd rfl hs
    · rw [hc] at hd
      cases hd
  | block hb =>
    obtain ⟨b, rfl⟩ := Script.exists_block hb
    cases hcs
    exact absurd rfl hq
  | unclosed =>
    cases hcs
    exact absurd rfl hq

theorem Counterpart.of_nil {x : List Char} (h : Counterpart k move s [] x) : x = [] := by
  rcases h.head with he | ⟨_, c, _, hc, _⟩
  · cases x with
    | nil => rfl
    | cons => cases he
  · cases hc

/-- Digits come first in both texts, and both are in a word after them. -/
theorem Counterpart.digits (h : Counterpart k move s cs cs') :
    cs.takeWhile Char.isDigit = cs'.takeWhile Char.isDigit ∧
      Counterpart k move (if (cs.takeWhile Char.isDigit).isEmpty then s else .word)
        (cs.dropWhile Char.isDigit) (cs'.dropWhile Char.isDigit) := by
  cases hcs : cs with
  | nil =>
    subst hcs
    rw [h.of_nil]
    exact ⟨rfl, .nil⟩
  | cons c cs =>
    subst hcs
    by_cases hc : c.isDigit = true
    · obtain ⟨cs', rfl, -, -, -, hrest⟩ := h.of_cons (.inr (isAlpha_of_isDigit hc))
        (ne_quote_of_isWord (isWord_of_isDigit hc))
      rw [Spot.next_of_isWord _ (isWord_of_isDigit hc)] at hrest
      obtain ⟨htake, hdrop⟩ := hrest.dropWhile fun _ => isWord_of_isDigit
      rw [List.takeWhile_cons_of_pos hc, List.takeWhile_cons_of_pos hc, htake,
        List.dropWhile_cons_of_pos hc, List.dropWhile_cons_of_pos hc]
      exact ⟨rfl, hdrop⟩
    · have hany := h.any_head fun _ => isDigit_of_isAlpha
      have hc' : ∀ d ∈ cs'.head?, d.isDigit ≠ true := by
        intro d hd hdigit
        rw [Option.mem_def.1 hd] at hany
        simp [hdigit, hc] at hany
      have hnone : cs'.takeWhile Char.isDigit = [] ∧ cs'.dropWhile Char.isDigit = cs' := by
        cases cs' with
        | nil => exact ⟨rfl, rfl⟩
        | cons d cs' => simp [hc' d rfl]
      rw [List.takeWhile_cons_of_neg hc, hnone.1, List.dropWhile_cons_of_neg hc, hnone.2]
      exact ⟨rfl, h⟩

/-- No blank belongs to a word. -/
theorem isWord_eq_false_of_isBlank (h : isBlank c = true) : isWord c = false := by
  let codes := [9, 10, 11, 12, 13, 32, 133, 160, 5760, 8192, 8193, 8194, 8195, 8196, 8197, 8198,
    8199, 8200, 8201, 8202, 8232, 8233, 8239, 8287, 12288]
  have hmem : c.toNat ∈ codes := by
    simp only [isBlank, Bool.or_eq_true, Bool.and_eq_true, decide_eq_true_eq, beq_iff_eq] at h
    simp only [codes, List.mem_cons, List.not_mem_nil, or_false]
    omega
  have hcodes : ∀ n ∈ codes, isWord (Char.ofNat n) = false := by decide +kernel
  rw [← Char.ofNat_toNat c]
  exact hcodes _ hmem

theorem isAlpha_of_isBlank (h : isBlank c = true) : c.isAlpha = false :=
  isAlpha_of_not_isWord (isWord_eq_false_of_isBlank h)

theorem isBlank_of_isAlpha (h : c.isAlpha = true) : isBlank c = false :=
  eq_false_of_ne_true (mt isAlpha_of_isBlank (ne_false_of_eq_true h))

theorem Counterpart.trimLeft (h : Counterpart k move s cs cs') :
    ∃ t, Counterpart k move t (trimLeft cs) (trimLeft cs') := by
  induction h with
  | nil => exact ⟨s, .nil⟩
  | @char s c cs cs' hc hc' hword hcs ih =>
    by_cases hb : isBlank c = true
    · simpa [Text.trimLeft, hb] using ih
    · refine ⟨s, ?_⟩
      rw [Text.trimLeft, Text.trimLeft, List.dropWhile_cons_of_neg hb,
        List.dropWhile_cons_of_neg hb]
      exact .char hc hc' hword hcs
  | name hw hw' hend hend' hcs _ =>
    obtain ⟨c, w, rfl, hc⟩ := Script.exists_cons ⟨_, hw⟩
    obtain ⟨d, w', rfl, hd⟩ := Script.exists_cons ⟨_, hw'⟩
    have hblank : ∀ c : Char, c.isAlpha = true → ¬isBlank c = true := by
      intro c hc hb
      rw [isAlpha_of_isBlank hb] at hc
      cases hc
    refine ⟨.free, ?_⟩
    rw [Text.trimLeft, Text.trimLeft, List.cons_append, List.cons_append,
      List.dropWhile_cons_of_neg (hblank c hc), List.dropWhile_cons_of_neg (hblank d hd)]
    exact .name hw hw' hend hend' hcs
  | @block s b cs cs' hb hcs _ =>
    obtain ⟨b, rfl⟩ := Script.exists_block hb
    refine ⟨s, ?_⟩
    rw [Text.trimLeft, Text.trimLeft, List.cons_append, List.cons_append,
      List.dropWhile_cons_of_neg (by decide), List.dropWhile_cons_of_neg (by decide)]
    exact .block hb hcs
  | @unclosed s cs hcs =>
    refine ⟨s, ?_⟩
    rw [Text.trimLeft, List.dropWhile_cons_of_neg (by decide)]
    exact .unclosed hcs

/-- A parenthesis follows in both texts or in neither. -/
theorem Counterpart.afterParenthesis (h : Counterpart k move s cs cs') :
    afterParenthesis? cs = none ∧ afterParenthesis? cs' = none ∨
      ∃ rest rest', afterParenthesis? cs = some rest ∧ afterParenthesis? cs' = some rest' ∧
        Counterpart k move .free rest rest' := by
  obtain ⟨t, htrim⟩ := h.trimLeft
  have hsome : ∀ {cs rest}, Text.trimLeft cs = '(' :: rest → afterParenthesis? cs = some rest := by
    intro cs rest h
    rw [afterParenthesis?, h]
    rfl
  have hnone : ∀ {cs}, (Text.trimLeft cs).head? ≠ some '(' → afterParenthesis? cs = none := by
    intro cs h
    unfold afterParenthesis?
    split
    · rename_i hcs
      rw [hcs] at h
      exact absurd rfl h
    · rfl
  by_cases hhead : (Text.trimLeft cs).head? = some '('
  · obtain ⟨rest, hrest⟩ := List.head?_eq_some_iff.1 hhead
    rw [hrest] at htrim
    obtain ⟨rest', hrest', -, -, -, hcs⟩ := htrim.of_cons (.inr (by decide)) (by decide)
    exact .inr ⟨rest, rest', hsome hrest, hsome hrest', hcs⟩
  · have hhead' : (Text.trimLeft cs').head? ≠ some '(' := fun h =>
      hhead ((htrim.head_eq_some (by decide)).2 h)
    exact .inl ⟨hnone hhead, hnone hhead'⟩

/-! ## What is the same in both texts -/

theorem isPassed_of_not_mem (h : c ∉ ['"', ':', backtick, '\'', '#', '/']) (cs : List Char) :
    isPassed c cs = true := by
  simp only [List.mem_cons, List.not_mem_nil, or_false, not_or] at h
  simp [isPassed, hides, h]

theorem isPassed_of_isWord (h : isWord c = true) (cs : List Char) : isPassed c cs = true := by
  refine isPassed_of_not_mem (fun hc => ?_) cs
  have hall : ∀ d ∈ ['"', ':', backtick, '\'', '#', '/'], isWord d = false := by decide
  rw [hall c hc] at h
  cases h

/-- A word that begins with no letter names nothing. -/
theorem Script.staysWord_of_not_isAlpha (hc : c.isAlpha = false) (cs : List Char) :
    k.staysWord (c :: cs) = true := by
  have hhead : ∀ d ∈ ((c :: cs).takeWhile isWord).head?, d.isAlpha = false := by
    intro d hd
    rw [List.takeWhile_cons] at hd
    split at hd
    · cases hd
      exact hc
    · cases hd
  have hcell : Position.ofName? ((c :: cs).takeWhile isWord) = none := by
    cases hname : Position.ofName? ((c :: cs).takeWhile isWord) with
    | none => rfl
    | some p =>
      obtain ⟨d, w, hw⟩ := List.exists_cons_of_ne_nil (Position.ne_nil_of_ofName hname)
      rw [hw] at hname hhead
      have := hhead d rfl
      rw [Position.isAlpha_head_of_ofName hname d rfl] at this
      cases this
  have htest : (c :: cs).takeWhile isWord ≠ "is_def_var".toList := by
    intro hw
    rw [hw] at hhead
    exact absurd (hhead 'i' rfl) (by decide)
  simpa [Script.staysWord, hcell] using htest

theorem Counterpart.inside_word (hw : ∀ c ∈ w, isWord c = true)
    (h : Counterpart k move .word cs cs') : Counterpart k move .word (w ++ cs) (w ++ cs') := by
  induction w with
  | nil => exact h
  | cons c w ih =>
    obtain ⟨hc, hw⟩ := List.forall_mem_cons.1 hw
    refine .char (isPassed_of_isWord hc _) (isPassed_of_isWord hc _) (fun _ hs => absurd rfl hs) ?_
    rw [Spot.next_of_isWord _ hc]
    exact ih hw

theorem Counterpart.word_append (hw : ∀ c ∈ w, isWord c = true) (hne : w ≠ [])
    (hstay : s ≠ .word → k.staysWord (w ++ cs) = true ∧ k.staysWord (w ++ cs') = true)
    (h : Counterpart k move .word cs cs') : Counterpart k move s (w ++ cs) (w ++ cs') := by
  obtain ⟨c, w, rfl⟩ := List.exists_cons_of_ne_nil hne
  obtain ⟨hc, hw⟩ := List.forall_mem_cons.1 hw
  refine .char (isPassed_of_isWord hc _) (isPassed_of_isWord hc _) (fun _ => hstay) ?_
  rw [Spot.next_of_isWord s hc]
  exact h.inside_word hw

theorem Counterpart.symbol (hc : isWord c = false)
    (hpassed : c ∉ ['"', ':', backtick, '\'', '#', '/'])
    (h : Counterpart k move (s.next c) cs cs') : Counterpart k move s (c :: cs) (c :: cs') :=
  .char (isPassed_of_not_mem hpassed cs) (isPassed_of_not_mem hpassed cs')
    (fun hw => by rw [hc] at hw; cases hw) h

theorem Counterpart.digits_append {digits : List Char} (hne : digits ≠ [])
    (hdigits : ∀ c ∈ digits, c.isDigit = true) (h : Counterpart k move .word cs cs') :
    Counterpart k move s (digits ++ cs) (digits ++ cs') := by
  refine .word_append (fun c hc => isWord_of_isDigit (hdigits c hc)) hne (fun _ => ?_) h
  obtain ⟨c, digits, rfl⟩ := List.exists_cons_of_ne_nil hne
  have hc := isAlpha_of_isDigit (hdigits c List.mem_cons_self)
  exact ⟨Script.staysWord_of_not_isAlpha hc _, Script.staysWord_of_not_isAlpha hc _⟩

theorem Counterpart.numeral_append (hw : IsNumeral w) (h : Counterpart k move .word cs cs') :
    Counterpart k move s (w ++ cs) (w ++ cs') := by
  induction hw generalizing s cs cs' with
  | fraction hwhole hwhole' hfraction hfraction' =>
    rw [List.append_assoc, List.append_assoc]
    refine .digits_append hwhole hwhole' ?_
    exact .symbol (by decide) (by decide) (h.digits_append hfraction hfraction')
  | @exponent mantissa sign digits _ hsign hne hdigits ih =>
    rw [List.append_assoc, List.append_assoc]
    refine ih (.char (isPassed_of_isWord (by decide) _) (isPassed_of_isWord (by decide) _)
      (fun _ hs => absurd rfl hs) ?_)
    change Counterpart k move _ ((sign ++ digits) ++ cs) ((sign ++ digits) ++ cs')
    rw [List.append_assoc, List.append_assoc]
    simp only [List.mem_cons, List.not_mem_nil, or_false] at hsign
    have hend : ∀ s, Counterpart k move s (digits ++ cs) (digits ++ cs') :=
      fun s => h.digits_append hne hdigits
    rcases hsign with rfl | rfl | rfl
    · exact hend _
    · exact .symbol (by decide) (by decide) (hend _)
    · exact .symbol (by decide) (by decide) (hend _)

end

end Spreadsheet.Formula

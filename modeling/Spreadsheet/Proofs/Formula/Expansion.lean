import Mathlib.Data.List.TakeWhile
import Spreadsheet.Proofs.Formula.SourceCounterpart
import Spreadsheet.Proofs.Position.Rectangle

/-!
# Ranges one after the other

The ranges of a text are listed one at a time. Each time the first two dots of the
whole text are looked for, and the names at their sides give way to the names of
the cells between them, which may be a corner of the next range. No dot is written,
so every round leaves two dots fewer, and a single pass over the text comes to the
same.
-/
namespace Spreadsheet.Formula
open Text Position

/-- The first two dots of a text, between the longest runs of letters and digits at their sides. -/
structure FirstRange (cs outside first last after : List Char) : Prop where
  text : cs = outside ++ first ++ '.' :: '.' :: (last ++ after)
  leftmost : ¬['.', '.'] <:+: outside ++ first ++ ['.']
  isAlphanum_first : ∀ c ∈ first, c.isAlphanum = true
  not_isAlphanum_outside : ∀ c ∈ outside.getLast?, c.isAlphanum = false
  isAlphanum_last : ∀ c ∈ last, c.isAlphanum = true
  not_isAlphanum_after : ∀ c ∈ after.head?, c.isAlphanum = false

/-- Names with commas between them. -/
def listed (cells : List Position) : List Char := [','].intercalate (cells.map Position.name)

/-- What comes of a text whose ranges are listed one after the other, after how many rounds. -/
inductive Expands : Nat → List Char → Except Fault (List Char) → Prop
  | done {cs : List Char} : ¬['.', '.'] <:+: cs → Expands 0 cs (.ok cs)
  | uncuttable {cs outside first last after : List Char} :
      FirstRange cs outside first last after → (∃ c ∈ outside.getLast?, 128 ≤ c.toNat) →
      Expands 0 cs (.error .uncuttable)
  | unnamed {cs outside first last after : List Char} :
      FirstRange cs outside first last after → (∀ c ∈ outside.getLast?, c.toNat < 128) →
      ofName? first = none ∨ ofName? last = none →
      Expands 0 cs (.error (.invalidRange (rangeText first last)))
  | tooLarge {cs outside first last after : List Char} {p q : Position} {cells : List Position} :
      FirstRange cs outside first last after → (∀ c ∈ outside.getLast?, c.toNat < 128) →
      ofName? first = some p → ofName? last = some q → IsRectangle p q cells →
      100000 < cells.length → Expands 0 cs (.error (.rangeTooLarge (rangeText first last)))
  | listed {cs outside first last after : List Char} {p q : Position} {cells : List Position}
      {n : Nat} {r : Except Fault (List Char)} :
      FirstRange cs outside first last after → (∀ c ∈ outside.getLast?, c.toNat < 128) →
      ofName? first = some p → ofName? last = some q → IsRectangle p q cells →
      cells.length ≤ 100000 → Expands n (outside ++ listed cells ++ after) r →
      Expands (n + 1) cs r

section
variable {cs outside first last after before xs ys : List Char} {cells : List Position}
  {p q : Position}

theorem cellList_eq (cells : List Position) : cellList cells = listed cells := by
  induction cells with
  | nil => rfl
  | cons p cells ih =>
    cases cells with
    | nil => simp [cellList, listed]
    | cons q cells =>
      rw [cellList, ih]
      · simp [listed, List.intercalate_cons_cons]
      · exact List.cons_ne_nil _ _

/-- Names and commas are all that is written for a range. -/
theorem mem_listed {c : Char} (h : c ∈ listed cells) : c.isAlphanum = true ∨ c = ',' := by
  rw [← cellList_eq] at h
  induction cells with
  | nil => cases h
  | cons p cells ih =>
    cases cells with
    | nil => exact .inl (isAlphanum_of_mem_name h)
    | cons q cells =>
      rw [cellList, List.mem_append, List.mem_cons] at h
      · rcases h with h | rfl | h
        · exact .inl (isAlphanum_of_mem_name h)
        · exact .inr rfl
        · exact ih h
      · exact List.cons_ne_nil _ _

theorem no_dot_listed (cells : List Position) : '.' ∉ listed cells := fun hmem =>
  (mem_listed hmem).elim (fun h => absurd h (by decide)) (fun h => absurd h (by decide))

theorem listed_ne_nil (h : cells ≠ []) : listed cells ≠ [] := by
  obtain ⟨p, cells, rfl⟩ := List.exists_cons_of_ne_nil h
  rw [← cellList_eq]
  cases cells with
  | nil => exact name_ne_nil p
  | cons q cells =>
    rw [cellList]
    · simp
    · exact List.cons_ne_nil _ _

/-! ## The first range -/

theorem exists_first_dots (h : ['.', '.'] <:+: cs) :
    ∃ before rest, cs = before ++ '.' :: '.' :: rest ∧ ¬['.', '.'] <:+: before ++ ['.'] := by
  induction cs with
  | nil => exact absurd h (by decide)
  | cons c cs ih =>
    by_cases hdots : c = '.' ∧ cs.head? = some '.'
    · obtain ⟨rfl, hhead⟩ := hdots
      obtain ⟨rest, rfl⟩ := List.head?_eq_some_iff.1 hhead
      exact ⟨[], rest, rfl, by decide⟩
    · obtain ⟨before, rest, rfl, hbefore⟩ := ih ((range_cons.1 h).resolve_left hdots)
      refine ⟨c :: before, rest, rfl, fun hrange => ?_⟩
      refine hdots (((range_cons.1 hrange).resolve_right hbefore).imp_right fun hhead => ?_)
      rw [← hhead]
      cases before <;> rfl

theorem exists_firstRange (h : ['.', '.'] <:+: cs) :
    ∃ outside first last after, FirstRange cs outside first last after := by
  obtain ⟨before, rest, htext, hleftmost⟩ := exists_first_dots h
  obtain ⟨outside, first, rfl, hfirst, houtside⟩ : ∃ outside first, before = outside ++ first ∧
      (∀ c ∈ first, c.isAlphanum = true) ∧ ∀ c ∈ outside.getLast?, c.isAlphanum = false := by
    refine ⟨(before.reverse.dropWhile Char.isAlphanum).reverse,
      (before.reverse.takeWhile Char.isAlphanum).reverse, ?_,
      fun c hc => List.mem_takeWhile_imp (List.mem_reverse.1 hc), ?_⟩
    · rw [← List.reverse_append, List.takeWhile_append_dropWhile, List.reverse_reverse]
    · rw [List.getLast?_reverse]
      exact head_dropWhile
  refine ⟨outside, first, rest.takeWhile Char.isAlphanum, rest.dropWhile Char.isAlphanum, ?_,
    hleftmost, hfirst, houtside, fun c hc => List.mem_takeWhile_imp hc, head_dropWhile⟩
  rw [List.takeWhile_append_dropWhile, htext]

theorem FirstRange.no_dot (h : FirstRange cs outside first last after) :
    '.' ∉ first ∧ '.' ∉ last :=
  ⟨fun hmem => absurd (h.isAlphanum_first _ hmem) (by decide),
    fun hmem => absurd (h.isAlphanum_last _ hmem) (by decide)⟩

/-! ## The single pass -/

/-- A pass takes up what it cannot expand. -/
theorem expandAfter_append (h : ¬['.', '.'] <:+: xs ++ ys.take 1) :
    expandAfter before (xs ++ ys) = expandAfter (xs.reverse ++ before) ys := by
  induction xs generalizing before with
  | nil => rfl
  | cons c xs ih =>
    rw [List.cons_append, range_cons, not_or] at h
    rw [List.cons_append, expandAfter, ih h.2, List.reverse_cons, List.append_assoc]
    · rfl
    · intro rest hc hrest
      refine h.1 ⟨hc, ?_⟩
      cases xs with
      | nil =>
        cases ys with
        | nil => cases hrest
        | cons d ys =>
          cases hrest
          rfl
      | cons d xs =>
        cases hrest
        rfl

theorem FirstRange.expandAfter_eq (h : FirstRange cs outside first last after) :
    expandAfter [] cs = if isCuttable outside.reverse then
      (rangeCells first last).bind fun cells =>
        expandAfter ((cellList cells).reverse ++ outside.reverse) after
    else .error .uncuttable := by
  have hbefore := takeWhile_append_of_head
    (fun c (hc : c ∈ first.reverse) => h.isAlphanum_first c (List.mem_reverse.1 hc))
    (fun c (hc : c ∈ outside.reverse.head?) =>
      h.not_isAlphanum_outside c (by rwa [List.head?_reverse] at hc))
  have hafter := takeWhile_append_of_head h.isAlphanum_last h.not_isAlphanum_after
  rw [h.text, expandAfter_append h.leftmost, List.reverse_append, List.append_nil, expandAfter]
  simp only [hbefore.1, hbefore.2, hafter.1, hafter.2, List.reverse_reverse]
  cases rangeCells first last <;> rfl

/-- A range that is listed gives way to its list, before the pass as well as in it. -/
theorem FirstRange.expandAfter_listed (h : FirstRange cs outside first last after)
    (hcut : isCuttable outside.reverse = true) (hcells : rangeCells first last = .ok cells)
    (hne : cells ≠ []) :
    expandAfter [] cs = expandAfter [] (outside ++ listed cells ++ after) := by
  have hdot := no_dot_listed cells
  have houtside : ¬['.', '.'] <:+: outside := fun hrange =>
    h.leftmost (hrange.trans ⟨[], first ++ ['.'], by simp⟩)
  have hhead : (listed cells ++ after.take 1).head? ≠ some '.' := by
    obtain ⟨c, list, hlist⟩ := List.exists_cons_of_ne_nil (listed_ne_nil hne)
    rw [hlist, List.cons_append, List.head?_cons]
    rintro ⟨⟩
    exact hdot (hlist ▸ List.mem_cons_self)
  have hsingle : ¬['.', '.'] <:+: after.take 1 := fun hrange =>
    absurd (hrange.length_le.trans (List.length_take_le 1 after)) (by decide)
  have hlist : ¬['.', '.'] <:+: outside ++ (listed cells ++ after.take 1) := by
    rw [range_append_congr (iff_of_false hhead (by decide : ([] : List Char).head? ≠ some '.'))]
    · rwa [List.append_nil]
    · rw [range_append_of_not_mem hdot]
      exact iff_of_false hsingle (by decide)
  rw [h.expandAfter_eq, if_pos hcut, hcells, expandAfter_append (by rwa [List.append_assoc]),
    ← cellList_eq, List.reverse_append, List.append_nil]
  rfl

theorem rangeCells_of_ofName (hp : ofName? first = some p) (hq : ofName? last = some q)
    (hcells : IsRectangle p q cells) : rangeCells first last =
      if cells.length ≤ 100000 then .ok cells
      else .error (.rangeTooLarge (rangeText first last)) := by
  rw [rangeCells, hp, hq]
  simp only [rectangle?_of_isRectangle hcells]
  by_cases hlength : cells.length ≤ 100000
  · simp only [if_pos hlength]
  · simp only [if_neg hlength]

theorem rangeCells_of_none (h : ofName? first = none ∨ ofName? last = none) :
    rangeCells first last = .error (.invalidRange (rangeText first last)) := by
  rw [rangeCells]
  split
  · rename_i p q hp hq
    rw [hp, hq] at h
    simp at h
  · rfl

theorem isCuttable_reverse (outside : List Char) :
    isCuttable outside.reverse = true ↔ ∀ c ∈ outside.getLast?, c.toNat < 128 := by
  rw [← List.head?_reverse]
  cases outside.reverse with
  | nil => simp [isCuttable]
  | cons c cs => simp [isCuttable]

/-- The rounds come to what the pass comes to. -/
theorem Expands.eq_expandAfter {n : Nat} {r : Except Fault (List Char)} (h : Expands n cs r) :
    r = expandAfter [] cs := by
  induction h with
  | done hrange => exact (expandAfter_of_no_range [] hrange).symm
  | uncuttable h hcut =>
    have hnot : ¬isCuttable _ = true := mt (isCuttable_reverse _).1 fun hall => by
      obtain ⟨c, hc, hle⟩ := hcut
      exact absurd (hall c hc) (Nat.not_lt.2 hle)
    rw [h.expandAfter_eq, if_neg hnot]
  | unnamed h hcut hnone =>
    rw [h.expandAfter_eq, if_pos ((isCuttable_reverse _).2 hcut), rangeCells_of_none hnone]
    rfl
  | tooLarge h hcut hp hq hcells hlength =>
    rw [h.expandAfter_eq, if_pos ((isCuttable_reverse _).2 hcut), rangeCells_of_ofName hp hq hcells,
      if_neg (Nat.not_le.2 hlength)]
    rfl
  | listed h hcut hp hq hcells hlength _ ih =>
    refine ih.trans (h.expandAfter_listed ((isCuttable_reverse _).2 hcut) ?_ hcells.ne_nil).symm
    rw [rangeCells_of_ofName hp hq hcells, if_pos hlength]

/-- Two dots go with each round, so the rounds come to an end. -/
theorem exists_expands (cs : List Char) :
    ∃ n, 2 * n ≤ cs.count '.' ∧ Expands n cs (expandAfter [] cs) := by
  induction hdots : cs.count '.' using Nat.strongRecOn generalizing cs with
  | _ dots ih =>
    subst hdots
    by_cases hrange : ['.', '.'] <:+: cs
    · obtain ⟨outside, first, last, after, h⟩ := exists_firstRange hrange
      have hend : ∀ {r : Except Fault (List Char)}, Expands 0 cs r →
          ∃ n, 2 * n ≤ cs.count '.' ∧ Expands n cs (expandAfter [] cs) := fun hr =>
        ⟨0, Nat.zero_le _, hr.eq_expandAfter ▸ hr⟩
      by_cases hcut : ∀ c ∈ outside.getLast?, c.toNat < 128
      · cases hp : ofName? first with
        | none => exact hend (.unnamed h hcut (.inl hp))
        | some p =>
          cases hq : ofName? last with
          | none => exact hend (.unnamed h hcut (.inr hq))
          | some q =>
            have hcells := isRectangle_rectangle p q
            by_cases hlength : (rectangle p q).length ≤ 100000
            · have hcellsOf : rangeCells first last = .ok (rectangle p q) := by
                rw [rangeCells_of_ofName hp hq hcells, if_pos hlength]
              have hcount : cs.count '.' =
                  (outside ++ listed (rectangle p q) ++ after).count '.' + 2 := by
                have hnames := h.no_dot
                simp [h.text, List.count_append, List.count_eq_zero_of_not_mem, hnames,
                  no_dot_listed]
                omega
              have hfewer :
                  (outside ++ listed (rectangle p q) ++ after).count '.' < cs.count '.' := by
                omega
              obtain ⟨n, hn, hr⟩ := ih _ hfewer _ rfl
              rw [h.expandAfter_listed ((isCuttable_reverse _).2 hcut) hcellsOf hcells.ne_nil]
              exact ⟨n + 1, by omega, .listed h hcut hp hq hcells hlength hr⟩
            · exact hend (.tooLarge h hcut hp hq hcells (Nat.not_le.1 hlength))
      · push Not at hcut
        exact hend (.uncuttable h hcut)
    · exact ⟨0, Nat.zero_le _, expandAfter_of_no_range [] hrange ▸ .done hrange⟩

/-- Listing ranges brings in letters, digits and commas only. -/
theorem Expands.not_mem {n : Nat} {ds : List Char} {d : Char} (h : Expands n cs (.ok ds))
    (hd : d.isAlphanum = false) (hcomma : d ≠ ',') (hcs : d ∉ cs) : d ∉ ds := by
  generalize hr : (.ok ds : Except Fault (List Char)) = r at h
  induction h with
  | done =>
    cases hr
    exact hcs
  | @listed cs outside first last after _ _ cells _ _ h _ _ _ _ _ _ ih =>
    refine ih ?_ hr
    have hlist : d ∉ Formula.listed cells := fun hmem =>
      (mem_listed hmem).elim (by simp [hd]) hcomma
    rw [h.text] at hcs
    simp only [List.mem_append, List.mem_cons, not_or] at hcs ⊢
    exact ⟨⟨hcs.1.1, hlist⟩, hcs.2.2.2.2⟩
  | _ => cases hr

/-- What is listed at last has no range any more. -/
theorem Expands.no_range {n : Nat} {ds : List Char} (h : Expands n cs (.ok ds)) :
    ¬['.', '.'] <:+: ds := by
  generalize hr : (.ok ds : Except Fault (List Char)) = r at h
  induction h with
  | done hrange =>
    cases hr
    exact hrange
  | listed _ _ _ _ _ _ _ ih => exact ih hr
  | _ => cases hr

end

theorem no_percent_withoutPercents (cs : List Char) : '%' ∉ withoutPercents cs := by
  induction cs with
  | nil => exact List.not_mem_nil
  | cons c cs ih =>
    by_cases hc : c = '%'
    · subst hc
      rw [withoutPercents_percent, List.mem_append, not_or]
      exact ⟨by decide, ih⟩
    · rw [withoutPercents_cons hc, List.mem_cons, not_or]
      exact ⟨Ne.symm hc, ih⟩

/-- The percent signs and ranges of a text are written out as if its first range was listed as long
as there is one. This takes one round for two dots at most, leaves one result, and nothing to be
written out again. -/
theorem expandRanges_spec (cs : List Char) :
    (∃ n, 2 * n ≤ (withoutPercents cs).count '.' ∧
      Expands n (withoutPercents cs) (expandRanges cs)) ∧
    (∀ n r, Expands n (withoutPercents cs) r → r = expandRanges cs) ∧
    ∀ ds, expandRanges cs = .ok ds →
      '%' ∉ ds ∧ ¬['.', '.'] <:+: ds ∧ expandRanges ds = .ok ds := by
  have hexpands := exists_expands (withoutPercents cs)
  refine ⟨hexpands, fun n r hr => hr.eq_expandAfter, fun ds hds => ?_⟩
  obtain ⟨n, -, hr⟩ := hexpands
  have hok : expandAfter [] (withoutPercents cs) = .ok ds := hds
  rw [hok] at hr
  have hpercent := hr.not_mem (by decide) (by decide) (no_percent_withoutPercents cs)
  have hrange := hr.no_range
  refine ⟨hpercent, hrange, ?_⟩
  rw [expandRanges_of_no_range] <;> rw [withoutPercents_of_not_mem hpercent]
  exact hrange

/-- The last cell of one range is a corner of the next. -/
theorem expandRanges_spec_chain :
    expandRanges "5%+A1..b2..C3".toList = .ok "5*1/100+A1,B1,A2,B2,C2,B3,C3".toList ∧
    ∃ n ≤ 2, Expands n "5*1/100+A1..b2..C3".toList
      (.ok "5*1/100+A1,B1,A2,B2,C2,B3,C3".toList) := by
  have hok : expandRanges "5%+A1..b2..C3".toList =
      .ok "5*1/100+A1,B1,A2,B2,C2,B3,C3".toList := by decide +kernel
  obtain ⟨⟨n, hn, hexpands⟩, -, -⟩ := expandRanges_spec "5%+A1..b2..C3".toList
  have hdots : (withoutPercents "5%+A1..b2..C3".toList).count '.' = 4 := by decide
  rw [hok] at hexpands
  exact ⟨hok, n, by omega, hexpands⟩

end Spreadsheet.Formula

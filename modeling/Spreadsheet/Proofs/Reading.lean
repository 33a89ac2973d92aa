import Spreadsheet.Input
import Spreadsheet.Proofs.Ending

/-!
# Reading cells of a grid

What a formula reads of a cell depends on that cell alone. Reading a place
without a cell puts a blank one there, and a blank cell reads like a missing
one, so that reading never changes what can be read. A resolution is therefore
decided by the readings of the cells in its list.
-/
namespace Spreadsheet.Grid
open Formula

/-- What a formula reads at a place. -/
def reading (g : Grid) (q : Position) : Except Fault Value :=
  match g.get? q with
  | some c => c.operand q
  | none => .ok Value.blank

/-- A place stays as it is or, without a cell, gets a blank one. -/
def Keeps (before after : Option Cell) : Prop :=
  after = before ∨ before = none ∧ after = some Cell.blank

/-- The grid differs in nothing but further blank cells. -/
def AddsBlanks (g h : Grid) : Prop := ∀ q, Keeps (g.get? q) (h.get? q)

section
variable {g h k : Grid} {q : Position} {c : Cell} {x y z : Option Cell}

theorem Keeps.refl (x : Option Cell) : Keeps x x := .inl rfl

theorem Keeps.trans (hxy : Keeps x y) (hyz : Keeps y z) : Keeps x z := by
  rcases hyz with rfl | ⟨hy, hz⟩
  · exact hxy
  · rcases hxy with rfl | ⟨_, hy'⟩
    · exact .inr ⟨hy, hz⟩
    · rw [hy'] at hy
      cases hy

theorem Keeps.eq_some (h : Keeps x y) (hx : x = some c) : y = some c := by
  rcases h with rfl | ⟨hn, _⟩
  · exact hx
  · rw [hn] at hx
    cases hx

theorem Keeps.formula_iff (h : Keeps x y) (hf : c.isFormula = true) :
    y = some c ↔ x = some c := by
  constructor
  · intro hy
    rcases h with rfl | ⟨_, hb⟩
    · exact hy
    · cases hb.symm.trans hy
      cases hf
  · exact h.eq_some

theorem Keeps.reading_eq (hg : Keeps (g.get? q) (h.get? q)) : h.reading q = g.reading q := by
  unfold reading
  rcases hg with hq | ⟨hn, hq⟩
  · rw [hq]
  · rw [hn, hq]
    rfl

theorem AddsBlanks.refl (g : Grid) : AddsBlanks g g := fun _ => .refl _

theorem AddsBlanks.trans (hg : AddsBlanks g h) (hk : AddsBlanks h k) : AddsBlanks g k :=
  fun q => (hg q).trans (hk q)

theorem AddsBlanks.get?_eq_some (hg : AddsBlanks g h) (hc : g.get? q = some c) :
    h.get? q = some c :=
  (hg q).eq_some hc

theorem AddsBlanks.reading_eq (hg : AddsBlanks g h) (q : Position) : h.reading q = g.reading q :=
  (hg q).reading_eq

end

/-! ## The texts of formulas -/

/-- The text of the formula at a place. -/
def formulaText? (g : Grid) (p : Position) : Option (List Char) :=
  ((g.get? p).filter Cell.isFormula).map Cell.text

/-- No formula of the sheet depends on the occasion. -/
def IsRepeatable [Engine] (g : Grid) : Prop :=
  ∀ p cs, g.formulaText? p = some cs → Formula.IsRepeatable cs

section
variable {g h : Grid} {p : Position} {c d : Cell}

theorem formulaText?_eq_some {cs : List Char} : g.formulaText? p = some cs ↔
    ∃ c, g.get? p = some c ∧ c.isFormula = true ∧ c.text = cs := by
  simp [formulaText?, Option.map_eq_some_iff, Option.filter_eq_some_iff, and_assoc]

theorem formulaText?_eq_none : g.formulaText? p = none ↔
    ∀ c, g.get? p = some c → c.isFormula = false := by
  simp [formulaText?, Option.filter_eq_none_iff]

theorem Keeps.formulaText?_eq (hg : Keeps (g.get? p) (h.get? p)) :
    h.formulaText? p = g.formulaText? p := by
  unfold formulaText?
  rcases hg with hp | ⟨hn, hp⟩
  · rw [hp]
  · rw [hn, hp]
    rfl

theorem AddsBlanks.formulaText?_eq (hg : AddsBlanks g h) : h.formulaText? = g.formulaText? :=
  funext fun p => (hg p).formulaText?_eq

theorem formulaText?_insert (hc : g.get? p = some c) (hk : d.kind = c.kind)
    (hr : d.raw = c.raw) : formulaText? (g.insert p d) = g.formulaText? := by
  funext q
  unfold formulaText?
  rw [Table.get?_insert]
  split
  · rename_i he
    subst he
    simp [hc, Option.filter, Cell.isFormula, Cell.text, hk, hr]
  · rfl

/-- A change of a cell that leaves its kind and its text leaves all texts. -/
theorem formulaText?_modify {f : Cell → Cell} (hf : ∀ c, (f c).kind = c.kind ∧ (f c).raw = c.raw) :
    (g.modify p f).formulaText? = g.formulaText? := by
  unfold modify
  split
  · rename_i c hc
    exact formulaText?_insert hc (hf c).1 (hf c).2
  · rfl

end

theorem isRepeatable_congr [Engine] {g h : Grid} (ht : h.formulaText? = g.formulaText?) :
    h.IsRepeatable ↔ g.IsRepeatable := by
  unfold IsRepeatable
  rw [ht]

/-! ## What is read and what is answered -/

theorem operand_of_get? {g : Grid} {q : Position} {c : Cell} (h : g.get? q = some c) :
    operand q g = (c.operand q, g) := by
  simp [operand, h]

theorem reading_of_get? {g : Grid} {q : Position} {c : Cell} (h : g.get? q = some c) :
    g.reading q = c.operand q := by
  rw [reading, h]

theorem reading_of_none {g : Grid} {q : Position} (h : g.get? q = none) :
    g.reading q = .ok Value.blank := by
  rw [reading, h]

theorem operand_fst (q : Position) (g : Grid) : (operand q g).1 = g.reading q := by
  unfold operand reading
  cases g.get? q <;> rfl

theorem operand_addsBlanks (q : Position) (g : Grid) : AddsBlanks g (operand q g).2 := by
  intro p
  unfold operand
  split
  · exact .inl rfl
  · rename_i hn
    rw [Table.get?_insert]
    split
    · rename_i he
      exact .inr ⟨he ▸ hn, rfl⟩
    · exact .inl rfl

/-- The grid answers as it did before the first of the readings. -/
theorem answers_operand {g h : Grid} {l : List Reading} (ha : Answers operand g l h) :
    (∀ x ∈ l, x.answer = g.reading x.cell) ∧ AddsBlanks g h := by
  induction ha with
  | nil g => exact ⟨by simp, .refl g⟩
  | @cons g k h q o l ho _ ih =>
    have hq : o = g.reading q := by rw [← operand_fst, ho]
    have hk : AddsBlanks g k := by
      have := operand_addsBlanks q g
      rwa [ho] at this
    refine ⟨?_, hk.trans ih.2⟩
    intro x hx
    rcases List.mem_cons.1 hx with rfl | hx
    · exact hq
    · rw [ih.1 x hx, hk.reading_eq]

theorem exists_answers {g : Grid} {l : List Reading}
    (hl : ∀ x ∈ l, x.answer = g.reading x.cell) : ∃ h, Answers operand g l h := by
  induction l generalizing g with
  | nil => exact ⟨g, .nil g⟩
  | cons x l ih =>
    have hg := operand_addsBlanks x.cell g
    obtain ⟨h, hh⟩ := ih (g := (operand x.cell g).2) fun y hy => by
      rw [hl y (List.mem_cons_of_mem _ hy), hg.reading_eq]
    refine ⟨h, .cons (Prod.ext ?_ rfl) hh⟩
    rw [operand_fst, hl x List.mem_cons_self]

/-- Readings of cells that are there leave the grid as it is. -/
theorem answers_of_get? {g : Grid} {l : List Reading}
    (hl : ∀ x ∈ l, ∃ c, g.get? x.cell = some c ∧ x.answer = c.operand x.cell) :
    Answers operand g l g := by
  induction l with
  | nil => exact .nil g
  | cons x l ih =>
    obtain ⟨c, hc, hx⟩ := hl x List.mem_cons_self
    refine .cons ?_ (ih fun y hy => hl y (List.mem_cons_of_mem _ hy))
    rw [operand_of_get? hc, hx]

section
variable [Engine]

theorem resolve_addsBlanks (g : Grid) (ω : Occasion) (p : Position) (cs : List Char) :
    AddsBlanks g (resolve ω cs p operand g).2 := by
  obtain ⟨l, _, ha⟩ := exists_dialogue ω cs p operand g
  exact (answers_operand ha).2

/-- What a formula's text gives at a place of the grid. -/
def resolution (g : Grid) (ω : Occasion) (p : Position) (cs : List Char) : Resolution :=
  (resolve ω cs p operand g).1

theorem resolution_eq {g : Grid} {ω : Occasion} {p : Position} {cs : List Char}
    {l : List Reading} {r : Resolution} (h : TextDialogue ω cs p l r)
    (hl : ∀ x ∈ l, x.answer = g.reading x.cell) : g.resolution ω p cs = r := by
  obtain ⟨k, hk⟩ := exists_answers hl
  rw [resolution, h.resolve_eq hk]

/-- On an occasion, a resolution depends on nothing but the cells that it lists. -/
theorem resolution_congr {g h : Grid} {ω : Occasion} {p : Position} {cs : List Char}
    (hr : ∀ q ∈ (g.resolution ω p cs).dependsOn, q ≠ p → h.reading q = g.reading q) :
    h.resolution ω p cs = g.resolution ω p cs := by
  obtain ⟨l, hl, ha⟩ := exists_dialogue ω cs p operand g
  refine resolution_eq hl ?_
  intro x hx
  rw [(answers_operand ha).1 x hx]
  exact (hr x.cell (hl.ending.mem_dependsOn hx) (hl.cell_ne x hx)).symm

/-- A formula is taken for one that cannot be cut only for its own text. -/
theorem isUncuttable_of_resolution {g : Grid} {ω : Occasion} {p : Position} {cs : List Char}
    (h : (g.resolution ω p cs).outcome = .error .uncuttable) : isUncuttable cs = true := by
  obtain ⟨l, hl, ha⟩ := exists_dialogue ω cs p operand g
  refine (hl.of_uncuttable h).resolve_right fun ⟨x, hx, hfault⟩ => ?_
  rw [(answers_operand ha).1 x hx] at hfault
  unfold reading Cell.operand at hfault
  repeat' split at hfault
  all_goals cases hfault

/-- What a formula gives that depends on no occasion. -/
theorem resolution_onOccasion {g : Grid} {p : Position} {cs : List Char}
    (h : Formula.IsRepeatable cs)
    (ω ω' : Occasion) : g.resolution ω p cs = g.resolution ω' p cs := by
  rw [resolution, resolution, h.resolve_eq ω ω']

end

end Spreadsheet.Grid

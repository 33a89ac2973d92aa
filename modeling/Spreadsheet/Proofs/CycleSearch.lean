import Mathlib.Data.List.Chain
import Mathlib.Logic.Relation
import Spreadsheet.Cycle

/-!
# The search for a cycle

A cell is grounded when everything that it reads, at any distance, ends in cells
that read nothing. The search comes back from a grounded cell without a cycle.
When each cell of a cycle reads nothing but grounded cells before the next cell
of the cycle, the search from any of them goes straight around it. Conversely a
search that comes back without a cycle has started from a grounded cell.
-/
namespace Spreadsheet.Grid
open Relation

/-- The cell at the first place recorded that it read the second. -/
def Reads (g : Grid) (p q : Position) : Prop := ∃ c, g.get? p = some c ∧ q ∈ c.dependsOn

def Grounded (g : Grid) (p : Position) : Prop := Acc (fun q r => g.Reads r q) p

/-- Different cells, each of which reads the next one, and the last of them the first. -/
structure IsCycle (g : Grid) (p : Position) (l : List Position) : Prop where
  nodup : (p :: l).Nodup
  chain : (p :: (l ++ [p])).IsChain g.Reads

/-- The last cell that was read, after grounded ones. -/
def Linked (g : Grid) (p q : Position) : Prop :=
  ∃ c ds, g.get? p = some c ∧ c.dependsOn = ds ++ [q] ∧ ∀ d ∈ ds, g.Grounded d

section
variable {g : Grid} {p q : Position}

theorem Linked.reads (h : g.Linked p q) : g.Reads p q := by
  obtain ⟨c, ds, hc, hd, _⟩ := h
  refine ⟨c, hc, ?_⟩
  simp [hd]

theorem Grounded.of_reads (h : g.Grounded p) (hr : g.Reads p q) : g.Grounded q := h.inv hr

theorem Grounded.of_reaches (h : g.Grounded p) (hr : ReflTransGen g.Reads p q) :
    g.Grounded q := by
  induction hr with
  | refl => exact h
  | tail _ hr ih => exact ih.of_reads hr

theorem Grounded.not_transGen (h : g.Grounded p) : ¬TransGen g.Reads p p := by
  induction h with
  | intro p _ ih =>
    intro hp
    obtain ⟨q, hpq, hqp⟩ := TransGen.head'_iff.1 hp
    have hq : TransGen g.Reads q q := TransGen.tail'_iff.2 ⟨p, hqp, hpq⟩
    exact ih q hpq hq

theorem isFormula_of_not_grounded (h : ¬g.Grounded p) :
    ∃ c, g.get? p = some c ∧ c.isFormula = true := by
  by_contra hn
  apply h
  constructor
  rintro q ⟨c, hc, hq⟩
  exact (hn ⟨c, hc, Cell.isFormula_of_mem_dependsOn hq⟩).elim

end

/-! ## Grounded cells -/

section
variable {visit : Position → List Position → CycleSearch} {P : Position → Prop}

theorem firstCycle_of_none {ps : List Position}
    (h : ∀ p ∈ ps, ∀ done, (visit p done).1 = none ∧ ∀ x ∈ (visit p done).2, x ∈ done ∨ P x)
    (done : List Position) :
    (firstCycle visit ps done).1 = none ∧
      ∀ x ∈ (firstCycle visit ps done).2, x ∈ done ∨ P x := by
  induction ps generalizing done with
  | nil => exact ⟨rfl, fun x hx => .inl hx⟩
  | cons p ps ih =>
    obtain ⟨hn, hp⟩ := h p List.mem_cons_self done
    obtain ⟨hn', hps⟩ := ih (fun q hq => h q (List.mem_cons_of_mem _ hq)) (visit p done).2
    rw [firstCycle]
    split
    · rename_i path _ hv
      rw [hv] at hn
      cases hn
    · rename_i done' hv
      rw [hv] at hp hn' hps
      refine ⟨hn', fun x hx => ?_⟩
      rcases hps x hx with hx | hx
      · exact hp x hx
      · exact .inr hx

/-- Cells without a cycle are passed over on the way to one. -/
theorem firstCycle_append {ps qs done : List Position} (h : (firstCycle visit ps done).1 = none) :
    firstCycle visit (ps ++ qs) done = firstCycle visit qs (firstCycle visit ps done).2 := by
  induction ps generalizing done with
  | nil => rfl
  | cons p ps ih =>
    rw [firstCycle] at h
    rw [List.cons_append, firstCycle, firstCycle]
    split at h
    · cases h
    · exact ih h

end

section
variable {g : Grid} {bound : Nat} {trail done : List Position} {p : Position}

/-- The trail of a search that starts from a cell does not reach back into it. -/
theorem searchCycle_of_grounded (hp : g.Grounded p)
    (ht : ∀ t ∈ trail, ¬ReflTransGen g.Reads p t) :
    (g.searchCycle bound trail p done).1 = none ∧
      ∀ x ∈ (g.searchCycle bound trail p done).2, x ∈ done ∨ g.Grounded x := by
  induction bound generalizing trail p done with
  | zero => exact ⟨rfl, fun x hx => .inl hx⟩
  | succ bound ih =>
    have hpt : p ∉ trail := fun hm => ht p hm .refl
    rw [searchCycle, if_neg hpt]
    split
    · exact ⟨rfl, fun x hx => .inl hx⟩
    split
    · exact ⟨rfl, fun x hx => .inl hx⟩
    · rename_i c hc
      have hnext : ∀ q ∈ c.dependsOn, ∀ done,
          (g.searchCycle bound (p :: trail) q done).1 = none ∧
            ∀ x ∈ (g.searchCycle bound (p :: trail) q done).2, x ∈ done ∨ g.Grounded x := by
        intro q hq done
        have hpq : g.Reads p q := ⟨c, hc, hq⟩
        refine ih (hp.of_reads hpq) fun t hm hqt => ?_
        rcases List.mem_cons.1 hm with rfl | hm
        · exact hp.not_transGen (TransGen.head'_iff.2 ⟨q, hpq, hqt⟩)
        · exact ht t hm (.head hpq hqt)
      obtain ⟨hn, hd⟩ := firstCycle_of_none hnext done
      split
      · rename_i path _ hv
        rw [hv] at hn
        cases hn
      · rename_i done' hv
        rw [hv] at hd
        refine ⟨rfl, fun x hx => ?_⟩
        rcases List.mem_cons.1 hx with rfl | hx
        · exact .inr hp
        · exact hd x hx

theorem cyclePath_of_grounded (hp : g.Grounded p) : g.cyclePath p = none :=
  (searchCycle_of_grounded hp (by simp)).1

end

/-! ## Straight around a cycle -/

section
variable {g : Grid} {bound : Nat} {trail done rest : List Position} {p q x : Position}

/-- A step along the last reading of a cell that is not grounded. -/
theorem searchCycle_of_linked (hx : ¬g.Grounded x) (hxt : x ∉ trail)
    (ht : ∀ t ∈ trail, ¬g.Grounded t) (hd : ∀ d ∈ done, g.Grounded d) (hq : g.Linked x q)
    (bound : Nat) :
    ∃ done', (∀ d ∈ done', g.Grounded d) ∧
      ∀ path, (g.searchCycle bound (x :: trail) q done').1 = some path →
        (g.searchCycle (bound + 1) trail x done).1 = some path := by
  obtain ⟨c, ds, hc, hdeps, hds⟩ := hq
  have hxd : x ∉ done := fun hm => hx (hd x hm)
  have hunder : ∀ d ∈ ds, ∀ done, (g.searchCycle bound (x :: trail) d done).1 = none ∧
      ∀ y ∈ (g.searchCycle bound (x :: trail) d done).2, y ∈ done ∨ g.Grounded y := by
    intro d hm done
    refine searchCycle_of_grounded (hds d hm) fun t htm hdt => ?_
    have htg : g.Grounded t := (hds d hm).of_reaches hdt
    rcases List.mem_cons.1 htm with rfl | htm
    · exact hx htg
    · exact ht t htm htg
  obtain ⟨hn, hdone⟩ := firstCycle_of_none hunder done
  refine ⟨_, fun d hm => (hdone d hm).elim (hd d) id, fun path hpath => ?_⟩
  rw [searchCycle, if_neg hxt, if_neg hxd, hc]
  simp only [hdeps]
  rw [firstCycle_append hn, firstCycle]
  cases hs : g.searchCycle bound (x :: trail) q (firstCycle _ ds done).2 with
  | mk found done' =>
    rw [hs] at hpath
    cases hpath
    rfl

theorem closeCycle_append {l ts : List Position} (hp : p ∉ l) :
    closeCycle p (l.reverse ++ p :: ts) = p :: (l ++ [p]) := by
  have hl : ∀ q ∈ l.reverse, (q != p) = true := by
    intro q hq
    rw [bne_iff_ne]
    rintro rfl
    exact hp (List.mem_reverse.1 hq)
  rw [closeCycle, List.takeWhile_append_of_pos hl, List.takeWhile_cons_of_neg (by simp)]
  simp

theorem searchCycle_around (hchain : (x :: (rest ++ [p])).IsChain g.Linked)
    (hg : ∀ y ∈ x :: rest, ¬g.Grounded y) (hnd : (x :: rest).Nodup)
    (hdisj : ∀ y ∈ x :: rest, y ∉ trail) (hp : p ∈ x :: trail)
    (ht : ∀ t ∈ trail, ¬g.Grounded t) (hd : ∀ d ∈ done, g.Grounded d)
    (hb : rest.length + 2 ≤ bound) :
    (g.searchCycle bound trail x done).1 = some (closeCycle p (rest.reverse ++ x :: trail)) := by
  induction rest generalizing bound trail x done with
  | nil =>
    obtain ⟨bound, rfl⟩ : ∃ n, bound = n + 2 := Nat.exists_eq_add_of_le' hb
    have hlink : g.Linked x p := by simpa using hchain
    obtain ⟨done', _, hpath⟩ := searchCycle_of_linked (hg x List.mem_cons_self)
      (hdisj x List.mem_cons_self) ht hd hlink (bound + 1)
    refine hpath _ ?_
    rw [searchCycle, if_pos hp]
    rfl
  | cons y rest ih =>
    obtain ⟨bound, rfl⟩ : ∃ n, bound = n + 1 := ⟨bound - 1, by omega⟩
    rw [List.cons_append, List.isChain_cons_cons] at hchain
    obtain ⟨hlink, hchain⟩ := hchain
    have hx := hg x List.mem_cons_self
    obtain ⟨hxr, hnd⟩ := List.nodup_cons.1 hnd
    obtain ⟨done', hd', hpath⟩ := searchCycle_of_linked hx (hdisj x List.mem_cons_self) ht hd
      hlink bound
    have hdisj' : ∀ z ∈ y :: rest, z ∉ x :: trail := by
      intro z hz hzt
      rcases List.mem_cons.1 hzt with rfl | hzt
      · exact hxr hz
      · exact hdisj z (List.mem_cons_of_mem _ hz) hzt
    have ht' : ∀ t ∈ x :: trail, ¬g.Grounded t := List.forall_mem_cons.2 ⟨hx, ht⟩
    have hb' : rest.length + 2 ≤ bound := by
      simp only [List.length_cons] at hb
      omega
    have hnext := ih hchain (fun z hz => hg z (List.mem_cons_of_mem _ hz)) hnd hdisj'
      (List.mem_cons_of_mem _ hp) ht' hd' hb'
    refine hpath _ ?_
    rw [hnext]
    simp

theorem length_le_size {l : List Position} (hl : l.Nodup)
    (hg : ∀ x ∈ l, ∃ c, g.get? x = some c) : l.length ≤ g.size := by
  have hsub : l ⊆ g.keys := fun x hx => (Table.mem_keys_iff g x).2 (hg x hx)
  have hle := hl.length_le_of_subset hsub
  simpa [Table.keys, Table.size] using hle

/-- The search from a cell of a cycle without detours finds just this cycle. -/
theorem cyclePath_of_linked {l : List Position} (hnd : (p :: l).Nodup)
    (hchain : (p :: (l ++ [p])).IsChain g.Linked) (hg : ∀ x ∈ p :: l, ¬g.Grounded x) :
    g.cyclePath p = some (p :: (l ++ [p])) := by
  have hget : ∀ x ∈ p :: l, ∃ c, g.get? x = some c := by
    intro x hx
    obtain ⟨c, hc, _⟩ := isFormula_of_not_grounded (hg x hx)
    exact ⟨c, hc⟩
  have hbound : l.length + 2 ≤ g.size + 1 := Nat.succ_le_succ (length_le_size hnd hget)
  have haround : (g.searchCycle (g.size + 1) [] p []).1 =
      some (closeCycle p (l.reverse ++ [p])) :=
    searchCycle_around hchain hg hnd (by simp) List.mem_cons_self (by simp) (by simp) hbound
  rw [cyclePath, haround, closeCycle_append (List.nodup_cons.1 hnd).1]

end

/-! ## No cycle is missed -/

theorem firstCycle_none_inv {visit : Position → List Position → CycleSearch}
    {P : Position → Prop} {ps done : List Position}
    (h : ∀ p ∈ ps, ∀ done, (∀ x ∈ done, P x) → (visit p done).1 = none →
      P p ∧ ∀ x ∈ (visit p done).2, P x)
    (hd : ∀ x ∈ done, P x) (hn : (firstCycle visit ps done).1 = none) :
    (∀ p ∈ ps, P p) ∧ ∀ x ∈ (firstCycle visit ps done).2, P x := by
  induction ps generalizing done with
  | nil => exact ⟨by simp, hd⟩
  | cons p ps ih =>
    rw [firstCycle] at hn ⊢
    split at hn
    · cases hn
    · rename_i done' hv
      obtain ⟨hp, hd'⟩ := h p List.mem_cons_self done hd (by rw [hv])
      rw [hv] at hd'
      obtain ⟨hps, hrest⟩ := ih (fun q hq => h q (List.mem_cons_of_mem _ hq)) hd' hn
      exact ⟨List.forall_mem_cons.2 ⟨hp, hps⟩, hrest⟩

section
variable {g : Grid} {bound : Nat} {trail done : List Position} {p : Position}

/-- A search that comes back has been everywhere: with the trail it has more steps left than there
are cells, so that it does not stop for want of them. -/
theorem grounded_of_searchCycle (hnd : trail.Nodup) (hget : ∀ t ∈ trail, ∃ c, g.get? t = some c)
    (hb : g.size < trail.length + bound) (hd : ∀ d ∈ done, g.Grounded d)
    (hn : (g.searchCycle bound trail p done).1 = none) :
    g.Grounded p ∧ ∀ d ∈ (g.searchCycle bound trail p done).2, g.Grounded d := by
  induction bound generalizing trail p done with
  | zero =>
    have hle : trail.length ≤ g.size := length_le_size hnd hget
    omega
  | succ bound ih =>
    rw [searchCycle] at hn ⊢
    split at hn
    · cases hn
    rename_i hpt
    rw [if_neg hpt]
    split at hn
    · rename_i hpd
      rw [if_pos hpd]
      exact ⟨hd p hpd, hd⟩
    rename_i hpd
    rw [if_neg hpd]
    split at hn
    · rename_i hnone
      refine ⟨⟨p, ?_⟩, hd⟩
      rintro q ⟨c, hc, _⟩
      rw [hnone] at hc
      cases hc
    · rename_i c hc
      have hnext : ∀ q ∈ c.dependsOn, ∀ done, (∀ d ∈ done, g.Grounded d) →
          (g.searchCycle bound (p :: trail) q done).1 = none →
          g.Grounded q ∧ ∀ d ∈ (g.searchCycle bound (p :: trail) q done).2, g.Grounded d := by
        intro q _ done hd hn
        refine ih (List.nodup_cons.2 ⟨hpt, hnd⟩) ?_ ?_ hd hn
        · exact List.forall_mem_cons.2 ⟨⟨c, hc⟩, hget⟩
        · rw [List.length_cons]
          omega
      split at hn
      · cases hn
      · rename_i done' hv
        obtain ⟨hall, hd'⟩ := firstCycle_none_inv hnext hd (by rw [hv])
        rw [hv] at hd'
        have hp : g.Grounded p := by
          constructor
          rintro q ⟨d, hdc, hq⟩
          cases hc.symm.trans hdc
          exact hall q hq
        exact ⟨hp, List.forall_mem_cons.2 ⟨hp, hd'⟩⟩

theorem cyclePath_eq_none_iff : g.cyclePath p = none ↔ g.Grounded p := by
  refine ⟨fun hn => ?_, cyclePath_of_grounded⟩
  exact (grounded_of_searchCycle List.nodup_nil (by simp) (by simp) (by simp) hn).1

/-- The search from a cell finds a cycle if the cell reaches one that reads itself at a distance. -/
theorem isSome_cyclePath_of_transGen {q : Position} (hpq : ReflTransGen g.Reads p q)
    (hq : TransGen g.Reads q q) : (g.cyclePath p).isSome = true := by
  rw [Option.isSome_iff_ne_none]
  intro hn
  exact ((cyclePath_eq_none_iff.1 hn).of_reaches hpq).not_transGen hq

end

end Spreadsheet.Grid

import Mathlib.Data.List.Nodup
import Spreadsheet.Proofs.CycleSearch

/-!
# What the search for a cycle finds

The trail of a search is a path along readings without repetition. A return to
one of its cells closes a cycle, and what comes before that cell on the trail is
dropped. The rules of the search bound none of its steps down; the search comes
to an end by these rules all the same, since its trail holds different cells.
-/
namespace Spreadsheet.Grid
open Relation

/-! ## The rules of the search -/

/-- What the searches from some cells come to, one after the other until a cycle is found. The rules
are those of `searchCycle` without its bound. -/
inductive Searches (g : Grid) :
    List Position → List Position → List Position → CycleSearch → Prop
  | nil {trail done : List Position} : Searches g trail [] done (none, done)
  | closed {trail ps done : List Position} {p : Position} : p ∈ trail →
      Searches g trail (p :: ps) done (some (closeCycle p trail), done)
  | known {trail ps done : List Position} {p : Position} {r : CycleSearch} : p ∉ trail →
      p ∈ done → Searches g trail ps done r → Searches g trail (p :: ps) done r
  | missing {trail ps done : List Position} {p : Position} {r : CycleSearch} : p ∉ trail →
      p ∉ done → g.get? p = none → Searches g trail ps done r → Searches g trail (p :: ps) done r
  | found {trail ps done done' path : List Position} {p : Position} {c : Cell} : p ∉ trail →
      p ∉ done → g.get? p = some c →
      Searches g (p :: trail) c.dependsOn done (some path, done') →
      Searches g trail (p :: ps) done (some path, done')
  | finished {trail ps done done' : List Position} {p : Position} {c : Cell} {r : CycleSearch} :
      p ∉ trail → p ∉ done → g.get? p = some c →
      Searches g (p :: trail) c.dependsOn done (none, done') →
      Searches g trail ps (p :: done') r → Searches g trail (p :: ps) done r

section
variable {g : Grid} {bound : Nat} {trail ps done : List Position} {p : Position}

/-- The rules leave no choice. -/
theorem Searches.unique {r r' : CycleSearch} (h : g.Searches trail ps done r)
    (h' : g.Searches trail ps done r') : r' = r := by
  induction h generalizing r' with
  | nil =>
    cases h'
    rfl
  | closed hp =>
    cases h' with
    | closed => rfl
    | _ => contradiction
  | known hp hd _ ih =>
    cases h' with
    | known _ _ hps => exact ih hps
    | _ => contradiction
  | missing hp hd hn _ ih =>
    cases h' with
    | missing _ _ _ hps => exact ih hps
    | found _ _ hc => cases hn.symm.trans hc
    | finished _ _ hc => cases hn.symm.trans hc
    | _ => contradiction
  | found hp hd hc _ ih =>
    cases h' with
    | missing _ _ hn => cases hn.symm.trans hc
    | found _ _ hc' hnext =>
      cases hc.symm.trans hc'
      exact ih hnext
    | finished _ _ hc' hnext =>
      cases hc.symm.trans hc'
      cases ih hnext
    | _ => contradiction
  | finished hp hd hc _ _ ihnext ih =>
    cases h' with
    | missing _ _ hn => cases hn.symm.trans hc
    | found _ _ hc' hnext =>
      cases hc.symm.trans hc'
      cases ihnext hnext
    | finished _ _ hc' hnext hps =>
      cases hc.symm.trans hc'
      cases ihnext hnext
      exact ih hps
    | _ => contradiction

/-- The search keeps to its rules: with the trail it has more steps left than there are cells. -/
theorem searches_firstCycle (hnd : trail.Nodup) (hget : ∀ t ∈ trail, ∃ c, g.get? t = some c)
    (hb : g.size < trail.length + bound) :
    g.Searches trail ps done (firstCycle (g.searchCycle bound trail) ps done) := by
  induction bound generalizing trail ps done with
  | zero =>
    have hle : trail.length ≤ g.size := length_le_size hnd hget
    omega
  | succ bound ih =>
    induction ps generalizing done with
    | nil => exact .nil
    | cons p ps ihps =>
      rw [firstCycle, searchCycle]
      by_cases hpt : p ∈ trail
      · rw [if_pos hpt]
        exact .closed hpt
      rw [if_neg hpt]
      by_cases hpd : p ∈ done
      · rw [if_pos hpd]
        exact .known hpt hpd ihps
      rw [if_neg hpd]
      cases hc : g.get? p with
      | none => exact .missing hpt hpd hc ihps
      | some c =>
        have hlonger : g.size < (p :: trail).length + bound := by
          rw [List.length_cons]
          omega
        have hnext := @ih (p :: trail) c.dependsOn done (List.nodup_cons.2 ⟨hpt, hnd⟩)
          (List.forall_mem_cons.2 ⟨⟨c, hc⟩, hget⟩) hlonger
        dsimp only
        cases hv : firstCycle (g.searchCycle bound (p :: trail)) c.dependsOn done with
        | mk path done' =>
          rw [hv] at hnext
          cases path with
          | none => exact .finished hpt hpd hc hnext ihps
          | some path => exact .found hpt hpd hc hnext

/-- The search from a cell ends by its rules, and in one way only. -/
theorem exists_searches (g : Grid) (p : Position) :
    ∃ done, ∀ r, g.Searches [] [p] [] r ↔ r = (g.cyclePath p, done) := by
  have hb : g.size < ([] : List Position).length + (g.size + 1) := by
    rw [List.length_nil]
    omega
  have hsearch : g.Searches [] [p] [] (firstCycle (g.searchCycle (g.size + 1) []) [p] []) :=
    searches_firstCycle List.nodup_nil (by simp) hb
  have hpath : (firstCycle (g.searchCycle (g.size + 1) []) [p] []).1 = g.cyclePath p := by
    rw [firstCycle, cyclePath]
    split <;> simp_all [firstCycle]
  refine ⟨(firstCycle (g.searchCycle (g.size + 1) []) [p] []).2, fun r => ?_⟩
  rw [← hpath]
  constructor
  · exact hsearch.unique
  · rintro rfl
    exact hsearch

end

/-! ## The trail -/

/-- The cells on the way from a cell to another one, the latest first. -/
structure IsTrail (g : Grid) (start p : Position) (trail : List Position) : Prop where
  chain : (p :: trail).IsChain fun q r => g.Reads r q
  nodup : trail.Nodup
  reached : ∀ q ∈ p :: trail, ReflTransGen g.Reads start q

section
variable {g : Grid} {bound : Nat} {trail ps done path : List Position} {start p q : Position}

theorem isTrail_nil (p : Position) : g.IsTrail p p [] where
  chain := .singleton p
  nodup := List.nodup_nil
  reached := by simpa using ReflTransGen.refl

theorem IsTrail.cons (h : g.IsTrail start p trail) (hp : p ∉ trail) (hpq : g.Reads p q) :
    g.IsTrail start q (p :: trail) where
  chain := .cons_cons hpq h.chain
  nodup := List.nodup_cons.2 ⟨hp, h.nodup⟩
  reached := List.forall_mem_cons.2 ⟨(h.reached p List.mem_cons_self).tail hpq, h.reached⟩

/-- A return to a cell of the trail closes a cycle, without the way to that cell. -/
theorem IsTrail.closeCycle (h : g.IsTrail start p trail) (hp : p ∈ trail) :
    ∃ l, closeCycle p trail = p :: (l ++ [p]) ∧ g.IsCycle p l := by
  obtain ⟨later, earlier, rfl, hlater⟩ := List.eq_append_cons_of_mem hp
  refine ⟨later.reverse, ?_, ?_, ?_⟩
  · have hreverse : p ∉ later.reverse := by rwa [List.mem_reverse]
    simpa using @closeCycle_append p later.reverse earlier hreverse
  · have hnodup : later.Nodup := (List.nodup_append.1 h.nodup).1
    exact List.nodup_cons.2 ⟨by rwa [List.mem_reverse], List.nodup_reverse.2 hnodup⟩
  · have hsplit : p :: (later ++ p :: earlier) = p :: (later ++ [p]) ++ earlier := by simp
    have hchain := h.chain
    rw [hsplit] at hchain
    have hback := List.isChain_reverse.2 hchain.left_of_append
    simpa using hback

theorem exists_of_firstCycle {visit : Position → List Position → CycleSearch}
    (h : (firstCycle visit ps done).1 = some path) :
    ∃ p ∈ ps, ∃ done, (visit p done).1 = some path := by
  induction ps generalizing done with
  | nil => cases h
  | cons p ps ih =>
    rw [firstCycle] at h
    split at h
    · rename_i hv
      exact ⟨p, List.mem_cons_self, done, by rw [hv]; exact h⟩
    · obtain ⟨q, hq, hpath⟩ := ih h
      exact ⟨q, List.mem_cons_of_mem _ hq, hpath⟩

/-- Whatever the search finds is a cycle that its start reaches. -/
theorem isCycle_of_searchCycle (ht : g.IsTrail start p trail)
    (h : (g.searchCycle bound trail p done).1 = some path) :
    ∃ q l, path = q :: (l ++ [q]) ∧ g.IsCycle q l ∧ ReflTransGen g.Reads start q := by
  induction bound generalizing trail p done with
  | zero => cases h
  | succ bound ih =>
    rw [searchCycle] at h
    split at h
    · rename_i hp
      cases h
      obtain ⟨l, hpath, hcycle⟩ := ht.closeCycle hp
      exact ⟨p, l, hpath, hcycle, ht.reached p List.mem_cons_self⟩
    rename_i hpt
    split at h
    · cases h
    split at h
    · cases h
    · rename_i c hc
      split at h
      · rename_i hv
        cases h
        obtain ⟨q, hq, done', hpath⟩ := exists_of_firstCycle (by rw [hv])
        exact ih (ht.cons hpt ⟨c, hc, hq⟩) hpath
      · cases h

end

theorem IsCycle.transGen {g : Grid} {p : Position} {l : List Position} (h : g.IsCycle p l) :
    TransGen g.Reads p p := by
  have hchain := h.chain
  cases l with
  | nil =>
    rw [List.nil_append, List.isChain_pair] at hchain
    exact .single hchain
  | cons q l =>
    rw [List.cons_append, List.isChain_cons_cons] at hchain
    obtain ⟨hpq, hqp⟩ := hchain
    exact .head' hpq (List.relationReflTransGen_of_exists_isChain_cons (l ++ [p]) hqp (by simp))

/-- The search from a cell ends. It finds a cycle just if the cell reaches one, and what it finds
is a path from a cell back to it, along readings and through different cells. -/
theorem cyclePath_finds_cycle (g : Grid) (p : Position) :
    (∃ done, ∀ r, g.Searches [] [p] [] r ↔ r = (g.cyclePath p, done)) ∧
    ((g.cyclePath p).isSome = true ↔
      ∃ q, ReflTransGen g.Reads p q ∧ TransGen g.Reads q q) ∧
    ∀ path, g.cyclePath p = some path → ∃ q l, path = q :: (l ++ [q]) ∧ (q :: l).Nodup ∧
      path.IsChain g.Reads ∧ ReflTransGen g.Reads p q := by
  have hpath : ∀ path, g.cyclePath p = some path → ∃ q l, path = q :: (l ++ [q]) ∧
      g.IsCycle q l ∧ ReflTransGen g.Reads p q :=
    fun path h => isCycle_of_searchCycle (isTrail_nil p) h
  refine ⟨exists_searches g p, ⟨fun h => ?_, ?_⟩, fun path h => ?_⟩
  · obtain ⟨path, hsome⟩ := Option.isSome_iff_exists.1 h
    obtain ⟨q, l, _, hcycle, hreach⟩ := hpath path hsome
    exact ⟨q, hreach, hcycle.transGen⟩
  · rintro ⟨q, hreach, hcycle⟩
    exact isSome_cyclePath_of_transGen hreach hcycle
  · obtain ⟨q, l, rfl, hcycle, hreach⟩ := hpath path h
    exact ⟨q, l, rfl, hcycle.nodup, hcycle.chain, hreach⟩

/-- The way to a cycle is no part of it. -/
example : cyclePath (Table.ofList
    [(⟨0, 0⟩, (Cell.formula "B1".toList).resolved (.ok Value.blank) [⟨0, 1⟩]),
      (⟨0, 1⟩, (Cell.formula "D1+C1".toList).resolved (.ok Value.blank) [⟨0, 3⟩, ⟨0, 2⟩]),
      (⟨0, 2⟩, (Cell.formula "B1".toList).resolved (.ok Value.blank) [⟨0, 1⟩])]) ⟨0, 0⟩ =
    some [⟨0, 1⟩, ⟨0, 2⟩, ⟨0, 1⟩] := by decide

end Spreadsheet.Grid

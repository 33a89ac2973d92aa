import Mathlib.Data.List.Rotate
import Spreadsheet.Proofs.CycleSearch
import Spreadsheet.Proofs.Refresh.Consistency

/-!
# Cycles after a refresh

A formula with a value has read nothing but values, so that it is grounded. A
formula that closes a cycle has read one of those that waited for it, and each
of those has stopped at the one that it waited for. What the fault names is
therefore a stretch of the trail, and the search from the cell walks along it.
-/
namespace Spreadsheet
open Formula List Relation

namespace Cell

theorem ok_of_operand {c : Cell} {p : Position} {v : Value} (h : c.operand p = .ok v) :
    ∃ w, c.outcome = .ok w := by
  unfold operand at h
  split at h
  · cases h
  · rename_i w hw
    exact ⟨w, hw⟩

/-- The fault of a cell that is read is not handed on as a cycle. -/
theorem kind_of_operand {c : Cell} {p : Position} {fault : Fault}
    (h : c.operand p = .error fault) : fault.kind ≠ .circularReference := by
  unfold operand at h
  split at h
  · cases h
    simp [Fault.kind]
  · split at h <;> cases h
    simp [Fault.kind]

end Cell

namespace Grid

/-! ## Formulas with a value -/

theorem Accounts.grounded [Engine] {ω : Occasion} {g : Grid} {visits : List Visit}
    (h : g.Accounts ω visits)
    {p : Position} {c : Cell} (hc : g.get? p = some c)
    (hf : c.isFormula = true → p ∈ visits.map Visit.cell) {v : Value} (hv : c.outcome = .ok v) :
    g.Grounded p := by
  induction visits generalizing p c v with
  | nil =>
    by_contra hp
    obtain ⟨d, hd, hfd⟩ := isFormula_of_not_grounded hp
    cases hc.symm.trans hd
    cases hf hfd
  | cons u older ih =>
    obtain ⟨⟨_, d, l, hd, _, hl, hx⟩, holder⟩ := h
    by_cases hp : p = u.cell
    · subst hp
      cases hc.symm.trans hd
      constructor
      rintro q ⟨e, he, hq⟩
      cases hc.symm.trans he
      obtain ⟨hdeps, hvalues⟩ := hl.ending.of_ok hv
      dsimp only at hdeps
      rw [hdeps] at hq
      obtain ⟨x, hxl, rfl⟩ := List.mem_map.1 hq
      obtain ⟨w, hw⟩ := hvalues x hxl
      rcases hx x hxl with ⟨_, ha⟩ | ⟨_, e, he, ha, hfe⟩
      · rw [hw] at ha
        cases ha
      · obtain ⟨w', hw'⟩ := Cell.ok_of_operand (ha.symm.trans hw)
        exact ih holder he hfe hw'
    · refine ih holder hc (fun hfc => ?_) hv
      exact (List.mem_cons.1 (hf hfc)).resolve_left hp

theorem grounded_refresh [Engine] {ω : Occasion} {g : Grid} {p : Position} {c : Cell}
    (hc : (g.refresh ω).get? p = some c) {v : Value} (hv : c.outcome = .ok v) :
    (g.refresh ω).Grounded p := by
  refine (accounts_refresh ω g).grounded hc (fun hf => ?_) hv
  exact mem_formulas_refresh.1 (mem_formulas.2 ⟨c, hc, hf⟩)

/-! ## The trail of a visit -/

section
variable [Engine] {ω : Occasion} {g : Grid} {p q : Position} {trail : List Position} {c : Cell}

theorem not_mem_trail (hv : ⟨p, trail⟩ ∈ (g.chronicle ω).visits) : p ∉ trail := by
  obtain ⟨older, hp, _⟩ := (accounts_refresh ω g).holdsIn hv
  exact hp

/-- What a visited formula has read and is not grounded, it has read last. -/
theorem linked_of_mem (hv : ⟨p, trail⟩ ∈ (g.chronicle ω).visits)
    (hc : (g.refresh ω).get? p = some c)
    (hq : q ∈ c.dependsOn) (hg : ¬(g.refresh ω).Grounded q) : (g.refresh ω).Linked p q := by
  obtain ⟨older, _, d, l, hd, _, hl, hx⟩ := (accounts_refresh ω g).holdsIn hv
  cases hc.symm.trans hd
  have hvalues : ∀ x ∈ l, x.HasValue → (g.refresh ω).Grounded x.cell := by
    rintro x hxl ⟨w, hw⟩
    rcases hx x hxl with ⟨_, ha⟩ | ⟨_, e, he, ha, _⟩
    · rw [hw] at ha
      cases ha
    · obtain ⟨w', hw'⟩ := Cell.ok_of_operand (ha.symm.trans hw)
      exact grounded_refresh he hw'
  rcases hl.ending.last_of_mem hq with ⟨x, hxl, rfl, hxv⟩ | ⟨ds, hds, hdv⟩
  · exact (hg (hvalues x hxl hxv)).elim
  · refine ⟨c, ds, hc, hds, fun d hdm => ?_⟩
    obtain ⟨x, hxl, rfl, hxv⟩ := hdv d hdm
    exact hvalues x hxl hxv

theorem nodup_trail (hv : ⟨p, trail⟩ ∈ (g.chronicle ω).visits) : (p :: trail).Nodup := by
  induction trail generalizing p with
  | nil => exact List.nodup_singleton p
  | cons t trail ih =>
    obtain ⟨hm, _⟩ := hasParent_refresh hv t trail rfl
    exact List.nodup_cons.2 ⟨not_mem_trail hv, ih hm⟩

/-- A formula that waits for another one reaches it. -/
theorem reaches_of_mem_trail (hv : ⟨p, trail⟩ ∈ (g.chronicle ω).visits) (hq : q ∈ p :: trail) :
    ReflTransGen (g.refresh ω).Reads q p := by
  induction trail generalizing p with
  | nil =>
    rw [List.mem_singleton] at hq
    subst hq
    exact .refl
  | cons t trail ih =>
    rcases List.mem_cons.1 hq with rfl | hq
    · exact .refl
    · obtain ⟨hm, hr⟩ := hasParent_refresh hv t trail rfl
      exact (ih hm hq).tail hr

/-- All formulas that wait for one that is not grounded have stopped there. -/
theorem linked_trail (hv : ⟨p, trail⟩ ∈ (g.chronicle ω).visits) (hp : ¬(g.refresh ω).Grounded p) :
    (p :: trail).IsChain (fun a b => (g.refresh ω).Linked b a) ∧
      ∀ x ∈ p :: trail, ¬(g.refresh ω).Grounded x := by
  induction trail generalizing p with
  | nil => exact ⟨.singleton p, by simpa using hp⟩
  | cons t trail ih =>
    obtain ⟨hm, d, hd, hpd⟩ := hasParent_refresh hv t trail rfl
    have ht : ¬(g.refresh ω).Grounded t := fun h => hp (h.of_reads ⟨d, hd, hpd⟩)
    obtain ⟨hchain, hall⟩ := ih hm ht
    refine ⟨List.isChain_cons_cons.2 ⟨linked_of_mem hm hd hpd hp, hchain⟩, ?_⟩
    exact List.forall_mem_cons.2 ⟨hp, hall⟩

/-- A fault that speaks of a cycle names the stretch of the trail down from a cell that was
read. -/
theorem exists_closed (hv : ⟨p, trail⟩ ∈ (g.chronicle ω).visits)
    (hc : (g.refresh ω).get? p = some c)
    {fault : Fault} (ho : c.outcome = .error fault) (hk : fault.kind = .circularReference) :
    ∃ q ∈ p :: trail, q ∈ c.dependsOn ∧ fault = .cycle (closeCycle q (p :: trail)) := by
  obtain ⟨older, _, d, l, hd, _, hl, hx⟩ := (accounts_refresh ω g).holdsIn hv
  cases hc.symm.trans hd
  rcases hl.ending.of_circular ho hk with ⟨rfl, hp⟩ | ⟨x, hxl, ha⟩
  · refine ⟨p, List.mem_cons_self, hp, ?_⟩
    simp [closeCycle]
  · rcases hx x hxl with ⟨hm, hcyc⟩ | ⟨_, e, _, hop, _⟩
    · rw [ha, Except.error.injEq] at hcyc
      exact ⟨x.cell, hm, hl.ending.mem_dependsOn hxl, hcyc⟩
    · exact (Cell.kind_of_operand (hop.symm.trans ha) hk).elim

/-! ## Cells that close a cycle -/

omit [Engine] in
/-- The cycle of a stretch of a trail, from its newest cell on. -/
theorem exists_around {g : Grid} (hchain : (p :: trail).IsChain fun a b => g.Linked b a)
    (hnd : (p :: trail).Nodup) (hq : q ∈ p :: trail) (hlink : g.Linked p q) :
    ∃ l m, (p :: l) ⊆ (p :: trail) ∧ (p :: l).Nodup ∧ (p :: (l ++ [p])).IsChain g.Linked ∧
      closeCycle q (p :: trail) = q :: (m ++ [q]) ∧ (q :: m) ~r (p :: l) := by
  rcases List.mem_cons.1 hq with rfl | hq
  · refine ⟨[], [], by simp, List.nodup_singleton q, ?_, by simp [closeCycle], .refl _⟩
    simpa using hlink
  · obtain ⟨ts, us, rfl, hqt⟩ := List.eq_append_cons_of_mem hq
    have hpq : q ≠ p := by
      rintro rfl
      exact (List.nodup_cons.1 hnd).1 (by simp)
    have hrev : (q :: (ts.reverse ++ [p])).IsChain g.Linked := by
      have hpre : (p :: ts ++ [q]).IsChain fun a b => g.Linked b a := hchain.prefix ⟨us, by simp⟩
      simpa using List.isChain_reverse.2 hpre
    have hnew : (p :: q :: ts.reverse).Nodup := by
      obtain ⟨hp, hts⟩ := List.nodup_cons.1 hnd
      have hpt : p ∉ ts := fun hm => hp (List.mem_append_left _ hm)
      have hdup : ts.Nodup := hts.sublist (List.sublist_append_left _ _)
      simp [hpq.symm, hpt, hqt, hdup]
    refine ⟨q :: ts.reverse, ts.reverse ++ [p], ?_, hnew, ?_, ?_, ?_⟩
    · intro x hx
      simp only [List.mem_cons, List.mem_reverse, List.mem_append] at hx ⊢
      tauto
    · exact List.isChain_cons_cons.2 ⟨hlink, hrev⟩
    · have hqp : q ∉ (p :: ts).reverse := by simp [hpq, hqt]
      have hclose : closeCycle q ((p :: ts).reverse.reverse ++ q :: us) = _ :=
        closeCycle_append hqp
      simpa using hclose
    · have hrot : (q :: ts.reverse) ++ [p] ~r [p] ++ (q :: ts.reverse) := List.isRotated_append
      exact hrot

theorem exists_cycle (hc : (g.refresh ω).get? p = some c) (hf : c.isFormula = true)
    (hcirc : c.isCircular = true) :
    ∃ q m l, c.outcome = .error (.cycle (q :: (m ++ [q]))) ∧
      (g.refresh ω).cyclePath p = some (p :: (l ++ [p])) ∧ (g.refresh ω).IsCycle p l ∧
      (q :: m) ~r (p :: l) := by
  obtain ⟨⟨p, trail⟩, hv, rfl⟩ := exists_visit hc hf
  obtain ⟨fault, ho, hk⟩ := Cell.isCircular_eq_true.1 hcirc
  obtain ⟨q, hq, hqc, rfl⟩ := exists_closed hv hc ho hk
  have hreads : (g.refresh ω).Reads p q := ⟨c, hc, hqc⟩
  have hreach := reaches_of_mem_trail hv hq
  have hp : ¬(g.refresh ω).Grounded p := fun h =>
    h.not_transGen (TransGen.head'_iff.2 ⟨q, hreads, hreach⟩)
  have hqg : ¬(g.refresh ω).Grounded q := fun h => hp (h.of_reaches hreach)
  obtain ⟨hchain, hall⟩ := linked_trail hv hp
  obtain ⟨l, m, hsub, hnd, hlinks, hclose, hrot⟩ :=
    exists_around hchain (nodup_trail hv) hq (linked_of_mem hv hc hqc hqg)
  refine ⟨q, m, l, ?_, ?_, ⟨hnd, hlinks.imp fun _ _ h => h.reads⟩, hrot⟩
  · rw [ho, hclose]
  · exact cyclePath_of_linked hnd hlinks fun x hx => hall x (hsub hx)

end

/-- A formula that reaches a cycle has a fault. -/
theorem hasFault_of_not_grounded [Engine] {ω : Occasion} {g : Grid} {p : Position} {c : Cell}
    (hc : (g.refresh ω).get? p = some c) (hp : ¬(g.refresh ω).Grounded p) : c.hasFault = true := by
  cases ho : c.outcome with
  | ok v => exact (hp (grounded_refresh hc ho)).elim
  | error fault => simp [Cell.hasFault, Cell.fault?, ho]

end Grid

namespace Fault

theorem cycleMessage_self (q : Position) :
    cycleMessage [q, q] = "Circular reference: " ++ (q.nameText ++ " refers to itself") := by
  unfold cycleMessage
  exact (if_pos rfl).trans (String.append_assoc ..)

theorem message_cycle (q : Position) (m : List Position) :
    (Fault.cycle (q :: (m ++ [q]))).message = "Circular reference: " ++
      (if m = [] then q.nameText ++ " refers to itself" else describeCycle (q :: (m ++ [q]))) := by
  cases m with
  | nil => exact (cycleMessage_self q).trans (congrArg _ (if_pos rfl).symm)
  | cons a m =>
    rw [if_neg (List.cons_ne_nil a m)]
    cases m <;> rfl

end Fault

namespace Document

/-- After a refresh a formula from which a cycle is found, or from which there is a way to a cell
that reaches itself, has a fault. A formula with a fault that speaks of a cycle lies on one: the
search from it finds this cycle, and the message goes around it from one of its cells. -/
theorem refresh_reports_cycles [Engine] (d : Document) (ω : Occasion) :
    (∀ p c, (d.refresh ω).grid.get? p = some c → c.isFormula = true →
      (((d.refresh ω).grid.cyclePath p).isSome = true ∨
        ∃ q, ReflTransGen (d.refresh ω).grid.Reads p q ∧ TransGen (d.refresh ω).grid.Reads q q) →
      c.hasFault = true) ∧
    ∀ p c, (d.refresh ω).grid.get? p = some c → c.isFormula = true → c.isCircular = true →
      ∃ l, (d.refresh ω).grid.cyclePath p = some (p :: (l ++ [p])) ∧
        (d.refresh ω).grid.IsCycle p l ∧
        ∃ q m, (q :: m) ~r (p :: l) ∧ c.outcome = .error (.cycle (q :: (m ++ [q]))) ∧
          (Fault.cycle (q :: (m ++ [q]))).message = "Circular reference: " ++
            (if m = [] then q.nameText ++ " refers to itself"
              else describeCycle (q :: (m ++ [q]))) := by
  constructor
  · rintro p c hc _ hcycle
    refine Grid.hasFault_of_not_grounded hc fun hp => ?_
    rcases hcycle with hfound | ⟨q, hreach, hq⟩
    · have hnone : (d.refresh ω).grid.cyclePath p = none := Grid.cyclePath_of_grounded hp
      rw [hnone] at hfound
      cases hfound
    · exact (hp.of_reaches hreach).not_transGen hq
  · intro p c hc hf hcirc
    obtain ⟨q, m, l, ho, hpath, hcycle, hrot⟩ := Grid.exists_cycle hc hf hcirc
    exact ⟨l, hpath, hcycle, q, m, hrot, ho, Fault.message_cycle q m⟩

section
open scoped StandardLibrary

/-- A row of three formulas, the first of which leads into a cycle of the other two. -/
theorem refresh_reports_cycles_entered : ∃ (d : Document) (b c : Cell) (l : List Position),
    d.grid = Table.ofList [(⟨0, 0⟩, .formula "B1".toList), (⟨0, 1⟩, .formula "C1".toList),
      (⟨0, 2⟩, .formula "B1".toList)] ∧
    (d.refresh .start).grid.get? ⟨0, 0⟩ = some b ∧ b.hasFault = true ∧
    (d.refresh .start).grid.get? ⟨0, 2⟩ = some c ∧
      c.outcome = .error (.cycle [⟨0, 1⟩, ⟨0, 2⟩, ⟨0, 1⟩]) ∧
    (d.refresh .start).grid.cyclePath ⟨0, 2⟩ = some (⟨0, 2⟩ :: (l ++ [⟨0, 2⟩])) ∧
    (d.refresh .start).grid.IsCycle ⟨0, 2⟩ l := by
  obtain ⟨g, hg⟩ : ∃ g : Grid, g = Table.ofList [(⟨0, 0⟩, .formula "B1".toList),
    (⟨0, 1⟩, .formula "C1".toList), (⟨0, 2⟩, .formula "B1".toList)] := ⟨_, rfl⟩
  have hfirst : ((g.refresh .start).get? ⟨0, 0⟩).map Cell.isFormula = some true := by
    rw [hg]
    decide +kernel
  have hfound : ((g.refresh .start).cyclePath ⟨0, 0⟩).isSome = true := by
    rw [hg]
    decide +kernel
  have hlast :
      ((g.refresh .start).get? ⟨0, 2⟩).map (fun c => (c.isFormula, c.isCircular, c.fault?)) =
      some (true, true, some (.cycle [⟨0, 1⟩, ⟨0, 2⟩, ⟨0, 1⟩])) := by
    rw [hg]
    decide +kernel
  obtain ⟨b, hb, hf⟩ := Option.map_eq_some_iff.1 hfirst
  obtain ⟨c, hc, hs⟩ := Option.map_eq_some_iff.1 hlast
  simp only [Prod.mk.injEq] at hs
  obtain ⟨hcf, hcirc, hfault⟩ := hs
  have hcycles := refresh_reports_cycles { new with grid := g } .start
  obtain ⟨l, hl, hcycle, q, m, _, ho, _⟩ := hcycles.2 _ c hc hcf hcirc
  refine ⟨{ new with grid := g }, b, c, l, hg, hb, hcycles.1 _ b hb hf (.inl hfound), hc, ?_, hl,
    hcycle⟩
  rw [Cell.fault?, ho] at hfault
  rw [ho]
  exact congrArg _ (Option.some.inj hfault)

end

end Document

end Spreadsheet

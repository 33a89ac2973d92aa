import Mathlib.Logic.Function.Basic
import Spreadsheet.Table

/-!
# Tables made of lists

A table of entries in rising order holds them as they come. If the keys tell the
entries apart, it holds the same ones whatever their order, so that a table whose
keys are moved by an injective map answers for the moved keys what it answered
before.
-/
namespace Spreadsheet.Table

variable {κ α β : Type} [KeyOrder κ] [DecidableEq κ]

theorem place_append {k : κ} {a : α} {es : List (κ × α)}
    (h : ∀ e ∈ es, KeyOrder.Before e.1 k) : place k a es = es ++ [(k, a)] := by
  induction es with
  | nil => rfl
  | cons e es ih =>
    obtain ⟨hl, hes⟩ := List.forall_mem_cons.1 h
    have hne : e.1 ≠ k := fun he => KeyOrder.irreflexive k (he ▸ hl)
    have hnot : ¬KeyOrder.Before k e.1 :=
      fun hb => KeyOrder.irreflexive k (KeyOrder.transitive hb hl)
    rw [place, if_neg hne, if_neg hnot, ih hes, List.cons_append]

/-- A table of entries in rising order holds them as they come. -/
theorem entries_ofList {es : List (κ × α)} (h : es.Pairwise fun a b => KeyOrder.Before a.1 b.1) :
    (ofList es).entries = es := by
  have hfold : ∀ (t : Table κ α) (es : List (κ × α)),
      (t.entries ++ es).Pairwise (fun a b => KeyOrder.Before a.1 b.1) →
      (es.foldl (fun t e => t.insert e.1 e.2) t).entries = t.entries ++ es := by
    intro t es
    induction es generalizing t with
    | nil => exact fun _ => (List.append_nil _).symm
    | cons e es ih =>
      intro h
      have hlast : (t.insert e.1 e.2).entries = t.entries ++ [e] :=
        place_append fun d hd => (List.pairwise_append.1 h).2.2 d hd e List.mem_cons_self
      have hes := ih (t.insert e.1 e.2) (by rwa [hlast, List.append_assoc])
      rw [List.foldl_cons, hes, hlast, List.append_assoc, List.singleton_append]
  exact hfold empty es h

omit [KeyOrder κ] in
theorem find_map {f : κ → κ} (hf : Function.Injective f) (g : α → β) (k : κ)
    (es : List (κ × α)) :
    find (f k) (es.map fun e => (f e.1, g e.2)) = (find k es).map g := by
  induction es with
  | nil => rfl
  | cons e es ih =>
    rw [List.map_cons, find, find, ih]
    by_cases he : e.1 = k
    · rw [if_pos he, if_pos (congrArg f he), Option.map_some]
    · rw [if_neg he, if_neg fun h => he (hf h)]

theorem isSome_get?_foldl {es : List (κ × α)} {t : Table κ α} {k : κ}
    (h : (∃ a, (k, a) ∈ es) ∨ (t.get? k).isSome = true) :
    ((es.foldl (fun t e => t.insert e.1 e.2) t).get? k).isSome = true := by
  induction es generalizing t with
  | nil => exact h.resolve_left (by simp)
  | cons e es ih =>
    refine ih ?_
    rw [get?_insert]
    split
    · exact .inr rfl
    · rename_i hne
      refine h.imp_left (Exists.imp fun a ha => (List.mem_cons.1 ha).resolve_left fun he => hne ?_)
      rw [← he]

/-- A table of entries that their keys tell apart holds all of them. -/
theorem get?_ofList {es : List (κ × α)}
    (hkeys : ∀ k a b, (k, a) ∈ es → (k, b) ∈ es → a = b) {k : κ} {a : α} :
    (ofList es).get? k = some a ↔ (k, a) ∈ es := by
  refine ⟨mem_of_get?_ofList, fun ha => ?_⟩
  obtain ⟨b, hb⟩ := Option.isSome_iff_exists.1 (isSome_get?_foldl (t := empty) (.inl ⟨a, ha⟩))
  rw [hkeys k a b ha (mem_of_get?_ofList hb)]
  exact hb

/-- The same entries in another order make the same table. -/
theorem ofList_congr {es fs : List (κ × α)} (hmem : ∀ e, e ∈ fs ↔ e ∈ es)
    (hkeys : ∀ k a b, (k, a) ∈ es → (k, b) ∈ es → a = b) : ofList fs = ofList es := by
  refine ext_get? fun k => Option.ext fun a => ?_
  rw [get?_ofList hkeys, get?_ofList fun k a b ha hb =>
    hkeys k a b ((hmem _).1 ha) ((hmem _).1 hb)]
  exact hmem (k, a)

/-- Lists in rising order that hold the same entries are the same. -/
theorem eq_of_mem_iff {es fs : List (κ × α)}
    (hes : es.Pairwise fun a b => KeyOrder.Before a.1 b.1)
    (hfs : fs.Pairwise fun a b => KeyOrder.Before a.1 b.1) (hmem : ∀ e, e ∈ es ↔ e ∈ fs) :
    es = fs := by
  refine congrArg entries (ext_get? (t := ⟨es, hes⟩) (u := ⟨fs, hfs⟩) fun k => ?_)
  refine Option.ext fun a => ?_
  rw [← mem_entries_iff, ← mem_entries_iff]
  exact hmem (k, a)

theorem ofList_entries (t : Table κ α) : ofList t.entries = t :=
  ext_get? fun k => congrArg (find k) (entries_ofList t.sorted)

theorem erase_of_get?_eq_none {t : Table κ α} {k : κ} (h : t.get? k = none) : t.erase k = t := by
  refine ext_get? fun l => ?_
  rw [get?_erase]
  split
  · rename_i he
    rw [← he, h]
  · rfl

/-- The table with every value mapped. -/
def map (f : α → β) (t : Table κ α) : Table κ β :=
  ⟨t.entries.map fun e => (e.1, f e.2), List.pairwise_map.2 t.sorted⟩

@[simp] theorem get?_map (f : α → β) (t : Table κ α) (k : κ) :
    (t.map f).get? k = (t.get? k).map f :=
  find_map Function.injective_id f k t.entries

/-- Tables that answer alike up to a map have the same entries up to it. -/
theorem map_entries_congr {t u : Table κ α} {f : α → β}
    (h : ∀ k, (t.get? k).map f = (u.get? k).map f) :
    (t.entries.map fun e => (e.1, f e.2)) = u.entries.map fun e => (e.1, f e.2) :=
  congrArg entries (ext_get? (t := t.map f) (u := u.map f) fun k => by rw [get?_map, get?_map, h])

/-! ## Tables whose keys are moved -/

section
variable {move : κ → Option κ} {f : α → β}
  (hmove : ∀ {k l m}, move k = some m → move l = some m → k = l) (t : Table κ α)
include hmove

/-- The entries with the keys that are moved somewhere. -/
theorem get?_moved {k m : κ} (hk : move k = some m) :
    (ofList (t.entries.filterMap fun e => (move e.1).map fun l => (l, f e.2))).get? m =
      (t.get? k).map f := by
  have hmem : ∀ l b, (l, b) ∈ t.entries.filterMap (fun e => (move e.1).map fun l => (l, f e.2)) ↔
      ∃ k a, move k = some l ∧ t.get? k = some a ∧ f a = b := by
    intro l b
    simp only [List.mem_filterMap, Prod.exists, mem_entries_iff, Option.map_eq_some_iff,
      Prod.mk.injEq]
    constructor
    · rintro ⟨k, a, ha, _, hm, rfl, rfl⟩
      exact ⟨k, a, hm, ha, rfl⟩
    · rintro ⟨k, a, hm, ha, rfl⟩
      exact ⟨k, a, ha, l, hm, rfl, rfl⟩
  have hkeys : ∀ l a b,
      (l, a) ∈ t.entries.filterMap (fun e => (move e.1).map fun l => (l, f e.2)) →
      (l, b) ∈ t.entries.filterMap (fun e => (move e.1).map fun l => (l, f e.2)) → a = b := by
    intro l a b ha hb
    obtain ⟨k, c, hkl, hc, rfl⟩ := (hmem l a).1 ha
    obtain ⟨k', c', hkl', hc', rfl⟩ := (hmem l b).1 hb
    cases hmove hkl hkl'
    cases hc.symm.trans hc'
    rfl
  refine Option.ext fun b => ?_
  rw [get?_ofList hkeys, hmem, Option.map_eq_some_iff]
  constructor
  · rintro ⟨l, a, hl, ha, rfl⟩
    cases hmove hk hl
    exact ⟨a, ha, rfl⟩
  · rintro ⟨a, ha, rfl⟩
    exact ⟨k, a, hk, ha, rfl⟩

omit hmove in
theorem get?_moved_of_none {m : κ} (hm : ∀ k, move k ≠ some m) :
    (ofList (t.entries.filterMap fun e => (move e.1).map fun l => (l, f e.2))).get? m = none := by
  refine Option.eq_none_iff_forall_ne_some.2 fun b hb => ?_
  obtain ⟨e, _, he⟩ := List.mem_filterMap.1 (mem_of_get?_ofList hb)
  obtain ⟨l, hl, he⟩ := Option.map_eq_some_iff.1 he
  cases he
  exact hm e.1 hl

end

end Spreadsheet.Table

/-!
# Tables in the order of their keys

A table holds at most one entry for a key, in rising order of the keys. So two
tables with the same entries are the same table, whatever order the entries came
in, and listing a table needs no sorting.
-/
namespace Spreadsheet

/-- A decidable strict order in which any two different keys can be compared. -/
class KeyOrder (κ : Type) where
  Before : κ → κ → Prop
  decidable : DecidableRel Before
  irreflexive (a : κ) : ¬Before a a
  transitive {a b c : κ} : Before a b → Before b c → Before a c
  connected (a b : κ) : Before a b ∨ a = b ∨ Before b a

instance {κ : Type} [KeyOrder κ] (a b : κ) : Decidable (KeyOrder.Before a b) :=
  KeyOrder.decidable a b

instance : KeyOrder UInt64 where
  Before a b := a < b
  decidable a b := inferInstanceAs (Decidable (a < b))
  irreflexive := UInt64.lt_irrefl
  transitive := UInt64.lt_trans
  connected a b := by
    rw [UInt64.lt_iff_toNat_lt, UInt64.lt_iff_toNat_lt, ← UInt64.toNat_inj]
    omega

/-- Entries in rising order of their keys. -/
structure Table (κ α : Type) [KeyOrder κ] where
  entries : List (κ × α)
  sorted : entries.Pairwise fun a b => KeyOrder.Before a.1 b.1

namespace Table

variable {κ α : Type} [KeyOrder κ]

def empty : Table κ α := ⟨[], .nil⟩

instance : Inhabited (Table κ α) := ⟨empty⟩

def size (t : Table κ α) : Nat := t.entries.length

def keys (t : Table κ α) : List κ := t.entries.map Prod.fst

def find [DecidableEq κ] (k : κ) : List (κ × α) → Option α
  | [] => none
  | (l, a) :: rest => if l = k then some a else find k rest

def get? [DecidableEq κ] (t : Table κ α) (k : κ) : Option α := find k t.entries

def contains [DecidableEq κ] (t : Table κ α) (k : κ) : Bool := (t.get? k).isSome

/-- Puts an entry in its place among sorted entries, over an entry of the same key. -/
def place [DecidableEq κ] (k : κ) (a : α) : List (κ × α) → List (κ × α)
  | [] => [(k, a)]
  | (l, b) :: rest =>
    if l = k then (k, a) :: rest
    else if KeyOrder.Before k l then (k, a) :: (l, b) :: rest
    else (l, b) :: place k a rest

theorem mem_place [DecidableEq κ] {k : κ} {a : α} {e : κ × α} {es : List (κ × α)}
    (h : e ∈ place k a es) : e = (k, a) ∨ e ∈ es := by
  induction es with
  | nil => exact .inl (List.mem_singleton.1 h)
  | cons d es ih =>
    obtain ⟨l, b⟩ := d
    rw [place] at h
    split at h
    · rcases List.mem_cons.1 h with h | h
      · exact .inl h
      · exact .inr (List.mem_cons_of_mem _ h)
    · split at h
      · exact (List.mem_cons.1 h)
      · rcases List.mem_cons.1 h with h | h
        · exact .inr (h ▸ List.mem_cons_self)
        · exact (ih h).imp_right (List.mem_cons_of_mem _)

theorem place_sorted [DecidableEq κ] (k : κ) (a : α) {es : List (κ × α)}
    (h : es.Pairwise fun a b => KeyOrder.Before a.1 b.1) :
    (place k a es).Pairwise fun a b => KeyOrder.Before a.1 b.1 := by
  induction es with
  | nil => exact List.pairwise_singleton _ _
  | cons d es ih =>
    obtain ⟨l, b⟩ := d
    obtain ⟨hl, hes⟩ := List.pairwise_cons.1 h
    rw [place]
    split
    · rename_i he
      exact List.pairwise_cons.2 ⟨fun e he' => he ▸ hl e he', hes⟩
    · rename_i hne
      split
      · rename_i hb
        refine List.pairwise_cons.2 ⟨fun e he => ?_, h⟩
        rcases List.mem_cons.1 he with rfl | he
        · exact hb
        · exact KeyOrder.transitive hb (hl e he)
      · rename_i hb
        refine List.pairwise_cons.2 ⟨fun e he => ?_, ih hes⟩
        rcases mem_place he with rfl | he
        · exact ((KeyOrder.connected l k).resolve_right fun h => h.elim hne hb)
        · exact hl e he

def insert [DecidableEq κ] (t : Table κ α) (k : κ) (a : α) : Table κ α :=
  ⟨place k a t.entries, place_sorted k a t.sorted⟩

/-- The entries whose key and value pass a test. -/
def filter (t : Table κ α) (p : κ → α → Bool) : Table κ α :=
  ⟨t.entries.filter fun e => p e.1 e.2, t.sorted.filter _⟩

def erase [DecidableEq κ] (t : Table κ α) (k : κ) : Table κ α := t.filter fun l _ => l != k

/-- A table of entries; of two with the same key the later one stays. -/
def ofList [DecidableEq κ] (es : List (κ × α)) : Table κ α :=
  es.foldl (fun t e => t.insert e.1 e.2) empty

variable [DecidableEq κ]

@[simp] theorem get?_empty (k : κ) : (empty : Table κ α).get? k = none := rfl

theorem find_place (k l : κ) (a : α) (es : List (κ × α)) :
    find l (place k a es) = if k = l then some a else find l es := by
  induction es with
  | nil => simp [place, find]
  | cons d es ih =>
    obtain ⟨m, b⟩ := d
    rw [place]
    split
    · rename_i he
      subst he
      by_cases h : m = l <;> simp [find, h]
    · split
      · by_cases h : k = l <;> simp [find, h]
      · rename_i hne _
        rw [find, ih]
        by_cases h : m = l
        · subst h
          simp [find, Ne.symm hne]
        · simp [find, h]

@[simp] theorem get?_insert (t : Table κ α) (k l : κ) (a : α) :
    (t.insert k a).get? l = if k = l then some a else t.get? l :=
  find_place k l a t.entries

/-- A key is not among entries that all come after it. -/
theorem find_eq_none_of_before {k : κ} {es : List (κ × α)}
    (h : ∀ e ∈ es, KeyOrder.Before k e.1) : find k es = none := by
  induction es with
  | nil => rfl
  | cons d es ih =>
    obtain ⟨l, b⟩ := d
    have hl : l ≠ k := fun he =>
      KeyOrder.irreflexive k (by simpa [he] using h (l, b) List.mem_cons_self)
    rw [find, if_neg hl]
    exact ih fun e he => h e (List.mem_cons_of_mem _ he)

omit [KeyOrder κ] in
theorem mem_of_find {k : κ} {a : α} {es : List (κ × α)} (h : find k es = some a) :
    (k, a) ∈ es := by
  induction es with
  | nil => cases h
  | cons d es ih =>
    obtain ⟨l, b⟩ := d
    rw [find] at h
    split at h
    · rename_i he
      cases h
      exact he ▸ List.mem_cons_self
    · exact List.mem_cons_of_mem _ (ih h)

theorem find_of_mem {k : κ} {a : α} {es : List (κ × α)}
    (hs : es.Pairwise fun a b => KeyOrder.Before a.1 b.1) (h : (k, a) ∈ es) :
    find k es = some a := by
  induction es with
  | nil => cases h
  | cons d es ih =>
    obtain ⟨l, b⟩ := d
    obtain ⟨hl, hes⟩ := List.pairwise_cons.1 hs
    rcases List.mem_cons.1 h with h | h
    · cases h
      rw [find, if_pos rfl]
    · have hne : l ≠ k := fun he =>
        KeyOrder.irreflexive k (by simpa [he] using hl (k, a) h)
      rw [find, if_neg hne]
      exact ih hes h

/-- The entries of a table are what it answers. -/
theorem mem_entries_iff (t : Table κ α) (k : κ) (a : α) :
    (k, a) ∈ t.entries ↔ t.get? k = some a :=
  ⟨find_of_mem t.sorted, mem_of_find⟩

theorem mem_keys_iff (t : Table κ α) (k : κ) : k ∈ t.keys ↔ ∃ a, t.get? k = some a := by
  simp [keys, ← mem_entries_iff]

theorem get?_filter (t : Table κ α) (p : κ → α → Bool) (k : κ) :
    (t.filter p).get? k = (t.get? k).filter (p k) := by
  apply Option.ext
  intro a
  rw [Option.filter_eq_some_iff, ← mem_entries_iff, ← mem_entries_iff]
  simp [filter]

@[simp] theorem get?_erase (t : Table κ α) (k l : κ) :
    (t.erase k).get? l = if k = l then none else t.get? l := by
  rw [erase, get?_filter]
  by_cases h : k = l
  · subst h
    simp
  · have hlk : (l != k) = true := bne_iff_ne.2 (Ne.symm h)
    cases t.get? l <;> simp [h, hlk]

theorem mem_of_get?_foldl {es : List (κ × α)} {t : Table κ α} {k : κ} {a : α}
    (h : (es.foldl (fun t e => t.insert e.1 e.2) t).get? k = some a) :
    (k, a) ∈ es ∨ t.get? k = some a := by
  induction es generalizing t with
  | nil => exact .inr h
  | cons e es ih =>
    rcases ih h with h | h
    · exact .inl (List.mem_cons_of_mem _ h)
    · rw [get?_insert] at h
      split at h
      · rename_i he
        cases h
        exact .inl (he ▸ List.mem_cons_self)
      · exact .inr h

theorem mem_of_get?_ofList {es : List (κ × α)} {k : κ} {a : α}
    (h : (ofList es).get? k = some a) : (k, a) ∈ es := by
  rcases mem_of_get?_foldl h with h | h
  · exact h
  · cases h

/-- Tables that answer alike are equal. -/
theorem ext_get? {t u : Table κ α} (h : ∀ k, t.get? k = u.get? k) : t = u := by
  obtain ⟨es, hes⟩ := t
  obtain ⟨fs, hfs⟩ := u
  suffices es = fs by subst this; rfl
  simp only [get?] at h
  induction es generalizing fs with
  | nil =>
    cases fs with
    | nil => rfl
    | cons d fs =>
      have := h d.1
      simp [find] at this
  | cons d es ih =>
    cases fs with
    | nil =>
      have := h d.1
      simp [find] at this
    | cons e fs =>
      obtain ⟨hd, hes'⟩ := List.pairwise_cons.1 hes
      obtain ⟨he, hfs'⟩ := List.pairwise_cons.1 hfs
      obtain ⟨k, a⟩ := d
      obtain ⟨l, b⟩ := e
      have hkl : k = l := by
        rcases KeyOrder.connected k l with hb | hkl | hb
        · have hn : find k ((l, b) :: fs) = none :=
            find_eq_none_of_before fun e hm => by
              rcases List.mem_cons.1 hm with rfl | hm
              · exact hb
              · exact KeyOrder.transitive hb (he e hm)
          have := h k
          rw [hn] at this
          simp [find] at this
        · exact hkl
        · have hn : find l ((k, a) :: es) = none :=
            find_eq_none_of_before fun e hm => by
              rcases List.mem_cons.1 hm with rfl | hm
              · exact hb
              · exact KeyOrder.transitive hb (hd e hm)
          have := h l
          rw [hn] at this
          simp [find] at this
      subst hkl
      have hab : a = b := by
        have := h k
        simpa [find] using this
      subst hab
      rw [ih hes' fs hfs' fun m => ?_]
      by_cases hm : k = m
      · subst hm
        rw [find_eq_none_of_before hd, find_eq_none_of_before he]
      · have := h m
        simpa [find, hm] using this

end Table

end Spreadsheet

import Spreadsheet.Expression.Simplification

/-!
# The names in an expression

What simplification leaves of an expression has no other names than what it was
given. The trees of an expression hold lists of trees, of fields and of links;
one principle of induction gives the hypothesis for every tree that such a list
holds.
-/
namespace Spreadsheet

/-- The operands of a link. -/
def Link.operands {α : Type} : Link α → List α
  | property _ _ => []
  | method _ _ arguments => arguments
  | element _ index => [index]

/-- A link with other operands in the place of its own. -/
def Link.map {α β : Type} (f : α → β) : Link α → Link β
  | property b name => property b name
  | method b name arguments => method b name (arguments.map f)
  | element b index => element b (f index)

@[simp] theorem Link.operands_map {α β : Type} (f : α → β) (link : Link α) :
    (link.map f).operands = link.operands.map f := by
  cases link <;> rfl

namespace Tree

@[elab_as_elim]
theorem inductionOn {P : Tree → Prop} (t : Tree)
    (constant : ∀ d, P (constant d)) (named : ∀ name, P (named name))
    (qualified : ∀ path name, P (qualified path name))
    (template : ∀ parts, (∀ t ∈ parts, P t) → P (template parts))
    (list : ∀ items, (∀ t ∈ items, P t) → P (list items))
    (record : ∀ fields, (∀ field ∈ fields, P field.2) → P (record fields))
    (call : ∀ b name arguments, (∀ t ∈ arguments, P t) → P (call b name arguments))
    (qualifiedCall : ∀ path name arguments, (∀ t ∈ arguments, P t) →
      P (qualifiedCall path name arguments))
    (sign : ∀ s t, P t → P (sign s t))
    (binary : ∀ op l r, P l → P r → P (binary op l r))
    (junction : ∀ j operands, (∀ t ∈ operands, P t) → P (junction j operands))
    (chain : ∀ base links, P base → (∀ link ∈ links, ∀ t ∈ link.operands, P t) →
      P (chain base links))
    (choice : ∀ c yes no, P c → P yes → P no → P (choice c yes no))
    (function : ∀ captured, P (function captured)) : P t :=
  Tree.rec (motive_1 := P) (motive_2 := fun ts => ∀ t ∈ ts, P t)
    (motive_3 := fun fields => ∀ field ∈ fields, P field.2)
    (motive_4 := fun links => ∀ link ∈ links, ∀ t ∈ link.operands, P t)
    (motive_5 := fun field => P field.2) (motive_6 := fun link => ∀ t ∈ link.operands, P t)
    constant named qualified template list record call qualifiedCall sign binary junction chain
    choice function (List.forall_mem_nil _) (fun _ _ h hs => List.forall_mem_cons.2 ⟨h, hs⟩)
    (List.forall_mem_nil _) (fun _ _ h hs => List.forall_mem_cons.2 ⟨h, hs⟩)
    (List.forall_mem_nil _) (fun _ _ h hs => List.forall_mem_cons.2 ⟨h, hs⟩) (fun _ _ h => h)
    (fun _ _ => List.forall_mem_nil _) (fun _ _ _ h => h)
    (fun _ _ h => List.forall_mem_singleton.2 h) t

/-! ## The names of parts -/

attribute [local simp] names

@[simp] theorem namesAll_eq (ts : List Tree) : names.namesAll ts = ts.flatMap names := by
  induction ts with
  | nil => rfl
  | cons t ts ih => rw [names.namesAll, ih, List.flatMap_cons]

@[simp] theorem namesFields_eq (fields : List (String × Tree)) :
    names.namesFields fields = fields.flatMap fun field => field.2.names := by
  induction fields with
  | nil => rfl
  | cons field fields ih => rw [names.namesFields, ih, List.flatMap_cons]

@[simp] theorem namesLinks_eq (links : List (Link Tree)) :
    names.namesLinks links = links.flatMap fun link => link.operands.flatMap names := by
  induction links with
  | nil => rfl
  | cons link links ih =>
    cases link <;> simp [names.namesLinks, ih, Link.operands]

/-! ## What simplification leaves -/

@[simp] theorem simplifyAll_eq (ts : List Tree) : simplify.simplifyAll ts = ts.map simplify := by
  induction ts with
  | nil => rfl
  | cons t ts ih => rw [simplify.simplifyAll, ih, List.map_cons]

@[simp] theorem simplifyFields_eq (fields : List (String × Tree)) :
    simplify.simplifyFields fields = fields.map fun field => (field.1, field.2.simplify) := by
  induction fields with
  | nil => rfl
  | cons field fields ih => rw [simplify.simplifyFields, ih, List.map_cons]

@[simp] theorem simplifyLinks_eq (links : List (Link Tree)) :
    simplify.simplifyLinks links = links.map (Link.map simplify) := by
  induction links with
  | nil => rfl
  | cons link links ih =>
    cases link <;> simp [simplify.simplifyLinks, ih, Link.map]

theorem reduce_subset (j : Junction) (ts : List Tree) : j.reduce ts ⊆ ts := by
  induction ts with
  | nil => exact List.Subset.refl _
  | cons t ts ih =>
    unfold Junction.reduce
    split
    · cases ‹_ = []›
    · rename_i heq
      cases heq
      split
      · exact List.subset_cons_of_subset _ ih
      · split
        · simp
        · exact List.cons_subset_cons _ ih
    · rename_i heq
      cases heq
      exact List.cons_subset_cons _ ih

theorem names_foldTemplate (parts : List Tree) :
    (foldTemplate parts).names ⊆ parts.flatMap names := by
  unfold foldTemplate
  split
  · exact List.nil_subset _
  · rw [names, namesAll_eq]
    exact List.Subset.refl _

theorem names_foldSign (s : Sign) (t : Tree) : (foldSign s t).names ⊆ t.names := by
  unfold foldSign
  split
  · split <;> exact List.nil_subset _
  · exact List.Subset.refl _

theorem names_foldBinary (op : Operator) (left right : Tree) :
    (foldBinary op left right).names ⊆ left.names ++ right.names := by
  unfold foldBinary
  split
  · split
    · split <;> exact List.nil_subset _
    · exact List.nil_subset _
  · exact List.Subset.refl _

theorem names_foldJunction (j : Junction) (ts : List Tree) :
    (foldJunction j ts).names ⊆ ts.flatMap names := by
  have hsub : (j.reduce ts).flatMap names ⊆ ts.flatMap names := by
    intro n hn
    obtain ⟨t, ht, hn⟩ := List.mem_flatMap.1 hn
    exact List.mem_flatMap.2 ⟨t, reduce_subset j ts ht, hn⟩
  unfold foldJunction
  split
  · exact List.nil_subset _
  · rename_i t ht
    rw [ht] at hsub
    simpa using hsub
  · rw [names, namesAll_eq]
    exact hsub

theorem names_foldChoice (c yes no : Tree) :
    (foldChoice c yes no).names ⊆ c.names ++ yes.names ++ no.names := by
  unfold foldChoice
  split
  · split <;> simp [names]
  · exact List.Subset.refl _

theorem names_writtenField (fields : List (String × Tree)) (name : String) :
    (writtenField fields name).names ⊆ fields.flatMap fun field => field.2.names := by
  unfold writtenField
  cases hf : fields.lookup name with
  | none => exact List.nil_subset _
  | some t =>
    have hmem : (name, t) ∈ fields := by
      induction fields with
      | nil => cases hf
      | cons field fields ih =>
        rw [List.lookup_cons] at hf
        split at hf
        · rename_i heq
          cases hf
          rw [beq_iff_eq.1 heq]
          exact List.mem_cons_self
        · exact List.mem_cons_of_mem _ (ih hf)
    exact fun n hn => List.mem_flatMap.2 ⟨_, hmem, hn⟩

theorem names_foldChain (base : Tree) (links : List (Link Tree)) : (foldChain base links).names ⊆
    base.names ++ links.flatMap fun link => link.operands.flatMap names := by
  unfold foldChain
  split
  case h_5 =>
    rw [names, namesLinks_eq]
    exact List.Subset.refl _
  · split
    · exact List.Subset.trans (names_writtenField _ _)
        (List.subset_append_of_subset_left _ (by simp [names]))
    · simp [names]
  · split
    · exact List.Subset.trans (names_writtenField _ _)
        (List.subset_append_of_subset_left _ (by simp [names]))
    · simp [names]
  · rename_i items n
    split
    · rename_i t ht
      split
      · obtain ⟨i, _, hi⟩ := Option.bind_eq_some_iff.1 ht
        intro m hm
        rw [names, namesAll_eq, List.mem_append]
        exact .inl (List.mem_flatMap.2 ⟨t, List.mem_of_getElem? hi, hm⟩)
      · simp [names]
    · simp [names]
  · split
    · exact List.nil_subset _
    · simp [names]

/-- A part that has no more names than before makes the whole have no more. -/
theorem flatMap_names_subset {α : Type} {xs : List α} {f g : α → List String}
    (h : ∀ x ∈ xs, f x ⊆ g x) : xs.flatMap f ⊆ xs.flatMap g := by
  intro n hn
  obtain ⟨x, hx, hn⟩ := List.mem_flatMap.1 hn
  exact List.mem_flatMap.2 ⟨x, hx, h x hx hn⟩

/-- Simplification brings no name into an expression. -/
theorem names_simplify (t : Tree) : t.simplify.names ⊆ t.names := by
  induction t using inductionOn with
  | constant d => exact List.Subset.refl _
  | named name => exact List.Subset.refl _
  | qualified path name => exact List.Subset.refl _
  | function captured => exact List.Subset.refl _
  | template parts ih =>
    refine List.Subset.trans (names_foldTemplate _) ?_
    rw [simplifyAll_eq, List.flatMap_map, names, namesAll_eq]
    exact flatMap_names_subset ih
  | list items ih =>
    rw [simplify, simplifyAll_eq, names, names, namesAll_eq, namesAll_eq, List.flatMap_map]
    exact flatMap_names_subset ih
  | record fields ih =>
    rw [simplify, simplifyFields_eq, names, names, namesFields_eq, namesFields_eq,
      List.flatMap_map]
    exact flatMap_names_subset ih
  | call isOrdered name arguments ih =>
    rw [simplify, simplifyAll_eq, names, names, namesAll_eq, namesAll_eq, List.flatMap_map]
    exact flatMap_names_subset ih
  | qualifiedCall path name arguments ih =>
    rw [simplify, simplifyAll_eq, names, names, namesAll_eq, namesAll_eq, List.flatMap_map]
    exact flatMap_names_subset ih
  | sign s operand ih => exact List.Subset.trans (names_foldSign s _) ih
  | binary op left right ihl ihr =>
    exact List.Subset.trans (names_foldBinary op _ _)
      (List.append_subset.2 ⟨List.subset_append_of_subset_left _ ihl,
        List.subset_append_of_subset_right _ ihr⟩)
  | junction j operands ih =>
    refine List.Subset.trans (names_foldJunction j _) ?_
    rw [simplifyAll_eq, List.flatMap_map, names, namesAll_eq]
    exact flatMap_names_subset ih
  | chain base links ihbase ihlinks =>
    refine List.Subset.trans (names_foldChain _ _) ?_
    rw [simplifyLinks_eq, List.flatMap_map, names, namesLinks_eq]
    refine List.append_subset.2 ⟨List.subset_append_of_subset_left _ ihbase,
      List.subset_append_of_subset_right _ (flatMap_names_subset fun link hlink => ?_)⟩
    rw [Link.operands_map, List.flatMap_map]
    exact flatMap_names_subset (ihlinks link hlink)
  | choice condition yes no ihc ihy ihn =>
    refine List.Subset.trans (names_foldChoice _ _ _) ?_
    rw [names]
    intro n hn
    simp only [List.mem_append] at hn ⊢
    rcases hn with (hn | hn) | hn
    · exact .inl (.inl (ihc hn))
    · exact .inl (.inr (ihy hn))
    · exact .inr (ihn hn)

end Tree
end Spreadsheet

import Mathlib.Data.List.Basic
import Mathlib.Data.List.Find
import Spreadsheet.Proofs.Expression.Names

/-!
# Other names for what an expression asks for

The names of an expression are exchanged for others, each for its own. The
functions that it calls may get other names as well; properties, fields and
names of modules stay. Simplification does not look at names.
-/
namespace Spreadsheet

namespace Tree

/-- An expression with other names for its operands and for the functions that it calls. -/
def rename (f g : String → String) : Tree → Tree
  | constant d => constant d
  | named name => named (f name)
  | qualified path name => qualified path (if path.isEmpty then f name else name)
  | template parts => template (renameAll f g parts)
  | list items => list (renameAll f g items)
  | record fields => record (renameFields f g fields)
  | call isOrdered name arguments => call isOrdered (g name) (renameAll f g arguments)
  | qualifiedCall path name arguments => qualifiedCall path name (renameAll f g arguments)
  | sign s operand => sign s (rename f g operand)
  | binary op left right => binary op (rename f g left) (rename f g right)
  | junction j operands => junction j (renameAll f g operands)
  | chain base links => chain (rename f g base) (renameLinks f g links)
  | choice condition yes no => choice (rename f g condition) (rename f g yes) (rename f g no)
  | function captured => function (captured.map f)
where
  renameAll (f g : String → String) : List Tree → List Tree
    | [] => []
    | t :: ts => rename f g t :: renameAll f g ts
  renameFields (f g : String → String) : List (String × Tree) → List (String × Tree)
    | [] => []
    | (name, t) :: fields => (name, rename f g t) :: renameFields f g fields
  renameLinks (f g : String → String) : List (Link Tree) → List (Link Tree)
    | [] => []
    | .property b name :: links => .property b name :: renameLinks f g links
    | .method b name arguments :: links =>
      .method b (g name) (renameAll f g arguments) :: renameLinks f g links
    | .element b index :: links => .element b (rename f g index) :: renameLinks f g links

/-- A link with other names in it. -/
def renameLink (f g : String → String) : Link Tree → Link Tree
  | .property b name => .property b name
  | .method b name arguments => .method b (g name) (arguments.map (rename f g))
  | .element b index => .element b (rename f g index)

/-- Fields with other names in what they hold. -/
def renameField (f g : String → String) (field : String × Tree) : String × Tree :=
  (field.1, field.2.rename f g)

section
variable {f g : String → String}

attribute [local simp] rename

@[simp] theorem renameAll_eq (ts : List Tree) :
    rename.renameAll f g ts = ts.map (rename f g) := by
  induction ts with
  | nil => rfl
  | cons t ts ih => rw [rename.renameAll, ih, List.map_cons]

@[simp] theorem renameFields_eq (fields : List (String × Tree)) :
    rename.renameFields f g fields = fields.map (renameField f g) := by
  induction fields with
  | nil => rfl
  | cons field fields ih => rw [rename.renameFields, ih, List.map_cons, renameField]

@[simp] theorem renameLinks_eq (links : List (Link Tree)) :
    rename.renameLinks f g links = links.map (renameLink f g) := by
  induction links with
  | nil => rfl
  | cons link links ih => cases link <;> simp [rename.renameLinks, ih, renameLink]

@[simp] theorem operands_renameLink (link : Link Tree) :
    (renameLink f g link).operands = link.operands.map (rename f g) := by
  cases link <;> rfl

@[simp] theorem isNamed_rename (t : Tree) : (t.rename f g).isNamed = t.isNamed := by
  cases t <;> rfl

theorem names_rename (hf : ∀ n, ':' ∈ n.toList → f n = n) (t : Tree) :
    (t.rename f g).names = t.names.map f := by
  have hall : ∀ ts : List Tree, (∀ t ∈ ts, (t.rename f g).names = t.names.map f) →
      (ts.map (rename f g)).flatMap names = (ts.flatMap names).map f := by
    intro ts ih
    rw [List.flatMap_map, List.map_flatMap]
    exact List.flatMap_congr fun t ht => ih t ht
  induction t using inductionOn with
  | constant d => rfl
  | named name => rfl
  | qualified path name =>
    cases path with
    | nil => rfl
    | cons part path =>
      have hcolon : ':' ∈ (qualifiedName (part :: path) name).toList := by simp [qualifiedName]
      simp [rename, names, hf _ hcolon]
  | template parts ih => simpa [rename, names] using hall parts ih
  | list items ih => simpa [rename, names] using hall items ih
  | record fields ih =>
    rw [rename, renameFields_eq, names, namesFields_eq, names, namesFields_eq, List.flatMap_map,
      List.map_flatMap]
    exact List.flatMap_congr fun field hfield => ih field hfield
  | call b name arguments ih => simpa [rename, names] using hall arguments ih
  | qualifiedCall path name arguments ih => simpa [rename, names] using hall arguments ih
  | sign s operand ih => exact ih
  | binary op left right ihl ihr => rw [rename, names, names, ihl, ihr, List.map_append]
  | junction j operands ih => simpa [rename, names] using hall operands ih
  | chain base links ihbase ihlinks =>
    rw [rename, renameLinks_eq, names, namesLinks_eq, names, namesLinks_eq, ihbase,
      List.flatMap_map, List.map_append, List.map_flatMap]
    congr 1
    refine List.flatMap_congr fun link hlink => ?_
    rw [operands_renameLink, hall _ (ihlinks link hlink)]
  | choice c yes no ihc ihy ihn =>
    rw [rename, names, names, ihc, ihy, ihn, List.map_append, List.map_append]
  | function captured => rfl

end

/-! ## Simplification -/

section
variable {f g : String → String}

@[simp] theorem isPure_rename (t : Tree) : (t.rename f g).isPure = t.isPure := by
  have hall : ∀ ts : List Tree, (∀ t ∈ ts, (t.rename f g).isPure = t.isPure) →
      isPure.isPureAll (ts.map (rename f g)) = isPure.isPureAll ts := by
    intro ts ih
    induction ts with
    | nil => rfl
    | cons t ts ih' =>
      obtain ⟨ht, hts⟩ := List.forall_mem_cons.1 ih
      rw [List.map_cons, isPure.isPureAll, isPure.isPureAll, ht, ih' hts]
  induction t using inductionOn with
  | template parts ih => simpa [rename, isPure] using hall parts ih
  | list items ih => simpa [rename, isPure] using hall items ih
  | record fields ih =>
    rw [rename, renameFields_eq, isPure, isPure]
    induction fields with
    | nil => rfl
    | cons field fields ih' =>
      obtain ⟨hfield, hfields⟩ := List.forall_mem_cons.1 ih
      rw [List.map_cons, renameField, isPure.isPureFields, isPure.isPureFields, hfield, ih' hfields]
  | junction j operands ih => simpa [rename, isPure] using hall operands ih
  | choice c yes no ihc ihy ihn => rw [rename, isPure, isPure, ihc, ihy, ihn]
  | _ => rfl

@[simp] theorem constant?_rename (t : Tree) : (t.rename f g).constant? = t.constant? := by
  cases t <;> rfl

theorem foldTemplate_rename (parts : List Tree) :
    foldTemplate (parts.map (rename f g)) = (foldTemplate parts).rename f g := by
  have hparts : (parts.map (rename f g)).mapM constant? = parts.mapM constant? := by
    induction parts with
    | nil => rfl
    | cons t ts ih => rw [List.map_cons, List.mapM_cons, List.mapM_cons, constant?_rename, ih]
  unfold foldTemplate
  rw [hparts]
  split
  · rfl
  · rw [rename, renameAll_eq]

theorem foldSign_rename (s : Sign) (t : Tree) :
    foldSign s (t.rename f g) = (foldSign s t).rename f g := by
  cases t with
  | constant d =>
    simp only [rename, foldSign]
    split <;> rfl
  | _ => rfl

theorem foldBinary_rename (op : Operator) (l r : Tree) :
    foldBinary op (l.rename f g) (r.rename f g) = (foldBinary op l r).rename f g := by
  cases l with
  | constant a =>
    cases r with
    | constant b =>
      simp only [rename, foldBinary]
      split
      · split <;> rfl
      · rfl
    | _ => rfl
  | _ => rfl

theorem reduce_rename (j : Junction) (ts : List Tree) :
    j.reduce (ts.map (rename f g)) = (j.reduce ts).map (rename f g) := by
  induction ts with
  | nil => rfl
  | cons t ts ih =>
    cases t with
    | constant d =>
      simp only [List.map_cons, rename, Junction.reduce]
      split
      · exact ih
      · split
        · rfl
        · rw [ih, List.map_cons, rename]
    | _ => simp only [List.map_cons, rename, Junction.reduce, ih]

theorem foldJunction_rename (j : Junction) (ts : List Tree) :
    foldJunction j (ts.map (rename f g)) = (foldJunction j ts).rename f g := by
  unfold foldJunction
  rw [reduce_rename]
  match j.reduce ts with
  | [] => rfl
  | [t] => rfl
  | t :: u :: ts => simp [rename]

theorem foldChoice_rename (c yes no : Tree) :
    foldChoice (c.rename f g) (yes.rename f g) (no.rename f g) =
      (foldChoice c yes no).rename f g := by
  cases c with
  | constant d =>
    cases d with
    | truth p => cases p <;> rfl
    | _ => rfl
  | _ => rfl

theorem writtenField_rename (fields : List (String × Tree)) (name : String) :
    writtenField (fields.map (renameField f g)) name = (writtenField fields name).rename f g := by
  unfold writtenField
  induction fields with
  | nil => rfl
  | cons field fields ih =>
    rw [List.map_cons, renameField, List.lookup_cons, List.lookup_cons]
    split
    · rfl
    · exact ih

theorem eq_property_of_renameLink {links : List (Link Tree)} {b : Bool} {name : String}
    (h : links.map (renameLink f g) = [.property b name]) : links = [.property b name] := by
  obtain ⟨link, rfl, hlink⟩ := List.map_eq_singleton_iff.1 h
  cases link <;> cases hlink
  rfl

theorem eq_element_of_renameLink {links : List (Link Tree)} {b : Bool} {d : Datum}
    (h : links.map (renameLink f g) = [.element b (constant d)]) :
    links = [.element b (constant d)] := by
  obtain ⟨link, rfl, hlink⟩ := List.map_eq_singleton_iff.1 h
  cases link with
  | element c index =>
    cases index <;> cases hlink
    rfl
  | _ => cases hlink

theorem foldChain_rename (base : Tree) (links : List (Link Tree)) :
    foldChain (base.rename f g) (links.map (renameLink f g)) =
      (foldChain base links).rename f g := by
  have hchain : (chain base links).rename f g =
      chain (base.rename f g) (links.map (renameLink f g)) := by rw [rename, renameLinks_eq]
  have hrecord : ∀ fields,
      (record (fields.map (renameField f g))).isPure = (record fields).isPure := by
    intro fields
    rw [← isPure_rename (record fields), rename, renameFields_eq]
  have hlist : ∀ items, (list (items.map (rename f g))).isPure = (list items).isPure := by
    intro items
    rw [← isPure_rename (list items), rename, renameAll_eq]
  have hitem : ∀ (place : Option Nat) (items : List Tree),
      (place.bind fun i => (items.map (rename f g))[i]?) =
        (place.bind fun i => items[i]?).map (rename f g) := by
    intro place items
    cases place <;> simp
  fun_cases foldChain base links
  case case1 hpure => simp [foldChain, rename, renameLink, hrecord, hpure, writtenField_rename]
  case case2 hpure => simp [foldChain, rename, renameLink, hrecord, hpure]
  case case3 hpure => simp [foldChain, rename, renameLink, hrecord, hpure, writtenField_rename]
  case case4 hpure => simp [foldChain, rename, renameLink, hrecord, hpure]
  case case5 hfound hpure =>
    simp only [rename, renameAll_eq, renameLink, List.map_cons, List.map_nil, foldChain,
      List.length_map, hitem, hfound, Option.map_some, hlist, hpure, if_true]
  case case6 hfound hpure =>
    simp only [rename, renameAll_eq, renameLinks_eq, renameLink, List.map_cons, List.map_nil,
      foldChain, List.length_map, hitem, hfound, Option.map_some, hlist, hpure]
    simp
  case case7 hfound =>
    simp only [rename, renameAll_eq, renameLinks_eq, renameLink, List.map_cons, List.map_nil,
      foldChain, List.length_map, hitem, hfound, Option.map_none]
  case case8 hfound => simp [foldChain, rename, renameLink, hfound]
  case case9 hfound => simp [foldChain, rename, renameLink, hfound]
  case case10 hfield hindexed hplace hpart =>
    rw [hchain]
    refine foldChain.eq_5 _ _ ?_ ?_ ?_ ?_
    · intro fields b name hbase hlinks
      cases base <;> cases hbase
      exact hfield _ _ _ rfl (eq_property_of_renameLink hlinks)
    · intro fields b name hbase hlinks
      cases base <;> cases hbase
      exact hindexed _ _ _ rfl (eq_element_of_renameLink hlinks)
    · intro items b n hbase hlinks
      cases base <;> cases hbase
      exact hplace _ _ _ rfl (eq_element_of_renameLink hlinks)
    · intro d b n hbase hlinks
      cases base <;> cases hbase
      exact hpart _ _ _ rfl (eq_element_of_renameLink hlinks)

theorem simplify_rename (t : Tree) : (t.rename f g).simplify = t.simplify.rename f g := by
  have hall : ∀ ts : List Tree, (∀ t ∈ ts, (t.rename f g).simplify = t.simplify.rename f g) →
      (ts.map (rename f g)).map simplify = (ts.map simplify).map (rename f g) := by
    intro ts ih
    rw [List.map_map, List.map_map]
    exact List.map_congr_left ih
  induction t using inductionOn with
  | constant d => rfl
  | named name => rfl
  | qualified path name => rfl
  | function captured => rfl
  | template parts ih =>
    rw [rename, renameAll_eq, simplify, simplifyAll_eq, hall parts ih, foldTemplate_rename,
      simplify, simplifyAll_eq]
  | list items ih => simp only [rename, simplify, renameAll_eq, simplifyAll_eq, hall items ih]
  | record fields ih =>
    simp only [rename, simplify, renameFields_eq, simplifyFields_eq, List.map_map]
    congr 1
    exact List.map_congr_left fun field hfield => Prod.ext rfl (ih field hfield)
  | call b name arguments ih =>
    simp only [rename, simplify, renameAll_eq, simplifyAll_eq, hall arguments ih]
  | qualifiedCall path name arguments ih =>
    simp only [rename, simplify, renameAll_eq, simplifyAll_eq, hall arguments ih]
  | sign s operand ih => rw [rename, simplify, ih, foldSign_rename, simplify]
  | binary op l r ihl ihr => rw [rename, simplify, ihl, ihr, foldBinary_rename, simplify]
  | junction j operands ih =>
    rw [rename, renameAll_eq, simplify, simplifyAll_eq, hall operands ih, foldJunction_rename,
      simplify, simplifyAll_eq]
  | chain base links ihbase ihlinks =>
    rw [rename, renameLinks_eq, simplify, simplifyLinks_eq, ihbase, simplify, simplifyLinks_eq,
      ← foldChain_rename, List.map_map, List.map_map]
    congr 1
    refine List.map_congr_left fun link hlink => ?_
    have hlink := ihlinks link hlink
    cases link with
    | property b name => rfl
    | method b name arguments =>
      simp only [Function.comp_apply, renameLink, Link.map, hall arguments hlink]
    | element b index =>
      simp only [Function.comp_apply, renameLink, Link.map, hlink index (List.mem_singleton_self _)]
  | choice c yes no ihc ihy ihn =>
    rw [rename, simplify, ihc, ihy, ihn, foldChoice_rename, simplify]

/-- An expression whose names all stay is the same. -/
theorem rename_id (t : Tree) : t.rename id id = t := by
  have hall : ∀ ts : List Tree, (∀ t ∈ ts, t.rename id id = t) → ts.map (rename id id) = ts :=
    fun ts ih => (List.map_congr_left ih).trans (List.map_id ts)
  induction t using inductionOn with
  | constant d => rfl
  | named name => rfl
  | qualified path name => simp [rename]
  | function captured => simp [rename]
  | template parts ih => rw [rename, renameAll_eq, hall parts ih]
  | list items ih => rw [rename, renameAll_eq, hall items ih]
  | record fields ih =>
    have hfields : fields.map (renameField id id) = fields.map id :=
      List.map_congr_left fun field hfield => Prod.ext rfl (ih field hfield)
    rw [rename, renameFields_eq, hfields, List.map_id]
  | call b name arguments ih => rw [rename, renameAll_eq, hall arguments ih, id]
  | qualifiedCall path name arguments ih => rw [rename, renameAll_eq, hall arguments ih]
  | sign s operand ih => rw [rename, ih]
  | binary op l r ihl ihr => rw [rename, ihl, ihr]
  | junction j operands ih => rw [rename, renameAll_eq, hall operands ih]
  | chain base links ihbase ihlinks =>
    have hlinks : links.map (renameLink id id) = links.map id := by
      refine List.map_congr_left fun link hlink => ?_
      cases link with
      | property b name => rfl
      | method b name arguments =>
        rw [renameLink, hall arguments (ihlinks _ hlink), id, id]
      | element b index =>
        rw [renameLink, ihlinks _ hlink index (List.mem_singleton_self index), id]
    rw [rename, renameLinks_eq, ihbase, hlinks, List.map_id]
  | choice c yes no ihc ihy ihn => rw [rename, ihc, ihy, ihn]

end

end Tree

end Spreadsheet

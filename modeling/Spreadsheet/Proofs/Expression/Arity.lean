import Spreadsheet.Proofs.Expression.Stopping

/-!
# Numbers of arguments

A function of a formula is called with one list of arguments. Where the list is
written out and has a number of items that the function takes, in every call of
the tree, no evaluation finds a wrong number of arguments, whichever branches it
takes. Simplification decides what it can, but changes the length of no list.
-/
namespace Spreadsheet

/-- Whether what a function is called with is one list that is written out, of a number of
arguments that it takes. Other functions may be called with anything. -/
def AreAccepted (name : String) (arguments : List Tree) : Prop :=
  ∀ f, callable? name = some f →
    ∃ items, arguments = [.list items] ∧ f.arity.accepts items.length = true

def Link.IsAccepted : Link Tree → Prop
  | method _ name arguments => AreAccepted name arguments
  | property _ _ | element _ _ => True

namespace Tree

/-- Whether all calls in a tree have numbers of arguments that are accepted. -/
inductive IsCounted : Tree → Prop
  | constant (d : Datum) : IsCounted (constant d)
  | named (name : String) : IsCounted (named name)
  | qualified (path : List String) (name : String) : IsCounted (qualified path name)
  | template {parts : List Tree} : (∀ t ∈ parts, IsCounted t) → IsCounted (template parts)
  | list {items : List Tree} : (∀ t ∈ items, IsCounted t) → IsCounted (list items)
  | record {fields : List (String × Tree)} : (∀ field ∈ fields, IsCounted field.2) →
      IsCounted (record fields)
  | call {b : Bool} {name : String} {arguments : List Tree} : AreAccepted name arguments →
      (∀ t ∈ arguments, IsCounted t) → IsCounted (call b name arguments)
  | qualifiedCall {path : List String} {name : String} {arguments : List Tree} :
      (∀ t ∈ arguments, IsCounted t) → IsCounted (qualifiedCall path name arguments)
  | sign {s : Sign} {t : Tree} : IsCounted t → IsCounted (sign s t)
  | binary {op : Operator} {left right : Tree} : IsCounted left → IsCounted right →
      IsCounted (binary op left right)
  | junction {j : Junction} {operands : List Tree} : (∀ t ∈ operands, IsCounted t) →
      IsCounted (junction j operands)
  | chain {base : Tree} {links : List (Link Tree)} : IsCounted base →
      (∀ link ∈ links, link.IsAccepted) → (∀ link ∈ links, ∀ t ∈ link.operands, IsCounted t) →
      IsCounted (chain base links)
  | choice {condition yes no : Tree} : IsCounted condition → IsCounted yes → IsCounted no →
      IsCounted (choice condition yes no)
  | function (captured : List String) : IsCounted (function captured)

/-- The trees that a tree is made of. -/
def children : Tree → List Tree
  | constant _ | named _ | qualified _ _ | function _ => []
  | template parts => parts
  | list items => items
  | record fields => fields.map Prod.snd
  | call _ _ arguments => arguments
  | qualifiedCall _ _ arguments => arguments
  | sign _ operand => [operand]
  | binary _ left right => [left, right]
  | junction _ operands => operands
  | chain base links => base :: links.flatMap Link.operands
  | choice condition yes no => [condition, yes, no]

theorem IsCounted.of_mem_children {t : Tree} (h : t.IsCounted) :
    ∀ s ∈ t.children, s.IsCounted := by
  cases h with
  | constant => exact List.forall_mem_nil _
  | named => exact List.forall_mem_nil _
  | qualified => exact List.forall_mem_nil _
  | function => exact List.forall_mem_nil _
  | template hparts => exact hparts
  | list hitems => exact hitems
  | record hfields => exact List.forall_mem_map.2 hfields
  | call _ harguments => exact harguments
  | qualifiedCall harguments => exact harguments
  | sign ht => exact List.forall_mem_singleton.2 ht
  | binary hl hr => exact List.forall_mem_cons.2 ⟨hl, List.forall_mem_singleton.2 hr⟩
  | junction hoperands => exact hoperands
  | chain hbase _ hlinks =>
    refine List.forall_mem_cons.2 ⟨hbase, fun s hs => ?_⟩
    obtain ⟨link, hlink, hs⟩ := List.mem_flatMap.1 hs
    exact hlinks link hlink s hs
  | choice hc hy hn =>
    exact List.forall_mem_cons.2 ⟨hc, List.forall_mem_cons.2 ⟨hy, List.forall_mem_singleton.2 hn⟩⟩

theorem calls_subset_of_mem_children {t s : Tree} (h : s ∈ t.children) : s.calls ⊆ t.calls := by
  intro name hname
  cases t with
  | constant | named | qualified | function => cases h
  | template parts | list parts | call _ _ parts | qualifiedCall _ _ parts | junction _ parts =>
    simp only [calls, callsAll_eq, List.mem_cons, List.mem_flatMap]
    grind [children]
  | record fields =>
    obtain ⟨field, hfield, rfl⟩ := List.mem_map.1 h
    rw [calls, callsFields_eq]
    exact List.mem_flatMap.2 ⟨field, hfield, hname⟩
  | sign _ operand =>
    cases List.mem_singleton.1 h
    exact hname
  | binary _ left right | choice condition yes no =>
    grind [children, calls]
  | chain base links =>
    rw [calls, callsLinks_eq, List.mem_append, List.mem_flatMap]
    rcases List.mem_cons.1 h with rfl | h
    · exact .inl hname
    · obtain ⟨link, hlink, hs⟩ := List.mem_flatMap.1 h
      exact .inr ⟨link, hlink, List.mem_append_right _ (List.mem_flatMap.2 ⟨s, hs, hname⟩)⟩

/-! ## What simplification leaves -/

section
variable {name : String} {arguments : List Tree}

theorem areAccepted_map_simplify (h : AreAccepted name arguments) :
    AreAccepted name (arguments.map simplify) := by
  intro f hf
  obtain ⟨items, rfl, hcount⟩ := h f hf
  refine ⟨items.map simplify, ?_, by rwa [List.length_map]⟩
  rw [List.map_singleton, simplify, simplifyAll_eq]

theorem isAccepted_map_simplify {link : Link Tree} (h : link.IsAccepted) :
    (link.map simplify).IsAccepted := by
  cases link with
  | method isOptional name arguments => exact areAccepted_map_simplify h
  | _ => trivial

theorem isCounted_foldTemplate {parts : List Tree} (h : ∀ t ∈ parts, t.IsCounted) :
    (foldTemplate parts).IsCounted := by
  unfold foldTemplate
  split
  · exact .constant _
  · exact .template h

theorem isCounted_foldSign (s : Sign) {t : Tree} (h : t.IsCounted) : (foldSign s t).IsCounted := by
  unfold foldSign
  split
  · split
    · exact .constant _
    · exact .sign h
  · exact .sign h

theorem isCounted_foldBinary (op : Operator) {left right : Tree} (hl : left.IsCounted)
    (hr : right.IsCounted) : (foldBinary op left right).IsCounted := by
  unfold foldBinary
  split
  · split
    · split
      · exact .constant _
      · exact .binary hl hr
    · exact .binary hl hr
  · exact .binary hl hr

theorem isCounted_foldJunction (j : Junction) {ts : List Tree} (h : ∀ t ∈ ts, t.IsCounted) :
    (foldJunction j ts).IsCounted := by
  have hreduced : ∀ t ∈ j.reduce ts, t.IsCounted := fun t ht => h t (reduce_subset j ts ht)
  unfold foldJunction
  split
  · exact .constant _
  · rename_i t ht
    exact hreduced t (ht ▸ List.mem_singleton_self t)
  · exact .junction hreduced

theorem isCounted_foldChoice {condition yes no : Tree} (hc : condition.IsCounted)
    (hy : yes.IsCounted) (hn : no.IsCounted) : (foldChoice condition yes no).IsCounted := by
  unfold foldChoice
  split
  · split
    · exact hy
    · exact hn
  · exact .choice hc hy hn

theorem isCounted_writtenField {fields : List (String × Tree)}
    (h : ∀ field ∈ fields, field.2.IsCounted) (name : String) :
    (writtenField fields name).IsCounted := by
  unfold writtenField
  cases hf : fields.lookup name with
  | none => exact .constant _
  | some t =>
    obtain ⟨before, after, rfl, -⟩ := List.lookup_eq_some_iff.1 hf
    exact h (name, t) (List.mem_append_right _ List.mem_cons_self)

theorem isCounted_foldChain {base : Tree} {links : List (Link Tree)} (hbase : base.IsCounted)
    (hlinks : ∀ link ∈ links, link.IsAccepted)
    (hoperands : ∀ link ∈ links, ∀ t ∈ link.operands, t.IsCounted) :
    (foldChain base links).IsCounted := by
  have hchain : (chain base links).IsCounted := .chain hbase hlinks hoperands
  unfold foldChain
  split
  · split
    · cases hbase with
      | record hfields => exact isCounted_writtenField hfields _
    · exact hchain
  · split
    · cases hbase with
      | record hfields => exact isCounted_writtenField hfields _
    · exact hchain
  · split
    · rename_i t ht
      split
      · obtain ⟨i, -, hi⟩ := Option.bind_eq_some_iff.1 ht
        cases hbase with
        | list hitems => exact hitems t (List.mem_of_getElem? hi)
      · exact hchain
    · exact hchain
  · split
    · exact .constant _
    · exact hchain
  · exact hchain

theorem IsCounted.simplify {t : Tree} (h : t.IsCounted) : t.simplify.IsCounted := by
  induction h with
  | constant d => exact .constant d
  | named name => exact .named name
  | qualified path name => exact .qualified path name
  | function captured => exact .function captured
  | template _ ih =>
    rw [Tree.simplify, simplifyAll_eq]
    exact isCounted_foldTemplate (List.forall_mem_map.2 ih)
  | list _ ih =>
    rw [Tree.simplify, simplifyAll_eq]
    exact .list (List.forall_mem_map.2 ih)
  | record _ ih =>
    rw [Tree.simplify, simplifyFields_eq]
    exact .record (List.forall_mem_map.2 ih)
  | call haccepted _ ih =>
    rw [Tree.simplify, simplifyAll_eq]
    exact .call (areAccepted_map_simplify haccepted) (List.forall_mem_map.2 ih)
  | qualifiedCall _ ih =>
    rw [Tree.simplify, simplifyAll_eq]
    exact .qualifiedCall (List.forall_mem_map.2 ih)
  | sign _ ih => exact isCounted_foldSign _ ih
  | binary _ _ ihl ihr => exact isCounted_foldBinary _ ihl ihr
  | junction _ ih =>
    rw [Tree.simplify, simplifyAll_eq]
    exact isCounted_foldJunction _ (List.forall_mem_map.2 ih)
  | chain _ haccepted _ ihbase ihlinks =>
    rw [Tree.simplify, simplifyLinks_eq]
    refine isCounted_foldChain ihbase
      (List.forall_mem_map.2 fun link hlink => isAccepted_map_simplify (haccepted link hlink))
      (List.forall_mem_map.2 fun link hlink => ?_)
    rw [Link.operands_map]
    exact List.forall_mem_map.2 (ihlinks link hlink)
  | choice _ _ _ ihc ihy ihn => exact isCounted_foldChoice ihc ihy ihn

end

end Tree

/-! ## What is called and evaluated -/

namespace Tree

/-- Whether a result is anything but the failure for a wrong number of arguments. -/
def IsTaken {α : Type} (x : Except Interruption α) : Prop :=
  ∀ f, x ≠ .error (.failed (.argumentCount f))

section
variable [Library] {name : String} {ds : List Datum} {ω : Occasion} {b : Bindings}

/-- A list that is written out is evaluated to a list of the same length. -/
theorem exists_of_evaluateArguments_list {items : List Tree} {isOrdered : Bool}
    (h : evaluate.evaluateArguments ω b isOrdered [.list items] = .ok ds) :
    ∃ es, ds = [.list es] ∧ es.length = items.length := by
  obtain ⟨d, hd, h⟩ := exists_of_bind_ok h
  obtain ⟨es, hes, he⟩ := exists_of_bind_ok hd
  cases he
  cases h
  exact ⟨es, rfl, length_of_evaluateAll hes⟩

/-- What stops an evaluation in which every number of arguments is accepted, or any failure for a
wrong number is of the given kind. The cases are those of `evaluate`. -/
theorem Admits.evaluate {P : Interruption → Prop} {called : List String} (hP : Admits P called)
    (t : Tree) (hcalls : t.calls ⊆ called)
    (h : t.IsCounted ∨ ∀ f, P (.failed (.argumentCount f))) (ω : Occasion) (b : Bindings) :
    ErrsOnly P (t.evaluate ω b) := by
  have hchild : ∀ {t s : Tree}, (t.IsCounted ∨ ∀ f, P (.failed (.argumentCount f))) →
      s ∈ t.children → s.IsCounted ∨ ∀ f, P (.failed (.argumentCount f)) :=
    fun h hs => h.imp_left fun hcounted => hcounted.of_mem_children _ hs
  have hsub : ∀ {t s : Tree}, t.calls ⊆ called → s ∈ t.children → s.calls ⊆ called :=
    fun h hs => List.Subset.trans (calls_subset_of_mem_children hs) h
  induction t using Tree.inductionOn generalizing ω with
  | constant d => exact errsOnly_ok P d
  | named name => exact hP.value name
  | qualified path name => exact hP.qualifiedValue path name
  | function captured => exact (hP.mapM_value captured).bind fun ds _ => errsOnly_ok P _
  | template parts ih =>
    have hparts := fun t ht => ih t ht (hsub hcalls ht) (hchild h ht)
    exact (errsOnly_evaluateAll hparts).bind fun ds _ => errsOnly_ok P _
  | list items ih =>
    have hitems := fun t ht => ih t ht (hsub hcalls ht) (hchild h ht)
    exact (errsOnly_evaluateAll hitems).bind fun ds _ => errsOnly_ok P _
  | record fields ih =>
    have hfields := fun field hfield => ih field hfield
      (hsub hcalls (List.mem_map_of_mem hfield)) (hchild h (List.mem_map_of_mem hfield))
    exact (errsOnly_evaluateFields hfields).bind fun ds _ => errsOnly_ok P _
  | call isOrdered name arguments ih =>
    have harguments := fun t ht => ih t ht (hsub hcalls ht) (hchild h ht)
    refine (errsOnly_evaluateArguments harguments _).bind fun ds hds =>
      hP.call (hcalls (by simp [calls])) fun f items hf he hwrong => ?_
    rcases h with hcounted | h
    · cases hcounted with | call haccepted _ =>
      obtain ⟨written, rfl, hcount⟩ := haccepted f hf
      obtain ⟨es, rfl, hlength⟩ := exists_of_evaluateArguments_list hds
      cases he
      rw [hlength] at hwrong
      exact absurd hcount hwrong
    · exact h f
  | qualifiedCall path name arguments ih =>
    have harguments := fun t ht => ih t ht (hsub hcalls ht) (hchild h ht)
    exact (errsOnly_evaluateArguments harguments false).bind fun ds _ =>
      hP.qualifiedResult path name ds
  | sign s t ih =>
    have ht := ih (hsub hcalls (List.mem_singleton_self t)) (hchild h (List.mem_singleton_self t))
    exact (ht _).bind fun d _ => hP.orFailed (raises_applySign s d)
  | binary op left right ihl ihr =>
    have hright : right ∈ (binary op left right).children :=
      List.mem_cons_of_mem _ (List.mem_singleton_self right)
    have hl := ihl (hsub hcalls List.mem_cons_self) (hchild h List.mem_cons_self)
    have hr := ihr (hsub hcalls hright) (hchild h hright)
    rw [Tree.evaluate]
    split
    · exact (hr _).bind fun d _ => (hl _).bind fun e _ => hP.orFailed (raises_apply op e d)
    · exact (hl _).bind fun d _ => (hr _).bind fun e _ => hP.orFailed (raises_apply op d e)
  | junction j operands ih =>
    have hoperands := fun t ht => ih t ht (hsub hcalls ht) (hchild h ht)
    cases j with
    | both => exact (hP.holdAll hoperands).bind fun p _ => errsOnly_ok P _
    | either => exact (hP.holdAny hoperands).bind fun p _ => errsOnly_ok P _
    | fallback => exact errsOnly_firstPresent hoperands
  | chain base links ihbase ihlinks =>
    have hbase := ihbase (hsub hcalls List.mem_cons_self) (hchild h List.mem_cons_self)
    have hoperand : ∀ link ∈ links, ∀ t ∈ link.operands, t ∈ (chain base links).children :=
      fun link hlink t ht => List.mem_cons_of_mem _ (List.mem_flatMap_of_mem hlink ht)
    have hlinks := fun link hlink t ht => ihlinks link hlink t ht
      (hsub hcalls (hoperand link hlink t ht)) (hchild h (hoperand link hlink t ht))
    refine (errsOnly_evaluateLinks hlinks).bind fun ls hls => (hbase _).bind fun d _ =>
      hP.applyAll (fun l hl name hname => ?_) fun isOptional name f hmem hf => ?_
    · obtain ⟨link, hlink, hcalled, -⟩ := exists_link_of_evaluateLinks hls hl
      rw [← hcalled] at hname
      refine hcalls ?_
      rw [calls, callsLinks_eq, List.mem_append, List.mem_flatMap]
      exact .inr ⟨link, hlink, List.mem_append_left _ hname⟩
    · rcases h with hcounted | h
      · cases hcounted with | chain _ haccepted _ =>
        obtain ⟨link, hlink, hcalled, hlength⟩ := exists_link_of_evaluateLinks hls hmem
        cases link with
        | property | element => cases hcalled
        | method _ name' arguments =>
          cases hcalled
          obtain ⟨items, rfl, -⟩ := haccepted _ hlink f hf
          cases hlength
      · exact h f
  | choice condition yes no ihc ihy ihn =>
    have hyes : yes ∈ (choice condition yes no).children :=
      List.mem_cons_of_mem _ List.mem_cons_self
    have hno : no ∈ (choice condition yes no).children :=
      List.mem_cons_of_mem _ (List.mem_cons_of_mem _ List.mem_cons_self)
    have hc := ihc (hsub hcalls List.mem_cons_self) (hchild h List.mem_cons_self)
    have hy := ihy (hsub hcalls hyes) (hchild h hyes)
    have hn := ihn (hsub hcalls hno) (hchild h hno)
    refine (hc _).bind fun d _ => (hP.asCondition d).bind fun p _ => ?_
    split
    · exact hy _
    · exact hn _

/-- The functions of the library that the expression calls never fail for a number of arguments. -/
def SparesCounts (t : Tree) : Prop := ∀ name ∈ t.calls, ∀ ω b ds outcome,
  Library.call ω b name ds = some outcome → IsTaken outcome

/-- No evaluation of a tree whose calls have numbers of arguments that are accepted fails for a
wrong number, unless a function of the library fails for one. -/
theorem IsCounted.isTaken {t : Tree} (h : t.IsCounted) (hlibrary : t.SparesCounts) (ω : Occasion)
    (b : Bindings) : IsTaken (t.evaluate ω b) := by
  have hP : Admits (fun i => ∀ f, i ≠ .failed (.argumentCount f)) t.calls := by
    refine ⟨fun n => nofun, ?_, fun name hname ω b ds outcome hcall i hi f hf => ?_⟩
    · rintro failure hraised f ⟨⟩
      cases hraised
    · exact hlibrary name hname ω b ds outcome hcall f (hi.trans (congrArg _ hf))
  exact fun f he => hP.evaluate t (List.Subset.refl _) (.inl h) ω b _ he f rfl

end

end Tree

/-- The common functions do not fail for a number of arguments. -/
theorem StandardLibrary.sparesCounts (t : Tree) : t.SparesCounts := by
  intro name _ ω b ds outcome hcall f hf
  obtain ⟨x, hx, rfl⟩ := Option.map_eq_some_iff.1 hcall
  cases x with
  | ok d => cases hf
  | error failure =>
    cases hf
    cases raises_call hx _ rfl

end Spreadsheet

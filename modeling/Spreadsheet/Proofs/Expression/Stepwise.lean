import Spreadsheet.Expression.Evaluation
import Spreadsheet.Proofs.Expression.Renaming

/-!
# Two evaluations step by step

An expression is evaluated twice, on different occasions, with different bindings
or with other names in it. What relates the two results of every name and of every
call, and is kept when one step follows another, relates the results of the whole.
Only calls look at the occasion, and only names and calls at the bindings. So an
expression that calls nothing but plain functions comes to the same on every
occasion and asks for no name that is not in it.
-/
namespace Spreadsheet

namespace Tree

/-- The names of the functions and methods that an expression calls. -/
def calls : Tree → List String
  | constant _ | named _ | qualified _ _ | function _ => []
  | template parts => callsAll parts
  | list items => callsAll items
  | record fields => callsFields fields
  | call _ name arguments => name :: callsAll arguments
  | qualifiedCall _ _ arguments => callsAll arguments
  | sign _ operand => calls operand
  | binary _ left right => calls left ++ calls right
  | junction _ operands => callsAll operands
  | chain base links => calls base ++ callsLinks links
  | choice condition yes no => calls condition ++ calls yes ++ calls no
where
  callsAll : List Tree → List String
    | [] => []
    | t :: ts => calls t ++ callsAll ts
  callsFields : List (String × Tree) → List String
    | [] => []
    | (_, t) :: fields => calls t ++ callsFields fields
  callsLinks : List (Link Tree) → List String
    | [] => []
    | .property _ _ :: links => callsLinks links
    | .method _ name arguments :: links => name :: callsAll arguments ++ callsLinks links
    | .element _ index :: links => calls index ++ callsLinks links

end Tree

/-- The functions that a link calls. -/
def Link.called {α : Type} : Link α → List String
  | method _ name _ => [name]
  | property _ _ | element _ _ => []

namespace Tree

@[simp] theorem called_renameLink (f g : String → String) (link : Link Tree) :
    (renameLink f g link).called = link.called.map g := by
  cases link <;> rfl

@[simp] theorem callsAll_eq (ts : List Tree) : calls.callsAll ts = ts.flatMap calls := by
  induction ts with
  | nil => rfl
  | cons t ts ih => rw [calls.callsAll, ih, List.flatMap_cons]

@[simp] theorem callsFields_eq (fields : List (String × Tree)) :
    calls.callsFields fields = fields.flatMap fun field => field.2.calls := by
  induction fields with
  | nil => rfl
  | cons field fields ih => rw [calls.callsFields, ih, List.flatMap_cons]

@[simp] theorem callsLinks_eq (links : List (Link Tree)) : calls.callsLinks links =
    links.flatMap fun link => link.called ++ link.operands.flatMap calls := by
  induction links with
  | nil => rfl
  | cons link links ih =>
    cases link <;> simp [calls.callsLinks, ih, Link.operands, Link.called]

theorem calls_rename (f g : String → String) (t : Tree) :
    (t.rename f g).calls = t.calls.map g := by
  have hall : ∀ ts : List Tree, (∀ t ∈ ts, (t.rename f g).calls = t.calls.map g) →
      (ts.map (rename f g)).flatMap calls = (ts.flatMap calls).map g := by
    intro ts hts
    rw [List.flatMap_map, List.map_flatMap]
    exact List.flatMap_congr hts
  induction t using inductionOn with
  | constant | named | qualified | function => rfl
  | template parts ih => simpa [rename, calls] using hall parts ih
  | list items ih => simpa [rename, calls] using hall items ih
  | record fields ih =>
    rw [rename, renameFields_eq, calls, callsFields_eq, calls, callsFields_eq, List.flatMap_map,
      List.map_flatMap]
    exact List.flatMap_congr ih
  | call _ _ arguments ih => simpa [rename, calls] using hall arguments ih
  | qualifiedCall _ _ arguments ih => simpa [rename, calls] using hall arguments ih
  | sign _ _ ih => exact ih
  | binary _ _ _ ihl ihr => rw [rename, calls, calls, ihl, ihr, List.map_append]
  | junction _ operands ih => simpa [rename, calls] using hall operands ih
  | chain base links ihbase ihlinks =>
    rw [rename, renameLinks_eq, calls, callsLinks_eq, calls, callsLinks_eq, ihbase,
      List.map_append, List.flatMap_map, List.map_flatMap]
    refine congrArg _ (List.flatMap_congr fun link hlink => ?_)
    rw [called_renameLink, operands_renameLink, hall _ (ihlinks link hlink), List.map_append]
  | choice _ _ _ ihc ihy ihn =>
    rw [rename, calls, calls, ihc, ihy, ihn, List.map_append, List.map_append]

end Tree

/-! ## Links that are evaluated -/

theorem exists_of_bind_ok {α β : Type} {x : Except Interruption α}
    {g : α → Except Interruption β} {c : β} (h : (x >>= g) = .ok c) :
    ∃ a, x = .ok a ∧ g a = .ok c := by
  cases x with
  | error i => cases h
  | ok a => exact ⟨a, rfl, h⟩

section
variable [Library] {ω : Occasion} {b : Bindings}

theorem Tree.length_of_evaluateAll {ts : List Tree} {ds : List Datum}
    (h : evaluate.evaluateAll ω b ts = .ok ds) : ds.length = ts.length := by
  induction ts generalizing ω ds with
  | nil =>
    cases h
    rfl
  | cons t ts ih =>
    obtain ⟨d, -, h⟩ := exists_of_bind_ok h
    obtain ⟨rest, hrest, h⟩ := exists_of_bind_ok h
    cases h
    rw [List.length_cons, List.length_cons, ih hrest]

/-- A link after the evaluation of its operands has as many operands as before and calls the same
function. -/
theorem Tree.exists_link_of_evaluateLinks {links : List (Link Tree)} {ls : List (Link Datum)}
    (h : evaluate.evaluateLinks ω b links = .ok ls) {l : Link Datum} (hl : l ∈ ls) :
    ∃ link ∈ links, link.called = l.called ∧ link.operands.length = l.operands.length := by
  induction links generalizing ω ls with
  | nil =>
    cases h
    cases hl
  | cons link links ih =>
    have hrest : ∀ {ω rest}, evaluate.evaluateLinks ω b links = .ok rest → l ∈ rest →
        ∃ k ∈ link :: links, k.called = l.called ∧ k.operands.length = l.operands.length := by
      intro ω rest hrest hl
      obtain ⟨k, hk, hsame⟩ := ih hrest hl
      exact ⟨k, List.mem_cons_of_mem _ hk, hsame⟩
    cases link with
    | property isOptional name =>
      obtain ⟨rest, h', h⟩ := exists_of_bind_ok h
      cases h
      rcases List.mem_cons.1 hl with rfl | hl
      · exact ⟨_, List.mem_cons_self, rfl, rfl⟩
      · exact hrest h' hl
    | method isOptional name arguments =>
      obtain ⟨es, hes, h⟩ := exists_of_bind_ok h
      obtain ⟨rest, h', h⟩ := exists_of_bind_ok h
      cases h
      rcases List.mem_cons.1 hl with rfl | hl
      · exact ⟨_, List.mem_cons_self, rfl, (length_of_evaluateAll hes).symm⟩
      · exact hrest h' hl
    | element isOptional index =>
      obtain ⟨d, -, h⟩ := exists_of_bind_ok h
      obtain ⟨rest, h', h⟩ := exists_of_bind_ok h
      cases h
      rcases List.mem_cons.1 hl with rfl | hl
      · exact ⟨_, List.mem_cons_self, rfl, rfl⟩
      · exact hrest h' hl

end

/-! ## Related results -/

/-- A relation between the results of evaluations that is kept when one step follows another. -/
structure KeptByBind (R : ∀ {α : Type}, Except Interruption α → Except Interruption α → Prop) :
    Prop where
  ok : ∀ {α : Type} (a : α), R (.ok a) (.ok a)
  failed : ∀ {α : Type} (failure : Failure),
    R (.error (.failed failure) : Except Interruption α) (.error (.failed failure))
  bind : ∀ {α β : Type} {x y : Except Interruption α} {k l : α → Except Interruption β},
    R x y → (∀ a, x = .ok a → R (k a) (l a)) → R (x >>= k) (y >>= l)

section
variable {R : ∀ {α : Type}, Except Interruption α → Except Interruption α → Prop}
variable {α β : Type} {x y : Except Interruption α}

namespace KeptByBind
variable (hR : KeptByBind R)
include hR

theorem orFailed (x : Except Failure Datum) : R (orFailed x) (orFailed x) := by
  cases x with
  | ok d => exact hR.ok d
  | error failure => exact hR.failed failure

theorem asCondition (d : Datum) : R (asCondition d) (asCondition d) := by
  cases d
  case truth p => exact hR.ok p
  all_goals exact hR.failed _

theorem qualifiedResult (path : List String) (name : String) (ds : List Datum) :
    R (qualifiedResult path name ds) (qualifiedResult path name ds) := by
  unfold Spreadsheet.qualifiedResult
  split <;> exact hR.failed _

/-- The same is made of both results. -/
theorem map (h : R x y) (f : α → β) :
    R (do let a ← x; pure (f a)) (do let a ← y; pure (f a)) :=
  hR.bind h fun a _ => hR.ok (f a)

omit hR in
theorem ite {c : Prop} [Decidable c] {x' y' : Except Interruption α} (h : R x y) (h' : R x' y') :
    R (if c then x else x') (if c then y else y') := by
  split
  · exact h
  · exact h'

end KeptByBind

variable [Library]

/-- What an expression takes from outside is related: its names, of which the first bindings have
others, and what the functions that it calls give on any two occasions. -/
structure Bindings.Related (R : ∀ {α : Type}, Except Interruption α → Except Interruption α → Prop)
    (f g : String → String) (b c : Bindings) (t : Tree) : Prop where
  value : ∀ name ∈ t.names, R (b.value (f name)) (c.value name)
  global : ∀ name, qualifiedName globalPath name ∈ t.names →
    R (α := Datum) (.error (.needs (qualifiedName globalPath name)))
      (.error (.needs (qualifiedName globalPath name)))
  call : ∀ name ∈ t.calls, ∀ ω ω' ds, R (b.call ω (g name) ds) (c.call ω' (g name) ds)
  method : ∀ name ∈ t.calls, ∀ ω ω' ds,
    R (callFunction ω b (g name) ds) (callFunction ω' c (g name) ds)

section
variable {f g : String → String} {b c : Bindings}

theorem Bindings.Related.mono {t u : Tree} (h : b.Related R f g c u) (hnames : t.names ⊆ u.names)
    (hcalls : t.calls ⊆ u.calls) : b.Related R f g c t where
  value name hn := h.value name (hnames hn)
  global name hn := h.global name (hnames hn)
  call name hn := h.call name (hcalls hn)
  method name hn := h.method name (hcalls hn)

namespace Tree

/-- The evaluations of an expression with other names and of itself have related results. -/
def EvaluatesRelated (R : ∀ {α : Type}, Except Interruption α → Except Interruption α → Prop)
    (f g : String → String) (b c : Bindings) (t : Tree) : Prop :=
  ∀ ω ω', R ((t.rename f g).evaluate ω b) ((t.rename id g).evaluate ω' c)

variable (hR : KeptByBind R)
include hR

section
variable {ts : List Tree} (hts : ∀ t ∈ ts, EvaluatesRelated R f g b c t)
include hts

theorem evaluateAll_related (ω ω' : Occasion) :
    R (evaluate.evaluateAll ω b (ts.map (rename f g)))
      (evaluate.evaluateAll ω' c (ts.map (rename id g))) := by
  induction ts generalizing ω ω' with
  | nil => exact hR.ok _
  | cons t ts ih =>
    obtain ⟨ht, hts⟩ := List.forall_mem_cons.1 hts
    exact hR.bind (ht _ _) fun d _ => hR.map (ih hts _ _) _

theorem evaluateArguments_related (isOrdered : Bool) (ω ω' : Occasion) :
    R (evaluate.evaluateArguments ω b isOrdered (ts.map (rename f g)))
      (evaluate.evaluateArguments ω' c isOrdered (ts.map (rename id g))) := by
  cases ts with
  | nil => exact hR.ok _
  | cons t ts =>
    obtain ⟨ht, hts⟩ := List.forall_mem_cons.1 hts
    simp only [List.map_cons, evaluate.evaluateArguments, isNamed_rename]
    exact KeptByBind.ite (hR.bind (evaluateAll_related hR hts _ _) fun ds _ => hR.map (ht _ _) _)
      (hR.bind (ht _ _) fun d _ => hR.map (evaluateAll_related hR hts _ _) _)

theorem holdAll_related (ω ω' : Occasion) :
    R (evaluate.holdAll ω b (ts.map (rename f g)))
      (evaluate.holdAll ω' c (ts.map (rename id g))) := by
  induction ts generalizing ω ω' with
  | nil => exact hR.ok _
  | cons t ts ih =>
    obtain ⟨ht, hts⟩ := List.forall_mem_cons.1 hts
    exact hR.bind (ht _ _) fun d _ => hR.bind (hR.asCondition d) fun p _ =>
      KeptByBind.ite (ih hts _ _) (hR.ok _)

theorem holdAny_related (ω ω' : Occasion) :
    R (evaluate.holdAny ω b (ts.map (rename f g)))
      (evaluate.holdAny ω' c (ts.map (rename id g))) := by
  induction ts generalizing ω ω' with
  | nil => exact hR.ok _
  | cons t ts ih =>
    obtain ⟨ht, hts⟩ := List.forall_mem_cons.1 hts
    exact hR.bind (ht _ _) fun d _ => hR.bind (hR.asCondition d) fun p _ =>
      KeptByBind.ite (hR.ok _) (ih hts _ _)

theorem firstPresent_related (ω ω' : Occasion) :
    R (evaluate.firstPresent ω b (ts.map (rename f g)))
      (evaluate.firstPresent ω' c (ts.map (rename id g))) := by
  induction ts generalizing ω ω' with
  | nil => exact hR.ok _
  | cons t ts ih =>
    obtain ⟨ht, hts⟩ := List.forall_mem_cons.1 hts
    refine hR.bind (ht _ _) fun d _ => ?_
    cases d with
    | unit => exact ih hts _ _
    | _ => exact hR.ok _

end

theorem evaluateFields_related {fields : List (String × Tree)}
    (hfields : ∀ field ∈ fields, EvaluatesRelated R f g b c field.2) (ω ω' : Occasion) :
    R (evaluate.evaluateFields ω b (fields.map (renameField f g)))
      (evaluate.evaluateFields ω' c (fields.map (renameField id g))) := by
  induction fields generalizing ω ω' with
  | nil => exact hR.ok _
  | cons field fields ih =>
    obtain ⟨hfield, hfields⟩ := List.forall_mem_cons.1 hfields
    exact hR.bind (hfield _ _) fun d _ => hR.map (ih hfields _ _) _

theorem evaluateLinks_related {links : List (Link Tree)}
    (hlinks : ∀ link ∈ links, ∀ t ∈ link.operands, EvaluatesRelated R f g b c t)
    (ω ω' : Occasion) :
    R (evaluate.evaluateLinks ω b (links.map (renameLink f g)))
      (evaluate.evaluateLinks ω' c (links.map (renameLink id g))) := by
  induction links generalizing ω ω' with
  | nil => exact hR.ok _
  | cons link links ih =>
    obtain ⟨hlink, hrest⟩ := List.forall_mem_cons.1 hlinks
    cases link with
    | property isOptional name => exact hR.map (ih hrest _ _) _
    | method isOptional name arguments =>
      exact hR.bind (evaluateAll_related hR hlink _ _) fun ds _ => hR.map (ih hrest _ _) _
    | element isOptional index =>
      exact hR.bind (hlink index (List.mem_singleton_self index) _ _) fun d _ =>
        hR.map (ih hrest _ _) _

omit [Library] in
theorem mapM_value_related {names : List String}
    (hnames : ∀ name ∈ names, R (b.value (f name)) (c.value name)) :
    R ((names.map f).mapM b.value) ((names.map id).mapM c.value) := by
  induction names with
  | nil => exact hR.ok _
  | cons name names ih =>
    obtain ⟨hname, hnames⟩ := List.forall_mem_cons.1 hnames
    rw [List.map_cons, List.mapM_cons, List.map_cons, List.mapM_cons]
    exact hR.bind hname fun _ _ => hR.map (ih hnames) _

theorem applyAll_related {links : List (Link Datum)}
    (hmethods : ∀ link ∈ links, ∀ name ∈ link.called, ∀ ω ω' ds,
      R (callFunction ω b name ds) (callFunction ω' c name ds)) (ω ω' : Occasion) (d : Datum) :
    R (Link.applyAll ω b d links) (Link.applyAll ω' c d links) := by
  induction links generalizing ω ω' d with
  | nil => exact hR.ok d
  | cons link links ih =>
    obtain ⟨hlink, hrest⟩ := List.forall_mem_cons.1 hmethods
    have hstep : R (link.apply (ω.stage 0) b d) (link.apply (ω'.stage 0) c d) := by
      cases link with
      | property isOptional name => exact hR.orFailed _
      | element isOptional index => exact hR.orFailed _
      | method isOptional name ds => exact hlink name (List.mem_singleton_self name) _ _ _
    unfold Link.applyAll
    split
    · exact hR.ok _
    · exact hR.bind hstep fun e _ => ih hrest _ _ e

omit hR in
/-- The parts of an expression are related as the expression is. -/
theorem evaluatesRelated_of_flatMap {α : Type} {xs : List α} (part : α → Tree) {u : Tree}
    (h : b.Related R f g c u) (hnames : xs.flatMap (fun x => (part x).names) ⊆ u.names)
    (hcalls : xs.flatMap (fun x => (part x).calls) ⊆ u.calls)
    (ih : ∀ x ∈ xs, b.Related R f g c (part x) → EvaluatesRelated R f g b c (part x)) :
    ∀ x ∈ xs, EvaluatesRelated R f g b c (part x) := fun x hx =>
  ih x hx (h.mono (fun _ hn => hnames (List.mem_flatMap.2 ⟨x, hx, hn⟩))
    fun _ hn => hcalls (List.mem_flatMap.2 ⟨x, hx, hn⟩))

/-- The cases are those of `evaluate`: each step is taken on both sides. -/
theorem evaluate_related (t : Tree) (h : b.Related R f g c t) : EvaluatesRelated R f g b c t := by
  induction t using inductionOn with
  | constant d => exact fun _ _ => hR.ok d
  | named name => exact fun _ _ => h.value name (List.mem_singleton_self name)
  | qualified path name =>
    intro ω ω'
    simp only [rename, evaluate, qualifiedValue]
    split
    · subst path
      exact h.global name (List.mem_singleton_self _)
    · exact hR.failed _
  | template parts ih =>
    have hparts := evaluatesRelated_of_flatMap id h (by simp [names]) (by simp [calls]) ih
    intro ω ω'
    simp only [rename, renameAll_eq]
    exact hR.map (evaluateAll_related hR hparts _ _) _
  | list items ih =>
    have hitems := evaluatesRelated_of_flatMap id h (by simp [names]) (by simp [calls]) ih
    intro ω ω'
    simp only [rename, renameAll_eq]
    exact hR.map (evaluateAll_related hR hitems _ _) _
  | record fields ih =>
    have hfields :=
      evaluatesRelated_of_flatMap Prod.snd h (by simp [names]) (by simp [calls]) ih
    intro ω ω'
    simp only [rename, renameFields_eq]
    exact hR.map (evaluateFields_related hR hfields _ _) _
  | call isOrdered name arguments ih =>
    have harguments := evaluatesRelated_of_flatMap id h (by simp [names]) (by simp [calls]) ih
    intro ω ω'
    simp only [rename, renameAll_eq]
    exact hR.bind (evaluateArguments_related hR harguments isOrdered _ _) fun ds _ =>
      h.call name (by simp [calls]) _ _ ds
  | qualifiedCall path name arguments ih =>
    have harguments := evaluatesRelated_of_flatMap id h (by simp [names]) (by simp [calls]) ih
    intro ω ω'
    simp only [rename, renameAll_eq]
    exact hR.bind (evaluateArguments_related hR harguments false _ _) fun ds _ =>
      hR.qualifiedResult path name ds
  | sign s operand ih =>
    have hoperand := ih (h.mono (by simp [names]) (by simp [calls]))
    exact fun _ _ => hR.bind (hoperand _ _) fun d _ => hR.orFailed _
  | binary op left right ihl ihr =>
    have hl := ihl (h.mono (by simp [names]) (by simp [calls]))
    have hr := ihr (h.mono (by simp [names]) (by simp [calls]))
    intro ω ω'
    simp only [rename, evaluate]
    exact KeptByBind.ite
      (hR.bind (hr _ _) fun _ _ => hR.bind (hl _ _) fun _ _ => hR.orFailed _)
      (hR.bind (hl _ _) fun _ _ => hR.bind (hr _ _) fun _ _ => hR.orFailed _)
  | junction j operands ih =>
    have hoperands := evaluatesRelated_of_flatMap id h (by simp [names]) (by simp [calls]) ih
    intro ω ω'
    simp only [rename, renameAll_eq]
    cases j with
    | both => exact hR.map (holdAll_related hR hoperands _ _) _
    | either => exact hR.map (holdAny_related hR hoperands _ _) _
    | fallback => exact firstPresent_related hR hoperands _ _
  | chain base links ihbase ihlinks =>
    have hbase := ihbase (h.mono (by simp [names]) (by simp [calls]))
    have hlinks : ∀ link ∈ links, ∀ t ∈ link.operands, EvaluatesRelated R f g b c t := by
      intro link hlink t ht
      refine ihlinks link hlink t ht (h.mono (fun n hn => ?_) fun n hn => ?_)
      · simp only [names, namesLinks_eq, List.mem_append, List.mem_flatMap]
        exact .inr ⟨link, hlink, t, ht, hn⟩
      · simp only [calls, callsLinks_eq, List.mem_append, List.mem_flatMap]
        exact .inr ⟨link, hlink, .inr ⟨t, ht, hn⟩⟩
    intro ω ω'
    simp only [rename, renameLinks_eq]
    refine hR.bind (evaluateLinks_related hR hlinks _ _) fun ls hls =>
      hR.bind (hbase _ _) fun d _ => applyAll_related hR (fun l hl name hname => ?_) _ _ d
    obtain ⟨_, hrenamed, hcalled, -⟩ := exists_link_of_evaluateLinks hls hl
    obtain ⟨link, hlink, rfl⟩ := List.mem_map.1 hrenamed
    rw [← hcalled, called_renameLink] at hname
    obtain ⟨n, hn, rfl⟩ := List.mem_map.1 hname
    refine h.method n ?_
    simp only [calls, callsLinks_eq, List.mem_append, List.mem_flatMap]
    exact .inr ⟨link, hlink, .inl hn⟩
  | choice condition yes no ihc ihy ihn =>
    have hc := ihc (h.mono (by simp [names]) (by simp [calls]))
    have hy := ihy (h.mono (by simp [names]) (by simp [calls]))
    have hn := ihn (h.mono (by simp [names]) (by simp [calls]))
    exact fun _ _ => hR.bind (hc _ _) fun _ _ => hR.bind (hR.asCondition _) fun _ _ =>
      KeptByBind.ite (hy _ _) (hn _ _)
  | function captured => exact fun _ _ => hR.map (mapM_value_related hR h.value) _

/-- Two evaluations of the same expression. -/
theorem evaluate_related_self {t : Tree} (h : b.Related R id id c t) (ω ω' : Occasion) :
    R (t.evaluate ω b) (t.evaluate ω' c) := by
  have ht := evaluate_related hR t h ω ω'
  rwa [rename_id] at ht

end Tree

end

end

/-! ## Plain functions -/

section
variable [Library]

/-- The function asks for no name, whatever it is called with. -/
def Library.AsksNothing (name : String) : Prop :=
  ∀ (ω : Occasion) (b : Bindings) (ds : List Datum) (n : String),
    callFunction ω b name ds ≠ .error (.needs n)

/-- The function asks for no name and gives the same on every occasion, whatever is bound. -/
structure Library.IsPlain (name : String) : Prop where
  same : ∀ (ω ω' : Occasion) (b c : Bindings) (ds : List Datum),
    callFunction ω b name ds = callFunction ω' c name ds
  asksNothing : Library.AsksNothing name

/-- The first result asks only for names of a kind. -/
def AsksOnly (P : String → Prop) {α : Type} (x _ : Except Interruption α) : Prop :=
  ∀ n, x = .error (.needs n) → P n

omit [Library] in
theorem keptByBind_asksOnly (P : String → Prop) : KeptByBind (AsksOnly P) where
  ok _ := nofun
  failed _ := nofun
  bind {α β x y k l} hx hk n hn := by
    cases x with
    | ok a => exact hk a rfl n hn
    | error i => exact hx n (by cases hn; rfl)

omit [Library] in
/-- A name that is asked for is not bound. -/
theorem Bindings.value_needs {b : Bindings} {name n : String}
    (h : b.value name = .error (.needs n)) : n = name ∧ b.lookup n = none := by
  unfold Bindings.value at h
  split at h <;> cases h
  rename_i hvalue
  unfold Bindings.value? at hvalue
  split at hvalue
  · cases hvalue
  · exact ⟨rfl, ‹_›⟩

theorem call_eq_callFunction {name : String} (h : name ≠ "is_def_var") (ω : Occasion) (b : Bindings)
    (ds : List Datum) : b.call ω name ds = callFunction ω b name ds := by
  unfold Bindings.call
  split
  · exact absurd rfl h
  · exact absurd rfl h
  · rfl

/-- What holds of a function and of the test whether a name is bound holds of a call. -/
theorem call_induction {P : Except Interruption Datum → Except Interruption Datum → Prop}
    (ω ω' : Occasion) (b c : Bindings) (name : String) (ds : List Datum)
    (hfunction : P (callFunction ω b name ds) (callFunction ω' c name ds))
    (htest : name = "is_def_var" → ∀ s,
      P (.ok (.truth (b.value? s).isSome)) (.ok (.truth (c.value? s).isSome)))
    (hfailed : ∀ failure, P (.error (.failed failure)) (.error (.failed failure))) :
    P (b.call ω name ds) (c.call ω' name ds) := by
  unfold Bindings.call
  split
  · exact htest rfl _
  · exact hfailed _
  · exact hfunction

namespace Tree

/-- The functions that the expression calls ask only for names that are in it and have no value. -/
def AsksAsWritten (t : Tree) : Prop := ∀ name ∈ t.calls, ∀ (ω : Occasion) (b : Bindings)
  (ds : List Datum) (n : String), callFunction ω b name ds = .error (.needs n) →
    n ∈ t.names ∧ b.lookup n = none

/-- The expression calls plain functions only. -/
def IsPlain (t : Tree) : Prop := ∀ name ∈ t.calls, Library.IsPlain name

theorem asksAsWritten_of_asksNothing {t : Tree}
    (h : ∀ name ∈ t.calls, Library.AsksNothing name) : t.AsksAsWritten :=
  fun name hname ω b ds n hn => absurd hn (h name hname ω b ds n)

/-- An expression comes to the same on every occasion if the functions do that it calls. -/
theorem evaluate_eq_of_calls {t : Tree} {b : Bindings}
    (h : ∀ name ∈ t.calls, ∀ ω ω' ds, callFunction ω b name ds = callFunction ω' b name ds)
    (ω ω' : Occasion) : t.evaluate ω b = t.evaluate ω' b := by
  have hkept : KeptByBind fun {α : Type} (x y : Except Interruption α) => x = y := by
    refine ⟨fun _ => rfl, fun _ => rfl, ?_⟩
    rintro α β x _ k l rfl hkl
    cases x with
    | ok a => exact hkl a rfl
    | error i => rfl
  refine evaluate_related_self hkept
    ⟨fun _ _ => rfl, fun _ _ => rfl, fun name hname ω ω' ds => ?_, h⟩ ω ω'
  exact call_induction (P := Eq) ω ω' b b name ds (h name hname ω ω' ds) (fun _ _ => rfl)
    fun _ => rfl

theorem IsPlain.evaluate_eq {t : Tree} (h : t.IsPlain) (ω ω' : Occasion) (b : Bindings) :
    t.evaluate ω b = t.evaluate ω' b :=
  evaluate_eq_of_calls (fun name hname ω ω' => (h name hname).same ω ω' b b) ω ω'

/-- Whatever an evaluation asks for is a name in the expression that has no value or belongs to a
module. -/
theorem asks_of_needs {t : Tree} (h : t.AsksAsWritten) {ω : Occasion} {b : Bindings} {n : String}
    (hn : t.evaluate ω b = .error (.needs n)) :
    n ∈ t.names ∧ (b.lookup n = none ∨ ':' ∈ n.toList) := by
  let P (n : String) : Prop := n ∈ t.names ∧ (b.lookup n = none ∨ ':' ∈ n.toList)
  have hfunction : ∀ name ∈ t.calls, ∀ ω ω' ds,
      AsksOnly P (callFunction ω b name ds) (callFunction ω' b name ds) :=
    fun name hname ω _ ds n hn => (h name hname ω b ds n hn).imp_right .inl
  have hrelated : b.Related (AsksOnly P) id id b t := by
    refine ⟨fun name hname n hn => ?_, fun name hname n hn => ?_, fun name hname ω ω' ds => ?_,
      hfunction⟩
    · obtain ⟨rfl, hnone⟩ := Bindings.value_needs hn
      exact ⟨hname, .inl hnone⟩
    · cases hn
      exact ⟨hname, .inr (by simp [globalPath, qualifiedName])⟩
    · refine call_induction (P := AsksOnly P) ω ω' b b name ds (hfunction name hname ω ω' ds)
        (fun _ _ n hn => ?_) fun _ n hn => ?_
      · cases hn
      · cases hn
  exact evaluate_related_self (keptByBind_asksOnly P) hrelated ω ω n hn

end Tree

end

end Spreadsheet

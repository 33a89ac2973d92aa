import Spreadsheet.Expression.Reader
import Spreadsheet.Proofs.Expression.Adjacency
import Spreadsheet.Proofs.Expression.Arity

/-!
# Counting arguments by commas

The tokens of an expression are read with the brackets that are open before them
in mind. For the arguments of a function these tell how many commas there were
and whether anything stands between them. If at the closing bracket of the
arguments the function takes one argument more than there are commas, then the
tree that is read has lists of arguments of accepted lengths only: each comma
parts two items, as none stands before the closing bracket.
-/
namespace Spreadsheet.Expression
open Spreadsheet.Tree

/-- What a bracket that is open holds. Of arguments it is known how many commas there were, whether
anything else was there, and whether the last token was a comma. -/
inductive Enclosure where
  | group
  | block
  | arguments (function : Builtin) (commas : Nat) (hasArguments afterComma : Bool)
deriving DecidableEq, Repr

/-- What is open, after a part of an argument. -/
def mark : List Enclosure → List Enclosure
  | .arguments f commas _ _ :: around => .arguments f commas true false :: around
  | around => around

/-- What is open, after a comma. -/
def parted : List Enclosure → List Enclosure
  | .arguments f commas hasArguments _ :: around =>
    .arguments f (commas + 1) hasArguments true :: around
  | around => around

@[simp] theorem mark_mark (around : List Enclosure) : mark (mark around) = mark around := by
  rcases around with _ | ⟨_ | _ | _, around⟩ <;> rfl

/-- How many arguments there are, by the commas between them. -/
def argumentCount (commas : Nat) (hasArguments : Bool) : Nat :=
  if hasArguments then commas + 1 else 0

namespace Token

/-- Whether a token is a part of an argument that neither opens nor parts anything. -/
def isPart : Token → Bool
  | literal .unit | connective (.operator .bitOr) => false
  | literal _ | name _ | callable _ | connective _ | colon | path | point _ | whether
  | otherwise => true
  | _ => false

/-- The function of a formula that a token names. -/
def function? : Token → Option Builtin
  | name n | callable n => callable? n
  | _ => none

end Token

/-- Whether the arguments among the tokens are as many as their functions take, by the commas
between them. A function that is named by the token before is called only with arguments that are
open, which stand in a list; there are no other lists. -/
inductive Counted : Option Builtin → List Enclosure → List Token → Prop
  | nil {named : Option Builtin} {around : List Enclosure} : Counted named around []
  | part {named : Option Builtin} {around : List Enclosure} {t : Token} {ts : List Token} :
      t.isPart = true → Counted t.function? (mark around) ts → Counted named around (t :: ts)
  | unit {around : List Enclosure} {ts : List Token} : Counted none (mark around) ts →
      Counted none around (.literal .unit :: ts)
  | negation {around : List Enclosure} {ts : List Token} : Counted none (mark around) ts →
      Counted none around (.negation :: ts)
  | opened {around : List Enclosure} {ts : List Token} : Counted none (.group :: mark around) ts →
      Counted none around (.opened .round :: ts)
  | called {named : Option Builtin} {around : List Enclosure} {f : Builtin} {ts : List Token} :
      (∀ g ∈ named, g = f) → Counted none (.arguments f 0 false false :: mark around) ts →
      Counted named around (.opened .round :: .opened .square :: ts)
  | closed {named : Option Builtin} {around : List Enclosure} {ts : List Token} :
      Counted none around ts → Counted named (.group :: around) (.closed .round :: ts)
  | complete {named : Option Builtin} {around : List Enclosure} {f : Builtin} {commas : Nat}
      {hasArguments : Bool} {ts : List Token} :
      f.arity.accepts (argumentCount commas hasArguments) = true → Counted none around ts →
      Counted named (.arguments f commas hasArguments false :: around)
        (.closed .square :: .closed .round :: ts)
  | openedBlock {named : Option Builtin} {around : List Enclosure} {ts : List Token} :
      Counted none (.block :: around) ts → Counted named around (.opened .curly :: ts)
  | closedBlock {named : Option Builtin} {around : List Enclosure} {ts : List Token} :
      Counted none around ts → Counted named (.block :: around) (.closed .curly :: ts)
  | comma {named : Option Builtin} {around : List Enclosure} {ts : List Token} :
      Counted none (parted around) ts → Counted named around (.comma :: ts)
  /-- A bracket that closes nothing. -/
  | surplus {named : Option Builtin} {bracket : Bracket} {ts : List Token} :
      Counted named [] (.closed bracket :: ts)

section
variable {named : Option Builtin} {around : List Enclosure} {tokens rest : List Token} {t : Token}

theorem Counted.of_part (h : Counted named around (t :: rest)) (ht : t.isPart = true) :
    Counted t.function? (mark around) rest := by
  cases h with
  | part _ h => exact h
  | _ => cases ht

theorem Counted.of_negation (h : Counted named around (.negation :: rest)) :
    named = none ∧ Counted none (mark around) rest := by
  cases h with
  | part ht => cases ht
  | negation h => exact ⟨rfl, h⟩

theorem Counted.of_connective {c : Connective} (h : Counted named around (.connective c :: rest)) :
    Counted none (mark around) rest := by
  cases h with
  | part _ h => exact h

theorem Counted.of_block (h : Counted named around (.opened .curly :: rest)) :
    Counted none (.block :: around) rest := by
  cases h with
  | part ht => cases ht
  | openedBlock h => exact h

theorem not_counted_square : ¬Counted named around (.opened .square :: rest) := by
  intro h
  cases h with
  | part ht => cases ht

end

/-! ## Trees from parts -/

section
variable {base t : Tree} {links : List (Link Tree)}

theorem isCounted_operandsOf (j : Junction) (h : t.IsCounted) :
    ∀ u ∈ t.operandsOf j, u.IsCounted := by
  unfold operandsOf
  split
  · split
    · cases h with
      | junction hoperands => exact hoperands
    · exact List.forall_mem_singleton.2 h
  · exact List.forall_mem_singleton.2 h

theorem isCounted_joined {c : Connective} {left right : Tree} (hl : left.IsCounted)
    (hr : right.IsCounted) (h : joined c left right = some t) : t.IsCounted := by
  have hboth : ∀ j, ∀ u ∈ left.operandsOf j ++ [right], u.IsCounted := fun j =>
    List.forall_mem_append.2 ⟨isCounted_operandsOf j hl, List.forall_mem_singleton.2 hr⟩
  unfold joined at h
  split at h
  · cases h
    exact .binary hl hr
  · cases h
    exact .junction (hboth .fallback)
  · split at h <;> cases h
    exact .junction (hboth _)

theorem isCounted_signed (s : Sign) (h : t.IsCounted) : (signed s t).IsCounted := by
  unfold signed
  split
  · exact .constant _
  · split <;> exact .constant _
  · exact .constant _
  · exact .constant _
  · exact .sign h

/-- Whether the calls in a link have numbers of arguments that are accepted. -/
def LinkCounted (link : Link Tree) : Prop := link.IsAccepted ∧ ∀ t ∈ link.operands, t.IsCounted

theorem isCounted_chain (hbase : base.IsCounted) (h : ∀ link ∈ links, LinkCounted link) :
    (chain base links).IsCounted :=
  .chain hbase (fun link hlink => (h link hlink).1) fun link hlink => (h link hlink).2

theorem linkCounted_element {isOptional : Bool} (h : t.IsCounted) :
    LinkCounted (.element isOptional t) :=
  ⟨trivial, List.forall_mem_singleton.2 h⟩

theorem isCounted_withMembers {members : List (Link Tree)} (hbase : base.IsCounted)
    (h : ∀ link ∈ members, LinkCounted link) : (base.withMembers members).IsCounted := by
  unfold withMembers
  split
  · exact hbase
  · rename_i members root links _
    cases hbase with
    | chain hroot haccepted hoperands =>
      have hlinks : ∀ link ∈ links, LinkCounted link := fun link hlink =>
        ⟨haccepted link hlink, hoperands link hlink⟩
      have happend := leadingIndices_append links
      generalize leadingIndices links = found at happend ⊢
      obtain ⟨indices, rest⟩ := found
      dsimp only at happend ⊢
      rw [← happend, List.forall_mem_append] at hlinks
      obtain ⟨hindices, hrest⟩ := hlinks
      split
      · exact isCounted_chain (.chain hroot haccepted hoperands) h
      · rename_i isOptional last hlast
        obtain ⟨before, rfl⟩ := List.getLast?_eq_some_iff.1 hlast
        split
        · exact isCounted_chain hroot (List.forall_mem_append.2 ⟨hindices, h⟩)
        · rw [List.map_append, List.forall_mem_append] at hindices
          have hlink := hindices.2 _ (List.mem_singleton_self _)
          rw [List.map_append, List.map_singleton, List.dropLast_concat]
          refine isCounted_chain hroot (List.forall_mem_append.2 ⟨hindices.1,
            List.forall_mem_cons.2 ⟨linkCounted_element ?_, h⟩⟩)
          exact isCounted_chain (hlink.2 last (List.mem_singleton_self _)) hrest
  · exact isCounted_chain hbase h

end

theorem isCounted_called {path : List String} {isOrdered : Bool} {name : String}
    {arguments : List Tree} (hall : ∀ t ∈ arguments, t.IsCounted)
    (h : ∀ f ∈ callable? name, ∃ items, arguments = [.list items] ∧
      f.arity.accepts items.length = true) : (called path isOrdered name arguments).IsCounted := by
  unfold called
  split
  · exact .call (fun f hf => h f hf) hall
  · exact .qualifiedCall hall

/-! ## What readers leave -/

/-- After what a reader takes the tokens are counted as before, with one more part of an
argument. -/
def Leaves (around : List Enclosure) (rest : List Token) : Prop :=
  ∃ named, Counted named (mark around) rest

@[simp] theorem leaves_mark {around : List Enclosure} {rest : List Token} :
    Leaves (mark around) rest ↔ Leaves around rest := by
  rw [Leaves, Leaves, mark_mark]

/-- What a reader makes of counted tokens has the property, and the rest is counted. -/
def Counts {α : Type} (read : Reader α) (P : α → Prop) : Prop :=
  ∀ {named around tokens x rest}, Counted named around tokens → read tokens = some (x, rest) →
    P x ∧ Leaves around rest

/-- The same of a reader of what follows a part of an argument. -/
def CountsAfter {α : Type} (read : Reader α) (P : α → Prop) : Prop :=
  ∀ {named around tokens x rest}, Counted named (mark around) tokens →
    read tokens = some (x, rest) → P x ∧ Leaves around rest

/-- The same of a reader of something in curly brackets, which may be no part of an argument. -/
def CountsBlock (read : Reader Tree) : Prop :=
  ∀ {named around tokens t rest}, Counted named around tokens → read tokens = some (t, rest) →
    t.IsCounted ∧ ∃ named, Counted named around rest

/-- What is read after the brackets that open arguments are as many items as the function takes. -/
def CompleteFor (f : Builtin) (around : List Enclosure) (items : List Tree) (rest : List Token) :
    Prop :=
  f.arity.accepts items.length = true ∧ (∀ t ∈ items, t.IsCounted) ∧
    ∃ after, rest = .closed .round :: after ∧ Counted none around after

/-- A reader takes the arguments of a function as a list, and nothing after it. -/
def CountsList (read : Reader Tree) : Prop :=
  ∀ {f around tokens t rest}, Counted none (.arguments f 0 false false :: around) tokens →
    read (.opened .square :: tokens) = some (t, rest) →
    ∃ items, t = .list items ∧ CompleteFor f around items rest

section
variable {item : Reader Tree} {named : Option Builtin} {around : List Enclosure}
  {tokens rest : List Token} {found : List Tree}

/-- Items in round brackets. -/
theorem counted_of_readItems (hitem : Counts item IsCounted) {bound : Nat}
    (h : Counted named (.group :: around) tokens)
    (hread : readItems item .round bound tokens = some (found, rest)) :
    (∀ t ∈ found, t.IsCounted) ∧ ∃ named, Counted named around rest := by
  induction bound generalizing named tokens found rest with
  | zero => cases hread
  | succ bound ih =>
    rw [readItems] at hread
    split at hread
    · rename_i hclosed
      cases hread
      rw [eq_of_afterClosed hclosed] at h
      cases h with
      | part ht => cases ht
      | closed h => exact ⟨List.forall_mem_nil _, none, h⟩
    · simp only [Option.bind_eq_bind, Option.bind_eq_some_iff] at hread
      obtain ⟨⟨first, middle⟩, hfirst, hread⟩ := hread
      obtain ⟨hcounted, _, hmiddle⟩ := hitem h hfirst
      dsimp only at hread
      split at hread
      · obtain ⟨⟨others, _⟩, hothers, he⟩ := Option.bind_eq_some_iff.1 hread
        cases he
        cases hmiddle with
        | part ht => cases ht
        | comma hmiddle =>
          obtain ⟨hall, hrest⟩ := ih hmiddle hothers
          exact ⟨List.forall_mem_cons.2 ⟨hcounted, hall⟩, hrest⟩
      · obtain ⟨_, hclosed, he⟩ := Option.bind_eq_some_iff.1 hread
        cases he
        rw [eq_of_afterClosed hclosed] at hmiddle
        cases hmiddle with
        | part ht => cases ht
        | closed hrest => exact ⟨List.forall_mem_singleton.2 hcounted, none, hrest⟩

/-- The items of a list of arguments. After a comma another item must come, and so there is one item
more than there are commas. -/
theorem completeFor_of_readItems (hitem : Counts item IsCounted) {bound commas : Nat} {f : Builtin}
    {afterComma : Bool} (hcommas : afterComma = false → commas = 0)
    (h : Counted named (.arguments f commas afterComma afterComma :: around) tokens)
    (hread : readItems item .square bound tokens = some (found, rest)) :
    f.arity.accepts (commas + found.length) = true ∧ (∀ t ∈ found, t.IsCounted) ∧
      ∃ after, rest = .closed .round :: after ∧ Counted none around after := by
  induction bound generalizing named commas afterComma tokens found rest with
  | zero => cases hread
  | succ bound ih =>
    rw [readItems] at hread
    split at hread
    · rename_i hclosed
      cases hread
      rw [eq_of_afterClosed hclosed] at h
      cases h with
      | part ht => cases ht
      | complete haccepts h =>
        rw [hcommas rfl] at haccepts ⊢
        exact ⟨haccepts, List.forall_mem_nil _, _, rfl, h⟩
    · simp only [Option.bind_eq_bind, Option.bind_eq_some_iff] at hread
      obtain ⟨⟨first, middle⟩, hfirst, hread⟩ := hread
      obtain ⟨hcounted, _, hmiddle⟩ := hitem h hfirst
      dsimp only at hread
      split at hread
      · obtain ⟨⟨others, _⟩, hothers, he⟩ := Option.bind_eq_some_iff.1 hread
        cases he
        cases hmiddle with
        | part ht => cases ht
        | comma hmiddle =>
          have hcommas : true = false → commas + 1 = 0 := (absurd ·.symm Bool.false_ne_true)
          obtain ⟨haccepts, hall, hrest⟩ := ih hcommas hmiddle hothers
          refine ⟨?_, List.forall_mem_cons.2 ⟨hcounted, hall⟩, hrest⟩
          rwa [List.length_cons, Nat.add_comm others.length, ← Nat.add_assoc]
      · obtain ⟨_, hclosed, he⟩ := Option.bind_eq_some_iff.1 hread
        cases he
        rw [eq_of_afterClosed hclosed] at hmiddle
        cases hmiddle with
        | part ht => cases ht
        | complete haccepts hrest =>
          exact ⟨haccepts, List.forall_mem_singleton.2 hcounted, _, rfl, hrest⟩

/-- No list that is an index follows an operand. -/
theorem eq_of_readElements {r : Readers} {links : List (Link Tree)}
    (h : Counted named around tokens)
    (hread : readElements r tokens = some (links, rest)) : links = [] ∧ rest = tokens := by
  unfold readElements at hread
  split at hread
  · exact absurd h not_counted_square
  · cases h with
    | part ht => cases ht
  · cases hread
    exact ⟨rfl, rfl⟩

end

/-- What every reader of a level makes of counted tokens. -/
structure Readers.Counting (r : Readers) : Prop where
  expression : Counts r.expression IsCounted
  operand : Counts r.operand IsCounted
  operators : ∀ strength {left}, left.IsCounted → CountsAfter (r.operators strength left) IsCounted
  run : ∀ strength {left}, left.IsCounted → CountsAfter (r.run strength left) IsCounted
  grouped : Counts r.grouped IsCounted
  block : CountsBlock r.block
  items : ∀ {f around tokens items rest},
    Counted none (.arguments f 0 false false :: around) tokens →
    r.items tokens = some (items, rest) → CompleteFor f around items rest
  choice : CountsAfter r.choice IsCounted
  closure : ∀ parameters, CountsAfter (r.closure parameters) IsCounted
  member : ∀ isOptional, CountsAfter (r.member isOptional) fun links =>
    ∀ link ∈ links, LinkCounted link
  expressionList : CountsList r.expression
  operandList : CountsList r.operand
  groupedList : CountsList r.grouped
  /-- No operator follows the operand before a closing bracket. -/
  operators_closed : ∀ strength {left tokens x},
    r.operators strength left (.closed .round :: tokens) = some x →
      x = (left, .closed .round :: tokens)
  run_closed : ∀ strength {left tokens x},
    r.run strength left (.closed .round :: tokens) = some x → x = (left, .closed .round :: tokens)

section
variable {r : Readers} (hr : r.Counting) {named : Option Builtin} {around : List Enclosure}
  {tokens rest : List Token}
include hr

/-- What a function of a formula is called with is a list of as many items as it takes. -/
theorem counted_of_readArguments {middle : List Token} {read : Reader (List Tree)}
    {arguments : List Tree} (h : Counted named around tokens)
    (hread : readArguments? r tokens = some (read, middle))
    (hmiddle : read middle = some (arguments, rest)) :
    (∀ t ∈ arguments, t.IsCounted) ∧
      (∀ f ∈ named, ∃ items, arguments = [.list items] ∧ f.arity.accepts items.length = true) ∧
      Leaves around rest := by
  unfold readArguments? at hread
  split at hread
  · cases hread
    cases h with
    | part ht => cases ht
    | opened h =>
      obtain ⟨hall, hrest⟩ := counted_of_readItems hr.grouped h hmiddle
      exact ⟨hall, nofun, hrest⟩
    | called hnamed h =>
      rename_i f tail
      dsimp only at hmiddle
      rw [List.length_cons, readItems] at hmiddle
      simp only [afterClosed?, Option.bind_eq_bind, Option.bind_eq_some_iff] at hmiddle
      obtain ⟨⟨first, after⟩, hfirst, hmiddle⟩ := hmiddle
      obtain ⟨items, rfl, haccepts, hall, last, rfl, hlast⟩ := hr.groupedList h hfirst
      cases hmiddle
      exact ⟨List.forall_mem_singleton.2 (.list hall),
        fun g hg => ⟨items, rfl, hnamed g hg ▸ haccepts⟩, none, hlast⟩
  · cases hread
    cases hmiddle
    cases h with
    | part ht => cases ht
    | unit h => exact ⟨List.forall_mem_nil _, nofun, none, h⟩
  · cases hread

theorem countsAfter_readNamed {path : List String} {name : String} {t : Tree}
    (h : Counted (callable? name) (mark around) tokens)
    (hread : readNamed r path name tokens = some (t, rest)) :
    t.IsCounted ∧ Leaves around rest := by
  fun_induction readNamed r path name tokens with
  | case1 path name after hpath read middle hread' =>
    obtain ⟨⟨arguments, _⟩, harguments, he⟩ := Option.map_eq_some_iff.1 hread
    cases he
    obtain ⟨hnone, h⟩ := h.of_negation
    obtain ⟨hall, -, hrest⟩ := counted_of_readArguments hr h hread' harguments
    refine ⟨isCounted_called hall ?_, by simpa using hrest⟩
    intro f hf
    cases hnone.symm.trans hf
  | case2 => cases hread
  | case3 => cases hread
  | case4 path name next after ih =>
    have hpath := h.of_part rfl
    rw [mark_mark] at hpath
    have hnext := hpath.of_part rfl
    rw [mark_mark] at hnext
    exact ih hnext hread
  | case5 => cases hread
  | case6 path name tokens _ _ _ read middle hread' =>
    obtain ⟨⟨arguments, _⟩, harguments, he⟩ := Option.map_eq_some_iff.1 hread
    cases he
    obtain ⟨hall, haccepted, hrest⟩ := counted_of_readArguments hr h hread' harguments
    exact ⟨isCounted_called hall haccepted, by simpa using hrest⟩
  | case7 path name tokens =>
    cases hread
    refine ⟨?_, _, h⟩
    split
    · exact .named name
    · exact .qualified path name

theorem countsAfter_readCallable {word : String} {t : Tree}
    (h : Counted (callable? word) (mark around) tokens)
    (hread : readCallable r word tokens = some (t, rest)) : t.IsCounted ∧ Leaves around rest := by
  unfold readCallable at hread
  split at hread
  · cases hread
  · split at hread
    · rename_i hnamed
      cases hread
      exact countsAfter_readNamed hr h hnamed
    · cases hread

theorem counts_readPrimary : Counts (readPrimary r) IsCounted := by
  intro named around tokens t rest h hread
  unfold readPrimary at hread
  split at hread
  · rename_i value after
    cases hread
    refine ⟨.constant value, ?_⟩
    cases h with
    | part _ h => exact ⟨_, h⟩
    | unit h => exact ⟨_, h⟩
  · cases h with
    | part ht => cases ht
  · exact countsAfter_readNamed hr (h.of_part rfl) hread
  · exact countsAfter_readCallable hr (h.of_part rfl) hread
  · simp only [Option.bind_eq_bind, Option.bind_eq_some_iff] at hread
    obtain ⟨⟨inner, middle⟩, hinner, _, hclosed, he⟩ := hread
    cases he
    have hmiddle : middle = .closed .round :: rest := eq_of_afterClosed hclosed
    subst hmiddle
    cases h with
    | part ht => cases ht
    | opened h =>
      obtain ⟨hcounted, _, hafter⟩ := hr.grouped h hinner
      refine ⟨hcounted, ?_⟩
      cases hafter with
      | part ht => cases ht
      | closed hafter => exact ⟨_, hafter⟩
    | called _ h =>
      obtain ⟨items, rfl, -, hall, last, he, hlast⟩ := hr.groupedList h hinner
      cases he
      exact ⟨.list hall, _, hlast⟩
  · exact absurd h not_counted_square
  · cases h with
    | part ht => cases ht
  · simpa using hr.choice (h.of_part rfl) hread
  · simpa using hr.closure [] (h.of_part rfl) hread
  · cases h with
    | part ht => cases ht
  · cases hread

theorem countsAfter_readMembers :
    CountsAfter (readMembers r) fun links => ∀ link ∈ links, LinkCounted link := by
  intro named around tokens links rest h hread
  unfold readMembers at hread
  split at hread
  · have hpoint := h.of_part rfl
    rw [mark_mark] at hpoint
    exact hr.member _ hpoint hread
  · cases hread
    exact ⟨List.forall_mem_nil _, _, h⟩

theorem counts_readLinked : Counts (readLinked r) IsCounted := by
  intro named around tokens t rest h hread
  simp only [readLinked, Option.bind_eq_bind, Option.bind_eq_some_iff] at hread
  obtain ⟨⟨base, middle⟩, hbase, ⟨elements, after⟩, helements, tree, htree, ⟨members, _⟩,
    hmembers, he⟩ := hread
  cases he
  obtain ⟨hcounted, _, hmiddle⟩ := counts_readPrimary hr h hbase
  obtain ⟨rfl, rfl⟩ := eq_of_readElements hmiddle helements
  cases htree
  obtain ⟨hlinks, hrest⟩ := countsAfter_readMembers hr hmiddle hmembers
  exact ⟨isCounted_withMembers hcounted hlinks, hrest⟩

theorem countsAfter_readMember (isOptional : Bool) :
    CountsAfter (readMember r isOptional) LinkCounted := by
  have hmethod : ∀ {name : String} {around tokens middle rest arguments read},
      Counted (callable? name) (mark around) tokens →
      readArguments? r tokens = some (read, middle) → read middle = some (arguments, rest) →
      LinkCounted (.method isOptional name arguments) ∧ Leaves around rest := by
    intro name around tokens middle rest arguments read h hread hmiddle
    obtain ⟨hall, haccepted, hrest⟩ := counted_of_readArguments hr h hread hmiddle
    exact ⟨⟨fun f hf => haccepted f hf, hall⟩, by simpa using hrest⟩
  intro named around tokens link rest h hread
  unfold readMember at hread
  split at hread
  · cases hread
  · cases hread
  · have hname := h.of_part rfl
    rw [mark_mark] at hname
    split at hread
    · rename_i read middle hread'
      obtain ⟨⟨arguments, _⟩, harguments, he⟩ := Option.map_eq_some_iff.1 hread
      cases he
      exact hmethod hname hread' harguments
    · cases hread
      exact ⟨⟨trivial, List.forall_mem_nil _⟩, _, hname⟩
  · have hname := h.of_part rfl
    rw [mark_mark] at hname
    simp only [Option.bind_eq_bind] at hread
    split at hread
    · cases hread
    simp only [Option.bind_eq_some_iff] at hread
    obtain ⟨⟨read, middle⟩, hread', hread⟩ := hread
    obtain ⟨⟨arguments, _⟩, harguments, he⟩ := Option.map_eq_some_iff.1 hread
    cases he
    exact hmethod hname hread' harguments
  · cases hread

/-! ## One level more -/

theorem counts_operandAbove : Counts r.operandAbove IsCounted := by
  intro named around tokens t rest h hread
  unfold Readers.operandAbove at hread
  split at hread
  · cases hread
  · rename_i token tail
    split at hread
    · rename_i s hs
      obtain ⟨⟨operand, _⟩, hoperand, he⟩ := Option.map_eq_some_iff.1 hread
      cases he
      have htail : ∃ named, Counted named (mark around) tail := by
        unfold sign? at hs
        split at hs
        · exact ⟨_, h.of_part rfl⟩
        · exact ⟨_, h.of_part rfl⟩
        · exact ⟨_, h.of_negation.2⟩
        · cases hs
      obtain ⟨_, htail⟩ := htail
      obtain ⟨hcounted, hrest⟩ := hr.operand htail hoperand
      exact ⟨isCounted_signed s hcounted, leaves_mark.1 hrest⟩
    · exact counts_readLinked hr h hread

theorem countsList_operandAbove : CountsList r.operandAbove := by
  intro f around tokens t rest h hread
  simp only [Readers.operandAbove, sign?, readLinked, readPrimary, Option.bind_eq_bind,
    Option.bind_eq_some_iff] at hread
  obtain ⟨⟨base, middle⟩, hbase, ⟨elements, after⟩, helements, tree, htree, ⟨members, last⟩,
    hmembers, he⟩ := hread
  obtain ⟨⟨items, _⟩, hitems, hbase⟩ := Option.map_eq_some_iff.1 hbase
  cases hbase
  cases he
  obtain ⟨haccepts, hall, closed, rfl, hclosed⟩ := hr.items h hitems
  cases helements
  cases htree
  cases hmembers
  exact ⟨items, rfl, haccepts, hall, closed, rfl, hclosed⟩

theorem countsAfter_runAbove (strength : Nat) {left : Tree} (hleft : left.IsCounted) :
    CountsAfter (r.runAbove strength left) IsCounted := by
  intro named around tokens t rest h hread
  unfold Readers.runAbove at hread
  split at hread
  · cases hread
    exact ⟨hleft, _, h⟩
  · rename_i c tail hnext
    rw [eq_of_nextConnective hnext] at h
    have htail := h.of_connective
    rw [mark_mark] at htail
    -- What follows once the right operand is known, with the operators that bind it more.
    have hjoin : ∀ {right after}, right.IsCounted ∧ Leaves around after →
        ((joined c left right).bind fun tree => r.run strength tree after) = some (t, rest) →
        t.IsCounted ∧ Leaves around rest := by
      rintro right after ⟨hright, _, hafter⟩ h
      obtain ⟨tree, htree, h⟩ := Option.bind_eq_some_iff.1 h
      exact hr.run strength (isCounted_joined hleft hright htree) hafter h
    obtain ⟨⟨first, middle⟩, hfirst, hread⟩ := Option.bind_eq_some_iff.1 hread
    obtain ⟨hcounted, hmiddle⟩ := counts_operandAbove hr htail hfirst
    rw [leaves_mark] at hmiddle
    dsimp only at hread
    split at hread
    · obtain ⟨⟨right, after⟩, hright, hread⟩ := Option.bind_eq_some_iff.1 hread
      obtain ⟨_, hmiddle⟩ := hmiddle
      exact hjoin (hr.run _ hcounted hmiddle hright) hread
    · exact hjoin ⟨hcounted, hmiddle⟩ hread

theorem countsBlock_blockAbove : CountsBlock r.blockAbove := by
  intro named around tokens t rest h hread
  unfold Readers.blockAbove at hread
  split at hread
  · simp only [Option.bind_eq_bind, Option.bind_eq_some_iff] at hread
    obtain ⟨⟨tree, middle⟩, htree, _, hclosed, he⟩ := hread
    cases he
    obtain ⟨hcounted, _, hmiddle⟩ := hr.grouped h.of_block htree
    rw [show middle = .closed .curly :: rest from eq_of_afterClosed hclosed] at hmiddle
    refine ⟨hcounted, ?_⟩
    cases hmiddle with
    | part ht => cases ht
    | closedBlock hrest => exact ⟨_, hrest⟩
  · cases hread

theorem countsAfter_choiceAbove : CountsAfter r.choiceAbove IsCounted := by
  intro named around tokens t rest h hread
  simp only [Readers.choiceAbove, Option.bind_eq_bind, Option.bind_eq_some_iff] at hread
  obtain ⟨⟨condition, middle⟩, hcondition, hread⟩ := hread
  obtain ⟨hcond, _, hmiddle⟩ := hr.expression h hcondition
  rw [mark_mark] at hmiddle
  dsimp only at hread
  split at hread
  · cases hread
  simp only [Option.bind_eq_some_iff] at hread
  obtain ⟨⟨yes, after⟩, hyes, hread⟩ := hread
  obtain ⟨hyes', _, hafter⟩ := hr.block hmiddle hyes
  dsimp only at hread
  split at hread
  · obtain ⟨⟨no, _⟩, hno, he⟩ := Option.bind_eq_some_iff.1 hread
    cases he
    have helse := hafter.of_part rfl
    rw [mark_mark] at helse
    have hif := helse.of_part rfl
    rw [mark_mark] at hif
    obtain ⟨hno, hrest⟩ := hr.choice hif hno
    exact ⟨.choice hcond hyes' hno, hrest⟩
  · obtain ⟨⟨no, _⟩, hno, he⟩ := Option.bind_eq_some_iff.1 hread
    cases he
    have helse := hafter.of_part rfl
    rw [mark_mark] at helse
    obtain ⟨hno, _, hrest⟩ := hr.block helse hno
    exact ⟨.choice hcond hyes' hno, _, hrest⟩
  · cases hread
    exact ⟨.choice hcond hyes' (.constant _), _, hafter⟩

theorem countsAfter_closureAbove (parameters : List String) :
    CountsAfter (r.closureAbove parameters) IsCounted := by
  intro named around tokens t rest h hread
  unfold Readers.closureAbove at hread
  split at hread
  · obtain ⟨⟨body, _⟩, hbody, he⟩ := Option.bind_eq_some_iff.1 hread
    cases he
    obtain ⟨-, _, hrest⟩ := hr.block h hbody
    exact ⟨.function _, _, hrest⟩
  · obtain ⟨⟨body, _⟩, hbody, he⟩ := Option.bind_eq_some_iff.1 hread
    cases he
    exact ⟨.function _, leaves_mark.1 (hr.grouped h hbody).2⟩

theorem countsAfter_memberAbove (isOptional : Bool) :
    CountsAfter (r.memberAbove isOptional) fun links => ∀ link ∈ links, LinkCounted link := by
  intro named around tokens links rest h hread
  simp only [Readers.memberAbove, Option.bind_eq_bind, Option.bind_eq_some_iff] at hread
  obtain ⟨⟨first, middle⟩, hfirst, ⟨elements, after⟩, helements, ⟨members, _⟩, hmembers, he⟩ :=
    hread
  cases he
  obtain ⟨hlink, _, hmiddle⟩ := countsAfter_readMember hr isOptional h hfirst
  obtain ⟨rfl, rfl⟩ := eq_of_readElements hmiddle helements
  obtain ⟨hlinks, hrest⟩ := countsAfter_readMembers hr hmiddle hmembers
  exact ⟨List.forall_mem_cons.2 ⟨hlink, hlinks⟩, hrest⟩

theorem Readers.Counting.above : r.above.Counting where
  expression := by
    intro named around tokens t rest h hread
    simp only [Readers.above, Option.bind_eq_bind, Option.bind_eq_some_iff] at hread
    obtain ⟨⟨left, middle⟩, hleft, hread⟩ := hread
    obtain ⟨hcounted, _, hmiddle⟩ := hr.operand h hleft
    exact hr.operators 0 hcounted hmiddle hread
  operand := counts_operandAbove hr
  operators := hr.run
  run := countsAfter_runAbove hr
  grouped := hr.expression
  block := countsBlock_blockAbove hr
  items h hread := by
    have hitems := completeFor_of_readItems hr.expression (fun _ => rfl) h hread
    rwa [Nat.zero_add] at hitems
  choice := countsAfter_choiceAbove hr
  closure := countsAfter_closureAbove hr
  member := countsAfter_memberAbove hr
  expressionList := by
    intro f around tokens t rest h hread
    simp only [Readers.above, Option.bind_eq_bind, Option.bind_eq_some_iff] at hread
    obtain ⟨⟨left, middle⟩, hleft, hread⟩ := hread
    obtain ⟨items, rfl, haccepts, hall, after, rfl, hafter⟩ := hr.operandList h hleft
    cases hr.operators_closed 0 hread
    exact ⟨items, rfl, haccepts, hall, after, rfl, hafter⟩
  operandList := countsList_operandAbove hr
  groupedList := hr.expressionList
  operators_closed := hr.run_closed
  run_closed strength _ _ _ hread := by
    cases hread
    rfl

end

theorem Readers.counting_bottom : Readers.bottom.Counting where
  expression _ h := nomatch h
  operand _ h := nomatch h
  operators _ _ _ _ _ _ _ _ _ h := nomatch h
  run strength left hleft := by
    intro named around tokens t rest h hread
    simp only [Readers.bottom] at hread
    split at hread <;> cases hread
    exact ⟨hleft, _, h⟩
  grouped _ h := nomatch h
  block _ h := nomatch h
  items _ h := nomatch h
  choice _ h := nomatch h
  closure _ _ _ _ _ _ _ h := nomatch h
  member _ _ _ _ _ _ _ h := nomatch h
  expressionList _ h := nomatch h
  operandList _ h := nomatch h
  groupedList _ h := nomatch h
  operators_closed _ _ _ _ h := nomatch h
  run_closed strength _ _ _ hread := by
    cases hread
    rfl

theorem counting_readers (levels : Nat) : (readers levels).Counting := by
  induction levels with
  | zero => exact Readers.counting_bottom
  | succ levels ih => exact ih.above

/-- The tree of counted tokens has lists of arguments of accepted lengths only. -/
theorem isCounted_of_ofTokens {levels : Nat} {tokens : List Token} {t : Tree}
    (h : Counted none [] tokens) (ht : ofTokens? levels tokens = some t) : t.IsCounted := by
  unfold ofTokens? at ht
  split at ht
  · rename_i hread
    cases ht
    exact ((counting_readers levels).expression h hread).1
  · cases ht

end Spreadsheet.Expression

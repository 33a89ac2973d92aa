import Mathlib.Data.List.Chain
import Spreadsheet.Expression.Reader
import Spreadsheet.Proofs.Expression.Names

/-!
# What a reader of trees takes

A reader takes tokens from the front of a list. Among the tokens that make a
tree no name directly follows a literal and no literal directly follows a point,
and every name in the tree is one of the tokens, unless it has modules before
it. All readers of a level are shown to do so from those of the level below.
-/
namespace Spreadsheet

namespace Tree

/-- The names in the operands of links. -/
def linkNames (links : List (Link Tree)) : List String :=
  links.flatMap fun link => link.operands.flatMap names

@[simp] theorem linkNames_nil : linkNames [] = [] := rfl

@[simp] theorem linkNames_cons (link : Link Tree) (links : List (Link Tree)) :
    linkNames (link :: links) = link.operands.flatMap names ++ linkNames links := rfl

@[simp] theorem linkNames_append (links others : List (Link Tree)) :
    linkNames (links ++ others) = linkNames links ++ linkNames others :=
  List.flatMap_append

@[simp] theorem names_chain (base : Tree) (links : List (Link Tree)) :
    (chain base links).names = base.names ++ linkNames links := by
  rw [names, namesLinks_eq, linkNames]

@[simp] theorem names_junction (j : Junction) (ts : List Tree) :
    (junction j ts).names = ts.flatMap names := by
  rw [names, namesAll_eq]

theorem names_operandsOf (j : Junction) (t : Tree) :
    (t.operandsOf j).flatMap names = t.names := by
  unfold operandsOf
  split
  · split
    · rw [names_junction]
    · exact List.flatMap_singleton ..
  · exact List.flatMap_singleton ..

theorem names_signed (s : Sign) (t : Tree) : (signed s t).names = t.names := by
  unfold signed
  split
  · rfl
  · split <;> rfl
  · rfl
  · rfl
  · rfl

theorem names_joined {c : Connective} {left right t : Tree} (h : joined c left right = some t) :
    t.names = left.names ++ right.names := by
  unfold joined at h
  split at h
  · cases h
    rfl
  · cases h
    simp [names_operandsOf]
  · split at h <;> cases h
    simp [names_operandsOf]

theorem names_withElements {base t : Tree} {elements : List (Link Tree)}
    (h : base.withElements elements = some t) : t.names = base.names ++ linkNames elements := by
  unfold withElements at h
  split at h
  · cases h
    simp
  · split at h <;> cases h
    exact names_chain ..
  · cases h
    exact names_chain ..

theorem leadingIndices_append (links : List (Link Tree)) :
    (leadingIndices links).1.map (fun i => Link.element i.1 i.2) ++ (leadingIndices links).2 =
      links := by
  fun_induction leadingIndices links with
  | case1 isOptional index links indices rest hrest ih =>
    rw [hrest] at ih
    simpa using ih
  | case2 links => rfl

theorem names_withMembers (base : Tree) (members : List (Link Tree)) :
    (base.withMembers members).names = base.names ++ linkNames members := by
  unfold withMembers
  split
  · simp
  · rename_i members root links _
    have hlinks := congrArg linkNames (leadingIndices_append links)
    generalize leadingIndices links = found at hlinks ⊢
    obtain ⟨indices, rest⟩ := found
    dsimp only at hlinks ⊢
    split
    · exact names_chain ..
    · rename_i isOptional last hlast
      -- The last index stands apart from those before it.
      obtain ⟨before, rfl⟩ := List.getLast?_eq_some_iff.1 hlast
      split
      · rename_i hrest
        rw [List.isEmpty_iff.1 hrest, List.append_nil] at hlinks
        rw [names_chain, linkNames_append, hlinks, names_chain, List.append_assoc]
      · simp only [List.map_append, List.map_cons, List.map_nil, linkNames_append, linkNames_cons,
          linkNames_nil, Link.operands] at hlinks
        simp [Link.operands, ← hlinks]
  · exact names_chain ..

theorem names_closure_subset (parameters : List String) (body : Tree) :
    (closure parameters body).names ⊆ body.names :=
  List.filter_subset_self _

end Tree

theorem mem_qualifiedName {path : List String} (name : String) (h : path ≠ []) :
    ':' ∈ (qualifiedName path name).toList := by
  cases path with
  | nil => exact absurd rfl h
  | cons part path => simp [qualifiedName]

namespace Expression
open Spreadsheet.Tree

namespace Token

def isLiteral : Token → Bool
  | literal _ => true
  | _ => false

/-- Whether a token is a name or names a function. -/
def isName : Token → Bool
  | name _ | callable _ => true
  | _ => false

def isPoint : Token → Bool
  | point _ => true
  | _ => false

/-- Whether any token may stand after a token. -/
def admitsAll (t : Token) : Bool := !t.isLiteral && !t.isPoint

/-- Whether a token may stand after any token. -/
def followsAll (t : Token) : Bool := !t.isLiteral && !t.isName

/-- A name does not directly follow a literal, and a literal no point. -/
def MayPrecede (a b : Token) : Prop :=
  (a.isLiteral = true → b.isName = false) ∧ (a.isPoint = true → b.isLiteral = false)

theorem mayPrecede_of_admitsAll {a b : Token} (h : a.admitsAll = true) : a.MayPrecede b := by
  simp only [admitsAll, Bool.and_eq_true, Bool.not_eq_true'] at h
  simp [MayPrecede, h]

theorem mayPrecede_of_followsAll {a b : Token} (h : b.followsAll = true) : a.MayPrecede b := by
  simp only [followsAll, Bool.and_eq_true, Bool.not_eq_true'] at h
  simp [MayPrecede, h]

end Token

/-- A name that is one of the tokens or has modules before it. -/
def IsFrom (used : List Token) (n : String) : Prop := .name n ∈ used ∨ ':' ∈ n.toList

/-- What was read from the first list up to the second has the given names. -/
def Read (tokens rest : List Token) (names : List String) : Prop :=
  ∃ used, tokens = used ++ rest ∧ used.IsChain Token.MayPrecede ∧ ∀ n ∈ names, IsFrom used n

/-- The same of what may stand after an operand. -/
def ReadAfter (tokens rest : List Token) (names : List String) : Prop :=
  ∃ used, tokens = used ++ rest ∧ (∀ t ∈ used.head?, t.followsAll = true) ∧
    used.IsChain Token.MayPrecede ∧ ∀ n ∈ names, IsFrom used n

section
variable {tokens middle rest : List Token} {names others : List String} {x : Token}

theorem Read.mono (h : Read tokens rest names) (hn : others ⊆ names) :
    Read tokens rest others := by
  obtain ⟨used, ht, hchain, hfrom⟩ := h
  exact ⟨used, ht, hchain, fun n hmem => hfrom n (hn hmem)⟩

theorem ReadAfter.read (h : ReadAfter tokens rest names) : Read tokens rest names := by
  obtain ⟨used, ht, _, hread⟩ := h
  exact ⟨used, ht, hread⟩

theorem ReadAfter.refl (tokens : List Token) : ReadAfter tokens tokens [] :=
  ⟨[], rfl, by simp, .nil, by simp⟩

theorem Read.single (x : Token) (rest : List Token) : Read (x :: rest) rest [] :=
  ⟨[x], rfl, .singleton x, by simp⟩

theorem Read.name (n : String) (rest : List Token) : Read (.name n :: rest) rest [n] :=
  ⟨[.name n], rfl, .singleton _, fun m hm => .inl (by rw [List.mem_singleton.1 hm]; simp)⟩

/-- What begins with a token that may stand anywhere can stand after an operand. -/
theorem Read.after (h : Read (x :: tokens) rest names) (hx : x.followsAll = true) :
    ReadAfter (x :: tokens) rest names := by
  obtain ⟨used, ht, hread⟩ := h
  refine ⟨used, ht, ?_, hread⟩
  cases used with
  | nil => simp
  | cons t used =>
    cases ht
    simpa using hx

theorem Read.cons_of_mayPrecede (h : Read tokens rest names)
    (hx : ∀ t ∈ tokens.head?, x.MayPrecede t) : Read (x :: tokens) rest names := by
  obtain ⟨used, rfl, hchain, hfrom⟩ := h
  refine ⟨x :: used, rfl, List.isChain_cons.2 ⟨fun t ht => hx t ?_, hchain⟩,
    fun n hn => (hfrom n hn).imp_left (List.mem_cons_of_mem _)⟩
  rw [List.head?_append, Option.mem_def.1 ht]
  rfl

theorem Read.cons (h : Read tokens rest names) (hx : x.admitsAll = true) :
    Read (x :: tokens) rest names :=
  h.cons_of_mayPrecede fun _ _ => Token.mayPrecede_of_admitsAll hx

theorem Read.consAfter (h : Read tokens rest names) (hx : x.admitsAll = true)
    (hx' : x.followsAll = true) : ReadAfter (x :: tokens) rest names :=
  (h.cons hx).after hx'

theorem Read.then (h : Read tokens middle names) (k : ReadAfter middle rest others) :
    Read tokens rest (names ++ others) := by
  obtain ⟨used, rfl, hchain, hfrom⟩ := h
  obtain ⟨more, rfl, hhead, hmore, hothers⟩ := k
  refine ⟨used ++ more, (List.append_assoc ..).symm, List.isChain_append.2 ⟨hchain, hmore,
    fun _ _ t ht => Token.mayPrecede_of_followsAll (hhead t ht)⟩, fun n hn => ?_⟩
  rcases List.mem_append.1 hn with hn | hn
  · exact (hfrom n hn).imp_left (List.mem_append_left _)
  · exact (hothers n hn).imp_left (List.mem_append_right _)

end

/-- What a reader takes has the names of what it makes. -/
def Takes {α : Type} (read : Reader α) (names : α → List String) : Prop :=
  ∀ {tokens x rest}, read tokens = some (x, rest) → Read tokens rest (names x)

/-- The same of a reader of something in curly brackets, after which any token may stand. -/
def TakesBlock (read : Reader Tree) : Prop :=
  ∀ {tokens t rest}, read tokens = some (t, rest) → ∃ inside, tokens = .opened .curly :: inside ∧
    ∀ {last others}, Read rest last others → Read inside last (t.names ++ others)

/-- The same of a reader of what follows an operand. -/
def TakesAfter (read : Tree → Reader Tree) : Prop :=
  ∀ {left tokens t rest}, read left tokens = some (t, rest) →
    ∃ names, ReadAfter tokens rest names ∧ t.names ⊆ left.names ++ names

theorem eq_of_afterClosed {bracket : Bracket} {tokens rest : List Token}
    (h : afterClosed? bracket tokens = some rest) : tokens = .closed bracket :: rest := by
  unfold afterClosed? at h
  split at h
  · split at h <;> cases h
    rename_i hb
    rw [hb]
  · cases h

theorem readAfter_of_afterClosed {bracket : Bracket} {tokens rest : List Token}
    (h : afterClosed? bracket tokens = some rest) : ReadAfter tokens rest [] := by
  rw [eq_of_afterClosed h]
  exact (Read.single _ _).after rfl

section
variable {item block : Reader Tree}

theorem takes_readItems (hitem : Takes item names) (bracket : Bracket) (bound : Nat) :
    Takes (readItems item bracket bound) fun ts => ts.flatMap names := by
  intro tokens found rest h
  induction bound generalizing tokens found rest with
  | zero => cases h
  | succ bound ih =>
    rw [readItems] at h
    split at h
    · rename_i hclosed
      cases h
      exact (readAfter_of_afterClosed hclosed).read
    · simp only [Option.bind_eq_bind, Option.bind_eq_some_iff] at h
      obtain ⟨⟨first, middle⟩, hfirst, h⟩ := h
      dsimp only at h
      split at h
      · obtain ⟨⟨others, _⟩, hothers, he⟩ := Option.bind_eq_some_iff.1 h
        cases he
        exact (hitem hfirst).then ((ih hothers).consAfter rfl rfl)
      · obtain ⟨_, hclosed, he⟩ := Option.bind_eq_some_iff.1 h
        cases he
        simpa using (hitem hfirst).then (readAfter_of_afterClosed hclosed)

theorem read_of_readFieldName {tokens rest last : List Token} {name : String}
    {names : List String} (h : readFieldName tokens = some (name, rest))
    (hread : Read rest last names) : Read tokens last names := by
  unfold readFieldName at h
  split at h
  · cases h
    exact (hread.cons rfl).cons rfl
  · cases h
    exact (Read.single _ _).then (hread.consAfter rfl rfl)
  · cases h

theorem takes_readFields (hitem : Takes item names) (bound : Nat) (taken : List String) :
    Takes (readFields item bound taken) fun fields => fields.flatMap fun f => f.2.names := by
  intro tokens found rest h
  induction bound generalizing taken tokens found rest with
  | zero => cases h
  | succ bound ih =>
    rw [readFields] at h
    split at h
    · rename_i hclosed
      cases h
      exact (readAfter_of_afterClosed hclosed).read
    · simp only [Option.bind_eq_bind, Option.bind_eq_some_iff] at h
      obtain ⟨⟨name, middle⟩, hname, h⟩ := h
      dsimp only at h
      split at h
      · cases h
      obtain ⟨⟨value, after⟩, hvalue, h⟩ := Option.bind_eq_some_iff.1 h
      refine read_of_readFieldName hname ?_
      dsimp only at h
      split at h
      · obtain ⟨⟨others, _⟩, hothers, he⟩ := Option.bind_eq_some_iff.1 h
        cases he
        exact (hitem hvalue).then ((ih _ hothers).consAfter rfl rfl)
      · obtain ⟨_, hclosed, he⟩ := Option.bind_eq_some_iff.1 h
        cases he
        simpa using (hitem hvalue).then (readAfter_of_afterClosed hclosed)

theorem names_textPart (s : String) : (textPart s).flatMap names = [] := by
  unfold textPart
  split <;> rfl

theorem takes_readParts (hblock : TakesBlock block) (bound : Nat) :
    Takes (readParts block bound) fun ts => ts.flatMap names := by
  intro tokens found rest h
  induction bound generalizing tokens found rest with
  | zero => cases h
  | succ bound ih =>
    rw [readParts] at h
    obtain ⟨⟨part, middle⟩, hpart, h⟩ := Option.bind_eq_some_iff.1 h
    obtain ⟨inside, htokens, hinside⟩ := hblock hpart
    rw [htokens]
    dsimp only at h
    split at h
    · obtain ⟨⟨others, _⟩, hothers, he⟩ := Option.bind_eq_some_iff.1 h
      cases he
      simpa [names_textPart] using (hinside ((ih hothers).cons rfl)).cons rfl
    · cases h
      simpa [names_textPart] using (hinside (Read.single _ _)).cons rfl
    · cases h

theorem read_of_readParameters {taken parameters : List String} {tokens rest last : List Token}
    {names : List String} (h : readParameters taken tokens = some (parameters, rest))
    (hread : Read rest last names) : Read tokens last names := by
  fun_induction readParameters taken tokens with
  | case1 => 
    cases h
    exact hread.cons rfl
  | case2 => cases h
  | case3 =>
    cases h
    exact (hread.cons rfl).cons rfl
  | case4 => cases h
  | case5 _ _ _ _ ih => exact ((ih h).cons rfl).cons rfl
  | case6 => cases h

end

theorem names_called (path : List String) (isOrdered : Bool) (name : String)
    (arguments : List Tree) :
    (called path isOrdered name arguments).names = arguments.flatMap names := by
  unfold called
  split <;> rw [names, namesAll_eq]

theorem eq_of_nextConnective {strength : Nat} {tokens rest : List Token} {c : Connective}
    (h : nextConnective? strength tokens = some (c, rest)) : tokens = .connective c :: rest := by
  unfold nextConnective? at h
  split at h
  · split at h <;> cases h
    rfl
  · cases h

/-- What every reader of a level takes. -/
structure Readers.Sound (r : Readers) : Prop where
  expression : Takes r.expression names
  operand : Takes r.operand names
  operators : ∀ strength, TakesAfter (r.operators strength)
  run : ∀ strength, TakesAfter (r.run strength)
  grouped : Takes r.grouped names
  block : TakesBlock r.block
  items : Takes r.items fun ts => ts.flatMap names
  fields : Takes r.fields fun fields => fields.flatMap fun f => f.2.names
  template : ∀ s, Takes (r.template s) fun ts => ts.flatMap names
  choice : Takes r.choice names
  closure : ∀ parameters, Takes (r.closure parameters) names
  indices : ∀ isOptional, Takes (r.indices isOptional) linkNames
  /-- The point before a member belongs to it. -/
  member : ∀ isOptional {tokens links rest}, r.member isOptional tokens = some (links, rest) →
    Read (.point isOptional :: tokens) rest (linkNames links)

section
variable {r : Readers} (hr : r.Sound)
include hr

theorem read_of_readArguments {tokens middle rest : List Token} {read : Reader (List Tree)}
    {arguments : List Tree} (h : readArguments? r tokens = some (read, middle))
    (hread : read middle = some (arguments, rest)) :
    Read tokens rest (arguments.flatMap names) := by
  unfold readArguments? at h
  split at h
  · cases h
    exact (takes_readItems hr.grouped _ _ hread).cons rfl
  · cases h
    cases hread
    exact Read.single _ _
  · cases h

/-- A name is left alone, or its token and what follows it are read together. -/
theorem read_of_readNamed {path : List String} {name : String} {tokens rest : List Token}
    {t : Tree} {x : Token} (hx : x.admitsAll = true)
    (h : readNamed r path name tokens = some (t, rest)) :
    path = [] ∧ t = .named name ∧ rest = tokens ∨ Read (x :: tokens) rest t.names := by
  fun_induction readNamed r path name tokens generalizing x with
  | case1 path name rest hpath read middle hread =>
    obtain ⟨⟨arguments, _⟩, harguments, he⟩ := Option.map_eq_some_iff.1 h
    cases he
    rw [names_called]
    exact .inr (((read_of_readArguments hr hread harguments).cons rfl).cons hx)
  | case2 => cases h
  | case3 => cases h
  | case4 path name next rest ih =>
    rcases ih (x := .name next) rfl h with ⟨hpath, _⟩ | hread
    · simp at hpath
    · exact .inr ((hread.cons rfl).cons hx)
  | case5 => cases h
  | case6 path name tokens _ _ _ read middle hread =>
    obtain ⟨⟨arguments, _⟩, harguments, he⟩ := Option.map_eq_some_iff.1 h
    cases he
    rw [names_called]
    exact .inr ((read_of_readArguments hr hread harguments).cons hx)
  | case7 path name tokens =>
    cases h
    split
    · rename_i hpath
      exact .inl ⟨List.isEmpty_iff.1 hpath, rfl, rfl⟩
    · rename_i hpath
      refine .inr ⟨[x], rfl, .singleton x, fun n hn => ?_⟩
      rw [List.mem_singleton.1 hn]
      exact .inr (mem_qualifiedName name fun he => hpath (List.isEmpty_iff.2 he))

theorem read_of_readCallable {word : String} {tokens rest : List Token} {t : Tree}
    (h : readCallable r word tokens = some (t, rest)) :
    Read (.callable word :: tokens) rest t.names := by
  unfold readCallable at h
  split at h
  · cases h
  · split at h
    · rename_i hnamed
      cases h
      rcases read_of_readNamed hr (x := .callable word) rfl hnamed with ⟨_, he, _⟩ | hread
      · cases he
      · exact hread
    · cases h

theorem takes_readPrimary : Takes (readPrimary r) names := by
  intro tokens t rest h
  unfold readPrimary at h
  split at h
  · cases h
    exact Read.single _ _
  · obtain ⟨⟨parts, _⟩, hparts, he⟩ := Option.map_eq_some_iff.1 h
    cases he
    rw [names, namesAll_eq]
    exact (hr.template _ hparts).cons rfl
  · rename_i name rest
    rcases read_of_readNamed hr (x := .name name) rfl h with ⟨_, rfl, rfl⟩ | hread
    · exact Read.name _ _
    · exact hread
  · exact read_of_readCallable hr h
  · simp only [Option.bind_eq_bind, Option.bind_eq_some_iff] at h
    obtain ⟨⟨inner, middle⟩, hinner, _, hclosed, he⟩ := h
    cases he
    simpa using ((hr.grouped hinner).then (readAfter_of_afterClosed hclosed)).cons rfl
  · obtain ⟨⟨items, _⟩, hitems, he⟩ := Option.map_eq_some_iff.1 h
    cases he
    rw [names, namesAll_eq]
    exact (hr.items hitems).cons rfl
  · obtain ⟨⟨fields, _⟩, hfields, he⟩ := Option.map_eq_some_iff.1 h
    cases he
    rw [names, namesFields_eq]
    exact (hr.fields hfields).cons rfl
  · exact (hr.choice h).cons rfl
  · exact (hr.closure _ h).cons rfl
  · simp only [Option.bind_eq_bind, Option.bind_eq_some_iff] at h
    obtain ⟨⟨parameters, middle⟩, hparameters, h⟩ := h
    exact (read_of_readParameters hparameters (hr.closure _ h)).cons rfl
  · cases h

theorem readAfter_of_readElements {tokens rest : List Token} {links : List (Link Tree)}
    (h : readElements r tokens = some (links, rest)) :
    ReadAfter tokens rest (linkNames links) := by
  unfold readElements at h
  split at h
  · exact (hr.indices _ h).consAfter rfl rfl
  · exact (hr.indices _ h).consAfter rfl rfl
  · cases h
    exact .refl _

theorem readAfter_of_readMembers {tokens rest : List Token} {links : List (Link Tree)}
    (h : readMembers r tokens = some (links, rest)) :
    ReadAfter tokens rest (linkNames links) := by
  unfold readMembers at h
  split at h
  · exact (hr.member _ h).after rfl
  · cases h
    exact .refl _

theorem takes_readLinked : Takes (readLinked r) names := by
  intro tokens t rest h
  simp only [readLinked, Option.bind_eq_bind, Option.bind_eq_some_iff] at h
  obtain ⟨⟨base, middle⟩, hbase, ⟨elements, after⟩, helements, tree, htree, ⟨members, _⟩,
    hmembers, he⟩ := h
  cases he
  rw [names_withMembers, names_withElements htree]
  exact ((takes_readPrimary hr hbase).then (readAfter_of_readElements hr helements)).then
    (readAfter_of_readMembers hr hmembers)

/-- No literal stands after a point, and the point belongs to the member. -/
theorem read_of_readMember {isOptional : Bool} {tokens rest : List Token} {link : Link Tree}
    (h : readMember r isOptional tokens = some (link, rest)) :
    Read (.point isOptional :: tokens) rest (link.operands.flatMap names) := by
  have hpoint : ∀ {x : Token} {tail last : List Token} {names : List String},
      x.isLiteral = false → Read (x :: tail) last names →
        Read (.point isOptional :: x :: tail) last names := by
    intro x tail last names hx hread
    refine hread.cons_of_mayPrecede fun t ht => ?_
    cases ht
    exact ⟨nofun, fun _ => hx⟩
  unfold readMember at h
  split at h
  · cases h
  · cases h
  · split at h
    · rename_i read middle hread
      obtain ⟨⟨arguments, _⟩, harguments, he⟩ := Option.map_eq_some_iff.1 h
      cases he
      exact hpoint rfl ((read_of_readArguments hr hread harguments).cons rfl)
    · cases h
      exact hpoint rfl (Read.single _ _)
  · simp only [Option.bind_eq_bind] at h
    split at h
    · cases h
    simp only [Option.bind_eq_some_iff] at h
    obtain ⟨⟨read, middle⟩, hread, h⟩ := h
    obtain ⟨⟨arguments, _⟩, harguments, he⟩ := Option.map_eq_some_iff.1 h
    cases he
    exact hpoint rfl ((read_of_readArguments hr hread harguments).cons rfl)
  · cases h

theorem takes_operandAbove : Takes r.operandAbove names := by
  intro tokens t rest h
  unfold Readers.operandAbove at h
  split at h
  · cases h
  · rename_i token tail
    split at h
    · rename_i s hs
      obtain ⟨⟨operand, _⟩, hoperand, he⟩ := Option.map_eq_some_iff.1 h
      cases he
      have htoken : token.admitsAll = true := by
        unfold sign? at hs
        split at hs
        · rfl
        · rfl
        · rfl
        · cases hs
      rw [names_signed]
      exact (hr.operand hoperand).cons htoken
    · exact takes_readLinked hr h

theorem takesAfter_runAbove (strength : Nat) : TakesAfter (r.runAbove strength) := by
  intro left tokens t rest h
  unfold Readers.runAbove at h
  split at h
  · cases h
    exact ⟨[], .refl _, by simp⟩
  · rename_i c tail hnext
    rw [eq_of_nextConnective hnext]
    -- What follows once the right operand is known, with the operators that bind it more.
    have hjoin : ∀ {right after}, Read tail after right.names →
        ((joined c left right).bind fun tree => r.run strength tree after) = some (t, rest) →
        ∃ names, ReadAfter (.connective c :: tail) rest names ∧ t.names ⊆ left.names ++ names := by
      intro right after hread h
      obtain ⟨tree, htree, h⟩ := Option.bind_eq_some_iff.1 h
      obtain ⟨more, hmore, hsub⟩ := hr.run _ h
      refine ⟨right.names ++ more, (hread.then hmore).consAfter rfl rfl, ?_⟩
      rwa [names_joined htree, List.append_assoc] at hsub
    obtain ⟨⟨first, middle⟩, hfirst, h⟩ := Option.bind_eq_some_iff.1 h
    have hread := takes_operandAbove hr hfirst
    dsimp only at h
    split at h
    · obtain ⟨⟨right, after⟩, hright, h⟩ := Option.bind_eq_some_iff.1 h
      obtain ⟨more, hmore, hsub⟩ := hr.run _ hright
      exact hjoin ((hread.then hmore).mono hsub) h
    · exact hjoin hread h

theorem takesBlock_blockAbove : TakesBlock r.blockAbove := by
  intro tokens t rest h
  unfold Readers.blockAbove at h
  split at h
  · simp only [Option.bind_eq_bind, Option.bind_eq_some_iff] at h
    obtain ⟨⟨tree, middle⟩, htree, _, hclosed, he⟩ := h
    cases he
    have hmiddle : middle = .closed .curly :: rest := eq_of_afterClosed hclosed
    refine ⟨_, rfl, fun hread => (hr.grouped htree).then ?_⟩
    rw [hmiddle]
    exact hread.consAfter rfl rfl
  · cases h

theorem takes_choiceAbove : Takes r.choiceAbove names := by
  intro tokens t rest h
  simp only [Readers.choiceAbove, Option.bind_eq_bind, Option.bind_eq_some_iff] at h
  obtain ⟨⟨condition, middle⟩, hcondition, h⟩ := h
  dsimp only at h
  split at h
  · cases h
  simp only [Option.bind_eq_some_iff] at h
  obtain ⟨⟨yes, after⟩, hyes, h⟩ := h
  obtain ⟨inside, htokens, hinside⟩ := hr.block hyes
  rw [htokens] at hcondition
  dsimp only at h
  split at h
  · obtain ⟨⟨no, _⟩, hno, he⟩ := Option.bind_eq_some_iff.1 h
    cases he
    have hrest := hinside ((hr.choice hno).consAfter (x := .whether) rfl rfl |>.read.cons
      (x := .otherwise) rfl)
    rw [names, List.append_assoc]
    exact (hr.expression hcondition).then (hrest.consAfter rfl rfl)
  · obtain ⟨⟨no, _⟩, hno, he⟩ := Option.bind_eq_some_iff.1 h
    cases he
    obtain ⟨inner, htokens, hinner⟩ := hr.block hno
    rw [htokens] at hinside
    have hlast := hinner (ReadAfter.refl _).read
    have hrest := hinside ((hlast.cons rfl).cons rfl)
    rw [names, List.append_assoc]
    simpa using (hr.expression hcondition).then (hrest.consAfter rfl rfl)
  · cases h
    have hrest := hinside (ReadAfter.refl _).read
    simpa [names] using (hr.expression hcondition).then (hrest.consAfter rfl rfl)

theorem takes_closureAbove (parameters : List String) :
    Takes (r.closureAbove parameters) names := by
  intro tokens t rest h
  unfold Readers.closureAbove at h
  split at h
  · obtain ⟨⟨body, _⟩, hbody, he⟩ := Option.bind_eq_some_iff.1 h
    cases he
    obtain ⟨inside, htokens, hinside⟩ := hr.block hbody
    rw [htokens]
    have hread := (hinside (ReadAfter.refl _).read).cons (x := .opened .curly) rfl
    rw [List.append_nil] at hread
    exact hread.mono (names_closure_subset parameters body)
  · obtain ⟨⟨body, _⟩, hbody, he⟩ := Option.bind_eq_some_iff.1 h
    cases he
    exact (hr.grouped hbody).mono (names_closure_subset parameters body)

theorem takes_indicesAbove (isOptional : Bool) : Takes (r.indicesAbove isOptional) linkNames := by
  intro tokens links rest h
  simp only [Readers.indicesAbove, Option.bind_eq_bind, Option.bind_eq_some_iff] at h
  obtain ⟨⟨index, middle⟩, hindex, after, hclosed, ⟨others, _⟩, hothers, he⟩ := h
  cases he
  have hrest := (readAfter_of_readElements hr hothers).read
  rw [show middle = .closed .square :: after from eq_of_afterClosed hclosed] at hindex
  simpa [Link.operands] using (hr.grouped hindex).then (hrest.consAfter rfl rfl)

theorem read_of_memberAbove {isOptional : Bool} {tokens rest : List Token}
    {links : List (Link Tree)} (h : r.memberAbove isOptional tokens = some (links, rest)) :
    Read (.point isOptional :: tokens) rest (linkNames links) := by
  simp only [Readers.memberAbove, Option.bind_eq_bind, Option.bind_eq_some_iff] at h
  obtain ⟨⟨first, middle⟩, hfirst, ⟨elements, after⟩, helements, ⟨members, _⟩, hmembers, he⟩ := h
  cases he
  rw [linkNames_append, linkNames_cons]
  exact ((read_of_readMember hr hfirst).then (readAfter_of_readElements hr helements)).then
    (readAfter_of_readMembers hr hmembers)

theorem Readers.Sound.above : r.above.Sound where
  expression := by
    intro tokens t rest h
    simp only [Readers.above, Option.bind_eq_bind, Option.bind_eq_some_iff] at h
    obtain ⟨⟨left, middle⟩, hleft, h⟩ := h
    obtain ⟨more, hmore, hsub⟩ := hr.operators 0 h
    exact ((hr.operand hleft).then hmore).mono hsub
  operand := takes_operandAbove hr
  operators := hr.run
  run := takesAfter_runAbove hr
  grouped := hr.expression
  block := takesBlock_blockAbove hr
  items h := takes_readItems hr.expression _ _ h
  fields h := takes_readFields hr.expression _ _ h
  template s := by
    intro tokens parts rest h
    obtain ⟨⟨others, _⟩, hothers, he⟩ := Option.map_eq_some_iff.1 h
    cases he
    simpa [names_textPart] using takes_readParts hr.block _ hothers
  choice := takes_choiceAbove hr
  closure := takes_closureAbove hr
  indices := takes_indicesAbove hr
  member _ _ _ _ h := read_of_memberAbove hr h

end

theorem Readers.sound_bottom : Readers.bottom.Sound where
  expression h := nomatch h
  operand h := nomatch h
  operators _ _ _ _ _ h := nomatch h
  run strength := by
    intro left tokens t rest h
    simp only [Readers.bottom] at h
    split at h <;> cases h
    exact ⟨[], .refl _, by simp⟩
  grouped h := nomatch h
  block h := nomatch h
  items h := nomatch h
  fields h := nomatch h
  template _ _ _ _ h := nomatch h
  choice h := nomatch h
  closure _ _ _ _ h := nomatch h
  indices _ _ _ _ h := nomatch h
  member _ _ _ _ h := nomatch h

theorem sound_readers (levels : Nat) : (readers levels).Sound := by
  induction levels with
  | zero => exact Readers.sound_bottom
  | succ levels ih => exact ih.above

/-- In the tokens of a tree no name follows a literal and no literal follows a point, and its names
are among them. -/
theorem read_of_ofTokens {levels : Nat} {tokens : List Token} {t : Tree}
    (h : ofTokens? levels tokens = some t) :
    tokens.IsChain Token.MayPrecede ∧ ∀ n ∈ t.names, IsFrom tokens n := by
  unfold ofTokens? at h
  split at h
  · rename_i hread
    cases h
    obtain ⟨used, rfl, hchain, hfrom⟩ := (sound_readers levels).expression hread
    rw [List.append_nil]
    exact ⟨hchain, hfrom⟩
  · cases h

end Expression
end Spreadsheet

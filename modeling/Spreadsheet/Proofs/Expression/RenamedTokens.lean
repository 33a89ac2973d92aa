import Mathlib.Data.List.Basic
import Spreadsheet.Expression.Reader
import Spreadsheet.Proofs.Expression.Adjacency
import Spreadsheet.Proofs.Expression.Renaming

/-!
# Reading expressions with other names

A name among the tokens of an expression is that of a function if its arguments
follow, that of a property if a point stands before it, and else that of an
operand. If the functions and the operands get other names, each operand its
own, the tree that is read has the other names in the place of the old ones.
This is shown for expressions without modules and fields, reader by reader, for
each level from the one below.
-/
namespace Spreadsheet.Expression

/-- Whether the arguments of a call follow. -/
def beginsArguments : List Token → Bool
  | .opened .round :: _ | .literal .unit :: _ => true
  | _ => false

/-- Whether a name before the tokens is called. -/
def beginsCall : List Token → Bool
  | .negation :: rest => beginsArguments rest
  | tokens => beginsArguments tokens

/-- The new name for a name that has the given tokens after it. -/
def newName (f g : String → String) (isMember : Bool) (rest : List Token) (n : String) : String :=
  if beginsCall rest then g n else if isMember then n else f n

namespace Token

/-- A token with another name in it, given the tokens after it. -/
def rename (f g : String → String) (isMember : Bool) (rest : List Token) : Token → Token
  | name n => name (newName f g isMember rest n)
  | callable word => callable (if beginsCall rest then g word else word)
  | token => token

/-- Whether a token belongs neither to a path nor to a field. -/
def isSimple : Token → Bool
  | path | colon => false
  | _ => true

end Token

/-- Tokens with other names in them. A point before them makes the first one a member. -/
def renameTokens (f g : String → String) (isMember : Bool) : List Token → List Token
  | [] => []
  | token :: rest => token.rename f g isMember rest :: renameTokens f g token.isPoint rest

/-- Whether tokens have neither paths nor fields. -/
def AreSimple (tokens : List Token) : Prop := ∀ token ∈ tokens, token.isSimple = true

section
variable {f g : String → String} {token : Token} {tokens rest : List Token}

@[simp] theorem renameTokens_nil (b : Bool) : renameTokens f g b [] = [] := rfl

@[simp] theorem renameTokens_cons (b : Bool) : renameTokens f g b (token :: rest) =
    token.rename f g b rest :: renameTokens f g token.isPoint rest := rfl

@[simp] theorem length_renameTokens (b : Bool) (tokens : List Token) :
    (renameTokens f g b tokens).length = tokens.length := by
  induction tokens generalizing b with
  | nil => rfl
  | cons token tokens ih => rw [renameTokens_cons, List.length_cons, List.length_cons, ih]

@[simp] theorem beginsArguments_renameTokens (b : Bool) (tokens : List Token) :
    beginsArguments (renameTokens f g b tokens) = beginsArguments tokens := by
  cases tokens with
  | nil => rfl
  | cons token rest =>
    cases token with
    | literal value => cases value <;> rfl
    | opened bracket => cases bracket <;> rfl
    | _ => rfl

@[simp] theorem beginsCall_renameTokens (b : Bool) (tokens : List Token) :
    beginsCall (renameTokens f g b tokens) = beginsCall tokens := by
  cases tokens with
  | nil => rfl
  | cons token rest =>
    cases token with
    | negation => exact beginsArguments_renameTokens ..
    | literal value => cases value <;> rfl
    | opened bracket => cases bracket <;> rfl
    | _ => rfl

theorem AreSimple.tail (h : AreSimple (token :: rest)) : AreSimple rest :=
  fun _ ht => h _ (List.mem_cons_of_mem _ ht)

theorem AreSimple.head (h : AreSimple (token :: rest)) : token.isSimple = true :=
  h _ List.mem_cons_self

end

/-! ## What is read of renamed tokens -/

section
variable {f g : String → String} {α β γ δ : Type} {h : α → β} {h' : γ → δ}

/-- The second reading finds what the first one does, with other names, and the same is left. -/
def Retold (f g : String → String) (h : α → β) (x : Option (α × List Token))
    (y : Option (β × List Token)) : Prop :=
  y = x.map (Prod.map h (renameTokens f g false)) ∧ ∀ found ∈ x, AreSimple found.2

theorem Retold.none : Retold f g h none none := ⟨rfl, nofun⟩

theorem Retold.some {a : α} {rest : List Token} (hrest : AreSimple rest) :
    Retold f g h (some (a, rest)) (some (h a, renameTokens f g false rest)) :=
  ⟨rfl, fun found hfound => by cases hfound; exact hrest⟩

theorem Retold.bind {x : Option (α × List Token)} {y : Option (β × List Token)}
    (hxy : Retold f g h x y) {k : α × List Token → Option (γ × List Token)}
    {k' : β × List Token → Option (δ × List Token)}
    (hk : ∀ a rest, AreSimple rest →
      Retold f g h' (k (a, rest)) (k' (h a, renameTokens f g false rest))) :
    Retold f g h' (x >>= k) (y >>= k') := by
  obtain ⟨rfl, hsimple⟩ := hxy
  cases x with
  | none => exact .none
  | some found => exact hk found.1 found.2 (hsimple found rfl)

theorem Retold.map {x : Option (α × List Token)} {y : Option (β × List Token)}
    (hxy : Retold f g h x y) {c : α → γ} {c' : β → δ} (hc : ∀ a, c' (h a) = h' (c a)) :
    Retold f g h' (x.map fun found => (c found.1, found.2))
      (y.map fun found => (c' found.1, found.2)) := by
  obtain ⟨rfl, hsimple⟩ := hxy
  cases x with
  | none => exact .none
  | some found =>
    refine ⟨?_, fun _ hfound => by cases hfound; exact hsimple found rfl⟩
    simp [hc]

theorem afterClosed_renameTokens (bracket : Bracket) (b : Bool) (tokens : List Token) :
    afterClosed? bracket (renameTokens f g b tokens) =
      (afterClosed? bracket tokens).map (renameTokens f g false) := by
  cases tokens with
  | nil => rfl
  | cons token rest =>
    cases token with
    | closed c =>
      simp only [renameTokens_cons, Token.rename, afterClosed?, Token.isPoint]
      split <;> rfl
    | _ => rfl

theorem Retold.closed {bracket : Bracket} {tokens : List Token} (ht : AreSimple tokens)
    {k : List Token → Option (α × List Token)} {k' : List Token → Option (β × List Token)}
    (hk : ∀ rest, AreSimple rest → Retold f g h (k rest) (k' (renameTokens f g false rest))) :
    Retold f g h (afterClosed? bracket tokens >>= k)
      (afterClosed? bracket (renameTokens f g false tokens) >>= k') := by
  rw [afterClosed_renameTokens]
  cases hclosed : afterClosed? bracket tokens with
  | none => exact .none
  | some rest =>
    have hrest := eq_of_afterClosed hclosed
    rw [hrest] at ht
    exact hk rest ht.tail

/-- A reader of renamed tokens that finds what another finds of the old ones. -/
def Retells (f g : String → String) (h : α → β) (read : Reader α) (read' : Reader β) : Prop :=
  ∀ tokens, AreSimple tokens → Retold f g h (read tokens) (read' (renameTokens f g false tokens))

end

/-! ## Trees of parts with other names -/

section
variable {f g : String → String}

theorem isPlainLiteral_rename (t : Tree) : (t.rename f g).isPlainLiteral = t.isPlainLiteral := by
  cases t <;> rfl

theorem refusesIndex_rename (base index : Tree) :
    (base.rename f g).refusesIndex (index.rename f g) = base.refusesIndex index := by
  have hplace : (index.rename f g).isNoPlace = index.isNoPlace := by
    cases index with
    | junction j operands => cases j <;> rfl
    | _ => rfl
  have hfield : (index.rename f g).isNoFieldName = index.isNoFieldName := by
    cases index with
    | junction j operands => cases j <;> rfl
    | _ => rfl
  cases base with
  | constant d => cases d <;> first | rfl | exact hplace
  | template parts => exact hplace
  | list items => exact hplace
  | record fields => exact hfield
  | _ => rfl

theorem signed_rename (s : Sign) (t : Tree) :
    Tree.signed s (t.rename f g) = (Tree.signed s t).rename f g := by
  cases t with
  | constant d =>
    cases d with
    | whole n =>
      cases s with
      | minus =>
        simp only [Tree.rename, Tree.signed]
        split <;> rfl
      | _ => rfl
    | _ => cases s <;> rfl
  | _ => cases s <;> rfl

theorem operandsOf_rename (j : Junction) (t : Tree) :
    (t.rename f g).operandsOf j = (t.operandsOf j).map (Tree.rename f g) := by
  cases t with
  | junction k operands =>
    simp only [Tree.rename, Tree.renameAll_eq, Tree.operandsOf]
    split <;> simp [Tree.rename]
  | _ => rfl

theorem joined_rename (c : Connective) (left right : Tree) :
    Tree.joined c (left.rename f g) (right.rename f g) =
      (Tree.joined c left right).map (Tree.rename f g) := by
  cases c with
  | operator op => rfl
  | junction j =>
    cases j with
    | fallback => simp [Tree.joined, operandsOf_rename, Tree.rename]
    | _ =>
      simp only [Tree.joined, isPlainLiteral_rename]
      split <;> simp [operandsOf_rename, Tree.rename]

theorem withElements_rename (base : Tree) (elements : List (Link Tree)) :
    (base.rename f g).withElements (elements.map (Tree.renameLink f g)) =
      (base.withElements elements).map (Tree.rename f g) := by
  cases elements with
  | nil => rfl
  | cons link links =>
    cases link with
    | element isOptional index =>
      simp only [List.map_cons, Tree.renameLink, Tree.withElements, refusesIndex_rename]
      split <;> simp [Tree.rename, Tree.renameLink]
    | _ => simp [Tree.withElements, Tree.rename, Tree.renameLink]

theorem leadingIndices_rename (links : List (Link Tree)) :
    Tree.leadingIndices (links.map (Tree.renameLink f g)) =
      ((Tree.leadingIndices links).1.map fun i => (i.1, i.2.rename f g),
        (Tree.leadingIndices links).2.map (Tree.renameLink f g)) := by
  induction links with
  | nil => rfl
  | cons link links ih =>
    cases link with
    | element isOptional index =>
      simp only [List.map_cons, Tree.renameLink, Tree.leadingIndices, ih]
    | _ => rfl

theorem withMembers_rename (base : Tree) (members : List (Link Tree)) :
    (base.rename f g).withMembers (members.map (Tree.renameLink f g)) =
      (base.withMembers members).rename f g := by
  cases members with
  | nil => cases base <;> rfl
  | cons member members =>
    cases base with
    | chain root links =>
      simp only [Tree.rename, Tree.renameLinks_eq, List.map_cons, Tree.withMembers,
        leadingIndices_rename, List.getLast?_map]
      generalize Tree.leadingIndices links = found
      obtain ⟨indices, rest⟩ := found
      dsimp only
      cases indices.getLast? with
      | none => simp [Tree.rename]
      | some last =>
        simp only [Option.map_some, List.isEmpty_map]
        split
        · simp [Tree.rename, Tree.renameLink, Function.comp_def]
        · simp [Tree.rename, Tree.renameLink, Function.comp_def]
    | _ => simp [Tree.withMembers, Tree.rename]

theorem closure_rename (hf : f.Injective) (hqualified : ∀ n, ':' ∈ n.toList → f n = n)
    (parameters : List String) (body : Tree) :
    Tree.closure (parameters.map f) (body.rename f g) =
      (Tree.closure parameters body).rename f g := by
  rw [Tree.closure, Tree.closure, Tree.rename, Tree.names_rename hqualified, List.filter_map]
  congr 3
  funext n
  simp [hf.eq_iff]

end

/-! ## Lists -/

section
variable {f g : String → String} {item : Reader Tree}
  (hitem : Retells f g (Tree.rename f g) item item)
include hitem

theorem retells_readItems (bracket : Bracket) (bound : Nat) :
    Retells f g (List.map (Tree.rename f g)) (readItems item bracket bound)
      (readItems item bracket bound) := by
  induction bound with
  | zero => exact fun _ _ => .none
  | succ bound ih =>
    intro tokens ht
    rw [readItems, readItems, afterClosed_renameTokens]
    cases hclosed : afterClosed? bracket tokens with
    | some rest =>
      rw [eq_of_afterClosed hclosed] at ht
      exact .some ht.tail
    | none =>
      refine (hitem tokens ht).bind fun first rest hrest => ?_
      cases rest with
      | nil => exact .none
      | cons token rest =>
        have hlast : Retold f g (List.map (Tree.rename f g))
            (afterClosed? bracket (token :: rest) >>= fun rest => some ([first], rest))
            (afterClosed? bracket (renameTokens f g false (token :: rest)) >>= fun rest =>
              some ([first.rename f g], rest)) :=
          Retold.closed hrest fun rest hrest => .some hrest
        cases token with
        | comma => exact (ih rest hrest.tail).bind fun others rest hrest => .some hrest
        | _ => exact hlast

omit hitem in
theorem readFieldName_of_areSimple {tokens : List Token} (ht : AreSimple tokens) :
    readFieldName tokens = none := by
  unfold readFieldName
  split
  · exact absurd ht.tail.head (by decide)
  · exact absurd ht.tail.head (by decide)
  · rfl

omit hitem in
theorem areSimple_renameTokens {b : Bool} {tokens : List Token} (ht : AreSimple tokens) :
    AreSimple (renameTokens f g b tokens) := by
  induction tokens generalizing b with
  | nil => exact ht
  | cons token rest ih =>
    refine List.forall_mem_cons.2 ⟨?_, ih ht.tail⟩
    have hsimple := ht.head
    cases token <;> exact hsimple

omit hitem in
/-- Without colons there are no fields. -/
theorem retells_readFields (bound : Nat) :
    Retells f g (List.map (Tree.renameField f g)) (readFields item bound [])
      (readFields item bound []) := by
  intro tokens ht
  cases bound with
  | zero => exact .none
  | succ bound =>
    rw [readFields, readFields, afterClosed_renameTokens,
      readFieldName_of_areSimple ht, readFieldName_of_areSimple (areSimple_renameTokens ht)]
    cases hclosed : afterClosed? .curly tokens with
    | some rest =>
      rw [eq_of_afterClosed hclosed] at ht
      exact .some ht.tail
    | none => exact .none

theorem retells_readParts (bound : Nat) :
    Retells f g (List.map (Tree.rename f g)) (readParts item bound) (readParts item bound) := by
  have htext : ∀ s, (textPart s).map (Tree.rename f g) = textPart s := by
    intro s
    unfold textPart
    split <;> rfl
  induction bound with
  | zero => exact fun _ _ => .none
  | succ bound ih =>
    intro tokens ht
    rw [readParts, readParts]
    refine (hitem tokens ht).bind fun part rest hrest => ?_
    cases rest with
    | nil => exact .none
    | cons token rest =>
      cases token with
      | segment s =>
        refine (ih rest hrest.tail).bind fun others rest hrest => ?_
        have := Retold.some (f := f) (g := g) (h := List.map (Tree.rename f g))
          (a := part :: textPart s ++ others) hrest
        simpa [htext] using this
      | literal value =>
        cases value with
        | text s =>
          have := Retold.some (f := f) (g := g) (h := List.map (Tree.rename f g))
            (a := part :: textPart s) hrest.tail
          rw [List.map_cons, htext] at this
          exact this
        | _ => exact .none
      | _ => exact .none

omit hitem in
theorem readParameters_renameTokens (hf : f.Injective) {tokens : List Token}
    (ht : AreSimple tokens) (taken : List String) :
    Retold f g (List.map f) (readParameters taken tokens)
      (readParameters (taken.map f) (renameTokens f g false tokens)) := by
  have hcontains : ∀ (taken : List String) n, (taken.map f).contains (f n) = taken.contains n := by
    intro taken n
    simp [hf.eq_iff]
  fun_induction readParameters taken tokens with
  | case1 taken rest => exact .some ht.tail
  | case2 taken name rest htaken =>
    change Retold f g _ none (readParameters (taken.map f)
      (.name (f name) :: .connective (.operator .bitOr) :: renameTokens f g false rest))
    rw [readParameters, hcontains, if_pos htaken]
    exact .none
  | case3 taken name rest htaken =>
    change Retold f g _ (some (name :: taken, rest)) (readParameters (taken.map f)
      (.name (f name) :: .connective (.operator .bitOr) :: renameTokens f g false rest))
    rw [readParameters, hcontains, if_neg htaken]
    exact .some ht.tail.tail
  | case4 taken name rest htaken =>
    change Retold f g _ none (readParameters (taken.map f)
      (.name (f name) :: .comma :: renameTokens f g false rest))
    rw [readParameters, hcontains, if_pos htaken]
    exact .none
  | case5 taken name rest htaken ih =>
    change Retold f g _ (readParameters (name :: taken) rest) (readParameters (taken.map f)
      (.name (f name) :: .comma :: renameTokens f g false rest))
    rw [readParameters, hcontains, if_neg htaken]
    exact ih ht.tail.tail
  | case6 tokens taken hbar hlast hcomma =>
    have hnone : readParameters (taken.map f) (renameTokens f g false tokens) = none := by
      cases tokens with
      | nil => rfl
      | cons token rest =>
        cases token with
        | connective c =>
          cases c with
          | junction j => rfl
          | operator op => cases op <;> first | rfl | exact absurd rfl (hbar rest)
        | name n =>
          cases rest with
          | nil => rfl
          | cons next rest =>
            cases next with
            | comma => exact absurd rfl (hcomma n rest)
            | connective c =>
              cases c with
              | junction j => rfl
              | operator op => cases op <;> first | rfl | exact absurd rfl (hlast n rest)
            | _ => rfl
        | _ => rfl
    rw [hnone]
    exact .none

end

/-! ## Readers -/

/-- Readers that find in renamed tokens what they find in the old ones. -/
structure Readers.Renames (f g : String → String) (r : Readers) : Prop where
  expression : Retells f g (Tree.rename f g) r.expression r.expression
  operand : Retells f g (Tree.rename f g) r.operand r.operand
  operators : ∀ s left, Retells f g (Tree.rename f g) (r.operators s left)
    (r.operators s (left.rename f g))
  run : ∀ s left, Retells f g (Tree.rename f g) (r.run s left) (r.run s (left.rename f g))
  grouped : Retells f g (Tree.rename f g) r.grouped r.grouped
  block : Retells f g (Tree.rename f g) r.block r.block
  items : Retells f g (List.map (Tree.rename f g)) r.items r.items
  fields : Retells f g (List.map (Tree.renameField f g)) r.fields r.fields
  template : ∀ s, Retells f g (List.map (Tree.rename f g)) (r.template s) (r.template s)
  choice : Retells f g (Tree.rename f g) r.choice r.choice
  closure : ∀ parameters, Retells f g (Tree.rename f g) (r.closure parameters)
    (r.closure (parameters.map f))
  indices : ∀ b, Retells f g (List.map (Tree.renameLink f g)) (r.indices b) (r.indices b)
  member : ∀ b tokens, AreSimple tokens → Retold f g (List.map (Tree.renameLink f g))
    (r.member b tokens) (r.member b (renameTokens f g true tokens))

section
variable {f g : String → String} {r : Readers}

/-- Either no arguments follow, or those that do are read alike. -/
theorem Readers.Renames.arguments (hr : r.Renames f g) {tokens : List Token}
    (ht : AreSimple tokens) (b : Bool) :
    (beginsArguments tokens = false ∧ readArguments? r tokens = none ∧
      readArguments? r (renameTokens f g b tokens) = none) ∨
    (beginsArguments tokens = true ∧ ∃ read rest,
      readArguments? r tokens = some (read, rest) ∧
      readArguments? r (renameTokens f g b tokens) = some (read, renameTokens f g false rest) ∧
      Retold f g (List.map (Tree.rename f g)) (read rest)
        (read (renameTokens f g false rest))) := by
  cases tokens with
  | nil => exact .inl ⟨rfl, rfl, rfl⟩
  | cons token rest =>
    cases token with
    | literal value =>
      cases value with
      | unit => exact .inr ⟨rfl, _, _, rfl, rfl, .some ht.tail⟩
      | _ => exact .inl ⟨rfl, rfl, rfl⟩
    | opened bracket =>
      cases bracket with
      | round =>
        refine .inr ⟨rfl, _, _, rfl, rfl, ?_⟩
        rw [length_renameTokens]
        exact retells_readItems hr.grouped .round rest.length rest ht.tail
      | _ => exact .inl ⟨rfl, rfl, rfl⟩
    | _ => exact .inl ⟨rfl, rfl, rfl⟩

/-- What a call is made of its arguments, or what is read if there are none. -/
def readCall {α : Type} (r : Readers) (c : List Tree → α) (plain : Option (α × List Token))
    (tokens : List Token) : Option (α × List Token) :=
  match readArguments? r tokens with
  | some (read, rest) => (read rest).map fun found => (c found.1, found.2)
  | none => plain

theorem Readers.Renames.call (hr : r.Renames f g) {α : Type} {h : α → α} {tokens : List Token}
    (ht : AreSimple tokens) {b : Bool} {c c' : List Tree → α}
    {plain plain' : Option (α × List Token)}
    (hcall : beginsArguments tokens = true → ∀ ts, c' (ts.map (Tree.rename f g)) = h (c ts))
    (hplain : beginsArguments tokens = false → Retold f g h plain plain') :
    Retold f g h (readCall r c plain tokens)
      (readCall r c' plain' (renameTokens f g b tokens)) := by
  rcases hr.arguments ht b with ⟨hbegins, hread, hread'⟩ | ⟨hbegins, read, rest, hread, hread', hk⟩
  · rw [readCall, hread, readCall, hread']
    exact hplain hbegins
  · rw [readCall, hread, readCall, hread']
    exact hk.map (hcall hbegins)

theorem readNamed_of_ne_negation {tokens : List Token} (ht : AreSimple tokens)
    (hne : ∀ rest, tokens ≠ .negation :: rest) (n : String) :
    readNamed r [] n tokens = readCall r (.call false n) (some (.named n, tokens)) tokens ∧
      beginsCall tokens = beginsArguments tokens := by
  cases tokens with
  | nil => exact ⟨rfl, rfl⟩
  | cons token rest =>
    have hhead := ht.head
    cases token with
    | negation => exact absurd rfl (hne rest)
    | path => cases hhead
    | _ => exact ⟨rfl, rfl⟩

theorem ne_negation_renameTokens {tokens : List Token} {b : Bool}
    (hne : ∀ rest, tokens ≠ .negation :: rest) (rest : List Token) :
    renameTokens f g b tokens ≠ .negation :: rest := by
  cases tokens with
  | nil => nofun
  | cons token tokens =>
    cases token with
    | negation => exact absurd rfl (hne tokens)
    | _ => nofun

theorem Readers.Renames.named (hr : r.Renames f g) {tokens : List Token} (ht : AreSimple tokens)
    (n : String) :
    Retold f g (Tree.rename f g) (readNamed r [] n tokens)
      (readNamed r [] (newName f g false tokens n) (renameTokens f g false tokens)) := by
  by_cases hnegation : ∃ rest, tokens = .negation :: rest
  · obtain ⟨rest, rfl⟩ := hnegation
    refine hr.call (c := Tree.call true n) ht.tail (fun hbegins ts => ?_) fun _ => .none
    rw [newName, beginsCall, if_pos hbegins, Tree.rename, Tree.renameAll_eq]
    rfl
  · have hne : ∀ rest, tokens ≠ .negation :: rest := fun rest h => hnegation ⟨rest, h⟩
    obtain ⟨hread, hbegins⟩ := readNamed_of_ne_negation (r := r) ht hne n
    rw [hread, (readNamed_of_ne_negation (areSimple_renameTokens ht)
      (ne_negation_renameTokens hne) _).1]
    refine hr.call ht (fun hcall ts => ?_) fun hcall => ?_
    · rw [newName, hbegins, if_pos hcall, Tree.rename, Tree.renameAll_eq]
    · rw [newName, hbegins, hcall]
      exact .some ht

theorem readCall_of_not_beginsArguments {α : Type} {c : List Tree → α}
    {plain : Option (α × List Token)} {tokens : List Token} (h : beginsArguments tokens = false) :
    readCall r c plain tokens = plain := by
  unfold readCall readArguments?
  split
  case h_1 hread =>
    split at hread
    · cases h
    · cases h
    · cases hread
  case h_2 => rfl

theorem readCallable_eq {tokens : List Token} (ht : AreSimple tokens) (word : String) :
    readCallable r word tokens = (match readNamed r [] word tokens with
      | some (.call isOrdered name arguments, rest) =>
        some (Tree.call isOrdered name arguments, rest)
      | _ => none) := by
  cases tokens with
  | nil => rfl
  | cons token rest =>
    have hhead := ht.head
    cases token with
    | path => cases hhead
    | _ => rfl

theorem readCallable_eq_none {tokens : List Token} (ht : AreSimple tokens)
    (hbegins : beginsCall tokens = false) (word : String) : readCallable r word tokens = none := by
  rw [readCallable_eq ht]
  by_cases hnegation : ∃ rest, tokens = .negation :: rest
  · obtain ⟨rest, rfl⟩ := hnegation
    have hread : readNamed r [] word (.negation :: rest) =
        readCall r (.call true word) none rest := rfl
    rw [hread, readCall_of_not_beginsArguments hbegins]
  · have hne : ∀ rest, tokens ≠ .negation :: rest := fun rest h => hnegation ⟨rest, h⟩
    obtain ⟨hread, hcall⟩ := readNamed_of_ne_negation (r := r) ht hne word
    rw [hread, readCall_of_not_beginsArguments (hcall ▸ hbegins)]

theorem Readers.Renames.callable (hr : r.Renames f g) {tokens : List Token} (ht : AreSimple tokens)
    (word : String) :
    Retold f g (Tree.rename f g) (readCallable r word tokens)
      (readCallable r (if beginsCall tokens then g word else word)
        (renameTokens f g false tokens)) := by
  cases hbegins : beginsCall tokens with
  | false =>
    rw [readCallable_eq_none ht hbegins,
      readCallable_eq_none (areSimple_renameTokens ht) (by rwa [beginsCall_renameTokens])]
    exact .none
  | true =>
    have hnamed := hr.named ht word
    rw [newName, if_pos hbegins] at hnamed
    rw [if_pos rfl, readCallable_eq ht, readCallable_eq (areSimple_renameTokens ht)]
    obtain ⟨hname, hsimple⟩ := hnamed
    rw [hname]
    cases hread : readNamed r [] word tokens with
    | none => exact .none
    | some found =>
      obtain ⟨tree, rest⟩ := found
      have hrest := hsimple _ hread
      cases tree with
      | call b n arguments => exact .some hrest
      | _ => exact .none

theorem Readers.Renames.primary (hf : f.Injective) (hr : r.Renames f g) :
    Retells f g (Tree.rename f g) (readPrimary r) (readPrimary r) := by
  intro tokens ht
  cases tokens with
  | nil => exact .none
  | cons token rest =>
    have hrest := ht.tail
    cases token with
    | literal value => exact .some hrest
    | segment s =>
      refine (hr.template s rest hrest).map fun parts => ?_
      rw [Tree.rename, Tree.renameAll_eq]
    | name n => exact hr.named hrest n
    | callable word => exact hr.callable hrest word
    | opened bracket =>
      cases bracket with
      | round =>
        refine (hr.grouped rest hrest).bind fun tree rest hrest => ?_
        exact .closed hrest fun rest hrest => .some hrest
      | square =>
        refine (hr.items rest hrest).map fun items => ?_
        rw [Tree.rename, Tree.renameAll_eq]
      | curly => exact .none
    | openedRecord =>
      refine (hr.fields rest hrest).map fun fields => ?_
      rw [Tree.rename, Tree.renameFields_eq]
    | whether => exact hr.choice rest hrest
    | connective c =>
      cases c with
      | junction j =>
        cases j with
        | either => exact hr.closure [] rest hrest
        | _ => exact .none
      | operator op =>
        cases op with
        | bitOr =>
          refine (readParameters_renameTokens hf hrest []).bind fun parameters rest hrest => ?_
          exact hr.closure parameters rest hrest
        | _ => exact .none
    | _ => exact .none

theorem Readers.Renames.elements (hr : r.Renames f g) :
    Retells f g (List.map (Tree.renameLink f g)) (readElements r) (readElements r) := by
  intro tokens ht
  cases tokens with
  | nil => exact .some ht
  | cons token rest =>
    cases token with
    | opened bracket =>
      cases bracket with
      | square => exact hr.indices false rest ht.tail
      | _ => exact .some ht
    | openedOptional => exact hr.indices true rest ht.tail
    | _ => exact .some ht

theorem Readers.Renames.members (hr : r.Renames f g) :
    Retells f g (List.map (Tree.renameLink f g)) (readMembers r) (readMembers r) := by
  intro tokens ht
  cases tokens with
  | nil => exact .some ht
  | cons token rest =>
    cases token with
    | point b => exact hr.member b rest ht.tail
    | _ => exact .some ht

theorem Readers.Renames.linked (hf : f.Injective) (hr : r.Renames f g) :
    Retells f g (Tree.rename f g) (readLinked r) (readLinked r) := by
  intro tokens ht
  refine (hr.primary hf tokens ht).bind fun base rest hrest => ?_
  refine (hr.elements rest hrest).bind fun elements rest hrest => ?_
  dsimp only
  rw [withElements_rename]
  cases base.withElements elements with
  | none => exact .none
  | some tree =>
    refine (hr.members rest hrest).bind fun members rest hrest => ?_
    dsimp only
    rw [withMembers_rename]
    exact .some hrest

theorem readMember_name {tokens : List Token} (ht : AreSimple tokens)
    (hne : ∀ rest, tokens ≠ .negation :: rest) (b : Bool) (n : String) :
    readMember r b (.name n :: tokens) =
      readCall r (.method b n) (some (.property b n, tokens)) tokens := by
  cases tokens with
  | nil => rfl
  | cons token rest =>
    have hhead := ht.head
    cases token with
    | negation => exact absurd rfl (hne rest)
    | path => cases hhead
    | _ => rfl

theorem readMember_callable (tokens : List Token) (b : Bool) (word : String) :
    readMember r b (.callable word :: tokens) =
      if methodWords.contains word then readCall r (.method b word) none tokens else none := by
  by_cases hword : methodWords.contains word = true
  · rw [if_pos hword]
    unfold readCall
    cases hread : readArguments? r tokens <;> simp only [readMember, hword, hread] <;> rfl
  · simp only [readMember, hword]
    rfl

theorem Readers.Renames.firstMember (hr : r.Renames f g)
    (hmethod : ∀ w, methodWords.contains (g w) = methodWords.contains w) (b : Bool)
    {tokens : List Token} (ht : AreSimple tokens) :
    Retold f g (Tree.renameLink f g) (readMember r b tokens)
      (readMember r b (renameTokens f g true tokens)) := by
  cases tokens with
  | nil => exact .none
  | cons token rest =>
    have hrest := ht.tail
    cases token with
    | name n =>
      change Retold f g _ _
        (readMember r b (.name (newName f g true rest n) :: renameTokens f g false rest))
      by_cases hnegation : ∃ rest', rest = .negation :: rest'
      · obtain ⟨rest, rfl⟩ := hnegation
        exact .none
      have hne : ∀ rest', rest ≠ .negation :: rest' := fun rest' h => hnegation ⟨rest', h⟩
      rw [readMember_name hrest hne, readMember_name (areSimple_renameTokens hrest)
        (ne_negation_renameTokens hne)]
      have hbegins := (readNamed_of_ne_negation (r := r) hrest hne n).2
      refine hr.call hrest (fun hcall ts => ?_) fun hcall => ?_
      · rw [newName, hbegins, if_pos hcall, Tree.renameLink]
      · rw [newName, hbegins, hcall]
        exact .some hrest
    | callable word =>
      change Retold f g _ _ (readMember r b
        (.callable (if beginsCall rest then g word else word) :: renameTokens f g false rest))
      have hword : methodWords.contains (if beginsCall rest then g word else word) =
          methodWords.contains word := by
        split
        · exact hmethod word
        · rfl
      rw [readMember_callable, readMember_callable, hword]
      split
      · refine hr.call hrest (fun hcall ts => ?_) fun _ => .none
        have hbegins : beginsCall rest = true := by
          cases rest with
          | nil => cases hcall
          | cons token rest =>
            cases token with
            | negation => cases hcall
            | _ => exact hcall
        rw [if_pos hbegins, Tree.renameLink]
      · exact .none
    | _ => exact .none

theorem Readers.Renames.operandAbove (hf : f.Injective) (hr : r.Renames f g) :
    Retells f g (Tree.rename f g) r.operandAbove r.operandAbove := by
  intro tokens ht
  cases tokens with
  | nil => exact .none
  | cons token rest =>
    have hsign : sign? (token.rename f g false rest) = sign? token := by cases token <;> rfl
    rw [renameTokens_cons, Readers.operandAbove, Readers.operandAbove, hsign]
    cases hs : sign? token with
    | some s =>
      have hpoint : token.isPoint = false := by cases token <;> first | rfl | cases hs
      dsimp only
      rw [hpoint]
      exact (hr.operand rest ht.tail).map fun tree => signed_rename s tree
    | none => exact hr.linked hf (token :: rest) ht

theorem nextConnective_renameTokens {tokens : List Token} (strength : Nat) (b : Bool) :
    nextConnective? strength (renameTokens f g b tokens) =
      (nextConnective? strength tokens).map (Prod.map id (renameTokens f g false)) := by
  cases tokens with
  | nil => rfl
  | cons token rest =>
    cases token with
    | connective c =>
      simp only [renameTokens_cons, Token.rename, nextConnective?]
      split <;> rfl
    | _ => rfl

theorem areSimple_of_nextConnective {tokens rest : List Token} {strength : Nat} {c : Connective}
    (h : nextConnective? strength tokens = some (c, rest)) (ht : AreSimple tokens) :
    AreSimple rest := by
  unfold nextConnective? at h
  split at h
  · split at h
    · cases h
      exact ht.tail
    · cases h
  · cases h

theorem Readers.Renames.runAbove (hf : f.Injective) (hr : r.Renames f g) (strength : Nat)
    (left : Tree) : Retells f g (Tree.rename f g) (r.runAbove strength left)
      (r.runAbove strength (left.rename f g)) := by
  intro tokens ht
  rw [Readers.runAbove, Readers.runAbove, nextConnective_renameTokens]
  cases hnext : nextConnective? strength tokens with
  | none => exact .some ht
  | some found =>
    obtain ⟨c, rest⟩ := found
    refine (hr.operandAbove hf rest (areSimple_of_nextConnective hnext ht)).bind
      fun right rest hrest => ?_
    dsimp only [id_eq]
    have hjoined : ∀ right rest, AreSimple rest → Retold f g (Tree.rename f g)
        (Tree.joined c left right >>= fun tree => r.run strength tree rest)
        (Tree.joined c (left.rename f g) (right.rename f g) >>= fun tree =>
          r.run strength tree (renameTokens f g false rest)) := by
      intro right rest hrest
      rw [joined_rename]
      cases Tree.joined c left right with
      | none => exact .none
      | some tree => exact hr.run strength tree rest hrest
    have hsome : (nextConnective? c.strength (renameTokens f g false rest)).isSome =
        (nextConnective? c.strength rest).isSome := by
      rw [nextConnective_renameTokens, Option.isSome_map]
    by_cases hnext : (nextConnective? c.strength rest).isSome = true
    · rw [if_pos hnext, if_pos (hsome.trans hnext)]
      exact (hr.run c.strength right rest hrest).bind fun right rest hrest =>
        hjoined right rest hrest
    · rw [if_neg hnext, if_neg (hsome ▸ hnext)]
      exact hjoined right rest hrest

theorem Readers.Renames.blockAbove (hr : r.Renames f g) :
    Retells f g (Tree.rename f g) r.blockAbove r.blockAbove := by
  intro tokens ht
  cases tokens with
  | nil => exact .none
  | cons token rest =>
    cases token with
    | opened bracket =>
      cases bracket with
      | curly =>
        refine (hr.grouped rest ht.tail).bind fun tree rest hrest => ?_
        exact .closed hrest fun rest hrest => .some hrest
      | _ => exact .none
    | _ => exact .none

theorem Readers.Renames.choiceAbove (hr : r.Renames f g) :
    Retells f g (Tree.rename f g) r.choiceAbove r.choiceAbove := by
  intro tokens ht
  refine (hr.expression tokens ht).bind fun condition rest hrest => ?_
  dsimp only
  rw [isPlainLiteral_rename]
  cases condition.isPlainLiteral with
  | true => exact .none
  | false =>
    refine (hr.block rest hrest).bind fun yes rest hrest => ?_
    cases rest with
    | nil => exact .some hrest
    | cons token rest =>
      cases token with
      | otherwise =>
        have hblock : Retold f g (Tree.rename f g)
            (r.block rest >>= fun found => some (.choice condition yes found.1, found.2))
            (r.block (renameTokens f g false rest) >>= fun found =>
              some (.choice (condition.rename f g) (yes.rename f g) found.1, found.2)) :=
          (hr.block rest hrest.tail).bind fun no rest hrest => .some hrest
        cases rest with
        | nil => exact hblock
        | cons token rest =>
          cases token with
          | whether =>
            exact (hr.choice rest hrest.tail.tail).bind fun no rest hrest => .some hrest
          | _ => exact hblock
      | _ => exact .some hrest

theorem Readers.Renames.closureAbove (hf : f.Injective)
    (hqualified : ∀ n, ':' ∈ n.toList → f n = n) (hr : r.Renames f g) (parameters : List String) :
    Retells f g (Tree.rename f g) (r.closureAbove parameters)
      (r.closureAbove (parameters.map f)) := by
  intro tokens ht
  have hclosure : ∀ {x y}, Retold f g (Tree.rename f g) x y → Retold f g (Tree.rename f g)
      (x >>= fun found => some (Tree.closure parameters found.1, found.2))
      (y >>= fun found => some (Tree.closure (parameters.map f) found.1, found.2)) := by
    intro x y hxy
    refine hxy.bind fun body rest hrest => ?_
    dsimp only
    rw [closure_rename hf hqualified]
    exact .some hrest
  cases tokens with
  | nil => exact hclosure (hr.grouped [] ht)
  | cons token rest =>
    cases token with
    | opened bracket =>
      cases bracket with
      | curly => exact hclosure (hr.block _ ht)
      | _ => exact hclosure (hr.grouped _ ht)
    | _ => exact hclosure (hr.grouped _ ht)

theorem Readers.Renames.indicesAbove (hr : r.Renames f g) (b : Bool) :
    Retells f g (List.map (Tree.renameLink f g)) (r.indicesAbove b) (r.indicesAbove b) := by
  intro tokens ht
  refine (hr.grouped tokens ht).bind fun index rest hrest => ?_
  refine .closed hrest fun rest hrest => ?_
  exact (hr.elements rest hrest).bind fun others rest hrest => .some hrest

theorem Readers.Renames.memberAbove (hr : r.Renames f g)
    (hmethod : ∀ w, methodWords.contains (g w) = methodWords.contains w) (b : Bool)
    {tokens : List Token} (ht : AreSimple tokens) :
    Retold f g (List.map (Tree.renameLink f g)) (r.memberAbove b tokens)
      (r.memberAbove b (renameTokens f g true tokens)) := by
  refine (hr.firstMember hmethod b ht).bind fun first rest hrest => ?_
  refine (hr.elements rest hrest).bind fun elements rest hrest => ?_
  refine (hr.members rest hrest).bind fun members rest hrest => ?_
  dsimp only
  have := Retold.some (f := f) (g := g) (h := List.map (Tree.renameLink f g))
    (a := first :: elements ++ members) hrest
  rwa [List.map_append, List.map_cons] at this

theorem Readers.Renames.above (hf : f.Injective) (hqualified : ∀ n, ':' ∈ n.toList → f n = n)
    (hmethod : ∀ w, methodWords.contains (g w) = methodWords.contains w) (hr : r.Renames f g) :
    r.above.Renames f g where
  expression tokens ht := (hr.operand tokens ht).bind fun left rest hrest =>
    hr.operators 0 left rest hrest
  operand := hr.operandAbove hf
  operators := hr.run
  run := hr.runAbove hf
  grouped := hr.expression
  block := hr.blockAbove
  items tokens ht := by
    change Retold f g _ (readItems r.expression .square tokens.length tokens)
      (readItems r.expression .square (renameTokens f g false tokens).length _)
    rw [length_renameTokens]
    exact retells_readItems hr.expression .square tokens.length tokens ht
  fields tokens ht := by
    change Retold f g _ (readFields r.expression tokens.length [] tokens)
      (readFields r.expression (renameTokens f g false tokens).length [] _)
    rw [length_renameTokens]
    exact retells_readFields tokens.length tokens ht
  template s tokens ht := by
    have htext : (textPart s).map (Tree.rename f g) = textPart s := by
      unfold textPart
      split <;> rfl
    change Retold f g _
      ((readParts r.block tokens.length tokens).map fun found => (textPart s ++ found.1, found.2))
      ((readParts r.block (renameTokens f g false tokens).length _).map fun found =>
        (textPart s ++ found.1, found.2))
    rw [length_renameTokens]
    refine (retells_readParts hr.block tokens.length tokens ht).map fun parts => ?_
    rw [List.map_append, htext]
  choice := hr.choiceAbove
  closure := hr.closureAbove hf hqualified
  indices := hr.indicesAbove
  member b _ ht := hr.memberAbove hmethod b ht

theorem Readers.Renames.bottom : Readers.bottom.Renames f g where
  expression _ _ := .none
  operand _ _ := .none
  operators _ _ _ _ := .none
  run strength left tokens ht := by
    change Retold f g _
      (if (nextConnective? strength tokens).isNone then some (left, tokens) else none)
      (if (nextConnective? strength (renameTokens f g false tokens)).isNone then
        some (left.rename f g, renameTokens f g false tokens) else none)
    rw [nextConnective_renameTokens, Option.isNone_map]
    split
    · exact .some ht
    · exact .none
  grouped _ _ := .none
  block _ _ := .none
  items _ _ := .none
  fields _ _ := .none
  template _ _ _ := .none
  choice _ _ := .none
  closure _ _ _ := .none
  indices _ _ _ := .none
  member _ _ _ := .none

theorem readers_renames (hf : f.Injective) (hqualified : ∀ n, ':' ∈ n.toList → f n = n)
    (hmethod : ∀ w, methodWords.contains (g w) = methodWords.contains w) (levels : Nat) :
    (readers levels).Renames f g := by
  induction levels with
  | zero => exact .bottom
  | succ levels ih => exact ih.above hf hqualified hmethod

/-- Tokens with other names in them are those of the tree with the other names. -/
theorem ofTokens_renameTokens (hf : f.Injective) (hqualified : ∀ n, ':' ∈ n.toList → f n = n)
    (hmethod : ∀ w, methodWords.contains (g w) = methodWords.contains w) {tokens : List Token}
    (ht : AreSimple tokens) (levels : Nat) : ofTokens? levels (renameTokens f g false tokens) =
      (ofTokens? levels tokens).map (Tree.rename f g) := by
  have hread := ((readers_renames hf hqualified hmethod levels).expression tokens ht).1
  rw [ofTokens?, ofTokens?, hread]
  cases (readers levels).expression tokens with
  | none => rfl
  | some found =>
    obtain ⟨tree, rest⟩ := found
    cases rest <;> rfl

end

end Spreadsheet.Expression

import Spreadsheet.Expression.Reader

/-!
# Operators by their strength

A phrase is written without a parenthesis where the strengths of its operators
tell how it is grouped. Its tokens are read as its tree if there are levels
enough, and else not at all. A parenthesis takes two levels from what it holds, a
sign one from its operand. Each operator of a run takes a level from what comes
after it: from its own operand and the stronger operators there, and from the
rest of the run.
-/
namespace Spreadsheet.Expression

/-- Numbers, names, groups, signs and operators. A sign before a digit belongs to the number. -/
inductive Phrase where
  | number (x : Float)
  | name (text : String)
  | group (p : Phrase)
  | minus (p : Phrase)
  | binary (op : Operator) (l r : Phrase)

namespace Phrase

def tokens : Phrase → List Token
  | number x => [.literal (.number x)]
  | name text => [.name text]
  | group p => .opened .round :: (tokens p ++ [.closed .round])
  | minus p => .connective (.operator .minus) :: tokens p
  | binary op l r => tokens l ++ .connective (.operator op) :: tokens r

def tree : Phrase → Tree
  | number x => .constant (.number x)
  | name text => .named text
  | group p => tree p
  | minus p => (tree p).signed .minus
  | binary op l r => .binary op (tree l) (tree r)

/-- The strength of the outermost operator, if there is one between two operands. -/
def strength? : Phrase → Option Nat
  | binary op _ _ => some op.strength
  | _ => none

/-- Whether the strengths of the operators group a phrase as it is. -/
def IsClimbing : Phrase → Prop
  | number _ | name _ => True
  | group p => IsClimbing p
  | minus p => p.strength? = none ∧ IsClimbing p
  | binary op l r => op ≠ .power ∧ (∀ s ∈ l.strength?, op.strength ≤ s) ∧
      (∀ s ∈ r.strength?, op.strength < s) ∧ IsClimbing l ∧ IsClimbing r

/-- The first operand of a phrase. -/
def front : Phrase → Phrase
  | binary _ l _ => front l
  | p => p

/-- The tokens after the first operand. -/
def following : Phrase → List Token
  | binary op l r => following l ++ .connective (.operator op) :: tokens r
  | _ => []

/-- How many operators the run of a phrase has, without those in its operands. -/
def spine : Phrase → Nat
  | binary _ l _ => spine l + 1
  | _ => 0

mutual

/-- The levels that the first operand of a phrase needs. -/
def operandLevels : Phrase → Nat
  | number _ | name _ => 1
  | group p => 3 + max (operandLevels p) (1 + runLevels p)
  | minus p => 1 + operandLevels p
  | binary _ l _ => operandLevels l

/-- The levels that the run of a phrase needs: an operator of it has those that the operators
before it leave. -/
def runLevels : Phrase → Nat
  | binary _ l r => max (runLevels l) (spine l + max (operandLevels r) (1 + runLevels r))
  | _ => 0

end

/-- The levels that a phrase needs. -/
def levels (p : Phrase) : Nat := 1 + max p.operandLevels (1 + p.runLevels)

end Phrase

/-- What may follow an operand: nothing, an operator or a closing parenthesis. -/
inductive EndsPhrase : List Token → Prop
  | nil : EndsPhrase []
  | connective (c : Connective) (rest : List Token) : EndsPhrase (.connective c :: rest)
  | closed (rest : List Token) : EndsPhrase (.closed .round :: rest)

section
variable {p l r : Phrase} {rest : List Token} {s t n : Nat} {op : Operator}

namespace Phrase

theorem tokens_eq (p : Phrase) : p.tokens = p.front.tokens ++ p.following := by
  induction p with
  | binary op l r ihl _ => rw [tokens, front, following, ihl, List.append_assoc]
  | _ => exact (List.append_nil _).symm

theorem front_of_strength (h : p.strength? = none) :
    p.front = p ∧ p.following = [] ∧ p.runLevels = 0 := by
  cases p with
  | binary => cases h
  | _ => exact ⟨rfl, rfl, rfl⟩

/-- The first operator of a phrase is at least as strong as the outermost one. -/
theorem following_of_strength (h : p.IsClimbing) (hs : p.strength? = some s) :
    ∃ op rest, p.following = .connective (.operator op) :: rest ∧ s ≤ op.strength := by
  induction p generalizing s with
  | binary op l r ihl _ =>
    obtain ⟨-, hl, -, hcl, -⟩ := h
    cases hs
    cases hstrength : l.strength? with
    | none =>
      obtain ⟨-, hfollowing, -⟩ := front_of_strength hstrength
      exact ⟨op, r.tokens, by rw [following, hfollowing]; rfl, Nat.le_refl _⟩
    | some u =>
      obtain ⟨op', rest, hfollowing, hu⟩ := ihl hcl hstrength
      refine ⟨op', rest ++ .connective (.operator op) :: r.tokens, ?_, ?_⟩
      · rw [following, hfollowing]
        rfl
      · exact Nat.le_trans (hl u hstrength) hu
  | _ => cases hs

end Phrase

/-! ## Operators that come next -/

theorem nextConnective?_of_lt (h : s < op.strength) : nextConnective? s
    (.connective (.operator op) :: rest) = some (.operator op, rest) := by
  have hbinds : bindsMore s (.operator op) = true := by simp [bindsMore, Connective.strength, h]
  simp [nextConnective?, hbinds]

theorem nextConnective?_of_le (hop : op ≠ .power) (h : op.strength ≤ s) :
    nextConnective? s (.connective (.operator op) :: rest) = none := by
  have hgrouped : Connective.isRightGrouped (.operator op) = false := by
    cases op <;> first | rfl | exact absurd rfl hop
  have hbinds : bindsMore s (.operator op) = false := by
    rw [bindsMore, hgrouped, Bool.and_false, Bool.or_false, decide_eq_false_iff_not, Nat.not_lt]
    exact h
  simp [nextConnective?, hbinds]

/-- What does not bind more than a strength does not bind more than a larger one. -/
theorem nextConnective?_mono (h : nextConnective? s rest = none) (hst : s ≤ t) :
    nextConnective? t rest = none := by
  unfold nextConnective? at h ⊢
  split
  · rename_i c rest
    have hnot : bindsMore s c = false := by simpa using h
    have hbinds : bindsMore t c = false := by
      simp only [bindsMore, Bool.or_eq_false_iff, decide_eq_false_iff_not, Nat.not_lt,
        Bool.and_eq_false_iff, beq_eq_false_iff_ne] at hnot ⊢
      refine ⟨Nat.le_trans hnot.1 hst, ?_⟩
      by_cases he : t = c.strength
      · have hs : s = c.strength := Nat.le_antisymm (he ▸ hst) hnot.1
        exact .inr (hnot.2.resolve_left fun hne => hne hs)
      · exact .inl he
    simp [hbinds]
  · rfl

/-- A run ends where no operator binds more, whatever levels are left. -/
theorem run_of_nextConnective (h : nextConnective? s rest = none) (left : Tree) :
    (readers n).run s left rest = some (left, rest) := by
  cases n with
  | zero => simp [readers, Readers.bottom, h]
  | succ n => simp [readers, Readers.above, Readers.runAbove, h]

/-! ## Operands -/

theorem readLinked_of_primary {tree : Tree} {rs : Readers} {tokens : List Token}
    (h : readPrimary rs tokens = some (tree, rest)) (hrest : EndsPhrase rest) :
    readLinked rs tokens = some (tree, rest) := by
  have helements : readElements rs rest = some ([], rest) := by cases hrest <;> rfl
  have hmembers : readMembers rs rest = some ([], rest) := by cases hrest <;> rfl
  simp [readLinked, h, helements, hmembers, Tree.withElements, Tree.withMembers]

theorem readLinked_of_none {rs : Readers} {tokens : List Token}
    (h : readPrimary rs tokens = none) : readLinked rs tokens = none := by
  simp [readLinked, h]

/-- A phrase begins with an operand that is read if there are levels enough for it. -/
def ReadsOperand (p : Phrase) : Prop :=
  ∀ n rest, EndsPhrase rest → (readers n).operand (p.front.tokens ++ rest) =
    if p.operandLevels ≤ n then some (p.front.tree, rest) else none

/-- After its first operand a phrase is read in a run of operators, if there are levels enough. -/
def ReadsRun (p : Phrase) : Prop :=
  ∀ n s rest, (∀ t ∈ p.strength?, s < t) → (∀ t ∈ p.strength?, nextConnective? t rest = none) →
    EndsPhrase rest → (readers n).run s p.front.tree (p.following ++ rest) =
      if p.runLevels ≤ n then (readers (n - p.spine)).run s p.tree rest else none

theorem readsRun_of_strength (h : p.strength? = none) : ReadsRun p := by
  intro n s rest _ _ _
  cases p with
  | binary => cases h
  | _ => rfl

/-- A phrase goes on with its operator, or with what follows it. -/
theorem endsPhrase_following (h : p.IsClimbing) (hrest : EndsPhrase rest) :
    EndsPhrase (p.following ++ rest) := by
  cases hstrength : p.strength? with
  | none =>
    rw [(Phrase.front_of_strength hstrength).2.1]
    exact hrest
  | some s =>
    obtain ⟨op, more, hfollowing, -⟩ := Phrase.following_of_strength h hstrength
    rw [hfollowing]
    exact .connective _ _

theorem strength_pos (op : Operator) : 0 < op.strength := by
  cases op <;> decide

/-- Where no operator follows, a phrase is read as a whole. -/
theorem expression_of_climbing (h : p.IsClimbing) (hp : ReadsOperand p ∧ ReadsRun p)
    (hnext : ∀ s, nextConnective? s rest = none) (hrest : EndsPhrase rest) :
    (readers n).expression (p.tokens ++ rest) =
      if p.levels ≤ n then some (p.tree, rest) else none := by
  have hpos : ∀ t ∈ p.strength?, 0 < t := by
    intro t ht
    cases p with
    | binary op l r =>
      cases ht
      exact strength_pos op
    | _ => cases ht
  rw [p.tokens_eq, List.append_assoc, Phrase.levels]
  cases n with
  | zero => rw [if_neg (by omega)]; rfl
  | succ m =>
    have hoperand := hp.1 m (p.following ++ rest) (endsPhrase_following h hrest)
    change ((readers m).operand (p.front.tokens ++ (p.following ++ rest)) >>= fun found =>
      (readers m).operators 0 found.1 found.2) = _
    rw [hoperand]
    by_cases hm : p.operandLevels ≤ m
    · rw [if_pos hm]
      change (readers m).operators 0 p.front.tree (p.following ++ rest) = _
      cases m with
      | zero => rw [if_neg (by omega)]; rfl
      | succ j =>
        change (readers j).run 0 p.front.tree (p.following ++ rest) = _
        rw [hp.2 j 0 rest hpos (fun t _ => hnext t) hrest, run_of_nextConnective (hnext 0)]
        congr 1
        rw [eq_iff_iff]
        omega
    · rw [if_neg hm, if_neg (by omega)]
      rfl

theorem readsOperand_number (x : Float) : ReadsOperand (.number x) := by
  intro n rest hrest
  cases n with
  | zero => rfl
  | succ n => exact readLinked_of_primary rfl hrest

theorem readsOperand_name (text : String) : ReadsOperand (.name text) := by
  intro n rest hrest
  have hnamed : ∀ rs, readPrimary rs (.name text :: rest) = some (.named text, rest) := by
    intro rs
    cases hrest <;> rfl
  cases n with
  | zero => rfl
  | succ n => exact readLinked_of_primary (hnamed _) hrest

theorem readsOperand_group (h : ∀ n rest,
    (readers n).expression (p.tokens ++ .closed .round :: rest) =
      if p.levels ≤ n then some (p.tree, .closed .round :: rest) else none) :
    ReadsOperand (.group p) := by
  intro n rest hrest
  have htokens : (Phrase.group p).front.tokens ++ rest =
      .opened .round :: (p.tokens ++ .closed .round :: rest) := by
    simp [Phrase.front, Phrase.tokens]
  rw [htokens]
  have hlevels : (Phrase.group p).operandLevels = 2 + p.levels := by
    rw [Phrase.operandLevels, Phrase.levels]
    omega
  rw [hlevels]
  cases n with
  | zero => rw [if_neg (by omega)]; rfl
  | succ k =>
    change readLinked (readers k) _ = _
    have hprimary :
        readPrimary (readers k) (.opened .round :: (p.tokens ++ .closed .round :: rest)) =
          if 2 + p.levels ≤ k + 1 then some (p.tree, rest) else none := by
      change ((readers k).grouped (p.tokens ++ .closed .round :: rest) >>= fun found =>
        afterClosed? .round found.2 >>= fun rest => some (found.1, rest)) = _
      cases k with
      | zero => rw [if_neg (by omega)]; rfl
      | succ j =>
        change ((readers j).expression (p.tokens ++ .closed .round :: rest) >>= fun found =>
          afterClosed? .round found.2 >>= fun rest => some (found.1, rest)) = _
        rw [h]
        by_cases hj : p.levels ≤ j
        · rw [if_pos hj, if_pos (by omega)]
          rfl
        · rw [if_neg hj, if_neg (by omega)]
          rfl
    by_cases hk : 2 + p.levels ≤ k + 1
    · rw [if_pos hk] at hprimary ⊢
      exact readLinked_of_primary hprimary hrest
    · rw [if_neg hk] at hprimary ⊢
      exact readLinked_of_none hprimary

theorem readsOperand_minus (hp : p.strength? = none) (h : ReadsOperand p) :
    ReadsOperand (.minus p) := by
  intro n rest hrest
  obtain ⟨hfront, -, -⟩ := Phrase.front_of_strength hp
  have hread := fun n => h n rest hrest
  rw [hfront] at hread
  cases n with
  | zero => rw [Phrase.operandLevels, if_neg (by omega)]; rfl
  | succ k =>
    change ((readers k).operand (p.tokens ++ rest)).map
      (fun found => (Tree.signed .minus found.1, found.2)) = _
    rw [hread, Phrase.operandLevels]
    by_cases hk : p.operandLevels ≤ k
    · rw [if_pos hk, if_pos (by omega)]
      rfl
    · rw [if_neg hk, if_neg (by omega)]
      rfl

/-- The right operand of an operator takes the stronger operators after it. -/
theorem right_of_reads (hr : r.IsClimbing) (hor : ReadsOperand r) (hrr : ReadsRun r)
    (hstrength : ∀ t ∈ r.strength?, op.strength < t)
    (hnext : nextConnective? op.strength rest = none) (hrest : EndsPhrase rest) (k : Nat) :
    (((readers k).operandAbove (r.tokens ++ rest)).bind fun found =>
      if (nextConnective? op.strength found.2).isSome = true then
        (readers k).run op.strength found.1 found.2
      else some found) =
      if max r.operandLevels (1 + r.runLevels) ≤ k + 1 then some (r.tree, rest) else none := by
  have hoperand := hor (k + 1) (r.following ++ rest) (endsPhrase_following hr hrest)
  rw [← List.append_assoc, ← r.tokens_eq] at hoperand
  change ((readers (k + 1)).operand (r.tokens ++ rest)).bind _ = _
  rw [hoperand]
  by_cases hk : r.operandLevels ≤ k + 1
  · rw [if_pos hk, Option.bind_some]
    cases hcases : r.strength? with
    | none =>
      obtain ⟨hfront, hfollowing, hrun⟩ := Phrase.front_of_strength hcases
      rw [hfollowing, hfront, hrun, List.nil_append]
      simp only [hnext]
      rw [if_neg (by simp), if_pos (by omega)]
    | some t =>
      obtain ⟨op', more, hfollowing, hle⟩ := Phrase.following_of_strength hr hcases
      have hlt : op.strength < op'.strength := Nat.lt_of_lt_of_le (hstrength t hcases) hle
      have hsome : (nextConnective? op.strength (r.following ++ rest)).isSome = true := by
        rw [hfollowing, List.cons_append, nextConnective?_of_lt hlt]
        rfl
      have hweak : ∀ t ∈ r.strength?, nextConnective? t rest = none := fun t ht =>
        nextConnective?_mono hnext (Nat.le_of_lt (hstrength t ht))
      dsimp only
      rw [if_pos hsome, hrr k op.strength rest hstrength hweak hrest,
        run_of_nextConnective hnext]
      congr 1
      rw [eq_iff_iff]
      omega
  · rw [if_neg hk, if_neg (by omega)]
    rfl

theorem readsRun_binary (h : (Phrase.binary op l r).IsClimbing) (hrl : ReadsRun l)
    (hor : ReadsOperand r) (hrr : ReadsRun r) : ReadsRun (.binary op l r) := by
  obtain ⟨hop, hl, hr, hcl, hcr⟩ := h
  intro n s rest hs hnext hrest
  have hs : s < op.strength := hs _ rfl
  have hnext : nextConnective? op.strength rest = none := hnext _ rfl
  have hleft := hrl n s (.connective (.operator op) :: (r.tokens ++ rest))
    (fun t ht => Nat.lt_of_lt_of_le hs (hl t ht))
    (fun t ht => nextConnective?_of_le hop (hl t ht)) (.connective _ _)
  rw [Phrase.front, Phrase.following, List.append_assoc, List.cons_append, hleft, Phrase.runLevels,
    Phrase.spine]
  by_cases hn : l.runLevels ≤ n
  · rw [if_pos hn]
    cases hm : n - l.spine with
    | zero =>
      rw [if_neg (by omega)]
      simp [readers, Readers.bottom, nextConnective?_of_lt hs]
    | succ k =>
      have hright := right_of_reads hcr hor hrr hr hnext hrest k
      have hstep :
          (readers k).runAbove s l.tree (.connective (.operator op) :: (r.tokens ++ rest)) =
          (((readers k).operandAbove (r.tokens ++ rest)).bind fun found =>
            if (nextConnective? op.strength found.2).isSome = true then
              (readers k).run op.strength found.1 found.2
            else some found).bind fun found =>
              (readers k).run s (.binary op l.tree found.1) found.2 := by
        rw [Readers.runAbove, nextConnective?_of_lt hs]
        change ((readers k).operandAbove (r.tokens ++ rest)).bind _ = _
        cases (readers k).operandAbove (r.tokens ++ rest) with
        | none => rfl
        | some found =>
          obtain ⟨right, after⟩ := found
          by_cases hmore : (nextConnective? op.strength after).isSome = true
          · simp [hmore, Connective.strength, Tree.joined]
          · simp [hmore, Connective.strength, Tree.joined]
      change (readers k).runAbove s l.tree (.connective (.operator op) :: (r.tokens ++ rest)) = _
      rw [hstep, hright]
      by_cases hk : max r.operandLevels (1 + r.runLevels) ≤ k + 1
      · have hrest : n - (l.spine + 1) = k := by omega
        rw [if_pos hk, if_pos (by omega), hrest]
        rfl
      · rw [if_neg hk, if_neg (by omega)]
        rfl
  · rw [if_neg hn, if_neg (by omega)]

theorem reads (h : p.IsClimbing) : ReadsOperand p ∧ ReadsRun p := by
  induction p with
  | number x => exact ⟨readsOperand_number x, readsRun_of_strength rfl⟩
  | name text => exact ⟨readsOperand_name text, readsRun_of_strength rfl⟩
  | group p ih =>
    refine ⟨readsOperand_group fun n rest => ?_, readsRun_of_strength rfl⟩
    exact expression_of_climbing h (ih h) (fun _ => rfl) (.closed rest)
  | minus p ih => exact ⟨readsOperand_minus h.1 (ih h.2).1, readsRun_of_strength rfl⟩
  | binary op l r ihl ihr =>
    have hl := ihl h.2.2.2.1
    have hr := ihr h.2.2.2.2
    exact ⟨hl.1, readsRun_binary h hl.2 hr.1 hr.2⟩

end

/-- A phrase is read as its tree, or not at all if there are too few levels. -/
theorem ofTokens?_tokens {p : Phrase} (h : p.IsClimbing) (levels : Nat) :
    ofTokens? levels p.tokens = if p.levels ≤ levels then some p.tree else none := by
  have hread := expression_of_climbing h (reads h) (n := levels) (fun _ => rfl) .nil
  rw [List.append_nil] at hread
  rw [ofTokens?, hread]
  by_cases hlevels : p.levels ≤ levels
  · rw [if_pos hlevels, if_pos hlevels]
  · rw [if_neg hlevels, if_neg hlevels]

end Spreadsheet.Expression

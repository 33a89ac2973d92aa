import Spreadsheet.Proofs.Formula.CounterpartTokens
import Spreadsheet.Proofs.Formula.Dependencies
import Spreadsheet.Proofs.Formula.Moved

/-!
# Compiled counterparts

Of two formulas of which one is the counterpart of the other, the one compiles
to a formula that follows the cells of what the other one compiles to, or
neither compiles, for one kind of reason.
-/
namespace Spreadsheet
open Position Expression

namespace Formula

section
variable {k : Script} {move : Position → Position} {s : Spot} {cs cs' : List Char}
  {ts ts' : List Token}

/-- Every text with a counterpart is its own counterpart where no cell moves. -/
theorem Counterpart.left (h : Counterpart k move s cs cs') : Counterpart k id s cs cs := by
  induction h with
  | nil => exact .nil
  | char hc _ hword _ ih => exact .char hc hc (fun hw hs => ⟨(hword hw hs).1, (hword hw hs).1⟩) ih
  | name hw _ hend _ _ ih => exact .name hw hw hend hend ih
  | block hb _ ih => exact .block hb ih
  | unclosed hcs => exact .unclosed hcs

theorem isChain_of_same (h : List.Forall₂ SameToken ts ts')
    (hchain : ts'.IsChain Token.MayPrecede) : ts.IsChain Token.MayPrecede := by
  induction h with
  | nil => exact .nil
  | @cons a b ts ts' hsame hrest ih =>
    cases hrest with
    | nil => exact .singleton a
    | cons hnext hrest =>
      obtain ⟨hmay, hchain⟩ := List.isChain_cons_cons.1 hchain
      refine List.isChain_cons_cons.2 ⟨?_, ih hchain⟩
      cases hsame <;> cases hnext <;> exact hmay

/-- The name of a function that has the place of the one test for names. -/
def functionName (n : String) : String := if n = "is_def_var" then "print" else n

theorem functionName_ne (n : String) : functionName n ≠ "is_def_var" := by
  unfold functionName
  split
  · decide
  · assumption

theorem functionName_of_ne {n : String} (h : n ≠ "is_def_var") : functionName n = n := if_neg h

theorem methodWords_functionName (w : String) :
    methodWords.contains (functionName w) = methodWords.contains w := by
  unfold functionName
  split
  · rename_i hw
    rw [hw]
    decide
  · rfl

theorem renames_movedName : Renames move (movedName move) functionName :=
  ⟨fun _ => movedName_nameText _, fun _ => movedName_of_none, fun _ => functionName_of_ne⟩

theorem renames_id : Renames id id functionName :=
  ⟨fun _ => rfl, fun _ _ => rfl, fun _ => functionName_of_ne⟩

/-- No token of a text with a counterpart is the test for names. -/
theorem renameTokens_id (h : Counterpart .expression move .free cs cs')
    (hts : tokensFrom (.front cs) cs = some ts) (hchain : ts.IsChain Token.MayPrecede) :
    ts = renameTokens id functionName false ts := by
  have hplaces : PlacesAlike .free (.front cs) (.front cs) cs := ⟨rfl, rfl, rfl, nofun, nofun⟩
  rcases tokensFrom_alike renames_id hplaces h.left with ⟨hnone, -⟩ | ⟨us, us', hus, hus', halike⟩
  · rw [hts] at hnone
    cases hnone
  · rw [hts] at hus hus'
    cases hus
    cases hus'
    exact (halike.renamed hchain).1

/-- The tree of a counterpart asks for the cells in their new places, if there is a tree. -/
theorem tree_of_counterpart (hmove : Function.Injective move)
    (h : Counterpart .expression move .free cs cs') (levels : Nat) :
    (tokens? cs).bind (ofTokens? levels) = none ∧ (tokens? cs').bind (ofTokens? levels) = none ∨
      ∃ tree, (tokens? cs).bind (ofTokens? levels) = some tree ∧
        (tokens? cs').bind (ofTokens? levels) = some (tree.rename (movedName move) functionName) ∧
        tree = tree.rename id functionName ∧
        ∀ n ∈ tree.names, IsCanonical n := by
  have hqualified : ∀ n : String, ':' ∈ n.toList → movedName move n = n :=
    fun _ => movedName_qualified
  have hplaces : ∀ cs cs' : List Char, PlacesAlike .free (.front cs) (.front cs') cs :=
    fun _ _ => ⟨rfl, rfl, rfl, nofun, nofun⟩
  unfold tokens?
  rcases tokensFrom_alike renames_movedName (hplaces cs cs') h with
    ⟨hnone, hnone'⟩ | ⟨ts, ts', hts, hts', halike⟩
  · rw [hnone, hnone']
    exact .inl ⟨rfl, rfl⟩
  rw [hts, hts', Option.bind_some, Option.bind_some]
  by_cases hchain : ts.IsChain Token.MayPrecede
  · obtain ⟨hrenamed, hcanonical⟩ := halike.renamed hchain
    have hread := ofTokens_renameTokens (movedName_injective hmove) hqualified
      methodWords_functionName halike.simple levels
    rw [show ts' = renameTokens (movedName move) functionName false ts from hrenamed, hread]
    cases htree : ofTokens? levels ts with
    | none => exact .inl ⟨rfl, rfl⟩
    | some tree =>
      refine .inr ⟨tree, rfl, rfl, ?_, fun n hn => ?_⟩
      · have hsame := renameTokens_id h hts hchain
        have hread := ofTokens_renameTokens (f := id) Function.injective_id (fun _ _ => rfl)
          methodWords_functionName halike.simple levels
        rw [← hsame, htree] at hread
        exact Option.some.inj hread
      · rcases (read_of_ofTokens htree).2 n hn with hmem | hcolon
        · exact hcanonical n hmem
        · intro p hp
          exact absurd (isAlphanum_of_ofName hp ':' hcolon) (by decide)
  · have hnone : ofTokens? levels ts = none := by
      cases htree : ofTokens? levels ts with
      | none => rfl
      | some tree => exact absurd (read_of_ofTokens htree).1 hchain
    have hnone' : ofTokens? levels ts' = none := by
      cases htree : ofTokens? levels ts' with
      | none => rfl
      | some tree => exact absurd (isChain_of_same halike.same (read_of_ofTokens htree).1) hchain
    exact .inl ⟨hnone, hnone'⟩

variable [Library]

/-- A formula of plain functions is followed by what a counterpart of it compiles to. -/
theorem compile_follows (hmove : Function.Injective move) (literals : List (List Char))
    (h : Counterpart .formula move .free cs cs')
    (hplain : ∀ f, compile literals cs = .ok f → Tree.IsPlain f.script) :
    FollowsCompiled move (compile literals cs) (compile literals cs') := by
  unfold compile lower at hplain ⊢
  rcases lowerFrom_alike literals [] h with
    ⟨a, b, ha, hb, hkind⟩ | ⟨r, r', hr, hr', hcounterpart⟩
  · rw [ha, hb]
    exact .fault hkind
  rw [hr] at hplain ⊢
  rw [hr']
  dsimp only [Engine.compile, compile?] at hplain ⊢
  rcases tree_of_counterpart hmove (hcounterpart .free (.refl _)) Library.levelLimit with
    ⟨hnone, hnone'⟩ | ⟨tree, htree, htree', hsame, hcanonical⟩
  · rw [hnone, hnone']
    exact .fault rfl
  rw [htree] at hplain ⊢
  rw [htree']
  have hqualified : ∀ n : String, ':' ∈ n.toList → movedName move n = n :=
    fun _ => movedName_qualified
  have hsimple : tree.simplify = tree.simplify.rename id functionName := by
    rw [← Tree.simplify_rename, ← hsame]
  have hcalls : tree.simplify.IsPlain := hplain _ rfl
  have hfunctions : ∀ n ∈ tree.simplify.calls,
      Library.IsPlain (functionName n) ∧ functionName n ≠ "is_def_var" := by
    intro n hn
    refine ⟨hcalls _ ?_, functionName_ne n⟩
    rw [hsimple, Tree.calls_rename]
    exact List.mem_map_of_mem hn
  dsimp only [Option.map_some]
  rw [Tree.simplify_rename]
  refine .formula ⟨?_, fun ω ω' b => ?_, fun ω b n hn => ?_⟩
  · change (Tree.names _ ++ _).length = (Tree.names _ ++ _).length
    rw [Tree.names_rename hqualified, List.length_append, List.length_append, List.length_map]
  · refine attempt_asksFor (Eq.trans ?_ (congrArg (fun t : Tree => asksFor _ (t.evaluate ω b))
      hsimple.symm))
    exact Tree.evaluate_rename (movedName_injective hmove) (fun _ => movedName_constant) hqualified
      hfunctions ω' ω b
  · have hasks := Tree.asksAsWritten_of_asksNothing fun name hname =>
      (hcalls name hname).asksNothing
    exact hcanonical n (Tree.names_simplify tree (mem_names_of_attempt hasks hn))

end

end Formula
end Spreadsheet

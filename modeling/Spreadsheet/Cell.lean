import Spreadsheet.Formula.Range
import Spreadsheet.Table
import Spreadsheet.Value

/-!
# Cells and grids

A cell keeps what was typed, without the mark of its kind, the outcome of its
evaluation and the cells that the evaluation read. A grid holds the cells of a
sheet in reading order; a cell that is only referred to is held as a blank one.
-/
namespace Spreadsheet

/-- What the content of a cell was taken for. -/
inductive CellKind where
  | empty
  | number
  | label
  | formula
deriving DecidableEq, Repr

/-- The side of a cell at which its content is shown. -/
inductive Alignment where
  | left
  | right
deriving DecidableEq, Repr

namespace CellKind

def alignment : CellKind → Alignment
  | empty | label => .left
  | number | formula => .right

/-- The mark that a kind has before its text. -/
def mark : CellKind → List Char
  | empty | number => []
  | label => ['\'']
  | formula => ['=']

end CellKind

/-- The content of a place on the sheet. Only a formula reads other cells. -/
structure Cell where
  kind : CellKind
  raw : String
  outcome : Except Fault Value
  dependsOn : List Position
  dependsOn_eq_nil : kind ≠ .formula → dependsOn = []
deriving Repr

namespace Cell

/-- A cell without content. -/
def blank : Cell := ⟨.empty, "", .ok Value.blank, [], fun _ => rfl⟩

instance : Inhabited Cell := ⟨blank⟩

def label (text : List Char) : Cell :=
  ⟨.label, String.ofList text, .ok (.text (String.ofList text)), [], fun _ => rfl⟩

def number (text : List Char) (x : Float) : Cell :=
  ⟨.number, String.ofList text, .ok (.number x), [], fun _ => rfl⟩

/-- A formula that has not been evaluated yet. -/
def formula (text : List Char) : Cell :=
  ⟨.formula, String.ofList text, .ok Value.blank, [], fun _ => rfl⟩

def isEmpty (c : Cell) : Bool := c.raw.isEmpty

def isFormula (c : Cell) : Bool := c.kind == .formula

def fault? (c : Cell) : Option Fault :=
  match c.outcome with
  | .error fault => some fault
  | .ok _ => none

def hasFault (c : Cell) : Bool := c.fault?.isSome

/-- The text of a cell's formula. -/
def text (c : Cell) : List Char := c.raw.toList

/-- A cell's content as it is typed in. -/
def input (c : Cell) : List Char := c.kind.mark ++ c.text

def display (places : Nat) (c : Cell) : List Char :=
  match c.outcome with
  | .error _ => "#ERR!".toList
  | .ok v => if c.kind = .empty then [] else v.display places

/-- A cell with the outcome of an evaluation and, for a formula, the cells that it read. -/
def resolved (c : Cell) (outcome : Except Fault Value) (dependsOn : List Position) : Cell :=
  ⟨c.kind, c.raw, outcome, if c.kind = .formula then dependsOn else [], fun h => if_neg h⟩

section
variable (c : Cell) (outcome : Except Fault Value) (dependsOn : List Position)

@[simp] theorem kind_resolved : (c.resolved outcome dependsOn).kind = c.kind := rfl

@[simp] theorem raw_resolved : (c.resolved outcome dependsOn).raw = c.raw := rfl

@[simp] theorem outcome_resolved : (c.resolved outcome dependsOn).outcome = outcome := rfl

@[simp] theorem isFormula_resolved : (c.resolved outcome dependsOn).isFormula = c.isFormula := rfl

@[simp] theorem text_resolved : (c.resolved outcome dependsOn).text = c.text := rfl

end

theorem dependsOn_resolved {c : Cell} (h : c.isFormula = true) (outcome : Except Fault Value)
    (dependsOn : List Position) : (c.resolved outcome dependsOn).dependsOn = dependsOn :=
  if_pos (beq_iff_eq.1 h)

theorem isFormula_of_mem_dependsOn {c : Cell} {p : Position} (h : p ∈ c.dependsOn) :
    c.isFormula = true := by
  by_cases hk : c.kind = .formula
  · exact beq_iff_eq.2 hk
  · rw [c.dependsOn_eq_nil hk] at h
    cases h

end Cell

instance : KeyOrder Position where
  Before := Position.Before
  decidable _ _ := inferInstance
  irreflexive := Position.not_before_self
  transitive := Position.Before.trans
  connected := Position.before_or_eq_or_before

/-- The cells of a sheet, in reading order. -/
abbrev Grid := Table Position Cell

namespace Grid

/-- The grid with a cell changed, if there is one. -/
def modify (g : Grid) (p : Position) (f : Cell → Cell) : Grid :=
  match g.get? p with
  | some c => g.insert p (f c)
  | none => g

/-- The grid without the cells that have no content. -/
def prune (g : Grid) : Grid := g.filter fun _ c => !c.isEmpty

def formulas (g : Grid) : List Position :=
  (g.entries.filter fun e => e.2.isFormula).map Prod.fst

/-- Whether some formula has a range that cannot be cut out of its text. -/
def isStuck (g : Grid) : Bool :=
  g.entries.any fun e => e.2.isFormula && Formula.isUncuttable e.2.text

theorem get?_modify (g : Grid) (p q : Position) (f : Cell → Cell) :
    (g.modify p f).get? q = if p = q then (g.get? q).map f else g.get? q := by
  unfold modify
  split
  · rename_i c hc
    rw [Table.get?_insert]
    split
    · rename_i he
      rw [← he, hc, Option.map_some]
    · rfl
  · rename_i hn
    split
    · rename_i he
      rw [← he, hn, Option.map_none]
    · rfl

theorem get?_prune (g : Grid) (p : Position) :
    g.prune.get? p = (g.get? p).filter fun c => !c.isEmpty :=
  Table.get?_filter g (fun _ c => !c.isEmpty) p

theorem mem_formulas {g : Grid} {p : Position} :
    p ∈ g.formulas ↔ ∃ c, g.get? p = some c ∧ c.isFormula = true := by
  simp only [formulas, List.mem_map, List.mem_filter, Prod.exists, Table.mem_entries_iff]
  constructor
  · rintro ⟨q, c, ⟨hc, hf⟩, rfl⟩
    exact ⟨c, hc, hf⟩
  · rintro ⟨c, hc, hf⟩
    exact ⟨p, c, ⟨hc, hf⟩, rfl⟩

theorem not_mem_formulas {g : Grid} {p : Position} {c : Cell} (hc : g.get? p = some c)
    (hf : c.isFormula = false) : p ∉ g.formulas := by
  intro hp
  obtain ⟨d, hd, hf'⟩ := mem_formulas.1 hp
  cases hc.symm.trans hd
  rw [hf] at hf'
  cases hf'

theorem formulas_sorted (g : Grid) : g.formulas.Pairwise Position.Before :=
  List.pairwise_map.2 (g.sorted.filter _)

end Grid

end Spreadsheet

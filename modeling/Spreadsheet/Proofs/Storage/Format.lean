import Spreadsheet.Proofs.Storage.Csv
import Spreadsheet.Proofs.Storage.LineGrammar
import Spreadsheet.Proofs.Storage.Markdown
import Spreadsheet.Storage.Format

/-!
# Formats and their extensions

A path is that of a format if it ends in its extension, in either case of
letters. Every other path is refused with what it ends in, and a Markdown table
is not read. Comma separated values are always read; the line format refuses a
text for the first of its lines that it does not know. A document always has a
text in the line format; in the others it has none if it reaches too far.
-/
namespace Spreadsheet
open Text

/-! ## Extensions -/

/-- The extension of a file name, in small letters. -/
def Path.smallExtension? (path : String) : Option String :=
  (Path.extension? path.toList).map fun letters => String.ofList (letters.map Char.toLower)

namespace Format

def extension : Format → String
  | tbl => "tbl"
  | csv => "csv"
  | markdown => "md"

/-- Whether a path has the extension of a format, in either case of letters. -/
def IsOf (format : Format) (path : String) : Prop :=
  Path.smallExtension? path = some format.extension

/-- Why a path is that of no format. -/
inductive Unsupported (path : String) : StorageFault → Prop
  | noExtension : Path.smallExtension? path = none → Unsupported path (.unsupported path)
  | otherExtension {letters : String} : Path.smallExtension? path = some letters →
      (∀ format : Format, letters ≠ format.extension) →
      Unsupported path (.unsupported ("." ++ letters))

/-- Why a document has no text in a format. -/
inductive Exceeds (d : Document) : Format → Prop
  | csv : ¬ Csv.Fits d.sheet.cells → Exceeds d csv
  | markdown {p : Position} : Markdown.Occupied d.grid p → p.row = -1 → Exceeds d markdown

section
variable {path : String} {format : Format} {fault : StorageFault}

theorem ofExtension?_eq_some {letters : String} :
    ofExtension? letters = some format ↔ letters = format.extension := by
  constructor
  · intro h
    unfold ofExtension? at h
    split at h <;> cases h <;> rfl
  · rintro rfl
    cases format <;> rfl

theorem ofPath_eq (path : String) : ofPath path =
    match Path.smallExtension? path with
    | none => .error (.unsupported path)
    | some letters =>
      match ofExtension? letters with
      | some format => .ok format
      | none => .error (.unsupported ("." ++ letters)) := by
  unfold ofPath Path.smallExtension?
  cases Path.extension? path.toList <;> rfl

theorem ofPath_eq_ok : ofPath path = .ok format ↔ format.IsOf path := by
  rw [ofPath_eq, IsOf]
  cases Path.smallExtension? path with
  | none => exact iff_of_false nofun nofun
  | some letters =>
    rw [Option.some.injEq, ← ofExtension?_eq_some]
    dsimp only
    cases ofExtension? letters with
    | none => exact iff_of_false nofun nofun
    | some other => rw [Except.ok.injEq, Option.some.injEq]

theorem ofPath_eq_error : ofPath path = .error fault ↔ Unsupported path fault := by
  constructor
  · intro h
    rw [ofPath_eq] at h
    cases hletters : Path.smallExtension? path with
    | none =>
      rw [hletters] at h
      cases h
      exact .noExtension hletters
    | some letters =>
      rw [hletters] at h
      dsimp only at h
      cases hformat : ofExtension? letters with
      | some format =>
        rw [hformat] at h
        cases h
      | none =>
        rw [hformat] at h
        cases h
        refine .otherExtension hletters fun format he => ?_
        cases hformat.symm.trans (ofExtension?_eq_some.2 he)
  · intro h
    rw [ofPath_eq]
    cases h with
    | noExtension hletters => rw [hletters]
    | @otherExtension letters hletters hother =>
      have hformat : ofExtension? letters = none :=
        Option.eq_none_iff_forall_ne_some.2 fun format he =>
          hother format (ofExtension?_eq_some.1 he)
      rw [hletters]
      dsimp only
      rw [hformat]

theorem loadable_eq_ok :
    loadable path = .ok format ↔ format.IsOf path ∧ format.isLoadable = true := by
  rw [← ofPath_eq_ok, loadable]
  cases ofPath path with
  | error fault => exact iff_of_false nofun nofun
  | ok other =>
    dsimp only
    split_ifs with hother
    · rw [Except.ok.injEq]
      exact ⟨fun h => ⟨h, h ▸ hother⟩, And.left⟩
    · refine iff_of_false nofun ?_
      rintro ⟨h, hformat⟩
      cases h
      exact hother hformat

/-- A path that sheets are not read from is that of no format, or that of a Markdown table. -/
theorem loadable_eq_error : loadable path = .error fault ↔
    Unsupported path fault ∨
      markdown.IsOf path ∧ fault = .unsupported (path ++ " (export only)") := by
  rw [← ofPath_eq_error, ← ofPath_eq_ok, loadable]
  cases ofPath path with
  | error other => simp
  | ok format =>
    cases format <;> simp [isLoadable, eq_comm]

/-- Only the line format refuses a text, because of the first line that it does not know. -/
theorem read_eq_error {content : List Char} (h : format.isLoadable = true) :
    format.read content = .error fault ↔ format = tbl ∧ ∃ before line after lineFault,
      splitOn '\n' content = before ++ line :: after ∧
        (∀ l ∈ before, ∃ item, Tbl.Says (trim l) item) ∧ Tbl.Refused (trim line) lineFault ∧
        fault = .line (before.length + 1) lineFault := by
  cases format with
  | csv =>
    refine iff_of_false nofun ?_
    rintro ⟨htbl, _⟩
    cases htbl
  | markdown => cases h
  | tbl =>
    have hread : Format.read tbl content = .error fault ↔ ∃ number lineFault,
        Tbl.read content = .error (number, lineFault) ∧ fault = .line number lineFault := by
      rw [Format.read]
      cases Tbl.read content with
      | ok s => simp
      | error refused => simp [Prod.ext_iff, eq_comm]
    rw [hread]
    constructor
    · rintro ⟨number, lineFault, hlines, rfl⟩
      obtain ⟨before, line, after, hcontent, hbefore, hline, rfl⟩ := Tbl.readLines_eq_error.1 hlines
      exact ⟨rfl, before, line, after, lineFault, hcontent, hbefore, hline, by rw [Nat.add_comm]⟩
    · rintro ⟨-, before, line, after, lineFault, hcontent, hbefore, hline, rfl⟩
      exact ⟨_, lineFault, Tbl.readLines_eq_error.2
        ⟨before, line, after, hcontent, hbefore, hline, Nat.add_comm _ _⟩, rfl⟩

theorem write?_eq_none {d : Document} : format.write? d = none ↔ format.Exceeds d := by
  cases format with
  | tbl => exact iff_of_false nofun nofun
  | csv =>
    refine Csv.write?_eq_none_iff.trans ⟨.csv, ?_⟩
    rintro ⟨h⟩
    exact h
  | markdown =>
    refine Markdown.write?_eq_none_iff.trans ⟨?_, ?_⟩
    · rintro ⟨p, hp, hrow⟩
      exact .markdown hp hrow
    · rintro (_ | ⟨hp, hrow⟩)
      exact ⟨_, hp, hrow⟩

end

end Format

end Spreadsheet

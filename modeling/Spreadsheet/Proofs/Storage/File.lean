import Spreadsheet.Proofs.Storage.Format
import Spreadsheet.Storage.Folder

/-!
# Loads and saves that fail

What is outside of a document may answer anything when it is asked for a file,
and may change while it answers. A load fails because of the extension of the
file, because it cannot be read, because it is no text, or because of the first
line that the format does not know. A save fails because of the extension or
because nothing could be written. A document is changed only once none of this
can happen any more, so that a failure leaves it as it was.
-/
namespace Spreadsheet
open Text

/-! ## Encoded texts -/

theorem decodeText_encodeText (cs : List Char) : decodeText (encodeText cs) = .ok cs := by
  have htext : String.fromUTF8? (encodeText cs) = some (String.ofList cs) :=
    dif_pos (String.ofList cs).isValidUTF8
  rw [decodeText, htext]
  exact congrArg Except.ok String.toList_ofList

theorem decodeText_eq_ok {bytes : ByteArray} {cs : List Char} :
    decodeText bytes = .ok cs ↔ bytes = encodeText cs := by
  constructor
  · intro h
    unfold decodeText String.fromUTF8? at h
    split at h
    · rename_i s hs
      split at hs
      · cases hs
        cases h
        rw [encodeText, String.ofList_toList]
        rfl
      · cases hs
    · cases h
  · rintro rfl
    exact decodeText_encodeText cs

/-- Bytes that are the encoded form of no text are not decoded. -/
theorem decodeText_eq_error {bytes : ByteArray} {fault : FileFault} :
    decodeText bytes = .error fault ↔ (∀ cs, bytes ≠ encodeText cs) ∧ fault = .notText := by
  constructor
  · intro h
    refine ⟨fun cs hcs => ?_, ?_⟩
    · cases h.symm.trans (decodeText_eq_ok.2 hcs)
    · unfold decodeText at h
      split at h
      · cases h
      · cases h
        rfl
  · rintro ⟨hbytes, rfl⟩
    cases h : decodeText bytes with
    | ok cs => exact absurd (decodeText_eq_ok.1 h) (hbytes cs)
    | error fault =>
      unfold decodeText at h
      split at h
      · cases h
      · exact h.symm

/-! ## Actions whose surroundings have a state -/

theorem run_bind {ρ α β : Type} (x : StateM ρ α) (k : α → StateM ρ β) (r : ρ) :
    (x >>= k).run r = (k (x.run r).1).run (x.run r).2 := rfl

theorem run_run_bind {σ ρ α β : Type} (x : StateT σ (StateM ρ) α) (k : α → StateT σ (StateM ρ) β)
    (s : σ) (r : ρ) : ((x >>= k).run s).run r =
      ((k ((x.run s).run r).1.1).run ((x.run s).run r).1.2).run ((x.run s).run r).2 := rfl

theorem run_run_monadLift_bind {σ ρ α β : Type} (x : StateM ρ α) (k : α → StateT σ (StateM ρ) β)
    (s : σ) (r : ρ) : ((monadLift x >>= k).run s).run r = ((k (x.run r).1).run s).run (x.run r).2 :=
  rfl

/-- An action goes on with an outcome; a fault of it is its own. -/
theorem DocumentAction.run_ofOutcome {ρ α β : Type} (outcome : Except StorageFault α)
    (k : α → DocumentAction (StateM ρ) β) (d : Document) (w : ρ) :
    ((ofOutcome outcome >>= k).run.run d).run w =
      match outcome with
      | .ok a => ((k a).run.run d).run w
      | .error fault => ((.error fault, d), w) := by
  have houtcome : ((ofOutcome outcome : DocumentAction (StateM ρ) α).run.run d).run w =
      ((outcome, d), w) := rfl
  rw [ExceptT.run_bind, run_run_bind, houtcome]
  cases outcome <;> rfl

/-- An action goes on with what it got from outside; a fault there is its own. -/
theorem DocumentAction.run_outside {ρ α β : Type} (action : StateM ρ (Except FileFault α))
    (k : α → DocumentAction (StateM ρ) β) (d : Document) (w : ρ) :
    ((outside action >>= k).run.run d).run w =
      match (action.run w).1 with
      | .ok a => ((k a).run.run d).run (action.run w).2
      | .error fault => ((.error (.file fault), d), (action.run w).2) := by
  have houtside : ((outside action).run.run d).run w =
      (((action.run w).1.mapError .file, d), (action.run w).2) := by
    refine (run_run_monadLift_bind action _ d w).trans ?_
    cases (action.run w).1 <;> rfl
  rw [ExceptT.run_bind, run_run_bind, houtside]
  cases (action.run w).1 <;> rfl

namespace FileAccess

variable {ρ : Type} (files : FileAccess (StateM ρ)) (path : String) (d d' : Document) (w : ρ)
  (fault : StorageFault)

theorem run_readText : (files.readText path).run w =
    (((files.read path).run w).1.bind decodeText, ((files.read path).run w).2) := by
  unfold readText
  rw [run_bind]
  cases ((files.read path).run w).1 <;> rfl

/-! ## Loads -/

/-- The sheet that the file at a path holds. -/
def loaded : Except StorageFault Sheet :=
  match Format.loadable path with
  | .error fault => .error fault
  | .ok format =>
    match ((files.read path).run w).1.bind decodeText with
    | .error fault => .error (.file fault)
    | .ok content => format.read content

theorem run_load [Engine] (ω : Occasion) : ((files.load ω path).run.run d).run w =
    (match files.loaded path w with
      | .error fault => (.error fault, d)
      | .ok s => (.ok (), { d.load ω s with path := some path }),
    match Format.loadable path with
      | .error _ => w
      | .ok _ => ((files.read path).run w).2) := by
  unfold load loaded
  cases Format.loadable path with
  | error fault => rfl
  | ok format =>
    refine (DocumentAction.run_outside (files.readText path) _ d w).trans ?_
    rw [run_readText]
    cases ((files.read path).run w).1.bind decodeText with
    | error fault => rfl
    | ok content =>
      dsimp only
      cases format.read content <;> rfl

/-- Why the file at a path cannot be loaded. -/
inductive CannotLoad : StorageFault → Prop
  | unsupported {fault : StorageFault} : Format.Unsupported path fault → CannotLoad fault
  | exportOnly : Format.markdown.IsOf path → CannotLoad (.unsupported (path ++ " (export only)"))
  | unreadable {format : Format} {fault : FileFault} : format.IsOf path →
      format.isLoadable = true → ((files.read path).run w).1 = .error fault →
      CannotLoad (.file fault)
  | notText {format : Format} {bytes : ByteArray} : format.IsOf path →
      format.isLoadable = true → ((files.read path).run w).1 = .ok bytes →
      (∀ cs, bytes ≠ encodeText cs) → CannotLoad (.file .notText)
  | malformed {content line : List Char} {before after : List (List Char)}
      {fault : Tbl.LineFault} : Format.tbl.IsOf path →
      ((files.read path).run w).1 = .ok (encodeText content) →
      splitOn '\n' content = before ++ line :: after →
      (∀ l ∈ before, ∃ item, Tbl.Says (trim l) item) → Tbl.Refused (trim line) fault →
      CannotLoad (.line (before.length + 1) fault)

variable {files path d d' w fault}

theorem loaded_of_unreadable {format : Format} {fault : FileFault} (hformat : format.IsOf path)
    (hloadable : format.isLoadable = true)
    (hread : ((files.read path).run w).1.bind decodeText = .error fault) :
    files.loaded path w = .error (.file fault) := by
  rw [loaded, Format.loadable_eq_ok.2 ⟨hformat, hloadable⟩, hread]

theorem loaded_of_text {format : Format} {content : List Char} (hformat : format.IsOf path)
    (hloadable : format.isLoadable = true)
    (hread : ((files.read path).run w).1 = .ok (encodeText content)) :
    files.loaded path w = format.read content := by
  have htext : ((files.read path).run w).1.bind decodeText = .ok content := by
    rw [hread]
    exact decodeText_encodeText content
  rw [loaded, Format.loadable_eq_ok.2 ⟨hformat, hloadable⟩, htext]

theorem CannotLoad.loaded_eq (h : files.CannotLoad path w fault) :
    files.loaded path w = .error fault := by
  cases h with
  | unsupported hpath => rw [loaded, Format.loadable_eq_error.2 (.inl hpath)]
  | exportOnly hformat => rw [loaded, Format.loadable_eq_error.2 (.inr ⟨hformat, rfl⟩)]
  | unreadable hformat hloadable hread =>
    refine loaded_of_unreadable hformat hloadable ?_
    rw [hread]
    rfl
  | notText hformat hloadable hread hbytes =>
    refine loaded_of_unreadable hformat hloadable ?_
    rw [hread]
    exact decodeText_eq_error.2 ⟨hbytes, rfl⟩
  | @malformed content line before after fault hformat hread hcontent hbefore hline =>
    rw [loaded_of_text hformat rfl hread]
    exact (Format.read_eq_error rfl).2
      ⟨rfl, before, line, after, fault, hcontent, hbefore, hline, rfl⟩

theorem loaded_eq_error : files.loaded path w = .error fault ↔ files.CannotLoad path w fault := by
  refine ⟨fun h => ?_, CannotLoad.loaded_eq⟩
  cases hformat : Format.loadable path with
  | error refused =>
    rw [loaded, hformat] at h
    cases h
    rcases Format.loadable_eq_error.1 hformat with hpath | ⟨hpath, rfl⟩
    · exact .unsupported hpath
    · exact .exportOnly hpath
  | ok format =>
    obtain ⟨hpath, hloadable⟩ := Format.loadable_eq_ok.1 hformat
    cases hread : ((files.read path).run w).1 with
    | error refused =>
      rw [loaded_of_unreadable hpath hloadable (by rw [hread]; rfl)] at h
      cases h
      exact .unreadable hpath hloadable hread
    | ok bytes =>
      cases htext : decodeText bytes with
      | error refused =>
        rw [loaded_of_unreadable hpath hloadable (by rw [hread]; exact htext)] at h
        cases h
        obtain ⟨hbytes, rfl⟩ := decodeText_eq_error.1 htext
        exact .notText hpath hloadable hread hbytes
      | ok content =>
        rw [decodeText_eq_ok.1 htext] at hread
        rw [loaded_of_text hpath hloadable hread] at h
        obtain ⟨rfl, before, line, after, lineFault, hcontent, hbefore, hline, rfl⟩ :=
          (Format.read_eq_error hloadable).1 h
        exact .malformed hpath hread hcontent hbefore hline

theorem load_fails [Engine] {ω : Occasion} :
    (((files.load ω path).run.run d).run w).1 = (.error fault, d') ↔
    files.CannotLoad path w fault ∧ d' = d := by
  rw [run_load, ← loaded_eq_error]
  cases files.loaded path w with
  | error refused => simp [eq_comm]
  | ok s => simp

/-! ## Saves -/

theorem run_saveAs (files : FileAccess (StateM ρ)) (path : String) (d : Document) (w : ρ) :
    ((files.saveAs path).run.run d).run w =
      match Format.ofPath path with
      | .error fault => ((.error fault, d), w)
      | .ok format =>
        match format.write? d with
        | none => ((.error .overflow, d), w)
        | some content =>
          (match ((files.write path (encodeText content)).run w).1 with
            | .error fault => (.error (.file fault), d)
            | .ok () => (.ok (), if format.isLoadable then
                { d with path := some path, modified := false } else d),
          ((files.write path (encodeText content)).run w).2) := by
  unfold saveAs
  cases Format.ofPath path with
  | error fault => rfl
  | ok format =>
    refine (DocumentAction.run_ofOutcome (format.write d) _ d w).trans ?_
    dsimp only
    cases hcontent : format.write? d with
    | none => rw [Format.write, hcontent]
    | some content =>
      rw [Format.write, hcontent]
      refine (DocumentAction.run_outside (files.write path _) _ d w).trans ?_
      dsimp only
      generalize (files.write path (encodeText content)).run w = answer
      rcases answer with ⟨_ | _, w'⟩
      · rfl
      · cases format <;> rfl

theorem run_save (files : FileAccess (StateM ρ)) (d : Document) (w : ρ) :
    (files.save.run.run d).run w =
      match d.path with
      | none => ((.error .noPath, d), w)
      | some path =>
        (((((files.saveAs path).run.run d).run w).1.1.map fun _ => path,
            (((files.saveAs path).run.run d).run w).1.2),
          (((files.saveAs path).run.run d).run w).2) := by
  have hget : ((get : DocumentAction (StateM ρ) Document).run.run d).run w =
      ((.ok d, d), w) := rfl
  unfold save
  rw [ExceptT.run_bind, run_run_bind, hget]
  dsimp only
  cases d.path with
  | none => rfl
  | some path =>
    dsimp only
    rw [ExceptT.run_bind, run_run_bind]
    rcases ((files.saveAs path).run.run d).run w with ⟨⟨_ | _, d'⟩, w'⟩ <;> rfl

variable (files path d w) in
/-- Why a document cannot be saved to a path. -/
inductive CannotSaveAs : StorageFault → Prop
  | unsupported {fault : StorageFault} : Format.Unsupported path fault → CannotSaveAs fault
  | overflow {format : Format} : format.IsOf path → format.Exceeds d → CannotSaveAs .overflow
  | notWritten {format : Format} {content : List Char} {fault : FileFault} : format.IsOf path →
      format.write? d = some content →
      ((files.write path (encodeText content)).run w).1 = .error fault →
      CannotSaveAs (.file fault)

variable (files d w) in
/-- Why a document cannot be saved to its file. -/
inductive CannotSave : StorageFault → Prop
  | noPath : d.path = none → CannotSave .noPath
  | saveAs {path : String} {fault : StorageFault} : d.path = some path →
      files.CannotSaveAs path d w fault → CannotSave fault

theorem saveAs_fails : (((files.saveAs path).run.run d).run w).1 = (.error fault, d') ↔
    files.CannotSaveAs path d w fault ∧ d' = d := by
  rw [run_saveAs]
  constructor
  · intro h
    cases hformat : Format.ofPath path with
    | error refused =>
      rw [hformat] at h
      cases h
      exact ⟨.unsupported (Format.ofPath_eq_error.1 hformat), rfl⟩
    | ok format =>
      rw [hformat] at h
      dsimp only at h
      have hpath := Format.ofPath_eq_ok.1 hformat
      cases hcontent : format.write? d with
      | none =>
        rw [hcontent] at h
        cases h
        exact ⟨.overflow hpath (Format.write?_eq_none.1 hcontent), rfl⟩
      | some content =>
        rw [hcontent] at h
        dsimp only at h
        cases hwritten : ((files.write path (encodeText content)).run w).1 with
        | error refused =>
          rw [hwritten] at h
          cases h
          exact ⟨.notWritten hpath hcontent hwritten, rfl⟩
        | ok _ =>
          rw [hwritten] at h
          cases h
  · rintro ⟨h, rfl⟩
    cases h with
    | unsupported hpath => rw [Format.ofPath_eq_error.2 hpath]
    | overflow hformat hexceeds =>
      rw [Format.ofPath_eq_ok.2 hformat]
      dsimp only
      rw [Format.write?_eq_none.2 hexceeds]
    | notWritten hformat hcontent hwritten =>
      rw [Format.ofPath_eq_ok.2 hformat]
      dsimp only
      rw [hcontent]
      dsimp only
      rw [hwritten]

theorem save_fails : ((files.save.run.run d).run w).1 = (.error fault, d') ↔
    files.CannotSave d w fault ∧ d' = d := by
  rw [run_save]
  cases hpath : d.path with
  | none =>
    constructor
    · intro h
      cases h
      exact ⟨.noPath hpath, rfl⟩
    · rintro ⟨h, rfl⟩
      cases h with
      | noPath => rfl
      | saveAs hother => cases hpath.symm.trans hother
  | some path =>
    have hsaveAs : files.CannotSave d w fault ↔ files.CannotSaveAs path d w fault := by
      refine ⟨fun h => ?_, .saveAs hpath⟩
      cases h with
      | noPath hnone => cases hpath.symm.trans hnone
      | saveAs hother h =>
        cases hpath.symm.trans hother
        exact h
    rw [hsaveAs, ← saveAs_fails]
    dsimp only
    rcases (((files.saveAs path).run.run d).run w).1 with ⟨_ | _, d'⟩ <;> simp [Except.map]

/-- A load, a save under another name or a save to the document's own file fails for the causes
that are named, and for no others: for an extension that is none, or is only that of a Markdown
table; for a file that cannot be read, holds no text, or has a line that the line format does not
know behind any number of lines that it does know; for a sheet that reaches too far for the format,
which the program does not report but for which it aborts; for a file that cannot be written; for
want of a path. Then the cells, the widths, the default width, the decimal places, the path and the
mark of a change are those of before, whatever is outside and however that has changed. -/
theorem failures_keep_document [Engine] (files : FileAccess (StateM ρ)) (ω : Occasion)
    (path : String) (d d' : Document) (w : ρ) (fault : StorageFault) :
    ((((files.load ω path).run.run d).run w).1 = (.error fault, d') ↔
      files.CannotLoad path w fault ∧ d' = d) ∧
    ((((files.saveAs path).run.run d).run w).1 = (.error fault, d') ↔
      files.CannotSaveAs path d w fault ∧ d' = d) ∧
    (((files.save.run.run d).run w).1 = (.error fault, d') ↔
      files.CannotSave d w fault ∧ d' = d) :=
  ⟨load_fails, saveAs_fails, save_fails⟩

/-- A cell and a width stand in front of the line that has no colon. -/
example [Engine] (ω : Occasion) (d : Document) : (((Folder.access.load ω "s.tbl").run.run d).run
    ⟨[(["s.tbl".toList], encodeText "A1: 1\nwidth B: 3\nA1 2\nB1: 5".toList)]⟩).1 =
      (.error (.line 3 .noSeparator), d) := rfl

end FileAccess

end Spreadsheet

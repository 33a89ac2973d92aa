import Mathlib.Tactic.FinCases
import Spreadsheet.Proofs.Input
import Spreadsheet.Proofs.Storage.File
import Spreadsheet.Proofs.Storage.Folder
import Spreadsheet.Proofs.Storage.Reload
import Spreadsheet.Session

/-!
# Runs that are split

A run that saves its sheet opens a file, edits what it has read and writes the
file again. The next run opens what is stored of the document that the first one
ended with, so that both documents have one draft. Hence further commands lead
both of them to one draft too, and to the same file.
-/
namespace Spreadsheet
open Text

/-! ## Actions in a folder -/

namespace Folder

variable {f : Folder} {path : String}

theorem run_isPresent (f : Folder) (path : String) :
    (access.isPresent path).run f = ((f.find path).isOk, f) := by
  change (_, f) = _
  cases f.find path <;> rfl

theorem run_read (f : Folder) (path : String) :
    (access.read path).run f = (f.read path, f) := rfl

theorem run_write (f : Folder) (path : String) (bytes : ByteArray) :
    (access.write path bytes).run f =
      match f.write path bytes with
      | .ok f => (.ok (), f)
      | .error fault => (.error fault, f) := by
  have hget : (get : StateM Folder Folder).run f = (f, f) := rfl
  unfold access
  dsimp only
  rw [run_bind, hget]
  cases f.write path bytes <;> rfl

section
variable [Engine]

theorem run_load (f : Folder) (ω : Occasion) (path : String) (d : Document) :
    ((access.load ω path).run.run d).run f =
      (match access.loaded path f with
        | .error fault => (.error fault, d)
        | .ok s => (.ok (), { d.load ω s with path := some path }), f) := by
  rw [FileAccess.run_load, run_read]
  cases Format.loadable path <;> rfl

/-- The document that a file is opened as. -/
def opened (f : Folder) (ω : Occasion) (path : String) : Except StorageFault Document :=
  match f.find path with
  | .error _ => .ok { Document.new with path := some path }
  | .ok _ =>
    (access.loaded path f).map fun s => { Document.new.load ω s with path := some path }

theorem run_openDocument (f : Folder) (ω : Occasion) (path : String) :
    (access.openDocument ω (some path)).run f = (f.opened ω path, f) := by
  unfold FileAccess.openDocument opened
  dsimp only
  rw [run_bind, run_isPresent]
  cases f.find path with
  | error fault => rfl
  | ok node =>
    refine (run_bind ((access.load ω path).run.run Document.new) _ f).trans ?_
    rw [run_load]
    cases access.loaded path f <;> rfl

end

theorem run_saveAs (hformat : Format.ofPath path = .ok .tbl) (d : Document) (f : Folder) :
    ((access.saveAs path).run.run d).run f =
      match f.write path (encodeText (Tbl.write d.sheet)) with
      | .ok f => ((.ok (), { d with path := some path, modified := false }), f)
      | .error fault => ((.error (.file fault), d), f) := by
  rw [FileAccess.run_saveAs, hformat]
  dsimp only [Format.write?]
  rw [run_write]
  cases f.write path (encodeText (Tbl.write d.sheet)) <;> rfl

theorem run_save {d : Document} (hpath : d.path = some path)
    (hformat : Format.ofPath path = .ok .tbl) (f : Folder) :
    (access.save.run.run d).run f =
      match f.write path (encodeText (Tbl.write d.sheet)) with
      | .ok f => ((.ok path, { d with path := some path, modified := false }), f)
      | .error fault => ((.error (.file fault), d), f) := by
  rw [FileAccess.run_save, hpath]
  dsimp only
  rw [run_saveAs hformat]
  cases f.write path (encodeText (Tbl.write d.sheet)) <;> rfl

/-- The settings that a run finds. -/
def settings (f : Folder) (config user : Option String) : Settings :=
  ((Settings.load access config user).run f).1.1

/-- No file is changed by loading the settings. -/
theorem run_settings (f : Folder) (config user : Option String) :
    ((Settings.load access config user).run f).2 = f := by
  unfold Settings.load
  cases config.or user with
  | none => rfl
  | some path =>
    dsimp only
    rw [run_bind, run_isPresent]
    cases f.find path with
    | error fault => rfl
    | ok node =>
      refine (congrArg Prod.snd (run_bind (access.read path) _ f)).trans ?_
      rw [run_read]
      cases f.read path <;> rfl

/-! ## Opened documents -/

section
variable [Engine] {ω : Occasion} {d : Document}

omit [Engine] in
/-- What is read of a file without carriage returns has none. -/
theorem return_not_mem_of_loaded (hformat : Format.ofPath path = .ok .tbl)
    (hfile : ∀ content, (f.read path).bind decodeText = .ok content → '\r' ∉ content)
    {s : Sheet} (h : access.loaded path f = .ok s) : ∀ e ∈ s.cells, '\r' ∉ e.2 := by
  have hloadable := Format.loadable_eq_ok.2 ⟨Format.ofPath_eq_ok.1 hformat, rfl⟩
  rw [FileAccess.loaded, hloadable, run_read] at h
  dsimp only at h
  split at h
  · cases h
  · rename_i content hcontent
    have hread : Tbl.read content = .ok s := by
      rw [Format.read] at h
      split at h
      · cases h
        assumption
      · cases h
    exact Tbl.return_not_mem_of_read hread (hfile content hcontent)

theorem opened_eq_ok : f.opened ω path = .ok d ↔
    (∃ fault, f.find path = .error fault ∧ d = { Document.new with path := some path }) ∨
    ∃ node s, f.find path = .ok node ∧ access.loaded path f = .ok s ∧
      d = { Document.new.load ω s with path := some path } := by
  unfold opened
  cases f.find path with
  | error fault => simp [eq_comm]
  | ok node => cases access.loaded path f <;> simp [Except.map, eq_comm]

/-- A file without carriage returns is opened as a document that can be stored. -/
theorem opened_isStorable (hformat : Format.ofPath path = .ok .tbl)
    (hfile : ∀ content, (f.read path).bind decodeText = .ok content → '\r' ∉ content)
    (h : f.opened ω path = .ok d) : d.IsStorable := by
  rcases opened_eq_ok.1 h with ⟨_, _, rfl⟩ | ⟨_, s, _, hs, rfl⟩
  · exact Document.isStorable_new.congr rfl rfl
  · have hloaded := Document.isStorable_load .new ω (return_not_mem_of_loaded hformat hfile hs)
    exact hloaded.congr rfl rfl

theorem path_of_opened (h : f.opened ω path = .ok d) : d.path = some path := by
  rcases opened_eq_ok.1 h with ⟨_, _, rfl⟩ | ⟨_, _, _, _, rfl⟩ <;> rfl

section
variable {content : List Char} {s : Sheet} (hformat : Format.ofPath path = .ok .tbl)
  (hread : f.read path = .ok (encodeText content)) (hs : Tbl.read content = .ok s)
include hformat hread hs

omit [Engine] in
theorem loaded_of_read : access.loaded path f = .ok s := by
  have hrun : ((access.read path).run f).1 = .ok (encodeText content) := hread
  rw [FileAccess.loaded_of_text (Format.ofPath_eq_ok.1 hformat) rfl hrun, Format.read, hs]

/-- A file is opened as the sheet that is read of its text. -/
theorem opened_of_read (ω : Occasion) :
    f.opened ω path = .ok { Document.new.load ω s with path := some path } := by
  have hfind : ∃ node, f.find path = .ok node := by
    unfold read at hread
    split at hread
    · exact ⟨_, ‹_›⟩
    · cases hread
    · cases hread
  obtain ⟨node, hnode⟩ := hfind
  rw [opened, hnode, loaded_of_read hformat hread hs]
  rfl

end

/-- A document that was stored is opened as what is stored of it. -/
theorem opened_of_written (hformat : Format.ofPath path = .ok .tbl) (hd : d.IsStorable)
    (h : f.read path = .ok (encodeText (Tbl.write d.sheet))) (ω : Occasion) :
    f.opened ω path = .ok { Document.new.load ω d.sheet with path := some path } :=
  opened_of_read hformat h hd.read_write ω

/-- On two occasions the texts of a file are taken for the same: the documents that it is opened as
have one draft. -/
def OpensAlike (f : Folder) (path : String) (ω ω' : Occasion) : Prop :=
  ∀ d d', f.opened ω path = .ok d → f.opened ω' path = .ok d' → d.draft = d'.draft

end

end Folder

namespace Grid

theorem enterAll_onOccasion [Engine] {inputs : List (Position × List Char)}
    (h : ∀ e ∈ inputs, ∀ cs, evaluated? e.2 = some cs → Formula.IsRepeatable cs) (g : Grid)
    (ω ω' : Occasion) : enterAll ω inputs g = enterAll ω' inputs g := by
  induction inputs generalizing g ω ω' with
  | nil => rfl
  | cons e inputs ih =>
    obtain ⟨he, hinputs⟩ := List.forall_mem_cons.1 h
    have henter : g.enter (ω.stage 0) e.1 e.2 = g.enter (ω'.stage 0) e.1 e.2 := by
      rw [enter, enter, evaluateInput_onOccasion he g (ω.stage 0) (ω'.stage 0)]
    rw [enterAll, enterAll, henter, ih hinputs _ (ω.stage 1) (ω'.stage 1)]

end Grid

/-- A file without a text that depends on the occasion, as a draw at random does, is opened alike on
all of them. -/
theorem Folder.opensAlike_of_isRepeatable [Engine] {f : Folder} {path : String}
    (h : ∀ s, access.loaded path f = .ok s → ∀ e ∈ s.cells, ∀ cs,
      Grid.evaluated? e.2 = some cs → Formula.IsRepeatable cs) (ω ω' : Occasion) :
    f.OpensAlike path ω ω' := by
  intro d d' hd hd'
  rcases opened_eq_ok.1 hd with ⟨fault, hfind, rfl⟩ | ⟨node, s, hfind, hs, rfl⟩ <;>
    rcases opened_eq_ok.1 hd' with ⟨fault', hfind', rfl⟩ | ⟨node', s', hfind', hs', rfl⟩
  · rfl
  · cases hfind.symm.trans hfind'
  · cases hfind.symm.trans hfind'
  · cases hs.symm.trans hs'
    have hentered : (Grid.ofInputs ω s.cells).entered = (Grid.ofInputs ω' s.cells).entered := by
      rw [Grid.ofInputs, Grid.entered_refresh, Grid.ofInputs, Grid.entered_refresh,
        Grid.enterAll_onOccasion (h s hs)]
    exact congrArg (Draft.mk · _ _) hentered

namespace Document.IsStorable

variable [Engine] {d : Document}

theorem reopened (h : d.IsStorable) (ω : Occasion) (path : String) :
    ({ Document.new.load ω d.sheet with path := some path } : Document).IsStorable :=
  (Document.isStorable_load .new ω fun e he => (h.of_mem_sheet e he).2).congr rfl rfl

/-- With the same default width the document that is opened has the draft of the one that was
stored. -/
theorem draft_reopened (h : d.IsStorable) (hcut : d.grid.isStuck = false) {settings : Settings}
    (hwidth : d.draft.defaultWidth = settings.defaultWidth) (ω : Occasion) (path : String) :
    (settings.applyTo { Document.new.load ω d.sheet with path := some path }).draft = d.draft :=
  (h.draft_load hcut (settings.applyTo .new) ω).trans
    (congrArg (Draft.mk d.draft.entries d.draft.widths) hwidth.symm)

end Document.IsStorable

/-! ## Commands one after the other -/

/-- Texts of commands whose inputs, if they have one, are plain and hold no carriage return. -/
def ArePlainCommands (texts : List (List Char)) : Prop :=
  ∀ text ∈ texts, ∃ c, Command.read text = .ok c ∧ c.IsPlain

namespace Draft

/-- The draft after commands in their order, if all of them can be read and the program does not
abort. -/
def performAll? (f : Draft) : List (List Char) → Option Draft
  | [] => some f
  | text :: texts =>
    match Command.read text with
    | .ok c => (f.perform? c).bind fun f => performAll? f texts
    | .error _ => none

theorem performAll?_append (f : Draft) (texts more : List (List Char)) :
    f.performAll? (texts ++ more) = (f.performAll? texts).bind fun f => f.performAll? more := by
  induction texts generalizing f with
  | nil => rfl
  | cons text texts ih =>
    rw [List.cons_append, performAll?, performAll?]
    cases Command.read text with
    | error fault => rfl
    | ok c =>
      dsimp only
      cases f.perform? c with
      | none => rfl
      | some f => exact ih f

theorem defaultWidth_of_performAll {f f' : Draft} {texts : List (List Char)}
    (h : f.performAll? texts = some f') : f'.defaultWidth = f.defaultWidth := by
  induction texts generalizing f with
  | nil =>
    cases h
    rfl
  | cons text texts ih =>
    rw [performAll?] at h
    split at h
    · obtain ⟨g, hg, h⟩ := Option.bind_eq_some_iff.1 h
      exact (ih h).trans (defaultWidth_of_perform hg)
    · cases h

end Draft

section
variable [Engine] {d e : Document} {ω : Occasion}

theorem Document.path_of_perform {c : Command} (h : c.perform? ω d = some e) :
    e.path = d.path := by
  have hclear : ∀ p, (d.clear ω p).path = d.path := by
    intro p
    unfold clear
    split <;> rfl
  cases c with
  | clear p =>
    cases h
    exact hclear p
  | copy origin target =>
    simp only [Command.perform?, copy?] at h
    split at h
    · obtain ⟨input, -, rfl⟩ := Option.map_eq_some_iff.1 h
      rfl
    · cases h
      exact hclear target
  | insertRow row side | insertColumn col side =>
    obtain ⟨boundary, -, rfl⟩ := Option.map_eq_some_iff.1 h
    rfl
  | _ =>
    cases h
    rfl

theorem Document.path_of_applyAll {texts : List (List Char)} (h : d.applyAll ω texts = .ok e) :
    e.path = d.path := by
  induction texts generalizing d ω with
  | nil =>
    cases h
    rfl
  | cons text texts ih =>
    rw [applyAll] at h
    split at h
    · cases h
    · split at h
      · rename_i hstep
        exact (ih h).trans (path_of_perform hstep)
      · cases h

/-- Commands lead a document that can be stored to another one, and its draft to the draft of
that. -/
theorem Document.IsStorable.applyAll (h : d.IsStorable) {texts : List (List Char)}
    (htexts : ArePlainCommands texts) (hrun : d.applyAll ω texts = .ok e) :
    e.IsStorable ∧ d.draft.performAll? texts = some e.draft := by
  induction texts generalizing d ω with
  | nil =>
    cases hrun
    exact ⟨h, rfl⟩
  | cons text texts ih =>
    obtain ⟨⟨c, hc, hplain⟩, htexts⟩ := List.forall_mem_cons.1 htexts
    rw [Document.applyAll, hc] at hrun
    dsimp only at hrun
    split at hrun
    · rename_i d' hstep
      obtain ⟨hstorable, hdraft⟩ := ih (h.perform hplain hstep) htexts hrun
      refine ⟨hstorable, ?_⟩
      rw [Draft.performAll?, hc]
      dsimp only
      rw [draft_perform h.typed hplain hstep]
      exact hdraft
    · cases hrun

end

/-! ## Runs -/

/-- A request to edit a file and to save it back. -/
def Request.saving (path : String) (texts : List (List Char)) (config : Option String) : Request :=
  ⟨some path, texts, none, true, false, config⟩

namespace Run
open Document Folder

variable {α β : Type} {path : String}

theorem run_monadLift_bind (x : StateM Folder α) (k : α → Run (StateM Folder) β) (t : Transcript)
    (f : Folder) : ((monadLift x >>= k).run.run t).run f =
      ((k (x.run f).1).run.run t).run (x.run f).2 := rfl

theorem run_onDocument (what : String) (action : DocumentAction (StateM Folder) α) (d : Document)
    (t : Transcript) (f : Folder) :
    ((Run.onDocument what action d).run.run t).run f =
      match ((action.run.run d).run f).1 with
      | (.ok a, d') => ((.ok (a, d'), t), ((action.run.run d).run f).2)
      | (.error fault, _) =>
        ((.error (.ofStorage what fault), t), ((action.run.run d).run f).2) := by
  refine (run_monadLift_bind (action.run.run d) _ t f).trans ?_
  rcases ((action.run.run d).run f).1 with ⟨_ | _, _⟩ <;> rfl

theorem run_printSheet (d : Document) (t : Transcript) (f : Folder) :
    ((printSheet d : Run (StateM Folder) Document).run.run t).run f =
      match Markdown.write? d d.precision with
      | some content => ((.ok d, t.print (String.ofList content)), f)
      | none => ((.error .aborted, t), f) := by
  unfold printSheet
  cases Markdown.write? d d.precision <;> rfl

/-- A document ends up in its file, or nothing is changed. Then the run is aborted if the document
has no table to be printed. -/
theorem run_saveSheet {d : Document} (hpath : d.path = some path)
    (hformat : Format.ofPath path = .ok .tbl) (t : Transcript) (f : Folder) :
    ∃ t', ((saveSheet access d >>= printSheet).run.run t).run f =
      match f.write path (encodeText (Tbl.write d.sheet)) with
      | .ok f =>
        ((if (Markdown.write? d d.precision).isSome then
          .ok { d with path := some path, modified := false } else .error .aborted, t'), f)
      | .error fault => ((.error (.ofStorage "Failed to save" (.file fault)), t), f) := by
  unfold saveSheet
  rw [bind_assoc, ExceptT.run_bind, run_run_bind, run_onDocument, run_save hpath hformat]
  cases f.write path (encodeText (Tbl.write d.sheet)) with
  | error fault => exact ⟨t, rfl⟩
  | ok f =>
    have hprint := run_printSheet { d with path := some path, modified := false }
      (t.note (textOfLines ["Saved to " ++ path])) f
    have htable : Markdown.write? { d with path := some path, modified := false } d.precision =
        Markdown.write? d d.precision := rfl
    dsimp only at hprint
    rw [htable] at hprint
    cases hcontent : Markdown.write? d d.precision with
    | none =>
      rw [hcontent] at hprint
      exact ⟨_, hprint⟩
    | some content =>
      rw [hcontent] at hprint
      exact ⟨_, hprint⟩

section
variable [Engine] {ω : Occasion}

theorem run_openSheet (path : String) (t : Transcript) (f : Folder) :
    ((openSheet access ω (some path)).run.run t).run f =
      match f.opened ω path with
      | .error fault => ((.error (.ofStorage ("Failed to open '" ++ path ++ "'") fault), t), f)
      | .ok d => ((.ok d, t), f) := by
  refine (run_monadLift_bind (access.openDocument ω (some path)) _ t f).trans ?_
  rw [run_openDocument]
  cases f.opened ω path <;> rfl

theorem run_serve (path : String) (texts : List (List Char)) (config : Option String)
    (settings : Settings) (t : Transcript) (f : Folder) :
    ((serve access ω (.saving path texts config) settings).run.run t).run f =
      match f.opened (ω.stage 0) path with
      | .error fault => ((.error (.ofStorage ("Failed to open '" ++ path ++ "'") fault), t), f)
      | .ok d =>
        match (settings.applyTo d).applyAll (ω.stage 1) texts with
        | .error failed => ((.error failed, t), f)
        | .ok d => ((saveSheet access d >>= printSheet).run.run t).run f := by
  unfold serve Request.saving
  rw [ExceptT.run_bind, run_run_bind, run_openSheet]
  cases f.opened (ω.stage 0) path with
  | error fault => rfl
  | ok d =>
    change ((ofExcept ((settings.applyTo d).applyAll (ω.stage 1) texts) >>= fun d =>
      saveSheet access d >>= printSheet : Run (StateM Folder) Document).run.run t).run f = _
    dsimp only
    cases (settings.applyTo d).applyAll (ω.stage 1) texts <;> rfl

theorem fulfil_eq_serve (path : String) (texts : List (List Char)) (config user : Option String)
    (f : Folder) :
    ∃ t, ((fulfil access ω user (.saving path texts config)).run.run Transcript.empty).run f =
      ((serve access ω (.saving path texts config) (f.settings config user)).run.run t).run f := by
  obtain ⟨t, ht⟩ : ∃ t,
      ((fulfil access ω user (.saving path texts config)).run.run Transcript.empty).run f =
        ((serve access ω (.saving path texts config) (f.settings config user)).run.run t).run
          ((Settings.load access config user).run f).2 := ⟨_, rfl⟩
  exact ⟨t, by rw [ht, run_settings]⟩

/-- A run that saves its sheet comes to its end if the file is opened, all commands are carried out,
the file can be written and the table printed. -/
theorem run_fulfil_eq_ok {f f' : Folder} {d : Document} {texts : List (List Char)} (ω : Occasion)
    (config user : Option String) (hformat : Format.ofPath path = .ok .tbl) :
    (∃ t, ((fulfil access ω user (.saving path texts config)).run.run Transcript.empty).run f =
      ((.ok d, t), f')) ↔
    ∃ d₀ e, f.opened (ω.stage 0) path = .ok d₀ ∧
      ((f.settings config user).applyTo d₀).applyAll (ω.stage 1) texts = .ok e ∧
      f.write path (encodeText (Tbl.write e.sheet)) = .ok f' ∧
      (Markdown.write? e e.precision).isSome = true ∧
      d = { e with path := some path, modified := false } := by
  obtain ⟨t, ht⟩ := fulfil_eq_serve path texts config user f
  have hpath : ∀ {d₀ e : Document}, f.opened (ω.stage 0) path = .ok d₀ →
      ((f.settings config user).applyTo d₀).applyAll (ω.stage 1) texts = .ok e →
        e.path = some path := by
    intro d₀ e hopened happly
    have hset : ((f.settings config user).applyTo d₀).path = d₀.path := rfl
    rw [path_of_applyAll happly, hset, path_of_opened hopened]
  constructor
  · rintro ⟨t', hrun⟩
    rw [ht, run_serve] at hrun
    cases hopened : f.opened (ω.stage 0) path with
    | error fault =>
      rw [hopened] at hrun
      cases hrun
    | ok d₀ =>
      rw [hopened] at hrun
      dsimp only at hrun
      cases happly : ((f.settings config user).applyTo d₀).applyAll (ω.stage 1) texts with
      | error failed =>
        rw [happly] at hrun
        cases hrun
      | ok e =>
        rw [happly] at hrun
        dsimp only at hrun
        obtain ⟨t'', hsave⟩ := run_saveSheet (hpath hopened happly) hformat t f
        rw [hsave] at hrun
        cases hwrite : f.write path (encodeText (Tbl.write e.sheet)) with
        | error fault =>
          rw [hwrite] at hrun
          cases hrun
        | ok f'' =>
          rw [hwrite] at hrun
          dsimp only at hrun
          split at hrun
          · rename_i htable
            cases hrun
            exact ⟨d₀, e, rfl, happly, hwrite, htable, rfl⟩
          · cases hrun
  · rintro ⟨d₀, e, hopened, happly, hwrite, htable, rfl⟩
    obtain ⟨t', hsave⟩ := run_saveSheet (hpath hopened happly) hformat t f
    refine ⟨t', ?_⟩
    rw [ht, run_serve, hopened]
    dsimp only
    rw [happly]
    dsimp only
    rw [hsave, hwrite]
    dsimp only
    rw [if_pos htable]

/-- A run that saves its sheet writes a document whose draft the commands make of the draft that the
file is opened with. -/
theorem draft_of_run {f f' : Folder} {d : Document} {t : Transcript} {texts : List (List Char)}
    {config user : Option String} (hformat : Format.ofPath path = .ok .tbl)
    (hstorable : ∀ d₀, f.opened (ω.stage 0) path = .ok d₀ → d₀.IsStorable)
    (htexts : ArePlainCommands texts)
    (hrun : ((fulfil access ω user (.saving path texts config)).run.run Transcript.empty).run f =
      ((.ok d, t), f')) :
    ∃ d₀, f.opened (ω.stage 0) path = .ok d₀ ∧ d.IsStorable ∧
      ((f.settings config user).applyTo d₀).draft.performAll? texts = some d.draft ∧
      f.write path (encodeText (Tbl.write d.sheet)) = .ok f' := by
  obtain ⟨d₀, e, hopened, happly, hwrite, _, rfl⟩ :=
    (run_fulfil_eq_ok ω config user hformat).1 ⟨t, hrun⟩
  have hset : ((f.settings config user).applyTo d₀).IsStorable :=
    (hstorable d₀ hopened).congr rfl rfl
  obtain ⟨he, hdraft⟩ := hset.applyAll htexts happly
  exact ⟨d₀, hopened, he.congr rfl rfl, hdraft, hwrite⟩

end

section
open scoped StandardLibrary

theorem exists_ok_of_any {ε : Type} {x : Except ε α} {p : α → Bool}
    (h : x.toOption.any p = true) : ∃ a, x = .ok a ∧ p a = true := by
  cases x with
  | error fault => cases h
  | ok a => exact ⟨a, rfl, h⟩

end

end Run

end Spreadsheet

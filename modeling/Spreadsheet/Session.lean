import Spreadsheet.Command
import Spreadsheet.CommandLine
import Spreadsheet.Formula.Listing
import Spreadsheet.Settings

/-!
# A run of the program

A run loads the settings, opens the sheet, applies the commands in their order,
saves the sheet if asked to and writes it to a file or prints it as a table. The
first thing that fails ends the run. Cells with a fault are listed at the end. A
step whose numbers do not fit in their words aborts the program.
-/
namespace Spreadsheet
open Text

/-- What a run has printed, and what it has noted where errors go. -/
structure Transcript where
  printed : String
  noted : String
deriving DecidableEq, Repr

/-- Why a run ends early. -/
inductive RunFailure where
  /-- Something failed for some causes, which are printed. -/
  | reported (what : String) (causes : List String)
  /-- The program aborts. -/
  | aborted
deriving DecidableEq, Repr

/-- What comes out of a run. -/
structure Outcome where
  code : UInt8
  said : Transcript
deriving DecidableEq, Repr

/-- A part of a run, which may end it. -/
abbrev Run (m : Type → Type) (α : Type) := ExceptT RunFailure (StateT Transcript m) α

def textOfLines (lines : List String) : String := String.join (lines.map (· ++ "\n"))

namespace Transcript

def empty : Transcript := ⟨"", ""⟩

def print (t : Transcript) (text : String) : Transcript := ⟨t.printed ++ text, t.noted⟩

def note (t : Transcript) (text : String) : Transcript := ⟨t.printed, t.noted ++ text⟩

end Transcript

namespace RunFailure

/-- A text whose lines after the first are indented. -/
def indented (indent text : String) : String :=
  String.ofList (replaceChar '\n' ('\n' :: indent.toList) text.toList)

/-- The lines for the causes; several causes are numbered. -/
def causeLines : List String → List String
  | [] => []
  | [cause] => ["", "Caused by:", "    " ++ indented "    " cause]
  | causes => "" :: "Caused by:" :: causes.zipIdx.map fun (cause, i) =>
      "    " ++ Decimal.text i ++ ": " ++ indented "       " cause

/-- What is printed of a failure; what is printed of an abort is not laid down. -/
def lines : RunFailure → List String
  | reported what causes => ("Error: " ++ what) :: causeLines causes
  | aborted => []

def code : RunFailure → UInt8
  | reported _ _ => 1
  | aborted => 101

def ofStorage (what : String) : StorageFault → RunFailure
  | .overflow => aborted
  | fault => reported what (fault.message :: fault.cause?.toList)

end RunFailure

namespace Document

/-- The document after commands in their order, up to the first that cannot be read. -/
def applyAll [Engine] (ω : Occasion) (d : Document) :
    List (List Char) → Except RunFailure Document
  | [] => .ok d
  | text :: texts =>
    match Command.read text with
    | .error fault =>
      .error (.reported ("Invalid command '" ++ String.ofList text ++ "'") [fault.message])
    | .ok command =>
      match command.perform? (ω.stage 0) d with
      | some d => applyAll (ω.stage 1) d texts
      | none => .error .aborted

def faultLines (d : Document) : List String :=
  d.faults.map fun e => e.1.nameText ++ ": " ++ e.2.message

end Document

namespace Run

variable {m : Type → Type} [Monad m]

def print (text : String) : Run m Unit := modify fun t => t.print text

def note (lines : List String) : Run m Unit := modify fun t => t.note (textOfLines lines)

/-- What is done with a document; a fault is reported as the failure of something. -/
def onDocument {α : Type} (what : String) (action : DocumentAction m α) (d : Document) :
    Run m (α × Document) := do
  match ← monadLift (action.run.run d) with
  | (.ok a, d) => return (a, d)
  | (.error fault, _) => throw (.ofStorage what fault)

variable (files : FileAccess m)

def openSheet [Engine] (ω : Occasion) (file : Option String) : Run m Document := do
  match ← monadLift (files.openDocument ω file) with
  | .ok d => return d
  | .error fault => throw (.ofStorage ("Failed to open '" ++ file.getD "" ++ "'") fault)

def saveSheet (d : Document) : Run m Document := do
  let (path, d) ← onDocument "Failed to save" files.save d
  note ["Saved to " ++ path]
  return d

def exportSheet (d : Document) (path : String) : Run m Document := do
  let (_, d) ← onDocument ("Failed to write '" ++ path ++ "'") (files.saveAs path) d
  print (textOfLines ["Exported to " ++ path])
  return d

def printSheet (d : Document) : Run m Document := do
  match Markdown.write? d d.precision with
  | some content =>
    print (String.ofList content)
    return d
  | none => throw .aborted

section
variable [Engine] (ω : Occasion)

/-- Opens a sheet, applies the commands and hands the result out. -/
def serve (request : Request) (settings : Settings) : Run m Document := do
  let d ← openSheet files (ω.stage 0) request.file
  let d ← ofExcept ((settings.applyTo d).applyAll (ω.stage 1) request.commands)
  let d ← if request.save then saveSheet files d else pure d
  match request.output with
  | some path => exportSheet files d path
  | none => printSheet d

/-- Loads the settings and serves a request. -/
def fulfil (userSettings : Option String) (request : Request) : Run m Document := do
  let (settings, warnings) ← monadLift (Settings.load files request.config userSettings)
  note (warnings.map fun w => "Warning: " ++ w.message)
  serve files ω request settings

end

end Run

namespace Outcome

/-- The end of a run: a fault in some cell, too, makes it a failure. -/
def ofRun : Except RunFailure Document × Transcript → Outcome
  | (.ok d, t) => ⟨if d.faults.isEmpty then 0 else 1, t.note (textOfLines d.faultLines)⟩
  | (.error failed, t) => ⟨failed.code, t.note (textOfLines failed.lines)⟩

/-- A run that only prints lines. -/
def ofLines (lines : List String) : Outcome := ⟨0, Transcript.empty.print (textOfLines lines)⟩

/-- A run whose arguments are refused. -/
def ofRefusal : Refusal → Outcome
  | .help => ofLines helpLines
  | .version => ofLines [versionLine]
  | .usage => ⟨2, Transcript.empty.note (textOfLines refusalLines)⟩

end Outcome

/-- Runs the program on an occasion. -/
def runProgram {m : Type → Type} [Monad m] [Engine] (files : FileAccess m) (ω : Occasion)
    (userSettings : Option String) (arguments : List String) : m Outcome := do
  match Request.ofArguments arguments with
  | .error refusal => return .ofRefusal refusal
  | .ok request =>
    if request.functions then return .ofLines Formula.listing
    else return .ofRun (← (Run.fulfil files ω userSettings request).run.run Transcript.empty)

end Spreadsheet

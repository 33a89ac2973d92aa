import Spreadsheet.Storage.Format

/-!
# Documents in files

A document is loaded from a file and saved to one. What reads and writes files
is given from outside. A load or save that fails leaves the document as it was.
-/
namespace Spreadsheet

/-- A way to read and write files. -/
structure FileAccess (m : Type → Type) where
  isPresent : String → m Bool
  read : String → m (Except FileFault ByteArray)
  write : String → ByteArray → m (Except FileFault Unit)

def decodeText (bytes : ByteArray) : Except FileFault (List Char) :=
  match String.fromUTF8? bytes with
  | some s => .ok s.toList
  | none => .error .notText

def encodeText (cs : List Char) : ByteArray := (String.ofList cs).toUTF8

/-- What is done with a document and may fail; what was done before the failure stays. -/
abbrev DocumentAction (m : Type → Type) (α : Type) := ExceptT StorageFault (StateT Document m) α

namespace DocumentAction

variable {m : Type → Type} [Monad m]

/-- An outcome that does not need the document. -/
def ofOutcome {α : Type} (outcome : Except StorageFault α) : DocumentAction m α :=
  ExceptT.mk (pure outcome)

/-- What is done outside of the document. -/
def outside {α : Type} (action : m (Except FileFault α)) : DocumentAction m α :=
  ExceptT.mk do
    match ← action with
    | .ok a => pure (.ok a)
    | .error fault => pure (.error (.file fault))

end DocumentAction

namespace FileAccess
open DocumentAction

variable {m : Type → Type} [Monad m] (files : FileAccess m)

def readText (path : String) : m (Except FileFault (List Char)) := do
  match ← files.read path with
  | .ok bytes => pure (decodeText bytes)
  | .error fault => pure (.error fault)

/-- Replaces the sheet by the one in a file, which becomes the document's file. -/
def load [Engine] (ω : Occasion) (path : String) : DocumentAction m Unit := do
  let format ← ofOutcome (Format.loadable path)
  let content ← outside (files.readText path)
  let sheet ← ofOutcome (format.read content)
  modify fun d => { d.load ω sheet with path := some path }

/-- Writes the document to a file. Unless this is only an export, it becomes the document's
file. -/
def saveAs (path : String) : DocumentAction m Unit := do
  let format ← ofOutcome (Format.ofPath path)
  let d ← get
  let content ← ofOutcome (format.write d)
  outside (files.write path (encodeText content))
  if format.isLoadable then set { d with path := some path, modified := false }

def save : DocumentAction m String := do
  match (← get).path with
  | none => ofOutcome (.error .noPath)
  | some path =>
    files.saveAs path
    return path

/-- A document for a file. If there is no such file yet, it is where the document is saved to. -/
def openDocument [Engine] (ω : Occasion) (path? : Option String) :
    m (Except StorageFault Document) := do
  match path? with
  | none => return .ok Document.new
  | some path =>
    if ← files.isPresent path then
      match ← (files.load ω path).run.run Document.new with
      | (.ok _, d) => return .ok d
      | (.error fault, _) => return .error fault
    else return .ok { Document.new with path := some path }

end FileAccess

end Spreadsheet

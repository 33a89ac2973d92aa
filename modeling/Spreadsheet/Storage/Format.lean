import Spreadsheet.Storage.Csv
import Spreadsheet.Storage.Markdown
import Spreadsheet.Storage.Tbl

/-!
# File formats

The format of a file follows from the extension of its name, in either case of
letters. Sheets are read from the line format and from comma separated values;
a Markdown table can only be written.
-/
namespace Spreadsheet
open Text

/-- A format in which a sheet can be written. -/
inductive Format where
  | tbl
  | csv
  | markdown
deriving DecidableEq, Repr

/-- Why a file cannot be read or written. -/
inductive FileFault where
  | missing
  | notFolder
  | isFolder
  | nameTooLong
  | notText
  | other (message : String)
deriving DecidableEq, Repr

/-- Why a sheet cannot be read or written. -/
inductive StorageFault where
  | file (fault : FileFault)
  | line (number : Nat) (fault : Tbl.LineFault)
  | noPath
  | unsupported (name : String)
  /-- The sheet reaches too far to be laid out. The program does not report it but aborts. -/
  | overflow
deriving DecidableEq, Repr

namespace FileFault

def message : FileFault → String
  | missing => "No such file or directory (os error 2)"
  | notFolder => "Not a directory (os error 20)"
  | isFolder => "Is a directory (os error 21)"
  | nameTooLong => "File name too long (os error 36)"
  | notText => "stream did not contain valid UTF-8"
  | other message => message

end FileFault

namespace StorageFault

def message : StorageFault → String
  | file fault => "IO error: " ++ fault.message
  | line number fault =>
    "Parse error at line " ++ Decimal.text number ++ ": " ++ fault.message
  | noPath => "No file path set"
  | unsupported name => "Unsupported file format: " ++ name
  | overflow => "Sheet too large"

/-- What is said of the cause of a fault, if it has one. -/
def cause? : StorageFault → Option String
  | file fault => some fault.message
  | line _ _ | noPath | unsupported _ | overflow => none

end StorageFault

namespace Path

/-- The names on the way to a file, without those that stay where they are. -/
def steps (path : List Char) : List (List Char) :=
  (splitOn '/' path).filter fun name => !name.isEmpty && name != ['.']

/-- The last name of a path, if it is the name of a file or folder. -/
def fileName? (path : List Char) : Option (List Char) :=
  (steps path).getLast?.filter fun name => name != ['.', '.']

/-- What follows the last point of a file name, if something stands before it. -/
def extension? (path : List Char) : Option (List Char) := do
  let (reversed, stem) ← cut (fun c => c = '.') (← fileName? path).reverse
  if stem.isEmpty then none else some reversed.reverse

end Path

namespace Format

def isLoadable : Format → Bool
  | tbl | csv => true
  | markdown => false

/-- The format that an extension in small letters stands for. -/
def ofExtension? (letters : String) : Option Format :=
  match letters with
  | "tbl" => some tbl
  | "csv" => some csv
  | "md" => some markdown
  | _ => none

/-- The format of the file at a path. -/
def ofPath (path : String) : Except StorageFault Format :=
  match Path.extension? path.toList with
  | none => .error (.unsupported path)
  | some letters =>
    let letters := String.ofList (letters.map Char.toLower)
    match ofExtension? letters with
    | some format => .ok format
    | none => .error (.unsupported ("." ++ letters))

/-- The format of the file at a path, if sheets can be read from it. -/
def loadable (path : String) : Except StorageFault Format :=
  match ofPath path with
  | .error fault => .error fault
  | .ok format =>
    if format.isLoadable then .ok format
    else .error (.unsupported (path ++ " (export only)"))

def read (format : Format) (content : List Char) : Except StorageFault Sheet :=
  match format with
  | csv => .ok ⟨Csv.read content, []⟩
  | tbl | markdown =>
    match Tbl.read content with
    | .ok sheet => .ok sheet
    | .error (number, fault) => .error (.line number fault)

/-- The text of a document; there is none if the sheet reaches too far for it. -/
def write? (format : Format) (d : Document) : Option (List Char) :=
  match format with
  | tbl => some (Tbl.write d.sheet)
  | csv => Csv.write? d.sheet.cells
  | markdown => Markdown.write? d d.precision

def write (format : Format) (d : Document) : Except StorageFault (List Char) :=
  match format.write? d with
  | some content => .ok content
  | none => .error .overflow

end Format

end Spreadsheet

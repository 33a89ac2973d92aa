import Spreadsheet.Storage.File
import Spreadsheet.Text.Radix

/-!
# Settings

A settings file gives the default column width and the number of decimal places,
each a line with a name, an equals sign and an integer, in the notation of TOML.
Names may be quoted; integers may have a sign, underscores and the bases two,
eight and sixteen. Anything else makes the whole file unreadable. A problem with
the file is a warning and leaves the standard settings.
-/
namespace Spreadsheet
open Text

/-- What a settings file sets. -/
structure SettingsFile where
  defaultWidth : Option Nat
  precision : Option Nat
deriving DecidableEq, Repr

/-- The settings of a document. -/
structure Settings where
  defaultWidth : UInt64
  precision : Nat
deriving DecidableEq, Repr

/-- Why settings are not as they were asked for. -/
inductive SettingsWarning where
  | notFound (path : String)
  | tooLarge (path : String) (size : Nat)
  | unreadable (path : String) (fault : FileFault)
  | malformed (path : String)
  | noWidth
  | tooPrecise (precision : Nat)
deriving DecidableEq, Repr

/-- The names of the settings. -/
inductive SettingName where
  | defaultWidth
  | precision
deriving DecidableEq, Repr

namespace SettingName

def ofText? (name : String) : Option SettingName :=
  match name with
  | "default_column_width" => some defaultWidth
  | "precision" => some precision
  | _ => none

end SettingName

namespace SettingsFile

def empty : SettingsFile := ⟨none, none⟩

/-- The number of a run of digits, in which single underscores may stand between two digits. -/
def number? (base : Nat) (cs : List Char) : Option Nat :=
  let runs := splitOn '_' cs
  if runs.all fun run => !run.isEmpty && run.all (Radix.isDigitOf base) then
    some (Radix.value base runs.flatten)
  else none

/-- Whether a decimal number is written without a leading zero. -/
def isPlain (cs : List Char) : Bool := cs.head? != some '0' || cs.length == 1

def decimal? (cs : List Char) : Option Nat := if isPlain cs then number? 10 cs else none

/-- The natural number that an integer is; of the negative ones none but zero. -/
def natural? : List Char → Option Nat
  | '0' :: 'x' :: cs => number? 16 cs
  | '0' :: 'o' :: cs => number? 8 cs
  | '0' :: 'b' :: cs => number? 2 cs
  | '+' :: cs => decimal? cs
  | '-' :: cs => (decimal? cs).filter fun n => n == 0
  | cs => decimal? cs

/-- Integers are signed words. -/
def integerLimit : Nat := 0x8000000000000000

/-- A blank within a line. -/
def isSpace (c : Char) : Bool := c == ' ' || c == '\t'

def dropSpaces (cs : List Char) : List Char := cs.dropWhile isSpace

/-- A character that may stand in a comment. -/
def isCommentChar (c : Char) : Bool := c == '\t' || (' ' ≤ c && c.toNat != 0x7F)

/-- Whether nothing but blanks and a comment is left of a line. -/
def isRest (cs : List Char) : Bool :=
  match dropSpaces cs with
  | [] => true
  | '#' :: comment => comment.all isCommentChar
  | _ => false

/-- A character that may stand in a name without quotes. -/
def isNameChar (c : Char) : Bool := c.isAlphanum || c == '_' || c == '-'

/-- The characters up to a closing quote and what follows it. In double quotes a character may be
given by its number. No other escape stands for a character of a setting's name. -/
def quoted? (quote : Char) : Nat → List Char → Option (List Char × List Char)
  | 0, _ => none
  | bound + 1, cs =>
    match cs with
    | [] => none
    | c :: cs =>
      if c = quote then some ([], cs)
      else if c = '\\' ∧ quote = '"' then do
        let (escaped, rest) ← match cs with
          | 'u' :: cs => Radix.character? 4 cs
          | 'U' :: cs => Radix.character? 8 cs
          | _ => none
        let (text, rest) ← quoted? quote bound rest
        return (escaped :: text, rest)
      else do
        let (text, rest) ← quoted? quote bound cs
        return (c :: text, rest)

/-- The name that a line starts with and what follows it. -/
def name? (cs : List Char) : Option (List Char × List Char) :=
  match cs with
  | [] => none
  | c :: rest =>
    if c = '"' ∨ c = '\'' then quoted? c cs.length rest
    else some (cs.takeWhile isNameChar, cs.dropWhile isNameChar)

/-- A character that may stand in an integer. -/
def isIntegerChar (c : Char) : Bool := c.isAlphanum || c == '_' || c == '+' || c == '-'

/-- The setting that a line makes. -/
def setting? (line : List Char) : Option (SettingName × Nat) := do
  let (name, rest) ← name? line
  let setting ← SettingName.ofText? (String.ofList name)
  let value ← dropLead? ['='] (dropSpaces rest)
  let value := dropSpaces value
  let n ← natural? (value.takeWhile isIntegerChar)
  if n < integerLimit && isRest (value.dropWhile isIntegerChar) then some (setting, n) else none

/-- A setting added to others; none can be made twice. -/
def add? (file : SettingsFile) : SettingName × Nat → Option SettingsFile
  | (.defaultWidth, n) => if file.defaultWidth.isSome then none else some ⟨some n, file.precision⟩
  | (.precision, n) => if file.precision.isSome then none else some ⟨file.defaultWidth, some n⟩

/-- The settings after a line. -/
def readLine? (file : SettingsFile) (line : List Char) : Option SettingsFile :=
  let line := dropSpaces line
  if isRest line then some file else (setting? line).bind file.add?

/-- A line without the carriage return that ends it. -/
def dropReturn (line : List Char) : List Char :=
  if line.getLast? = some '\r' then line.dropLast else line

/-- The lines of a text; a carriage return belongs to a line break that follows it. -/
def lines (cs : List Char) : List (List Char) :=
  let all := splitOn '\n' cs
  all.dropLast.map dropReturn ++ [all.getLastD []]

/-- Reads a settings file, which may start with a byte order mark. -/
def read? (cs : List Char) : Option SettingsFile :=
  (lines ((dropLead? ['\uFEFF'] cs).getD cs)).foldlM readLine? empty

end SettingsFile

namespace SettingsWarning

/-- The largest size of a settings file in bytes. -/
def sizeLimit : Nat := 65536

/-- The largest number of decimal places. -/
def precisionLimit : Nat := 15

def message : SettingsWarning → String
  | notFound path => "Config file not found: " ++ path
  | tooLarge path size =>
    "Refusing to read " ++ path ++ ": file too large (" ++ Decimal.text size ++ " bytes, max " ++
      Decimal.text sizeLimit ++ ")"
  | unreadable path fault => "Failed to read " ++ path ++ ": " ++ fault.message
  | malformed path => "Failed to parse " ++ path
  | noWidth => "default_column_width must be at least 1"
  | tooPrecise precision =>
    "precision " ++ Decimal.text precision ++ " is too large (max " ++
      Decimal.text precisionLimit ++ ")"

end SettingsWarning

namespace Settings
open SettingsWarning

def standard : Settings := ⟨Document.standardWidth, Document.standardPrecision⟩

/-- The default width that is set, if it can be used. -/
def usableWidth : Option Nat → UInt64 × List SettingsWarning
  | none => (standard.defaultWidth, [])
  | some 0 => (standard.defaultWidth, [.noWidth])
  | some width => (UInt64.ofNat width, [])

/-- The precision that is set, if it can be used. -/
def usablePrecision : Option Nat → Nat × List SettingsWarning
  | none => (standard.precision, [])
  | some precision =>
    if precisionLimit < precision then (standard.precision, [.tooPrecise precision])
    else (precision, [])

/-- The settings of a file; what cannot be used stays standard. -/
def ofFile (file : SettingsFile) : Settings × List SettingsWarning :=
  let (width, widthWarnings) := usableWidth file.defaultWidth
  let (precision, precisionWarnings) := usablePrecision file.precision
  (⟨width, precision⟩, widthWarnings ++ precisionWarnings)

/-- The settings that the bytes of a file give. -/
def ofBytes (path : String) (bytes : ByteArray) : Settings × List SettingsWarning :=
  if sizeLimit < bytes.size then (standard, [.tooLarge path bytes.size])
  else
    match decodeText bytes with
    | .error fault => (standard, [.unreadable path fault])
    | .ok content =>
      match SettingsFile.read? content with
      | none => (standard, [.malformed path])
      | some file => ofFile file

variable {m : Type → Type} [Monad m]

/-- Loads the settings from the given file, or else from the user's. Only a given file has to be
there. -/
def load (files : FileAccess m) (given user : Option String) :
    m (Settings × List SettingsWarning) := do
  match given.or user with
  | none => return (standard, [])
  | some path =>
    if ← files.isPresent path then
      match ← files.read path with
      | .ok bytes => return ofBytes path bytes
      | .error fault => return (standard, [.unreadable path fault])
    else return (standard, (given.map SettingsWarning.notFound).toList)

/-- A document with the settings. -/
def applyTo (s : Settings) (d : Document) : Document :=
  { d with defaultWidth := s.defaultWidth, precision := s.precision }

end Settings

end Spreadsheet

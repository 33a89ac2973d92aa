import Spreadsheet.Expression.Compilation
import Spreadsheet.Expression.StandardLibrary
import Spreadsheet.Session

/-!
# The program

Files are those of the operating system. The user's settings are in the folder
for configuration that the environment names. The numbers that are drawn at
random come from a seed that is another one in each run.
-/
namespace Spreadsheet
open Text

/-- The number of an error of the operating system, which may come with its sign reversed. -/
def errorNumber (code : UInt32) : Nat := min code.toNat (0 - code).toNat

/-- The fault that an error of the operating system is. -/
def fileFault : IO.Error → FileFault
  | .noFileOrDirectory .. => .missing
  | .inappropriateType _ code _ => if errorNumber code = 21 then .isFolder else .notFolder
  | .invalidArgument _ code details =>
    if errorNumber code = 36 then .nameTooLong
    else .other (details ++ " (os error " ++ Decimal.text (errorNumber code) ++ ")")
  | .permissionDenied _ code details =>
    .other (details ++ " (os error " ++ Decimal.text (errorNumber code) ++ ")")
  | e => .other (toString e)

/-- What an action on a file gives, or its fault. -/
def attemptFile {α : Type} (action : IO α) : IO (Except FileFault α) := do
  try return .ok (← action)
  catch e => return .error (fileFault e)

def systemFiles : FileAccess IO where
  isPresent path := do
    match ← attemptFile (IO.FS.readBinFile path) with
    | .error .missing | .error .notFolder | .error .nameTooLong => return false
    | .ok _ | .error _ => return true
  read path := attemptFile (IO.FS.readBinFile path)
  write path content := attemptFile (IO.FS.writeBinFile path content)

/-- Where the user's settings are. -/
def userSettings : IO (Option String) := do
  match (← IO.getEnv "XDG_CONFIG_HOME").filter fun folder => folder.startsWith "/" with
  | some folder => return some (folder ++ "/tabula/config.toml")
  | none => return (← IO.getEnv "HOME").map (· ++ "/.config/tabula/config.toml")

/-- Runs the program on the files of the operating system; the answer is the exit code. -/
def start (arguments : List String) : IO UInt32 := do
  let seed ← IO.rand 0 (UInt64.size - 1)
  let _ : Library := Library.standard (StandardLibrary.drawFrom (UInt64.ofNat seed))
  let outcome ← runProgram systemFiles .start (← userSettings) arguments
  (← IO.getStdout).putStr outcome.said.printed
  (← IO.getStderr).putStr outcome.said.noted
  return outcome.code.toUInt32

end Spreadsheet

def main (arguments : List String) : IO UInt32 := Spreadsheet.start arguments

import Spreadsheet.Text.Blank

/-!
# The arguments of the program

An option is a word after two hyphens or a letter after one. Letters may share a
hyphen. A value is the next argument, or follows an equals sign or the letter.
Two hyphens alone end the options. Arguments are refused if an option is
unknown, lacks its value, has one too many or comes twice.
-/
namespace Spreadsheet
open Text

/-- What the program is asked to do. -/
structure Request where
  file : Option String
  commands : List (List Char)
  output : Option String
  save : Bool
  functions : Bool
  config : Option String
deriving DecidableEq, Repr

/-- Why the arguments ask for nothing. -/
inductive Refusal where
  | usage
  | help
  | version
deriving DecidableEq, Repr

/-- An option of the program. -/
inductive Flag where
  | command
  | output
  | save
  | functions
  | config
  | help
  | version
deriving DecidableEq, Repr

namespace Flag

def ofWord? (word : List Char) : Option Flag :=
  match String.ofList word with
  | "command" => some command
  | "output" => some output
  | "save" => some save
  | "functions" => some functions
  | "config" => some config
  | "help" => some help
  | "version" => some version
  | _ => none

def ofLetter? : Char → Option Flag
  | 'c' => some command
  | 'o' => some output
  | 's' => some save
  | 'h' => some help
  | 'V' => some version
  | _ => none

def takesValue : Flag → Bool
  | command | output | config => true
  | save | functions | help | version => false

end Flag

def helpLines : List String :=
  ["Cell formula evaluation and recalculation", "", "Usage: tabula [OPTIONS] [FILE]", "",
    "Arguments:", "  [FILE]  Sheet to open (.tbl or .csv); created on --save if missing", "",
    "Options:", "  -c, --command <COMMAND>  Edit command to apply, in order (can be repeated)",
    "  -o, --output <FILE>      Write the result to this file (.tbl, .csv or .md) instead of " ++
      "printing it",
    "  -s, --save               Save back to FILE after applying commands",
    "      --functions          Print the builtin functions and constants, then exit",
    "      --config <PATH>      Use this config file instead of the one in the user config " ++
      "directory",
    "  -h, --help               Print help", "  -V, --version            Print version", "",
    "Commands: A1 = <input>, clear A1, insert-row N [after], delete-row N, insert-col B [after], " ++
      "delete-col B, width B 20, copy A1 B2, refresh"]

def versionLine : String := "tabula 0.1.0"

def refusalLines : List String :=
  ["error: invalid arguments", "", "For more information, try '--help'."]

namespace Request

def empty : Request := ⟨none, [], none, false, false, none⟩

/-- A path that was not given before. -/
def newPath (before : Option String) (path : List Char) : Except Refusal (Option String) :=
  if before.isSome || path.isEmpty then .error .usage else .ok (some (String.ofList path))

def setValue (r : Request) (flag : Flag) (value : List Char) : Except Refusal Request :=
  match flag with
  | .command => .ok { r with commands := r.commands ++ [value] }
  | .output => return { r with output := ← newPath r.output value }
  | .config => return { r with config := ← newPath r.config value }
  | _ => .error .usage

def setFlag (r : Request) (flag : Flag) : Except Refusal Request :=
  match flag with
  | .save => if r.save then .error .usage else .ok { r with save := true }
  | .functions => if r.functions then .error .usage else .ok { r with functions := true }
  | .help => .error .help
  | .version => .error .version
  | _ => .error .usage

def setFile (r : Request) (path : List Char) : Except Refusal Request :=
  return { r with file := ← newPath r.file path }

/-- A request, and the option that still waits for its value. -/
abbrev Progress := Request × Option Flag

def readWord (r : Request) (word : List Char) : Except Refusal Progress :=
  let (name, value?) := match cut (fun c => c = '=') word with
    | some (name, value) => (name, some value)
    | none => (word, none)
  match Flag.ofWord? name, value? with
  | none, _ => .error .usage
  | some flag, some value => return (← r.setValue flag value, none)
  | some flag, none =>
    if flag.takesValue then .ok (r, some flag) else return (← r.setFlag flag, none)

def readLetters (r : Request) : List Char → Except Refusal Progress
  | [] => .ok (r, none)
  | c :: cs =>
    match Flag.ofLetter? c with
    | none => .error .usage
    | some flag =>
      if flag.takesValue then
        if cs.isEmpty then .ok (r, some flag)
        else return (← r.setValue flag ((dropLead? ['='] cs).getD cs), none)
      else
        match r.setFlag flag with
        | .ok r => readLetters r cs
        | .error refusal => .error refusal

/-- Reads an argument before the options end, with the option that waits for a value. -/
def readArgument (r : Request) (waiting : Option Flag) (argument : List Char) :
    Except Refusal Progress :=
  match argument, waiting with
  | '-' :: '-' :: word, none => r.readWord word
  | '-' :: '-' :: _, some _ => .error .usage
  | '-' :: c :: cs, none => r.readLetters (c :: cs)
  | '-' :: _ :: _, some _ => .error .usage
  | value, some flag => return (← r.setValue flag value, none)
  | path, none => return (← r.setFile path, none)

/-- Reads the arguments after the options. -/
def readFiles (r : Request) : List (List Char) → Except Refusal Request
  | [] => .ok r
  | path :: paths =>
    match r.setFile path with
    | .ok r => readFiles r paths
    | .error refusal => .error refusal

/-- Reads arguments, with the option that waits for a value. -/
def readFrom (r : Request) (waiting : Option Flag) : List (List Char) → Except Refusal Request
  | [] => if waiting.isSome then .error .usage else .ok r
  | ['-', '-'] :: paths => if waiting.isSome then .error .usage else r.readFiles paths
  | argument :: arguments =>
    match r.readArgument waiting argument with
    | .ok (r, waiting) => readFrom r waiting arguments
    | .error refusal => .error refusal

/-- Reads the arguments of the program. Only an opened file can be saved back. -/
def ofArguments (arguments : List String) : Except Refusal Request := do
  let r ← empty.readFrom none (arguments.map String.toList)
  if r.save && r.file.isNone then throw .usage
  return r

end Request

end Spreadsheet

import Spreadsheet.Storage.File

/-!
# Folders held in memory

A folder is a list of files with the names on the way to each. A name on the way
to some file is a folder of its own. Paths are relative, and lead nowhere once
they leave the folder. A path has a greatest length, and so has each name in it;
the one is checked before a path is followed, the other where a name is reached.
-/
namespace Spreadsheet
open Text

/-- The names on the way to a file, from the outermost folder on. -/
abbrev Route := List (List Char)

/-- The files below a folder. -/
structure Folder where
  files : List (Route × ByteArray)

/-- What stands at a place in a folder. -/
inductive Node where
  | file (content : ByteArray)
  | folder

namespace Folder

def empty : Folder := ⟨[]⟩

def content? (f : Folder) (route : Route) : Option ByteArray :=
  (f.files.find? fun e => e.1 == route).map Prod.snd

/-- Whether a place is a folder: the outermost one, or on the way to some file. -/
def isFolder (f : Folder) (route : Route) : Bool :=
  route.isEmpty || f.files.any fun e => route.isPrefixOf e.1 && e.1 != route

def node? (f : Folder) (route : Route) : Option Node :=
  match f.content? route with
  | some content => some (.file content)
  | none => if f.isFolder route then some .folder else none

/-- How many bytes a path has at most. -/
def pathLimit : Nat := 4095

/-- How many bytes a name in a path has at most. -/
def nameLimit : Nat := 255

/-- Whether a name has more bytes than any file or folder. -/
def isTooLong (name : List Char) : Bool := nameLimit < (String.ofList name).utf8ByteSize

/-- The place that names lead to from another. Every name but the last is that of a folder. -/
def follow (f : Folder) (route : Route) : List (List Char) → Except FileFault Route
  | [] => .ok route
  | name :: names =>
    match f.node? route with
    | none => .error .missing
    | some (.file _) => .error .notFolder
    | some .folder =>
      if name.isEmpty || name == ['.'] then follow f route names
      else if isTooLong name then .error .nameTooLong
      else if name != ['.', '.'] then follow f (route ++ [name]) names
      else if route.isEmpty then .error .missing
      else follow f route.dropLast names

/-- The names in a path that may be followed: it starts inside the folder, is not too long and
holds no zero character. -/
def names (path : String) : Except FileFault (List (List Char)) :=
  let cs := path.toList
  if cs.contains '\x00' then .error (.other "file name contained an unexpected NUL byte")
  else if pathLimit < path.utf8ByteSize then .error .nameTooLong
  else if cs.isEmpty || cs.head? == some '/' then .error .missing
  else .ok (splitOn '/' cs)

/-- What a path leads to. -/
def find (f : Folder) (path : String) : Except FileFault Node :=
  match names path with
  | .error fault => .error fault
  | .ok names =>
    match f.follow [] names with
    | .error fault => .error fault
    | .ok route =>
      match f.node? route with
      | some node => .ok node
      | none => .error .missing

def read (f : Folder) (path : String) : Except FileFault ByteArray :=
  match f.find path with
  | .ok (.file content) => .ok content
  | .ok .folder => .error .isFolder
  | .error fault => .error fault

/-- The folder with a file at a place. -/
def put (f : Folder) (route : Route) (content : ByteArray) : Folder :=
  ⟨(route, content) :: f.files.filter fun e => e.1 != route⟩

/-- Whether a name cannot be that of a file. -/
def isNoFileName (name : List Char) : Bool := name.isEmpty || name == ['.'] || name == ['.', '.']

/-- The place of a file to be written, its folder and its name being given. -/
def target (f : Folder) (folder : List (List Char)) (name : List Char) : Except FileFault Route :=
  match f.follow [] folder with
  | .error fault => .error fault
  | .ok route =>
    match f.node? route with
    | none => .error .missing
    | some (.file _) => .error .notFolder
    | some .folder =>
      if isNoFileName name || f.isFolder (route ++ [name]) then .error .isFolder
      else if isTooLong name then .error .nameTooLong
      else .ok (route ++ [name])

/-- The names of the folder and of the file in a path; a path that ends in a slash has an empty
file name. -/
def parted (names : List (List Char)) : List (List Char) × List Char :=
  let kept := (names.reverse.dropWhile List.isEmpty).reverse
  (kept.dropLast, if kept.length < names.length then [] else kept.getLastD [])

def write (f : Folder) (path : String) (content : ByteArray) : Except FileFault Folder :=
  match names path with
  | .error fault => .error fault
  | .ok names =>
    let (folder, name) := parted names
    match f.target folder name with
    | .error fault => .error fault
    | .ok route => .ok (f.put route content)

/-- Reading and writing the files of a folder that is passed along. -/
def access : FileAccess (StateM Folder) where
  isPresent path := return (← get).find path matches .ok _
  read path := return (← get).read path
  write path content := do
    match (← get).write path content with
    | .ok f =>
      set f
      return .ok ()
    | .error fault => return .error fault

end Folder

end Spreadsheet

import Vyraz.Program

/-!
This module contains a folder of files that is held in memory, as surroundings for the program. A
path is followed name by name from the folder, or from the root if it begins with `/`.

Outside the folder, only the directories above it, some directories below the root and the null
device are known.
-/

namespace Vyraz

structure Folder where
  files : List (List String × ByteArray)

inductive Place where
  | inside (names : List String)
  | above
  | system (names : List String)
deriving DecidableEq, Repr

namespace Place

def parent : Place → Place
  | inside [] => above
  | inside names => inside names.dropLast
  | above => above
  | system names => system names.dropLast

def systemNames : List String :=
  ["bin", "dev", "etc", "home", "lib", "opt", "proc", "root", "run", "sbin", "sys", "tmp", "usr",
    "var"]

end Place

inductive Entry where
  | directory (place : Place)
  | file (bytes : ByteArray)
  | absent

namespace Folder

def names (path : String) : List String :=
  (path.splitOn "/").filter (· != "")

def ofFiles (files : List (String × ByteArray)) : Folder :=
  ⟨files.map fun (path, bytes) => (names path, bytes)⟩

def maxNameSize : Nat := 255

def maxPathSize : Nat := 4095

def isDirectory (f : Folder) (path : List String) : Bool :=
  path.isEmpty || f.files.any fun (other, _) => path.isPrefixOf other && path != other

def lookup (f : Folder) (place : Place) (name : String) : Entry :=
  match place with
  | .inside names =>
    let path := names ++ [name]
    if f.isDirectory path then
      .directory (.inside path)
    else
      ((f.files.lookup path).map Entry.file).getD .absent
  | .above => .absent
  | .system [] => if Place.systemNames.contains name then .directory (.system [name]) else .absent
  | .system ["dev"] => if name = "null" then .file .empty else .absent
  | .system _ => .absent

def entry (f : Folder) (place : Place) (name : String) : Except FileError Entry :=
  if name = "." then
    .ok (.directory place)
  else if name = ".." then
    .ok (.directory place.parent)
  else if maxNameSize < name.utf8ByteSize then
    .error .nameTooLong
  else
    .ok (f.lookup place name)

def follow (f : Folder) (place : Place) : List String → Except FileError Place
  | [] => .ok place
  | name :: names =>
    match f.entry place name with
    | .error e => .error e
    | .ok (.directory place) => follow f place names
    | .ok (.file _) => .error .notDirectory
    | .ok .absent => .error .notFound

def origin (path : String) : Place :=
  if path.startsWith "/" then .system [] else .inside []

def resolve (f : Folder) (path : String) : Except FileError (Place × Option String) :=
  if path = "" then
    .error .notFound
  else if maxPathSize < path.utf8ByteSize then
    .error .nameTooLong
  else
    match f.follow (origin path) (names path).dropLast with
    | .error e => .error e
    | .ok place => .ok (place, (names path).getLast?)

def read (f : Folder) (path : String) : Except FileError ByteArray :=
  match f.resolve path with
  | .error e => .error e
  | .ok (_, none) => .error .isDirectory
  | .ok (place, some name) =>
    match f.entry place name with
    | .error e => .error e
    | .ok (.directory _) => .error .isDirectory
    | .ok (.file bytes) => if path.endsWith "/" then .error .notDirectory else .ok bytes
    | .ok .absent => .error .notFound

/--
The directory and the name of the file that is created or replaced under a path. A path that ends in
`/` is taken for a directory, whatever is there.
-/
def target (f : Folder) (path : String) : Except FileError (Place × String) :=
  match f.resolve path with
  | .error e => .error e
  | .ok (_, none) => .error .isDirectory
  | .ok (place, some name) =>
    if path.endsWith "/" then
      .error .isDirectory
    else
      match f.entry place name with
      | .error e => .error e
      | .ok (.directory _) => .error .isDirectory
      | .ok _ => .ok (place, name)

def refusal? (f : Folder) (path : String) : Option FileError :=
  match f.target path with
  | .error e => some e
  | .ok _ => none

def changes (f : Folder) (path text : String) : List (String × String) :=
  match f.target path with
  | .ok (.inside names, name) =>
    let names := names ++ [name]
    if (f.files.lookup names).any (· == text.toUTF8) then
      []
    else
      [("/".intercalate names, text)]
  | _ => []

def run (f : Folder) (arguments : List String) (editMode historyFile terminal : Option String)
    (input : ByteArray) : Outcome × List (String × String) :=
  let outcome :=
    Program.run ⟨arguments, editMode, historyFile, terminal, input, f.read, f.refusal?⟩
  match outcome.saved? with
  | some (path, text) => (outcome, f.changes path text)
  | none => (outcome, [])

end Folder
end Vyraz

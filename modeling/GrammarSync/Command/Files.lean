/-
# Files

A state of the file system is a list of directories and files. A path is
followed name by name from the working directory (or from the root if it
starts with a slash): every name in it but the last must be a directory, `.`
and nothing stand for the directory itself, and `..` for the one above. The
directories above the working one exist; what else they hold is not known.

Writing a file replaces its content or has no effect. A file may carry faults
that reading or writing it meets.

Key definitions: `Files`, `Files.locate`, `Files.present`, `Files.read`,
`Files.write`.
-/
import GrammarSync.Text.Pieces
import GrammarSync.Words.Entries

namespace GrammarSync

/-- Why a file cannot be read or written. -/
inductive FileFault where
  | notFound
  | notDirectory
  | isDirectory
  | notText
  | other (text : String)
deriving DecidableEq, Repr

/-- The message of a fault. -/
def FileFault.message : FileFault → String
  | .notFound => "No such file or directory (os error 2)"
  | .notDirectory => "Not a directory (os error 20)"
  | .isDirectory => "Is a directory (os error 21)"
  | .notText => "stream did not contain valid UTF-8"
  | .other text => text

/-- A directory, or a file with the faults that reading and writing it meet. -/
inductive Entry where
  | directory
  | file (content : ByteArray) (readFault writeFault : Option FileFault)

/-- The names on the way to an entry; the first may be `/` or a row of `..`. -/
abbrev Location := List String

/-- A state of the file system. -/
structure Files where
  entries : List (Location × Entry)

namespace Files

/-- The working directory is empty. -/
def empty : Files :=
  ⟨[]⟩

/-- The working directory, those above it, and the root are there always. -/
def isGiven (place : Location) : Bool :=
  place.all (· = "..") || place = ["/"]

/-- The entry at a location. -/
def entryAt? (files : Files) (place : Location) : Option Entry :=
  if isGiven place then some .directory else files.entries.lookup place

/-- One name further from a directory. -/
def advance (place : Location) (name : String) : Location :=
  if name = "" || name = "." then place
  else if name = ".." then
    if place = ["/"] then place
    else if place.all (· = "..") then place ++ [".."]
    else place.dropLast
  else place ++ [name]

/-- The location at the end of a way of names. -/
def walk (files : Files) (place : Location) : List String → Except FileFault Location
  | [] => .ok place
  | name :: names =>
    match files.entryAt? place with
    | none => .error .notFound
    | some (.file ..) => .error .notDirectory
    | some .directory => walk files (advance place name) names

/-- Where a path starts and the names in it. -/
def split (path : String) : Location × List String :=
  let names := (Text.pieces '/' path.toList).map String.ofList
  match path.toList with
  | '/' :: _ => (["/"], names)
  | _ => ([], names)

/-- The location of a path, whether or not something is there. -/
def locate (files : Files) (path : String) : Except FileFault Location :=
  if path.isEmpty then .error .notFound
  else files.walk (split path).1 (split path).2

/-- The entry of a path. -/
def entry (files : Files) (path : String) : Except FileFault Entry :=
  match files.locate path with
  | .error e => .error e
  | .ok place =>
    match files.entryAt? place with
    | none => .error .notFound
    | some e => .ok e

/-- Whether a path leads to a file or directory. -/
def present (files : Files) (path : String) : Bool :=
  (files.entry path).isOk

/-- The text of a file. -/
def read (files : Files) (path : String) : Except FileFault String :=
  match files.entry path with
  | .error e => .error e
  | .ok .directory => .error .isDirectory
  | .ok (.file _ (some fault) _) => .error fault
  | .ok (.file content none _) =>
    match String.fromUTF8? content with
    | some text => .ok text
    | none => .error .notText

/-- Put an entry at a location. -/
def put (files : Files) (place : Location) (entry : Entry) : Files :=
  ⟨(place, entry) :: files.entries.filter (·.1 ≠ place)⟩

/-- Put a text at a location, in the place of a file's content. -/
def store (files : Files) (place : Location) (text : String) : Except FileFault Files :=
  match files.entryAt? place with
  | some .directory => .error .isDirectory
  | some (.file _ _ (some fault)) => .error fault
  | some (.file _ readFault none) => .ok (files.put place (.file text.toUTF8 readFault none))
  | none =>
    match files.entryAt? place.dropLast with
    | some .directory => .ok (files.put place (.file text.toUTF8 none none))
    | some (.file ..) => .error .notDirectory
    | none => .error .notFound

/-- Replace the text of a file, or make a new one in a directory. A path that ends in a slash
names no file. -/
def write (files : Files) (path text : String) : Except FileFault Files :=
  match files.locate path with
  | .error e =>
    if path.endsWith "/" then
      match files.locate (path.dropEndWhile '/').toString with
      | .ok _ => .error .isDirectory
      | .error _ => .error e
    else .error e
  | .ok place => files.store place text

/-- Remove a file; gives nothing if there is none. -/
def delete? (files : Files) (path : String) : Option Files :=
  match files.locate path with
  | .error _ => none
  | .ok place =>
    match files.entryAt? place with
    | some (.file ..) => some ⟨files.entries.filter (·.1 ≠ place)⟩
    | _ => none

/-- Make the directories on the way to a location. -/
def makeParents (files : Files) (place : Location) : Files :=
  (List.range place.length).foldl
    (fun files n =>
      match files.entryAt? (place.take n) with
      | some _ => files
      | none => files.put (place.take n) .directory)
    files

/-- Put an entry at a path with the directories on the way to it. -/
def install (files : Files) (path : String) (entry : Entry) : Files :=
  let (start, names) := split path
  let place := names.foldl advance start
  (files.makeParents place).put place entry

end Files
end GrammarSync

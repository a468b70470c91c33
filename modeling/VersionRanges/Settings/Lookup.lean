/-
# Finding the settings file

The settings file is looked for in a directory, then in the directory above it, and so on to the
root; the first one found decides, whether or not it can be read. A caller may instead name a file,
or a directory to begin with.

A file system is whatever tells the kind and the content of a path, so that the search can be
reasoned about without one.
-/
import VersionRanges.Settings.Basic

namespace VersionRanges

/-- What stands at a path. -/
inductive Entry where
  | directory
  /-- A regular file. Its content is missing if it cannot be read as text. -/
  | file (content : Option Text)
deriving DecidableEq, Repr

/-- A file system: what stands at a path, if anything does. -/
abbrev FileSystem := Text → Option Entry

namespace FileSystem

/-- Whether a regular file stands at a path. -/
def isFile (system : FileSystem) (path : Text) : Bool :=
  match system path with
  | some (.file _) => true
  | _ => false

/-- Whether a directory stands at a path. -/
def isDirectory (system : FileSystem) (path : Text) : Bool := system path == some .directory

/-- The file system of what was found at some paths. Nothing stands at any other. -/
def ofFound (found : List (Text × Option Entry)) : FileSystem := fun path =>
  (found.lookup path).join

end FileSystem

namespace Path

/-- The texts between the slashes of a path. -/
def split (path : Text) : List Text := path.splitOn '/'

/-- Whether a piece behind the first of a path leads nowhere. -/
def isIdle (piece : Text) : Bool := piece.isEmpty || piece == ['.']

/-- The path made of a first piece and of the pieces behind it, the last of which comes first.
Pieces that lead nowhere are left out at the end. -/
def ofPieces (first : Text) (backwards : List Text) : Text :=
  match backwards.dropWhile isIdle with
  | [] => if first.isEmpty then ['/'] else first
  | pieces => List.intercalate ['/'] (first :: pieces.reverse)

/-- The paths that are left when the last component is dropped again and again, down to the root or,
for a relative path, to the empty path. -/
def parentsOf (first : Text) : List Text → List Text
  | [] => if first.isEmpty then [] else [[]]
  | last :: before =>
    if isIdle last then parentsOf first before
    else ofPieces first before :: parentsOf first before

/-- The paths above a path, the nearest first. -/
def parents (path : Text) : List Text :=
  match split path with
  | [] => []
  | first :: pieces => parentsOf first pieces.reverse

/-- The path of a name in a directory. -/
def join (directory name : Text) : Text :=
  if directory.isEmpty || directory.getLast? == some '/' then directory ++ name
  else directory ++ '/' :: name

end Path

namespace Settings

/-- Why a settings file cannot be used. -/
inductive Refusal where
  /-- There is no text to read at the path. -/
  | unreadable (path : Text)
  /-- The text at the path is no document, or makes no settings. -/
  | invalid (path : Text)
deriving DecidableEq, Repr

/-- The wording of a refusal. -/
def Refusal.message : Refusal → Text
  | unreadable path => "failed to read ".toList ++ path
  | invalid path => "invalid configuration in ".toList ++ path

/-- The name of a settings file. -/
def fileName : Text := "semver.toml".toList

/-- Loads the settings of one file. -/
def loadFile (system : FileSystem) (path : Text) : Except Refusal Settings :=
  match system path with
  | some (.file (some document)) =>
    match ofDocument? document with
    | some settings => .ok settings
    | none => .error (.invalid path)
  | _ => .error (.unreadable path)

/-- The places of settings files in the order of the search that begins at a directory. -/
def candidates (start : Text) : List Text :=
  (start :: Path.parents start).map (Path.join · fileName)

/-- Loads the nearest settings file, if there is one. -/
def search (system : FileSystem) (start : Text) : Except Refusal (Option Settings) :=
  match (candidates start).find? system.isFile with
  | some path => (loadFile system path).map some
  | none => .ok none

/-- Loads the settings from a location: a directory to begin the search at, or else one file. -/
def loadFrom (system : FileSystem) (location : Text) : Except Refusal (Option Settings) :=
  if system.isDirectory location then search system location
  else (loadFile system location).map some

/-- Loads the settings from the location that a caller names, or else by a search that begins at the
working directory. -/
def load (system : FileSystem) (location : Option Text) (workingDirectory : Text) :
    Except Refusal (Option Settings) :=
  match location with
  | some path => loadFrom system path
  | none => search system workingDirectory

/-- The paths that `load` may ask the file system about. -/
def inspected (location : Option Text) (workingDirectory : Text) : List Text :=
  match location with
  | some path => path :: candidates path
  | none => candidates workingDirectory

end Settings

end VersionRanges

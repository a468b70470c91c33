/-
# File systems in memory

A file system given by its files, with every directory that they need. Paths are resolved from a
working directory: a piece that leads on needs a directory to stand in, and the directory above the
root is the root.
-/
import VersionRanges.Settings.Lookup

namespace VersionRanges

/-- Files with their content, and directories that exist even if they are empty. Each is given by
the names that lead to it from the root. -/
structure FileTree where
  files : List (List Text × Text)
  directories : List (List Text)

namespace FileTree

/-- What stands at the end of some names. -/
def entry? (tree : FileTree) (names : List Text) : Option Entry :=
  match tree.files.find? fun file => file.1 == names with
  | some (_, content) => some (.file (some content))
  | none =>
    if names.isEmpty || (tree.directories ++ tree.files.map Prod.fst).any names.isPrefixOf then
      some .directory
    else none

/-- Follows the pieces of a path from a directory. -/
def follow (tree : FileTree) : List Text → List Text → Option (List Text)
  | names, [] => some names
  | names, piece :: pieces =>
    if tree.entry? names == some .directory then
      if Path.isIdle piece then follow tree names pieces
      else if piece == ['.', '.'] then follow tree names.dropLast pieces
      else follow tree (names ++ [piece]) pieces
    else none

/-- The file system in which relative paths begin at a working directory. -/
def toFileSystem (tree : FileTree) (workingDirectory : List Text) : FileSystem := fun path =>
  match path with
  | [] => none
  | c :: _ =>
    let start := if c == '/' then [] else workingDirectory
    (tree.follow start (Path.split path)).bind tree.entry?

end FileTree

end VersionRanges

/-
# Settings

What a settings file can change: whether versions that cannot be read are refused or passed over,
the direction of sorting, and the level of log messages. A setting that the file does not name keeps
its default, and keys that name no setting are left alone.
-/
import VersionRanges.Toml.Document

namespace VersionRanges

/-- The settings of the command line. -/
structure Settings where
  logLevel : Option Text
  strict : Bool
  descending : Bool
deriving DecidableEq, Repr

namespace Settings

open Toml (Value Entries)

/-- The settings where no file sets any. -/
def default : Settings := ⟨none, false, false⟩

/-- Reads an optional text. -/
def text? : Option Value → Option (Option Text)
  | none => some none
  | some (.string text) => some (some text)
  | some _ => none

/-- Reads a switch, which is off where it is missing. -/
def switch? : Option Value → Option Bool
  | none => some false
  | some (.boolean b) => some b
  | some _ => none

/-- Reads the direction of sorting: the switch in a table, or the first item of an array. A date
counts as a table without entries. -/
def descending? : Option Value → Option Bool
  | none | some (.dateTime _) | some (.array []) => some false
  | some (.table _ entries) => switch? (Entries.get? entries "descending".toList)
  | some (.array (first :: _)) => switch? (some first)
  | some _ => none

/-- The settings that the entries of a document make. A setting with a value of another type is
refused. -/
def ofEntries? (entries : Entries) : Option Settings := do
  let logLevel ← text? (entries.get? "log_level".toList)
  let strict ← switch? (entries.get? "strict".toList)
  let descending ← descending? (entries.get? "sort".toList)
  return ⟨logLevel, strict, descending⟩

/-- The settings that the text of a file makes. -/
def ofDocument? (document : Text) : Option Settings :=
  (Toml.readDocument? document).bind ofEntries?

end Settings

end VersionRanges

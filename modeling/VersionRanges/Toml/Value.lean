/-
# Values of a settings document

The values of a document in the TOML format. A table remembers how it came to be, because that
decides whether later lines of the document may extend it. Numbers with a fraction and dates are
kept as they were written; the settings of this library make no use of their value.
-/
import VersionRanges.Text.Basic

namespace VersionRanges.Toml

/-- How a table came to be. -/
inductive Origin where
  /-- By a header of its own, or as the document itself. -/
  | header
  /-- As a table that a header passes through on its way to another. -/
  | implied
  /-- By a key of several parts. -/
  | dotted
  /-- Between braces, as a value that is complete. -/
  | inline
deriving DecidableEq, Repr

/-- The values of a document. -/
inductive Value where
  | string (text : Text)
  | integer (n : Int)
  | float (written : Text)
  | boolean (b : Bool)
  | dateTime (written : Text)
  | array (items : List Value)
  | table (origin : Origin) (entries : List (Text × Value))
  /-- Tables that were written one by one under the same header. -/
  | tables (elements : List Value)
deriving Repr

/-- The entries of a table, in the order of the document. -/
abbrev Entries := List (Text × Value)

/-- The value of a key. -/
def Entries.get? (entries : Entries) (key : Text) : Option Value :=
  (entries.find? fun entry => entry.1 == key).map Prod.snd

/-- The entries with another value for a key that they hold. -/
def Entries.replace (entries : Entries) (key : Text) (value : Value) : Entries :=
  entries.map fun entry => if entry.1 == key then (key, value) else entry

/-- The result of reading from the front of a text: a value and the rest, or nothing if the text
does not begin with such a value. -/
abbrev Reading (α : Type) := Option (α × Text)

end VersionRanges.Toml

/-
# Extending tables

What the lines of a document add to its tables. A table may be defined once: a header can complete a
table that an earlier header passed through, but no other; a key of several parts extends tables
that such keys made, but not those that have a header; and a table between braces is complete.
-/
import VersionRanges.Toml.Value

namespace VersionRanges.Toml

/-- Applies a change to the table that a path leads to, making the tables on the way that are
missing. `viaKey` tells whether the path belongs to a key of several parts or to a header. A path
leads into the last of the tables written one by one. -/
def Entries.change (viaKey : Bool) (apply : Origin → Entries → Option Entries) :
    List Text → Origin → Entries → Option Entries
  | [], origin, entries => apply origin entries
  | key :: path, _, entries =>
    match entries.get? key with
    | none =>
      let origin := if viaKey then Origin.dotted else Origin.implied
      (change viaKey apply path origin []).map fun inner => entries ++ [(key, .table origin inner)]
    | some (.table origin inner) =>
      if origin == .inline || (viaKey && origin == .header) then none
      else
        (change viaKey apply path origin inner).map fun changed =>
          entries.replace key (.table origin changed)
    | some (.tables elements) =>
      match elements.getLast? with
      | some (.table origin inner) =>
        (change viaKey apply path origin inner).map fun changed =>
          entries.replace key (.tables (elements.dropLast ++ [.table origin changed]))
      | _ => none
    | some _ => none

/-- Adds a value under a key, given as the parts before the last and the last. The table that takes
the value must not have the key; if the key has several parts, such keys must have made that
table. -/
def Entries.assign (origin : Origin) (entries : Entries) (path : List Text) (key : Text)
    (value : Value) : Option Entries :=
  entries.change true (fun target inner =>
    if (!path.isEmpty && target != .dotted) || (inner.get? key).isSome then none
    else some (inner ++ [(key, value)])) path origin

/-- Opens the table of a header, given as the parts before the last and the last. -/
def Entries.openTable (entries : Entries) (path : List Text) (key : Text) : Option Entries :=
  entries.change false (fun _ inner =>
    match inner.get? key with
    | none => some (inner ++ [(key, .table .header [])])
    | some (.table .implied passed) => some (inner.replace key (.table .header passed))
    | some _ => none) path .header

/-- Opens one more of the tables that are written one by one under a header, given as the parts
before the last and the last. -/
def Entries.openElement (entries : Entries) (path : List Text) (key : Text) : Option Entries :=
  entries.change false (fun _ inner =>
    match inner.get? key with
    | none => some (inner ++ [(key, .tables [.table .header []])])
    | some (.tables elements) =>
      some (inner.replace key (.tables (elements ++ [.table .header []])))
    | some _ => none) path .header

/-- Adds a value under a key to the table of a header. -/
def Entries.assignUnder (entries : Entries) (header : List Text) (path : List Text) (key : Text)
    (value : Value) : Option Entries :=
  entries.change false (fun origin inner => inner.assign origin path key value) header .header

end VersionRanges.Toml

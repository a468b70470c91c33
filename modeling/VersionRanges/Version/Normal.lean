/-
# Normal forms

The normal form of a version is the text that orders and constraints work with: four components, or
the figures of a date, and the canonical modifier; or a branch. This module tries the ways to write
a version one after another and refuses a text that is none of them.
-/
import VersionRanges.Version.Alias
import VersionRanges.Version.Branch
import VersionRanges.Version.Timestamp

namespace VersionRanges.Version

/-- The name in a version that ends in `dev`: the last line of what stands before the ending and the
joint before it. -/
def devName? (version : Text) : Option Text :=
  match version.reverse with
  | v :: e :: d :: before =>
    if Text.spells "dev".toList [d, e, v] then
      some ((Modifier.dropOne Modifier.isJoint before).takeWhile (· != '\n')).reverse
    else none
  | _ => none

/-- The normal form of a version that is neither a literal nor a date: the branch that an ending in
`dev` names. -/
def ofDevName? (version : Text) : Option Text :=
  (devName? version).bind fun name => (Branch.normalize name).toOption

/-- The normal form of a version without alias and metadata. -/
def normalForm? (version : Text) : Option Text :=
  if Branch.isDefault version then some Branch.defaultVersion
  else
    match Branch.markedName? version with
    | some name => some (Branch.marker ++ name)
    | none =>
      match Literal.ofVersion? version with
      | some literal => some literal.normalForm
      | none =>
        match Timestamp.ofVersion? version with
        | some timestamp => some timestamp.normalForm
        | none => ofDevName? version

/-- The part of a version that has a say in its normal form. -/
def core (version : Text) : Text := Alias.withoutMetadata (Alias.source (Text.trim version))

/-- The normal form of a version. A refusal is explained by the full text in which the version
stands. -/
def normalizeWithin (full version : Text) : Except Error Text :=
  match normalForm? (core version) with
  | some normal => .ok normal
  | none => .error (.unreadableVersion (core version) (Alias.fault? full (core version)))

/-- The normal form of a version that stands by itself. -/
def normalize (version : Text) : Except Error Text :=
  normalizeWithin (Text.trim version) version

/-- Whether a text is a version. -/
def isValid (version : Text) : Bool := (normalize version).isOk

end VersionRanges.Version

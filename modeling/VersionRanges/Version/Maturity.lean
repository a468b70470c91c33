/-
# The stability of a version

The stability that a version text states, whether or not the text is in normal form: the modifier at
its end tells, and a branch is a development version.
-/
import VersionRanges.Modifier
import VersionRanges.Stability

namespace VersionRanges

namespace Modifier

/-- The stability that a modifier states. Labels that mark patches of a release are stable. -/
def stability (modifier : Modifier) : Stability :=
  if modifier.isDev then .dev
  else if Text.spells "beta".toList modifier.label || Text.spells "b".toList modifier.label then
    .beta
  else if Text.spells "alpha".toList modifier.label || Text.spells "a".toList modifier.label then
    .alpha
  else if Text.spells "rc".toList modifier.label then .rc
  else .stable

end Modifier

namespace Stability

/-- Whether a text is nothing, or build metadata on one line. -/
def isClosing : Text → Bool
  | [] => true
  | c :: rest => c == '+' && !rest.contains '\n'

/-- The stability stated by the longest ending of a text that is a modifier, with or without build
metadata behind it. -/
def ofEnding : Text → Stability
  | [] => .stable
  | c :: rest =>
    if isClosing (Modifier.read (c :: rest)).2 then (Modifier.read (c :: rest)).1.stability
    else ofEnding rest

/-- A version without the reference to a commit that may stand behind a number sign. A number sign
at the very end is no reference. -/
def withoutReference (version : Text) : Text :=
  match version.dropWhile (· != '#') with
  | _ :: _ :: _ => version.takeWhile (· != '#')
  | _ => version

/-- The stability of a version. -/
def ofVersion (version : Text) : Stability :=
  let text := withoutReference version
  if "dev-".toList.isPrefixOf text || "-dev".toList.isSuffixOf text then .dev
  else ofEnding text

end Stability

end VersionRanges

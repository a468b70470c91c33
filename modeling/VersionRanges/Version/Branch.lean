/-
# Branches

A version may name a line of development instead of a release. A branch with a numeric name stands
for all versions that begin with its numbers, and its normal form is a development version above all
of them. Any other branch keeps its name behind `dev-`. The default branch has a normal form of its
own, which stands above every other version.
-/
import VersionRanges.Error
import VersionRanges.Version.Literal

namespace VersionRanges.Branch

/-- The beginning of a version that names a branch. -/
def marker : Text := "dev-".toList

/-- The normal form of the default branch. -/
def defaultVersion : Text := "9999999-dev".toList

/-- The names of the default branch. -/
def defaultNames : List Text := ["master".toList, "trunk".toList, "default".toList]

/-- Whether a version is a branch. -/
def isBranch (version : Text) : Bool := marker.isPrefixOf version

/-- Whether a text names the default branch, in any case and with or without the marker. -/
def isDefault (text : Text) : Bool :=
  defaultNames.any fun name =>
    Text.spells name text || Text.spells (marker ++ name) text

/-- The name of the branch that a text marks in either case. -/
def markedName? (text : Text) : Option Text :=
  (Text.keyword? marker text).map Prod.snd

/-- The number that stands for a component left open. -/
def openNumber : Text := "9999999".toList

/-- Whether a character leaves a component of a version open. -/
def isWildcard (c : Char) : Bool := c == 'x' || c == 'X' || c == '*'

/-- Reads at most `limit` components, each with a dot before it. A component left open is read as
`openNumber`. -/
def readComponents : Nat → Text → List Text × Text
  | 0, text => ([], text)
  | limit + 1, '.' :: c :: rest =>
    if isWildcard c then
      Prod.map (openNumber :: ·) id (readComponents limit rest)
    else
      match Literal.readDigits (c :: rest) with
      | ([], _) => ([], '.' :: c :: rest)
      | (digits, after) => Prod.map (digits :: ·) id (readComponents limit after)
  | _ + 1, text => ([], text)

/-- The normal form of a branch with a numeric name: components that are missing from four are left
open. -/
def numeric? (name : Text) : Option Text :=
  match Literal.readDigits (Literal.dropMark name) with
  | ([], _) => none
  | (major, afterMajor) =>
    match readComponents 3 afterMajor with
    | (further, []) =>
      let missing := List.replicate (3 - further.length) openNumber
      some (major ++ (further ++ missing).flatMap ('.' :: ·) ++ "-dev".toList)
    | _ => none

/-- The normal form of a branch. -/
def normalize (name : Text) : Except Error Text :=
  let trimmed := Text.trim name
  if trimmed.isEmpty then .error .emptyBranch
  else if defaultNames.contains trimmed then .ok defaultVersion
  else .ok ((numeric? trimmed).getD (marker ++ trimmed))

/-- Splits a text at the end of the numbers, with a dot between each two, that it begins with. -/
def readNumbers : Text → Text × Text
  | [] => ([], [])
  | c :: rest =>
    if Text.isDecimalDigit c || (c == '.' && (rest.head?.map Text.isDecimalDigit).getD false) then
      Prod.map (c :: ·) id (readNumbers rest)
    else ([], c :: rest)

/-- The numbers that the versions of a numeric branch begin with, and a dot: `2.1.` for
`2.1.x-dev`. -/
def numericPrefix? (branch : Text) : Option Text :=
  match readNumbers branch with
  | (c :: numbers, rest) =>
    let ending := ((Text.keyword? ".x".toList rest).map Prod.snd).getD rest
    if Text.isDecimalDigit c && Text.spells "-dev".toList ending then
      some (c :: numbers ++ ['.'])
    else none
  | _ => none

end VersionRanges.Branch

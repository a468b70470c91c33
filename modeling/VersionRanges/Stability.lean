/-
# Stability

How mature a version is: a development version, one of three kinds of preview, or a stable release.
The stabilities are ordered from the least mature to the most mature.
-/
import VersionRanges.Error
import VersionRanges.Text.Lowercase

namespace VersionRanges

/-- The stabilities, the least mature first. -/
inductive Stability where
  | dev
  | alpha
  | beta
  | rc
  | stable
deriving DecidableEq, Repr

namespace Stability

/-- The place of a stability in the order of maturity. -/
def maturity : Stability → Nat
  | dev => 0
  | alpha => 1
  | beta => 2
  | rc => 3
  | stable => 4

instance : Ord Stability := ⟨fun first second => compare first.maturity second.maturity⟩

/-- The canonical label of a stability: lower case, but capitals for a release candidate. -/
def label : Stability → Text
  | dev => "dev".toList
  | alpha => "alpha".toList
  | beta => "beta".toList
  | rc => "RC".toList
  | stable => "stable".toList

/-- The stability that a text names in any case. -/
def ofLabel (text : Text) : Except Error Stability :=
  let lower := Text.lowercase text
  if lower = "stable".toList then .ok stable
  else if lower = "rc".toList then .ok rc
  else if lower = "beta".toList then .ok beta
  else if lower = "alpha".toList then .ok alpha
  else if lower = "dev".toList then .ok dev
  else .error (.unknownStability text)

/-- The canonical spelling of a label: lower case, but capitals for a release candidate. -/
def canonicalLabel (text : Text) : Text :=
  let lower := Text.lowercase text
  if lower = "rc".toList then "RC".toList else lower

end Stability

end VersionRanges

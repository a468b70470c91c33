/-
# Bounds

A bound is an operator with the version it compares to, and stands for the versions that are in the
relation of the operator to that version. This module decides whether the versions of one bound can
meet those of another.
-/
import VersionRanges.Comparison

namespace VersionRanges

/-- An operator and the version that it compares to. -/
structure Bound where
  operator : Operator
  version : Text
deriving DecidableEq, Repr

namespace Bound

/-- The bound that one version alone meets. -/
def pin (version : Text) : Bound := ⟨.eq, version⟩

/-- The text of a bound. -/
def render (bound : Bound) : Text := bound.operator.symbol ++ ' ' :: bound.version

/-- Whether a version meets a bound. -/
def admits (bound : Bound) (version : Text) : Bool :=
  Comparison.holds version bound.operator bound.version false

/-- Whether a provided bound can meet a required one.

A bound that excludes one version meets everything but the pin of that version. Two bounds that
point in the same direction meet far enough in that direction. In all other cases the provided
version has to meet the required bound; if both bounds are at the same version, a provided bound
that excludes it does not meet a required bound that includes it. -/
def overlaps (required provided : Bound) (withBranches : Bool) : Bool :=
  if required.operator = .ne || provided.operator = .ne then
    (required.operator != .eq && provided.operator != .eq) ||
      Comparison.holds provided.version .ne required.version withBranches
  else if required.operator != .eq &&
      required.operator.direction == provided.operator.direction then true
  else if !Comparison.holds provided.version required.operator required.version withBranches then
    false
  else
    !(provided.version == required.version && provided.operator.isStrict &&
      !required.operator.isStrict)

end Bound

end VersionRanges

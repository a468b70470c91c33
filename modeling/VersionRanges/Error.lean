/-
# Refusals

Why a text is not a version, a constraint, an operator or a stability. Each cause is a constructor
that keeps the texts it is about; the wording is in one place, and so is the coarse kind that a
caller may branch on.
-/
import VersionRanges.Text.Basic

namespace VersionRanges

/-- The part of an alias, written `source as target`, that a refused version was. -/
inductive AliasFault where
  /-- The refused version is the target of the alias in `full`. -/
  | target (full : Text)
  /-- The refused version is the source of the alias in `full`. -/
  | source (full : Text)
deriving DecidableEq, Repr

/-- The hint that explains a refused part of an alias. -/
def AliasFault.hint : AliasFault → Text
  | target full =>
    " in ".toList ++ Text.quoted full ++ ", the alias must be an exact version".toList
  | source full =>
    " in ".toList ++ Text.quoted full ++
      (", the alias source must be an exact version, if it is a branch name you should prefix " ++
        "it with dev-").toList

/-- The causes for which this library refuses a text. -/
inductive Error where
  /-- The text names no stability. -/
  | unknownStability (label : Text)
  /-- A branch name is empty or blank. -/
  | emptyBranch
  /-- A constraint is empty or blank. -/
  | emptyConstraint
  /-- A group of constraints has no member. -/
  | emptyGroup
  /-- The text spells no comparison operator. -/
  | unknownOperator (token : Text)
  /-- The text matches no version grammar. -/
  | unreadableVersion (version : Text) (fault : Option AliasFault)
  /-- A constraint has an alternative without text. -/
  | emptyAlternative (constraint : Text)
  /-- A term begins with the two characters `~>`, which no grammar gives a meaning. -/
  | tildeArrow (constraint : Text)
  /-- A component of a range is not a number of 64 bits, or leaves them when it is raised. -/
  | componentOutOfRange (constraint : Text)
  /-- The version beside a comparison operator is refused. -/
  | unreadableOperand (constraint : Text) (cause : Error)
deriving DecidableEq, Repr

namespace Error

/-- The coarse kinds of refusal. -/
inductive Kind where
  | argument
  | operator
  | version
  | constraint
deriving DecidableEq, Repr

/-- The kind of a refusal. -/
def kind : Error → Kind
  | unknownStability _ | emptyBranch | emptyConstraint | emptyGroup => .argument
  | unknownOperator _ => .operator
  | unreadableVersion _ _ => .version
  | emptyAlternative _ | tildeArrow _ | componentOutOfRange _ | unreadableOperand _ _ => .constraint

/-- The wording of a refused constraint. -/
def constraintMessage (constraint reason : Text) : Text :=
  "Could not parse version constraint ".toList ++ constraint ++ ": ".toList ++ reason

/-- The wording of a refusal. -/
def message : Error → Text
  | unknownStability label => "Invalid stability ".toList ++ Text.quoted label
  | emptyBranch => "Branch name must not be empty".toList
  | emptyConstraint => "Version constraint string must not be empty".toList
  | emptyGroup => "A constraint group needs at least one constraint".toList
  | unknownOperator token =>
    "Invalid operator ".toList ++ Text.quoted token ++
      ", you should use one of: =, ==, <, <=, >, >=, <>, !=".toList
  | unreadableVersion version fault =>
    "Invalid version string ".toList ++ Text.quoted version ++
      (fault.map AliasFault.hint).getD []
  | emptyAlternative constraint =>
    constraintMessage constraint "Empty alternative in disjunction".toList
  | tildeArrow constraint =>
    constraintMessage constraint
      "Invalid operator \"~>\", you probably meant to use the \"~\" operator".toList
  | componentOutOfRange constraint =>
    constraintMessage constraint "version component out of range".toList
  | unreadableOperand constraint cause => constraintMessage constraint cause.message

end Error

end VersionRanges

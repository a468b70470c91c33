/-
# Comparators

A term that is no range is an operator, which may be left out, and a version. The version is
compared in normal form. A bound that includes its lower end, or excludes its upper end, is meant to
hold for the previews of the version too, unless the version is written with a modifier.
-/
import VersionRanges.Constraint.Bound
import VersionRanges.Version.Maturity
import VersionRanges.Version.Normal

namespace VersionRanges.Comparator

/-- Splits a term into the operator that it begins with, the longest that fits, and the rest. -/
def splitOperator : Text → Text × Text
  | '<' :: '>' :: rest => (['<', '>'], rest)
  | '!' :: '=' :: rest => (['!', '='], rest)
  | '>' :: '=' :: rest => (['>', '='], rest)
  | '>' :: rest => (['>'], rest)
  | '<' :: '=' :: rest => (['<', '='], rest)
  | '<' :: rest => (['<'], rest)
  | '=' :: '=' :: rest => (['=', '='], rest)
  | '=' :: rest => (['='], rest)
  | text => ([], text)

/-- The version behind an operator: what stands on its line after the blanks. -/
def operand (text : Text) : Text := (Text.trimLeft text).takeWhile (· != '\n')

/-- Whether a text ends in a hyphen and a modifier, which may be empty. -/
def hasExplicitModifier : Text → Bool
  | [] => false
  | c :: rest => (c == '-' && (Modifier.read rest).2.isEmpty) || hasExplicitModifier rest

/-- The version that a bound compares to, from the operator and the version as they are written and
the normal form of the version. A flag raises nothing but a stable version. -/
def bounded (token written normal : Text) (flag : Option Text) : Text :=
  match flag.filter fun _ => Stability.ofVersion normal = .stable with
  | some stability => normal ++ '-' :: stability
  | none =>
    if (token = ['<'] || token = ['>', '=']) && !hasExplicitModifier written &&
        !Branch.isBranch written then normal ++ "-dev".toList
    else normal

/-- The bound of a term with an operator and a version, and the stability that the flag of the term
names. -/
def read (term : Text) (flag : Option Text) : Except Error Bound := do
  let (token, rest) := splitOperator term
  let written := operand rest
  let normal ← (Version.normalize written).mapError (.unreadableOperand term)
  let operator ← Operator.ofToken (if token.isEmpty then ['='] else token)
  return ⟨operator, bounded token written normal flag⟩

end VersionRanges.Comparator

/-
# Reading constraints

The constraint that a text stands for. The text is divided into alternatives and those into terms;
each term gives one or two constraints. The terms of an alternative are joined by *and*, the
alternatives by *or*, and the whole carries the text as its label.
-/
import VersionRanges.Constraint.Basic
import VersionRanges.Constraint.Comparator
import VersionRanges.Constraint.Flag
import VersionRanges.Constraint.Range
import VersionRanges.Constraint.Term
import VersionRanges.Stability

namespace VersionRanges.Constraint

/-- A bound as a constraint without label. -/
def ofBound (bound : Bound) : Constraint := atom bound none

/-- Splits a term into what stands before its flag and the stability that the flag names. The flag
of stable versions asks for nothing. -/
def splitFlag (term : Text) : Text × Option Text :=
  match Flag.split? term with
  | some (c :: before, name) =>
    let stability := Stability.canonicalLabel name
    (c :: before, if stability = Stability.stable.label then none else some stability)
  | _ => (term, none)

/-- The bounds of a term that is neither the wildcard nor flagged. The forms of a range are tried
first, and a term that has none of them is a comparator. -/
def readBounds (term : Text) (flag : Option Text) : Except Error (List Bound) :=
  if ['~', '>'].isPrefixOf term then .error (.tildeArrow term)
  else
    match Range.tilde? term with
    | some literal => Range.tilde term literal
    | none =>
      match Range.caret? term with
      | some literal => Range.caret term literal
      | none =>
        match Range.open? term with
        | some numbers => Range.ofNumbers term numbers
        | none =>
          match Range.hyphen? term with
          | some range => Range.hyphen term range
          | none => (Comparator.read term flag).map ([·])

/-- The constraints of a term. -/
def readTerm (term : Text) : Except Error (List Constraint) :=
  let (body, flag) := splitFlag term
  if Range.isWildcard body then .ok [anything none]
  else (readBounds body flag).map (·.map ofBound)

/-- The constraint of an alternative, whose terms all have to hold. An empty alternative is refused
with the whole text. -/
def readAlternative (whole alternative : Text) : Except Error Constraint :=
  if alternative.isEmpty then .error (.emptyAlternative whole)
  else ((Term.split alternative).mapM readTerm).map fun members => join .and members.flatten

/-- The part of a text that says which versions it admits: its flag, and the reference behind a
development version, are left out. -/
def core (text : Text) : Text := Reference.cut (Flag.cut text)

/-- The constraint that a text stands for, with the text as its label. -/
def parse (text : Text) : Except Error Constraint :=
  if (Text.trim text).isEmpty then .error .emptyConstraint
  else
    ((Alternative.split (core text)).mapM (readAlternative text)).map fun members =>
      (join .or members).withLabel text

end VersionRanges.Constraint

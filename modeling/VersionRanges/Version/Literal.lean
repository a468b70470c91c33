/-
# Version literals

A version written with numbers: one to four components between dots, and a modifier. Literals are
read from the front of a text, so that the grammars of versions and of ranges share one reader.
-/
import VersionRanges.Modifier
import VersionRanges.Text.Blank

namespace VersionRanges

/-- A version written with numbers: its first component, at most three further ones, and the
modifier behind them. Components are kept as they were spelled. -/
structure Literal where
  major : Text
  further : List Text
  modifier : Modifier
deriving DecidableEq, Repr

namespace Literal

/-- Splits a text at the end of the decimal digits that it begins with. -/
def readDigits (text : Text) : Text × Text :=
  (text.takeWhile Text.isDecimalDigit, text.dropWhile Text.isDecimalDigit)

/-- Reads at most `limit` components, each with a dot before it. -/
def readFurther : Nat → Text → List Text × Text
  | 0, text => ([], text)
  | limit + 1, '.' :: rest =>
    match readDigits rest with
    | ([], _) => ([], '.' :: rest)
    | (digits, after) => Prod.map (digits :: ·) id (readFurther limit after)
  | _ + 1, text => ([], text)

/-- Leaves out the letter v, in either case, that may stand before a version. -/
def dropMark (text : Text) : Text := Modifier.dropOne (fun c => c == 'v' || c == 'V') text

/-- Splits a text into the literal that it begins with and the rest. -/
def read? (text : Text) : Option (Literal × Text) :=
  match readDigits (dropMark text) with
  | ([], _) => none
  | (major, afterMajor) =>
    let (further, afterNumbers) := readFurther 3 afterMajor
    let (modifier, rest) := Modifier.read afterNumbers
    some (⟨major, further, modifier⟩, rest)

/-- Leaves out the build metadata that a text may begin with: a plus sign and what follows it up to
the next blank. A plus sign alone is not metadata. -/
def dropMetadata : Text → Text
  | '+' :: c :: rest =>
    if Text.isBlank c then '+' :: c :: rest
    else rest.dropWhile fun d => !Text.isBlank d
  | text => text

/-- Splits a text into the literal that it begins with, whose metadata are left out, and the
rest. -/
def readWithMetadata? (text : Text) : Option (Literal × Text) :=
  (read? text).map fun (literal, rest) => (literal, dropMetadata rest)

/-- The components of a literal. -/
def components (literal : Literal) : List Text := literal.major :: literal.further

/-- The components of a literal as four slots, of which the last may be missing. -/
def slots (literal : Literal) : List (Option Text) :=
  (List.range 4).map fun index => literal.components[index]?

/-- The components between dots, with a zero for each that is missing from four. -/
def padded (literal : Literal) : Text :=
  literal.major ++ (literal.further.flatMap ('.' :: ·)) ++
    (List.replicate (3 - literal.further.length) ".0".toList).flatten

/-- The normal form of a literal. -/
def normalForm (literal : Literal) : Text := literal.padded ++ literal.modifier.suffix

/-- The literal that a whole text is. A version written by itself has at most five digits in its
first component; longer ones are read as dates. -/
def ofVersion? (text : Text) : Option Literal :=
  match read? text with
  | some (literal, []) => if literal.major.length ≤ 5 then some literal else none
  | _ => none

end Literal

end VersionRanges

/-
# Timestamps

A version written as a date, with or without a time: four digits, one to six pairs of digits, and
perhaps a last group of one to three digits. One of `.`, `:` and `-` may stand before each pair and
before the last group.
-/
import VersionRanges.Version.Literal

namespace VersionRanges

/-- A version written as a date: its digits and the signs between them, and the modifier behind
them. -/
structure Timestamp where
  figures : Text
  modifier : Modifier
deriving DecidableEq, Repr

namespace Timestamp

/-- Whether a character may stand between two groups of digits. -/
def isDivider (c : Char) : Bool := c == '.' || c == ':' || c == '-'

/-- Leaves out the pair of digits that a text begins with, and the divider that may stand before
it. -/
def dropPair? (text : Text) : Option Text :=
  match Modifier.dropOne isDivider text with
  | first :: second :: rest =>
    if Text.isDecimalDigit first && Text.isDecimalDigit second then some rest else none
  | _ => none

/-- Whether a text is nothing, or a last group of one to three digits with an optional divider
before it. -/
def isLastGroup (text : Text) : Bool :=
  let digits := Modifier.dropOne isDivider text
  text.isEmpty || (!digits.isEmpty && digits.length ≤ 3 && digits.all Text.isDecimalDigit)

/-- Whether a text is at most `limit` pairs of digits and perhaps a last group. -/
def isClock : Nat → Text → Bool
  | 0, text => isLastGroup text
  | limit + 1, text =>
    isLastGroup text ||
      match dropPair? text with
      | some rest => isClock limit rest
      | none => false

/-- Whether a text has the shape of a date. -/
def isDate (figures : Text) : Bool :=
  (figures.take 4).length == 4 && (figures.take 4).all Text.isDecimalDigit &&
    match dropPair? (figures.drop 4) with
    | some rest => isClock 5 rest
    | none => false

/-- Splits a text at the end of its digits and dividers, the last of which is a digit. -/
def readFigures (text : Text) : Text × Text :=
  let run := text.takeWhile fun c => Text.isDecimalDigit c || isDivider c
  let figures := (run.reverse.dropWhile isDivider).reverse
  (figures, text.drop figures.length)

/-- The date that a whole text is. -/
def ofVersion? (text : Text) : Option Timestamp :=
  let (figures, rest) := readFigures (Literal.dropMark text)
  match Modifier.read rest with
  | (modifier, []) => if isDate figures then some ⟨figures, modifier⟩ else none
  | _ => none

/-- The normal form of a date: a dot for each character that is not an ASCII digit, and the
canonical modifier. -/
def normalForm (timestamp : Timestamp) : Text :=
  (timestamp.figures.map fun c => if c.isDigit then c else '.') ++ timestamp.modifier.suffix

end Timestamp

end VersionRanges

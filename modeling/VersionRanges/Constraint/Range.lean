/-
# Ranges

The short forms for a pair of bounds: a tilde or a caret before a version, a version with components
left open, and two versions with a hyphen between them. For each form there is a reader, which tells
whether a term has the form, and the bounds that the form stands for.
-/
import VersionRanges.Constraint.Bound
import VersionRanges.Version.Component
import VersionRanges.Version.Normal

namespace VersionRanges.Range

/-- The development mark that a bound carries so that it takes in, or leaves out, all previews of
its version. -/
def lowest : Text := "-dev".toList

/-- The version with the component at `position`, which is counted from one, raised by `increment`,
and zeros behind it. -/
def raise (term : Text) (slots : List (Option Text)) (position : Nat) (increment : Int) :
    Except Error Text :=
  match Component.adjust slots position increment ['0'] with
  | some version => .ok version
  | none => .error (.componentOutOfRange term)

/-- The bound below the version with the component at `position` raised by one. -/
def below (term : Text) (slots : List (Option Text)) (position : Nat) : Except Error Bound :=
  (raise term slots position 1).map fun version => ⟨.lt, version ++ lowest⟩

/-- The normal form of a text that was read as a literal, lowered to its previews unless the literal
has a modifier. -/
def lowEnd (text : Text) (literal : Literal) : Except Error Text :=
  (Version.normalize text).map fun version =>
    if literal.modifier.isSilent then version ++ lowest else version

/-! ## Everything -/

/-- Whether a text is nothing but components left open, each with a dot before it. -/
def isOpenTail : Text → Bool
  | [] => true
  | '.' :: c :: rest => Branch.isWildcard c && isOpenTail rest
  | _ => false

/-- Whether a term leaves all of its components open. -/
def isWildcard (term : Text) : Bool :=
  match Literal.dropMark term with
  | c :: rest => Branch.isWildcard c && isOpenTail rest
  | [] => false

/-! ## Tilde -/

/-- The literal behind a sign that a term begins with. -/
def signed? (sign : Char) : Text → Option Literal
  | c :: rest =>
    if c = sign then
      match Literal.readWithMetadata? rest with
      | some (literal, []) => some literal
      | _ => none
    else none
  | [] => none

/-- The literal of a tilde range. -/
def tilde? (term : Text) : Option Literal := signed? '~' term

/-- The modifier at the low end of a tilde range, which keeps the label `stable`. -/
def tildeSuffix (modifier : Modifier) : Text :=
  if modifier.isSilent then lowest else modifier.labelSuffix ++ modifier.devSuffix

/-- The bounds of a tilde range: the last component that is given may grow, and the major one if it
is the only one. -/
def tilde (term : Text) (literal : Literal) : Except Error (List Bound) := do
  let position := literal.components.length
  let low ← raise term literal.slots position 0
  let high ← below term literal.slots (max (position - 1) 1)
  return [⟨.ge, low ++ tildeSuffix literal.modifier⟩, high]

/-! ## Caret -/

/-- The literal of a caret range. -/
def caret? (term : Text) : Option Literal := signed? '^' term

/-- The component that a caret range holds fixed: the first that is not zero, or else the last that
is given, but no later one than the third. -/
def caretPosition (literal : Literal) : Nat :=
  if literal.major != ['0'] || literal.further.isEmpty then 1
  else if literal.further.head? != some ['0'] || literal.further.length < 2 then 2
  else 3

/-- The bounds of a caret range: no component up to the one held fixed may change. -/
def caret (term : Text) (literal : Literal) : Except Error (List Bound) := do
  let low ← lowEnd (term.drop 1) literal
  let high ← below term literal.slots (caretPosition literal)
  return [⟨.ge, low⟩, high]

/-! ## Components left open -/

/-- The numbers of a term that leaves its last components open: one to three numbers, and at least
one component left open. -/
def open? (term : Text) : Option (List Text) :=
  match Literal.readDigits (Modifier.dropOne (· == 'v') term) with
  | ([], _) => none
  | (major, afterMajor) =>
    match Literal.readFurther 2 afterMajor with
    | (_, []) => none
    | (further, rest) => if isOpenTail rest then some (major :: further) else none

/-- The bounds of a range given by the numbers that its versions begin with. There is no version
below the zeros, so that the lower bound there is left out. -/
def ofNumbers (term : Text) (numbers : List Text) : Except Error (List Bound) := do
  let slots := (List.range 4).map fun index => numbers[index]?
  let low ← raise term slots numbers.length 0
  let high ← below term slots numbers.length
  if low = "0.0.0.0".toList then return [high]
  else return [⟨.ge, low ++ lowest⟩, high]

/-! ## Hyphen -/

/-- The two ends of a hyphen range, each as it was written and as the literal that it is. -/
structure Hyphen where
  lowText : Text
  low : Literal
  highText : Text
  high : Literal

/-- The ends of a hyphen range. The hyphen has spaces on both sides. -/
def hyphen? (term : Text) : Option Hyphen :=
  match Literal.readWithMetadata? term with
  | none => none
  | some (low, rest) =>
    match Alias.dropSpaces? rest with
    | some ('-' :: afterHyphen) =>
      match Alias.dropSpaces? afterHyphen with
      | none => none
      | some highText =>
        match Literal.readWithMetadata? highText with
        | some (high, []) =>
          some ⟨term.take (term.length - rest.length), low, highText, high⟩
        | _ => none
    | _ => none

/-- The upper bound of a hyphen range. An end with three components or a modifier is the last
version of the range; a shorter one takes in all versions that begin with it. -/
def hyphenHigh (term : Text) (range : Hyphen) : Except Error Bound :=
  if 2 ≤ range.high.further.length || !range.high.modifier.isSilent then
    (Version.normalize range.highText).map fun version => ⟨.le, version⟩
  else
    below term range.high.slots range.high.components.length

/-- The bounds of a hyphen range. -/
def hyphen (term : Text) (range : Hyphen) : Except Error (List Bound) := do
  let low ← lowEnd range.lowText range.low
  let high ← hyphenHigh term range
  return [⟨.ge, low⟩, high]

end VersionRanges.Range

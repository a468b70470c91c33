/-
# Raising a component

The ends of a range are written by raising one of four components and filling the components behind
it. Components are numbers of 64 bits with a sign; a component that is none, or a sum that is none,
gives no end. A sum below zero is replaced by the filling, and the change carries on to the
component before.
-/
import VersionRanges.Text.Basic

namespace VersionRanges.Component

/-- The bounds of a signed number of 64 bits. -/
def isWord (n : Int) : Bool := -0x8000000000000000 ≤ n && n < 0x8000000000000000

/-- The natural number that a text of ASCII digits writes. -/
def readNat? (text : Text) : Option Nat :=
  if text.isEmpty || !text.all Char.isDigit then none
  else some (Nat.ofDigitChars 10 text 0)

/-- The signed number of 64 bits that a text writes, with an optional sign before the digits. -/
def readWord? (text : Text) : Option Int :=
  let value? : Option Int :=
    match text with
    | '-' :: digits => (readNat? digits).map fun n => -(n : Int)
    | '+' :: digits => (readNat? digits).map Int.ofNat
    | digits => (readNat? digits).map Int.ofNat
  value?.filter isWord

/-- Raises the first of the components, which are given from the last one backwards. A sum below
zero gives way to the filling, and the component before it is raised instead. -/
def raiseLast (increment : Int) (filling : Text) : List Text → Option (List Text)
  | [] => none
  | component :: before =>
    match (readWord? component).map (· + increment) with
    | none => none
    | some sum =>
      if !isWord sum then none
      else if sum < 0 then (raiseLast increment filling before).map (filling :: ·)
      else some (Text.ofNat sum.toNat :: before)

/-- Four components, of which a missing one is zero, between dots: the components behind the
position, which is counted from one, are replaced by the filling, and the one at the position is
raised. -/
def adjust (slots : List (Option Text)) (position : Nat) (increment : Int) (filling : Text) :
    Option Text :=
  let components := slots.map (·.getD ['0'])
  let behind := components.drop position
  let raised :=
    if position = 0 || components.length < position then some (components.take position)
    else
      (raiseLast increment filling (components.take position).reverse).map List.reverse
  raised.map fun kept =>
    List.intercalate ['.'] (kept ++ List.replicate behind.length filling)

end VersionRanges.Component

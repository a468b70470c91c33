/-
# Numbers

Integers and numbers with a fraction as a document writes them. Digits may be grouped by
underscores, and a decimal number has no leading zeros. An integer has to fit into 64 bits with a
sign, and a number with a fraction must not be so great that the nearest double is infinity.
-/
import VersionRanges.Toml.Quoted

namespace VersionRanges.Toml.Number

/-- The digits of a text, which may have single underscores between them. -/
def digits? (isDigit : Char → Bool) : Text → Option Text
  | [] => none
  | [c] => if isDigit c then some [c] else none
  | c :: '_' :: rest => if isDigit c then (digits? isDigit rest).map (c :: ·) else none
  | c :: rest => if isDigit c then (digits? isDigit rest).map (c :: ·) else none

/-- Splits the sign off a number: whether it is negative, and the rest. -/
def splitSign : Text → Bool × Text
  | '-' :: rest => (true, rest)
  | '+' :: rest => (false, rest)
  | text => (false, text)

/-- The digits of a decimal number, which begins with zero only if it is zero. -/
def decimal? (text : Text) : Option Text :=
  match digits? Char.isDigit text with
  | some ('0' :: _ :: _) => none
  | result => result

/-- The number that digits write in a base. -/
def value (base : Nat) (digits : Text) : Nat :=
  digits.foldl (fun n c => base * n + (Quoted.hexDigit? c).getD 0) 0

/-- A number that fits into 64 bits with a sign. -/
def word? (n : Int) : Option Int :=
  if -0x8000000000000000 ≤ n && n < 0x8000000000000000 then some n else none

/-- Whether a character is a digit of a base up to sixteen. -/
def isDigitOf (base : Nat) (c : Char) : Bool :=
  match Quoted.hexDigit? c with
  | some n => n < base
  | none => false

/-- The integer that a text writes. Hexadecimal, octal and binary integers have no sign. -/
def integer? : Text → Option Int
  | '0' :: 'x' :: rest => (digits? (isDigitOf 16) rest).bind fun ds => word? (value 16 ds)
  | '0' :: 'o' :: rest => (digits? (isDigitOf 8) rest).bind fun ds => word? (value 8 ds)
  | '0' :: 'b' :: rest => (digits? (isDigitOf 2) rest).bind fun ds => word? (value 2 ds)
  | text =>
    let (isNegative, rest) := splitSign text
    (decimal? rest).bind fun ds =>
      word? (if isNegative then -(value 10 ds : Int) else value 10 ds)

/-- A decimal number: the digits of its coefficient and the power of ten that they count in. -/
structure Decimal where
  digits : Text
  exponent : Int

/-- The least number that is rounded to infinity among the doubles: halfway between the greatest
double and the next power of two. -/
def overflow : Nat := 0x3fffffffffffff <<< 970

/-- Whether the nearest double to a decimal number is infinity. The number of its digits settles all
but the numbers close to the bound. -/
def Decimal.isInfinite (number : Decimal) : Bool :=
  let digits := number.digits.dropWhile (· == '0')
  let magnitude : Int := digits.length + number.exponent
  if digits.isEmpty || magnitude < 300 then false
  else if 320 < magnitude then true
  else if 0 ≤ number.exponent then overflow ≤ value 10 digits * Nat.pow 10 number.exponent.toNat
  else overflow * Nat.pow 10 (-number.exponent).toNat ≤ value 10 digits

/-- The power of ten behind the letter e. -/
def exponent? (text : Text) : Option Int :=
  let (isNegative, rest) := splitSign text
  (digits? Char.isDigit rest).map fun ds =>
    if isNegative then -(value 10 ds : Int) else value 10 ds

/-- Whether a character separates a number from its power of ten. -/
def isExponentMark (c : Char) : Bool := c == 'e' || c == 'E'

/-- The number with a fraction, or with a power of ten, that a text without sign writes. -/
def unsigned? (text : Text) : Option Decimal :=
  let coefficient := text.takeWhile (!isExponentMark ·)
  let power? : Option (Option Int) :=
    match text.dropWhile (!isExponentMark ·) with
    | [] => some none
    | _ :: rest => (exponent? rest).map some
  power?.bind fun power =>
    let whole := coefficient.takeWhile (· != '.')
    (decimal? whole).bind fun wholeDigits =>
      match coefficient.dropWhile (· != '.'), power with
      | [], none => none
      | [], some exponent => some ⟨wholeDigits, exponent⟩
      | _ :: fraction, exponent =>
        (digits? Char.isDigit fraction).map fun ds =>
          ⟨wholeDigits ++ ds, exponent.getD 0 - ds.length⟩

/-- Whether a text writes a number with a fraction, infinity, or no number. A number must not come
to positive infinity unless it is written so. -/
def isFloat (text : Text) : Bool :=
  let (isNegative, rest) := splitSign text
  if rest = "inf".toList || rest = "nan".toList then true
  else
    match unsigned? rest with
    | some number => isNegative || !number.isInfinite
    | none => false

end VersionRanges.Toml.Number

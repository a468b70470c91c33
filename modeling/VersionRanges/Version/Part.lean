/-
# Parts of a version

The order of versions compares them part by part. A part is a run of ASCII digits or a run of other
characters between separators. Numbers are compared by value, whatever their length; names are
compared by a rank, which they share if the rank table does not know them.
-/
import VersionRanges.Text.Blank

namespace VersionRanges.Version

/-- Whether a character separates parts of a version. -/
def isSeparator (c : Char) : Bool := c == '.' || c == '-' || c == '_' || c == '+'

/-- The runs of digits and of other characters between separators. -/
def runs : Text → List Text
  | [] => []
  | c :: rest =>
    if isSeparator c then runs rest
    else
      match rest, runs rest with
      | d :: _, run :: more =>
        if !isSeparator d && d.isDigit == c.isDigit then (c :: run) :: more
        else [c] :: run :: more
      | _, more => [c] :: more

/-- The parts of a version. A separator at its beginning makes an empty part; separators elsewhere
make none. A version that begins with a number sign is divided at dots alone. -/
def parts (version : Text) : List Text :=
  match Text.trim version with
  | [] => []
  | c :: rest =>
    if c == '#' then
      (((c :: rest).splitOn '.').reverse.dropWhile List.isEmpty).reverse
    else if isSeparator c then [] :: runs rest
    else runs (c :: rest)

namespace Part

/-- Whether a part is a number. -/
def isNumber (part : Text) : Bool := (part.head?.map Char.isDigit).getD false

/-- The rank at which a number stands among names, and the end of a version too. -/
def numberRank : Int := 4

/-- The rank of a name. Names that are not in the table share the lowest rank. -/
def rank (name : Text) : Int :=
  if name = [] || name = "dev".toList then 0
  else if name = "alpha".toList || name = "a".toList then 1
  else if name = "beta".toList || name = "b".toList then 2
  else if name.map Char.toLower = "rc".toList then 3
  else if name = ['#'] then numberRank
  else if name = "patch".toList || name = "pl".toList || name = "p".toList then 5
  else -1

/-- The number of bytes of a text in UTF-8. -/
def byteLength : Text → Nat
  | [] => 0
  | c :: rest => c.utf8Size + byteLength rest

/-- Compares numbers of any length: leading zeros do not count, the longer is the greater, and
numbers of one length compare digit by digit. -/
def compareNumbers (first second : Text) : Ordering :=
  let first := first.dropWhile (· == '0')
  let second := second.dropWhile (· == '0')
  (compare (byteLength first) (byteLength second)).then (List.compareLex compare first second)

/-- Compares two parts. -/
def compare (first second : Text) : Ordering :=
  match isNumber first, isNumber second with
  | true, true => compareNumbers first second
  | false, false => Ord.compare (rank first) (rank second)
  | true, false => Ord.compare numberRank (rank second)
  | false, true => Ord.compare (rank first) numberRank

/-- Compares a part with the end of a version. -/
def compareToEnd (part : Text) : Ordering :=
  if isNumber part then .gt else Ord.compare (rank part) numberRank

end Part

end VersionRanges.Version

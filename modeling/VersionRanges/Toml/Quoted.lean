/-
# Quoted texts

The four ways to quote a text: on one line or on several, and with or without escapes. Each reader
begins behind the opening quotes and stops behind the closing ones.
-/
import VersionRanges.Toml.Value

namespace VersionRanges.Toml.Quoted

/-- Whether a character may stand in a quoted text: a tab, or one that is no control character. -/
def isPlain (c : Char) : Bool := c == '\t' || (0x20 ≤ c.toNat && c.toNat != 0x7F)

/-- Whether a character is a space or a tab. -/
def isSpace (c : Char) : Bool := c == ' ' || c == '\t'

/-- The value of a hexadecimal digit. -/
def hexDigit? (c : Char) : Option Nat :=
  if c.isDigit then some (c.toNat - '0'.toNat)
  else if 'a' ≤ c && c ≤ 'f' then some (c.toNat - 'a'.toNat + 10)
  else if 'A' ≤ c && c ≤ 'F' then some (c.toNat - 'A'.toNat + 10)
  else none

/-- The character whose code point is written by hexadecimal digits. -/
def hexChar? (digits : Text) : Option Char :=
  match digits.mapM hexDigit? with
  | some values =>
    let n := values.foldl (16 * · + ·) 0
    if n.isValidChar then some (Char.ofNat n) else none
  | none => none

/-- The character that a letter stands for behind a backslash. -/
def escape? : Char → Option Char
  | 'b' => some '\x08'
  | 't' => some '\t'
  | 'n' => some '\n'
  | 'f' => some '\x0c'
  | 'r' => some '\r'
  | '"' => some '"'
  | '\\' => some '\\'
  | _ => none

/-- Puts a character, if there is one, before what was read. -/
def before (c : Option Char) (reading : Reading Text) : Reading Text :=
  match c, reading with
  | some c, some (text, rest) => some (c :: text, rest)
  | _, _ => none

/-- Reads a text on one line with escapes. -/
def readBasic : Text → Reading Text
  | '"' :: rest => some ([], rest)
  | '\\' :: 'u' :: a :: b :: c :: d :: rest => before (hexChar? [a, b, c, d]) (readBasic rest)
  | '\\' :: 'U' :: a :: b :: c :: d :: e :: f :: g :: h :: rest =>
    before (hexChar? [a, b, c, d, e, f, g, h]) (readBasic rest)
  | '\\' :: c :: rest => before (escape? c) (readBasic rest)
  | c :: rest => if isPlain c && c != '\\' then before (some c) (readBasic rest) else none
  | [] => none

/-- Reads a text on one line without escapes. -/
def readLiteral : Text → Reading Text
  | '\'' :: rest => some ([], rest)
  | c :: rest => if isPlain c then before (some c) (readLiteral rest) else none
  | [] => none

/-- Leaves out the line break that a text may begin with. -/
def dropBreak : Text → Text
  | '\n' :: rest => rest
  | '\r' :: '\n' :: rest => rest
  | text => text

/-- Whether nothing but spaces stands before the next line break. -/
def endsLine (text : Text) : Bool :=
  match text.dropWhile isSpace with
  | '\n' :: _ | '\r' :: '\n' :: _ => true
  | _ => false

/-- Reads a text on several lines with escapes. While `skipping`, spaces and line breaks are left
out, as they are behind a backslash at the end of a line. Up to two quotes may stand directly before
the closing three. -/
def readBasicLines (skipping : Bool) : Text → Reading Text
  | '"' :: '"' :: '"' :: '"' :: '"' :: rest => some (['"', '"'], rest)
  | '"' :: '"' :: '"' :: '"' :: rest => some (['"'], rest)
  | '"' :: '"' :: '"' :: rest => some ([], rest)
  | '\r' :: '\n' :: rest =>
    if skipping then readBasicLines true rest
    else before (some '\n') (readBasicLines false rest)
  | '\n' :: rest =>
    if skipping then readBasicLines true rest
    else before (some '\n') (readBasicLines false rest)
  | '\\' :: 'u' :: a :: b :: c :: d :: rest =>
    before (hexChar? [a, b, c, d]) (readBasicLines false rest)
  | '\\' :: 'U' :: a :: b :: c :: d :: e :: f :: g :: h :: rest =>
    before (hexChar? [a, b, c, d, e, f, g, h]) (readBasicLines false rest)
  | '\\' :: c :: rest =>
    if endsLine (c :: rest) then readBasicLines true (c :: rest)
    else before (escape? c) (readBasicLines false rest)
  | c :: rest =>
    if skipping && isSpace c then readBasicLines true rest
    else if isPlain c && c != '\\' then before (some c) (readBasicLines false rest)
    else none
  | [] => none

/-- Reads a text on several lines without escapes. Up to two quotes may stand directly before the
closing three. -/
def readLiteralLines : Text → Reading Text
  | '\'' :: '\'' :: '\'' :: '\'' :: '\'' :: rest => some (['\'', '\''], rest)
  | '\'' :: '\'' :: '\'' :: '\'' :: rest => some (['\''], rest)
  | '\'' :: '\'' :: '\'' :: rest => some ([], rest)
  | '\r' :: '\n' :: rest => before (some '\n') (readLiteralLines rest)
  | '\n' :: rest => before (some '\n') (readLiteralLines rest)
  | c :: rest => if isPlain c then before (some c) (readLiteralLines rest) else none
  | [] => none

/-- Reads a quoted text on one line. -/
def readLine? : Text → Reading Text
  | '"' :: rest => readBasic rest
  | '\'' :: rest => readLiteral rest
  | _ => none

/-- Reads a quoted text. -/
def read? : Text → Reading Text
  | '"' :: '"' :: '"' :: rest => readBasicLines false (dropBreak rest)
  | '\'' :: '\'' :: '\'' :: rest => readLiteralLines (dropBreak rest)
  | text => readLine? text

end VersionRanges.Toml.Quoted

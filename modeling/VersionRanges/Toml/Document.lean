/-
# Documents

Reads a document of the TOML format: lines with a key and a value, headers of tables, comments. A
document that breaks a rule of the format as a whole is refused; which rule it was is not told.

Keys have fewer than eighty parts, and arrays and tables between braces are nested less than eighty
deep.
-/
import VersionRanges.Toml.DateTime
import VersionRanges.Toml.Table

namespace VersionRanges.Toml

/-! ## Spaces, comments and line ends -/

/-- Leaves out the spaces and tabs that a text begins with. -/
def dropSpaces (text : Text) : Text := text.dropWhile Quoted.isSpace

/-- Whether a character may stand in a comment. -/
def isCommentChar (c : Char) : Bool := c == '\t' || 0x20 ≤ c.toNat

/-- Leaves out spaces, a comment, and the line break or the end of the document behind them. -/
def dropLineEnd? (text : Text) : Option Text :=
  let afterComment :=
    match dropSpaces text with
    | '#' :: comment => comment.dropWhile isCommentChar
    | rest => rest
  match afterComment with
  | [] => some []
  | '\n' :: rest | '\r' :: '\n' :: rest => some rest
  | _ => none

/-- Leaves out spaces, line breaks and comments between the items of an array. `inComment` tells
whether the text begins within a comment, which has to end with its line. -/
def dropBlankLines? (inComment : Bool) : Text → Option Text
  | [] => if inComment then none else some []
  | '\r' :: '\n' :: rest | '\n' :: rest => dropBlankLines? false rest
  | c :: rest =>
    if inComment then
      if isCommentChar c then dropBlankLines? true rest else none
    else if c == '#' then dropBlankLines? true rest
    else if Quoted.isSpace c then dropBlankLines? false rest
    else some (c :: rest)

/-! ## Keys -/

/-- Whether a character may stand in a key without quotes. -/
def isBareKeyChar (c : Char) : Bool := c.isAlphanum || c == '_' || c == '-'

/-- Reads one part of a key. -/
def readKeyPart? (text : Text) : Reading Text :=
  match text.takeWhile isBareKeyChar with
  | [] => Quoted.readLine? text
  | part => some (part, text.dropWhile isBareKeyChar)

/-- Reads a key of at most `limit` parts, with dots between them and spaces around each. -/
def readKeyParts? : Nat → Text → Reading (List Text)
  | 0, _ => none
  | limit + 1, text =>
    match readKeyPart? (dropSpaces text) with
    | none => none
    | some (part, afterPart) =>
      match dropSpaces afterPart with
      | '.' :: rest => (readKeyParts? limit rest).map (Prod.map (part :: ·) id)
      | rest => some ([part], rest)

/-- A key: the parts before the last, and the last. -/
structure Key where
  path : List Text
  name : Text

/-- The bound on the parts of a key and on the depth of values. -/
def depthLimit : Nat := 79

/-- Reads a key. -/
def readKey? (text : Text) : Reading Key :=
  match readKeyParts? depthLimit text with
  | some (parts, rest) => parts.getLast?.map fun name => (⟨parts.dropLast, name⟩, rest)
  | none => none

/-! ## Values -/

/-- Whether a character ends a value without quotes. -/
def isDelimiter (c : Char) : Bool :=
  Quoted.isSpace c || c == '\n' || c == '\r' || c == ',' || c == ']' || c == '\x7d' || c == '#'

/-- Splits a text at the end of the value without quotes that it begins with. The space between a
date and a time does not end a value. -/
def splitWord (text : Text) : Text × Text :=
  let word := text.takeWhile (!isDelimiter ·)
  let rest := text.dropWhile (!isDelimiter ·)
  match DateTime.isDate word, rest with
  | true, ' ' :: h₁ :: h₂ :: ':' :: more =>
    if h₁.isDigit && h₂.isDigit then
      let time := h₁ :: h₂ :: ':' :: more
      (word ++ ' ' :: time.takeWhile (!isDelimiter ·), time.dropWhile (!isDelimiter ·))
    else (word, rest)
  | _, _ => (word, rest)

/-- The value that a word without quotes writes. -/
def wordValue? (word : Text) : Option Value :=
  if word = "true".toList then some (.boolean true)
  else if word = "false".toList then some (.boolean false)
  else if DateTime.isDateTime word then some (.dateTime word)
  else if Number.isFloat word then some (.float word)
  else (Number.integer? word).map .integer

/-- Reads a value that holds no other values. -/
def readScalar? (text : Text) : Reading Value :=
  match text with
  | '"' :: _ | '\'' :: _ => (Quoted.read? text).map (Prod.map .string id)
  | _ =>
    let (word, rest) := splitWord text
    (wordValue? word).map (·, rest)

/-- Reads the items of an array and the bracket behind them. `fuel` bounds the number of items. -/
def readItems? (readItem : Text → Reading Value) : Nat → Text → Reading (List Value)
  | 0, _ => none
  | fuel + 1, text =>
    match dropBlankLines? false text with
    | none => none
    | some (']' :: rest) => some ([], rest)
    | some start =>
      match readItem start with
      | none => none
      | some (item, afterItem) =>
        match dropBlankLines? false afterItem with
        | some (',' :: rest) => (readItems? readItem fuel rest).map (Prod.map (item :: ·) id)
        | some (']' :: rest) => some ([item], rest)
        | _ => none

/-- Reads a key, an equals sign and a value. -/
def readPair? (readItem : Text → Reading Value) (text : Text) : Reading (Key × Value) :=
  match readKey? text with
  | some (key, '=' :: rest) =>
    (readItem (dropSpaces rest)).map fun (value, after) => ((key, value), after)
  | _ => none

/-- Reads the pairs of a table between braces and the brace behind them, adding them to the entries
that were read before. `fuel` bounds the number of pairs. -/
def readPairs? (readItem : Text → Reading Value) : Nat → Entries → Text → Reading Entries
  | 0, _, _ => none
  | fuel + 1, entries, text =>
    match readPair? readItem text with
    | none => none
    | some ((key, value), afterPair) =>
      match entries.assign .inline key.path key.name value with
      | none => none
      | some extended =>
        match dropSpaces afterPair with
        | ',' :: rest => readPairs? readItem fuel extended rest
        | '\x7d' :: rest => some (extended, rest)
        | _ => none

/-- Reads a table between braces, behind the opening brace. -/
def readInline? (readItem : Text → Reading Value) (text : Text) : Reading Entries :=
  match dropSpaces text with
  | '\x7d' :: rest => some ([], rest)
  | rest => readPairs? readItem (text.length + 1) [] rest

/-- Reads a value that holds other values at most `depth` deep. -/
def readValue? : Nat → Text → Reading Value
  | 0, text => readScalar? text
  | depth + 1, text =>
    match text with
    | '[' :: rest =>
      (readItems? (readValue? depth) (text.length + 1) rest).map (Prod.map .array id)
    | '\x7b' :: rest => (readInline? (readValue? depth) rest).map (Prod.map (.table .inline) id)
    | _ => readScalar? text

/-! ## Lines -/

/-- A document as far as it was read: its entries, and the header under which the next lines
stand. -/
structure Progress where
  entries : Entries
  header : List Text

/-- Reads one line that is not blank, and what of its value stands on the lines that follow. -/
def readLine? (progress : Progress) : Text → Reading Progress
  | '[' :: '[' :: rest =>
    match readKey? rest with
    | some (key, ']' :: ']' :: after) =>
      match progress.entries.openElement key.path key.name, dropLineEnd? after with
      | some entries, some next => some (⟨entries, key.path ++ [key.name]⟩, next)
      | _, _ => none
    | _ => none
  | '[' :: rest =>
    match readKey? rest with
    | some (key, ']' :: after) =>
      match progress.entries.openTable key.path key.name, dropLineEnd? after with
      | some entries, some next => some (⟨entries, key.path ++ [key.name]⟩, next)
      | _, _ => none
    | _ => none
  | text =>
    match readPair? (readValue? depthLimit) text with
    | some ((key, value), after) =>
      match progress.entries.assignUnder progress.header key.path key.name value,
          dropLineEnd? after with
      | some entries, some next => some (⟨entries, progress.header⟩, next)
      | _, _ => none
    | none => none

/-- Reads the lines of a document. `fuel` bounds their number. -/
def readLines? : Nat → Progress → Text → Option Entries
  | 0, _, _ => none
  | fuel + 1, progress, text =>
    match dropSpaces text with
    | [] => some progress.entries
    | '#' :: rest => (dropLineEnd? ('#' :: rest)).bind (readLines? fuel progress)
    | '\n' :: rest | '\r' :: '\n' :: rest => readLines? fuel progress rest
    | start =>
      match readLine? progress start with
      | some (next, rest) => readLines? fuel next rest
      | none => none

/-- The entries of a document. A byte order mark at its beginning is left out. -/
def readDocument? (text : Text) : Option Entries :=
  let start :=
    match text with
    | '\uFEFF' :: rest => rest
    | _ => text
  readLines? (start.length + 1) ⟨[], []⟩ start

end VersionRanges.Toml

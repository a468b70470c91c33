/-
# Alternatives and terms

The text of a constraint is divided twice: bars divide it into alternatives, and commas or spaces
divide an alternative into terms. A space does not always divide: it may stand behind an operator,
around the hyphen of a range, or around the word of an alias.
-/
import VersionRanges.Text.Blank

namespace VersionRanges.Alternative

/-- The pieces of a text between bars. Two bars divide like one. -/
def splitBars : Text → List Text
  | [] => [[]]
  | '|' :: '|' :: rest => [] :: splitBars rest
  | '|' :: rest => [] :: splitBars rest
  | c :: rest =>
    match splitBars rest with
    | first :: more => (c :: first) :: more
    | [] => [[c]]

/-- The alternatives of a constraint, without the blanks around them. -/
def split (text : Text) : List Text := (splitBars (Text.trim text)).map Text.trim

end VersionRanges.Alternative

namespace VersionRanges.Term

/-- The number of spaces that a text begins with. -/
def leadingSpaces (text : Text) : Nat := (text.takeWhile (· == ' ')).length

/-- Whether a term can begin here, behind a separator: not at the end, not with another comma, and
not with the word of an alias. -/
def canBegin (text : Text) : Bool :=
  !text.isEmpty && text.head? != some ',' && !("as".toList.isPrefixOf text)

/-- Whether a separator may follow the text before it, which is given backwards: not the start, not
an operator or another separator, and not the word of an alias. -/
def canEnd : Text → Bool
  | [] => false
  | last :: before =>
    last != '=' && last != '>' && last != '<' && last != ' ' && last != ',' &&
      !(last == 's' && before.head? == some 'a')

/-- The numbers from `n` down to zero. -/
def downFrom (n : Nat) : List Nat := (List.range (n + 1)).reverse

/-- The length of a separator whose comma or dividing space is `offset` characters on. The dividing
character does not touch a hyphen, and the separator takes as many of the spaces behind it as leave
a term to begin. -/
def lengthAt? (before text : Text) (offset : Nat) : Option Nat :=
  match text.drop offset with
  | [] => none
  | c :: after =>
    if (c == ',' || c == ' ') && !(offset == 0 && before.head? == some '-') &&
        after.head? != some '-' then
      ((downFrom (leadingSpaces after)).find? fun spaces => canBegin (after.drop spaces)).map
        (offset + 1 + ·)
    else none

/-- The length of the separator that a text begins with, where `before` is all the text before it,
backwards. The last comma or space that can divide does. -/
def separatorLength? (before text : Text) : Option Nat :=
  if canEnd before then (downFrom (leadingSpaces text)).findSome? (lengthAt? before text)
  else none

/-- The terms of a text. `before` is the text before it, and `term` is the part of that which
belongs to the current term, both backwards; the next `skip` characters belong to a separator. -/
def splitAfter (before term : Text) (skip : Nat) : Text → List Text
  | [] => [term.reverse]
  | c :: rest =>
    match skip with
    | left + 1 => splitAfter (c :: before) term left rest
    | 0 =>
      match separatorLength? before (c :: rest) with
      | some (left + 1) => term.reverse :: splitAfter (c :: before) [] left rest
      | _ => splitAfter (c :: before) (c :: term) 0 rest

/-- The terms of an alternative. -/
def split (alternative : Text) : List Text := splitAfter [] [] 0 alternative

end VersionRanges.Term

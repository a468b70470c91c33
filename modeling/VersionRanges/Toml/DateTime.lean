/-
# Dates and times

Dates, times and their combination as a document writes them. A date has to be one of the calendar;
a time has seconds, which may reach sixty, and perhaps a fraction of a second; only a date with a
time may have an offset.
-/
import VersionRanges.Toml.Number

namespace VersionRanges.Toml.DateTime

/-- The number that two digits write. -/
def two? (first second : Char) : Option Nat :=
  if first.isDigit && second.isDigit then some (Number.value 10 [first, second]) else none

/-- The number of days of a month. -/
def daysOfMonth (year month : Nat) : Nat :=
  if month = 2 then
    if year % 4 = 0 && (year % 100 != 0 || year % 400 = 0) then 29 else 28
  else if month = 4 || month = 6 || month = 9 || month = 11 then 30
  else 31

/-- Reads a date, which is followed by the rest. -/
def afterDate? : Text → Option Text
  | y₁ :: y₂ :: y₃ :: y₄ :: '-' :: m₁ :: m₂ :: '-' :: d₁ :: d₂ :: rest =>
    match two? y₁ y₂, two? y₃ y₄, two? m₁ m₂, two? d₁ d₂ with
    | some century, some yearOfCentury, some month, some day =>
      if 1 ≤ month && month ≤ 12 && 1 ≤ day &&
          day ≤ daysOfMonth (100 * century + yearOfCentury) month then some rest
      else none
    | _, _, _, _ => none
  | _ => none

/-- Leaves out a fraction of a second. -/
def afterFraction? : Text → Option Text
  | '.' :: c :: rest => if c.isDigit then some (rest.dropWhile Char.isDigit) else none
  | '.' :: [] => none
  | text => some text

/-- Reads a time, which is followed by the rest. -/
def afterTime? : Text → Option Text
  | h₁ :: h₂ :: ':' :: m₁ :: m₂ :: ':' :: s₁ :: s₂ :: rest =>
    match two? h₁ h₂, two? m₁ m₂, two? s₁ s₂ with
    | some hour, some minute, some second =>
      if hour ≤ 23 && minute ≤ 59 && second ≤ 60 then afterFraction? rest else none
    | _, _, _ => none
  | _ => none

/-- Whether a text is an offset from universal time, or nothing. -/
def isOffset : Text → Bool
  | [] => true
  | ['Z'] | ['z'] => true
  | [sign, h₁, h₂, ':', m₁, m₂] =>
    match two? h₁ h₂, two? m₁ m₂ with
    | some hour, some minute => (sign == '+' || sign == '-') && hour ≤ 23 && minute ≤ 59
    | _, _ => false
  | _ => false

/-- Whether a text writes a date. -/
def isDate (text : Text) : Bool := afterDate? text == some []

/-- Whether a text writes a time. -/
def isTime (text : Text) : Bool := afterTime? text == some []

/-- Whether a text writes a time with or without an offset. -/
def isTimeWithOffset (text : Text) : Bool := ((afterTime? text).map isOffset).getD false

/-- Whether a text writes a date, a time, or a date and a time with a letter T or a space between
them. -/
def isDateTime (text : Text) : Bool :=
  isTime text ||
    match afterDate? text with
    | some [] => true
    | some (c :: rest) => (c == 'T' || c == 't' || c == ' ') && isTimeWithOffset rest
    | none => false

end VersionRanges.Toml.DateTime

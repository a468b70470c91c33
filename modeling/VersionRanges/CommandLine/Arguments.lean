/-
# Arguments

The command line names one of seven commands with its operands. Two options may stand before and
behind the name of the command: `--strict` and `--config` with a path; `sort` has a switch `-r` of
its own. Arguments are read from left to right and the first that is wrong, or that asks for help,
ends the reading.

The value of `--config` is looked at when the next option or operand is read on the same side of the
command's name, so that a request for help behind the name comes before a wrong value in front of
it.
-/
import VersionRanges.Text.Basic

namespace VersionRanges.CommandLine

/-- The names of the commands. -/
inductive CommandName where
  | normalize
  | stability
  | parse
  | satisfies
  | filter
  | sort
  | compare
deriving DecidableEq, Repr

/-- The command that a text names. -/
def CommandName.ofText? (text : Text) : Option CommandName :=
  if text = "normalize".toList then some normalize
  else if text = "stability".toList then some stability
  else if text = "parse".toList then some parse
  else if text = "satisfies".toList then some satisfies
  else if text = "filter".toList then some filter
  else if text = "sort".toList then some sort
  else if text = "compare".toList then some compare
  else none

/-- The name under which help on a command is given. -/
def helpName : Text := "help".toList

/-- The commands with their operands. -/
inductive Command where
  /-- Print the normal form of each version. -/
  | normalize (versions : List Text)
  /-- Print the stability of each version. -/
  | stability (versions : List Text)
  /-- Print the label and the structure of a constraint. -/
  | parse (constraint : Text)
  /-- Tell whether a version satisfies a constraint. -/
  | satisfies (version constraint : Text)
  /-- Print the versions that satisfy a constraint. -/
  | filter (constraint : Text) (versions : List Text)
  /-- Print the versions in order. -/
  | sort (reverse : Bool) (versions : List Text)
  /-- Tell whether two versions stand in a relation. -/
  | compare (first operator second : Text)
deriving DecidableEq, Repr

/-- What a command line asks for. -/
structure Invocation where
  command : Command
  location : Option Text
  strict : Bool
deriving DecidableEq, Repr

/-- Why a command line asks for nothing to be done. -/
inductive Usage where
  | help
  | wrong
deriving DecidableEq, Repr

/-- The exit code of a command line that asks for nothing to be done. -/
def Usage.exitCode : Usage → Nat
  | help => 0
  | wrong => 2

/-- What was read on one side of the command's name. `pending` is a value of `--config` that was not
looked at yet. -/
structure Side where
  strict : Bool
  reverse : Bool
  location : Option Text
  pending : Option Text
  operands : List Text

namespace Side

/-- A side on which nothing was read. -/
def empty : Side := ⟨false, false, none, none, []⟩

/-- Takes a path as the value of `--config`. The option may be given once, and its value is not
empty. -/
def setLocation (side : Side) (path : Text) : Except Usage Side :=
  if path.isEmpty || side.location.isSome then .error .wrong
  else .ok { side with location := some path, pending := none }

/-- Looks at the pending value of `--config`. -/
def settle (side : Side) : Except Usage Side :=
  match side.pending with
  | some path => side.setLocation path
  | none => .ok side

/-- Takes the switch `--strict`, which may be given once. -/
def setStrict (side : Side) : Except Usage Side :=
  if side.strict then .error .wrong else .ok { side with strict := true }

/-- Takes the switch `--reverse`, which may be given once. -/
def setReverse (side : Side) : Except Usage Side :=
  if side.reverse then .error .wrong else .ok { side with reverse := true }

end Side

/-- The greatest number of operands of a command, if it has one. -/
def operandLimit : CommandName → Option Nat
  | .normalize | .stability | .filter | .sort => none
  | .parse => some 1
  | .satisfies => some 2
  | .compare => some 3

/-- Takes an operand of a command. -/
def takeOperand (name : CommandName) (side : Side) (operand : Text) : Except Usage Side := do
  let side ← side.settle
  if (operandLimit name).any (· ≤ side.operands.length) then .error .wrong
  else return { side with operands := side.operands ++ [operand] }

/-- Takes the letters of an argument with one hyphen. Letters other than those for help, and for the
direction of `sort`, are wrong. -/
def takeLetters (hasReverse : Bool) : Side → Text → Except Usage Side
  | side, [] => .ok side
  | side, letter :: letters => do
    let side ← side.settle
    if letter = 'h' then .error .help
    else if hasReverse && letter = 'r' then
      let side ← side.setReverse
      takeLetters hasReverse side letters
    else .error .wrong

/-- Takes an argument with two hyphens that has no value of its own behind it. -/
def takeWord (hasReverse : Bool) (side : Side) (word : Text) : Except Usage Side := do
  let side ← side.settle
  if word = "help".toList then .error .help
  else if word = "strict".toList then side.setStrict
  else if hasReverse && word = "reverse".toList then side.setReverse
  else
    match "config=".toList.isPrefixOf? word with
    | some path => side.setLocation path
    | none => .error .wrong

/-- Whether an argument is an option rather than an operand or a value. -/
def isOption : Text → Bool
  | '-' :: _ :: _ => true
  | _ => false

/-- The argument that is the option with a path. -/
def locationOption : Text := "--config".toList

/-- Reads the arguments behind the name of a command. -/
def readOperands (name : CommandName) : Side → List Text → Except Usage Side
  | side, [] => side.settle
  | side, argument :: rest =>
    if argument = locationOption then
      match side.settle, rest with
      | .ok settled, path :: more =>
        if isOption path then .error .wrong
        else readOperands name { settled with pending := some path } more
      | _, _ => .error .wrong
    else
      match argument with
      | ['-', '-'] => (rest.foldlM (takeOperand name) side).bind Side.settle
      | '-' :: '-' :: word =>
        (takeWord (name == .sort) side word).bind fun next => readOperands name next rest
      | '-' :: letter :: letters =>
        (takeLetters (name == .sort) side (letter :: letters)).bind fun next =>
          readOperands name next rest
      | operand => (takeOperand name side operand).bind fun next => readOperands name next rest

/-- The command of a name and its operands. -/
def toCommand? (name : CommandName) (side : Side) : Option Command :=
  match name, side.operands with
  | .normalize, version :: versions => some (.normalize (version :: versions))
  | .stability, version :: versions => some (.stability (version :: versions))
  | .parse, [constraint] => some (.parse constraint)
  | .satisfies, [version, constraint] => some (.satisfies version constraint)
  | .filter, constraint :: versions => some (.filter constraint versions)
  | .sort, versions => some (.sort side.reverse versions)
  | .compare, [first, operator, second] => some (.compare first operator second)
  | _, _ => none

/-- Puts what was read on both sides of a command's name together. The path behind the name counts
if there is one on both sides. -/
def toInvocation (front behind : Side) (command : Command) : Invocation :=
  ⟨command, behind.location.or front.location, front.strict || behind.strict⟩

/-- Reads a command behind its name. -/
def readCommand (name : CommandName) (front : Side) (arguments : List Text) :
    Except Usage Invocation := do
  let behind ← readOperands name Side.empty arguments
  match toCommand? name behind with
  | none => .error .wrong
  | some command => return toInvocation (← front.settle) behind command

/-- The outcome of asking for help under its name, with the name of a command or without. -/
def askHelp : List Text → Usage
  | [] => .help
  | [topic] =>
    if topic = helpName || (CommandName.ofText? topic).isSome then .help else .wrong
  | _ => .wrong

/-- Reads the arguments from the first one. -/
def readFront : Side → List Text → Except Usage Invocation
  | _, [] => .error .wrong
  | side, argument :: rest =>
    if argument = locationOption then
      match side.settle, rest with
      | .ok settled, path :: more =>
        if isOption path then .error .wrong
        else readFront { settled with pending := some path } more
      | _, _ => .error .wrong
    else
      match argument with
      | ['-', '-'] => .error .wrong
      | '-' :: '-' :: word =>
        (takeWord false side word).bind fun next => readFront next rest
      | '-' :: letter :: letters =>
        (takeLetters false side (letter :: letters)).bind fun next => readFront next rest
      | text =>
        if text = helpName then .error (askHelp rest)
        else
          match CommandName.ofText? text with
          | some name => readCommand name side rest
          | none => .error .wrong

/-- Reads the arguments behind the name of the program. -/
def read (arguments : List Text) : Except Usage Invocation := readFront Side.empty arguments

end VersionRanges.CommandLine

/-
# Running a command

What a command prints, and how it ends. A command that fails tells what it was about and why the
library refused it. Strictness concerns the commands that pass over versions: a strict run refuses
the first version that cannot be read.
-/
import VersionRanges.CommandLine.Arguments
import VersionRanges.Relation
import VersionRanges.Selection
import VersionRanges.Settings.Lookup

namespace VersionRanges.CommandLine

/-- The settings that matter for a command, from the settings file and the command line. -/
structure Options where
  strict : Bool
  descending : Bool
deriving DecidableEq, Repr

/-- The options of an invocation under some settings. -/
def Options.of (invocation : Invocation) (settings : Settings) : Options :=
  ⟨invocation.strict || settings.strict, settings.descending⟩

/-- A command's failure: what it was about, and why the library refused it. -/
structure Failure where
  message : Text
  cause : Error
deriving DecidableEq, Repr

/-- What a command printed, and its exit code or failure. -/
structure Report where
  output : Text
  ending : Except Failure Nat

/-- The exit code of a command. A failure has the one of the answer no. -/
def Report.exitCode (report : Report) : Nat :=
  match report.ending with
  | .ok code => code
  | .error _ => 1

/-- The report of a command that prints lines and succeeds. -/
def Report.ofLines (lines : List Text) : Report := ⟨Text.ofLines lines, .ok 0⟩

/-- The report of a command that prints nothing and fails. -/
def Report.ofFailure (failure : Failure) : Report := ⟨[], .error failure⟩

/-- The report of a command that answers yes or no. The answer no has an exit code of its own. -/
def Report.ofAnswer (answer : Bool) : Report :=
  if answer then ⟨Text.ofLines ["true".toList], .ok 0⟩
  else ⟨Text.ofLines ["false".toList], .ok 1⟩

/-- The failure to normalize a version. -/
def Failure.ofVersion (version : Text) (cause : Error) : Failure :=
  ⟨"failed to normalize ".toList ++ Text.quoted version, cause⟩

/-- The failure to parse a constraint. -/
def Failure.ofConstraint (constraint : Text) (cause : Error) : Failure :=
  ⟨"failed to parse constraint ".toList ++ Text.quoted constraint, cause⟩

/-- Prints normal forms up to the first version that cannot be read. -/
def normalizeAll : List Text → Report
  | [] => Report.ofLines []
  | version :: versions =>
    match Version.normalize version with
    | .ok normal =>
      let later := normalizeAll versions
      ⟨normal ++ Text.newline ++ later.output, later.ending⟩
    | .error cause => .ofFailure (.ofVersion version cause)

/-- The failure on the first version that cannot be read, if there is one. -/
def firstFailure? : List Text → Option Failure
  | [] => none
  | version :: versions =>
    match Version.normalize version with
    | .ok _ => firstFailure? versions
    | .error cause => some (.ofVersion version cause)

/-- Reports a command unless a strict run refuses one of its versions. -/
def guarded (options : Options) (versions : List Text) (report : Report) : Report :=
  if options.strict then
    match firstFailure? versions with
    | some failure => .ofFailure failure
    | none => report
  else report

/-- The report of a question that may fail. -/
def ofQuestion (about : Text) : Except Error Bool → Report
  | .ok answer => .ofAnswer answer
  | .error cause => .ofFailure ⟨about, cause⟩

/-- Runs a command. -/
def execute (options : Options) : Command → Report
  | .normalize versions => normalizeAll versions
  | .stability versions =>
    .ofLines (versions.map fun version => (Stability.ofVersion version).label)
  | .parse constraint =>
    match Constraint.parse constraint with
    | .ok parsed => .ofLines [parsed.pretty, parsed.render]
    | .error cause => .ofFailure (.ofConstraint constraint cause)
  | .satisfies version constraint =>
    if options.strict then
      ofQuestion
        ("cannot check ".toList ++ Text.quoted version ++ " against ".toList ++
          Text.quoted constraint)
        (Selection.trySatisfies version constraint)
    else .ofAnswer (Selection.satisfies version constraint)
  | .filter constraint versions =>
    match Constraint.parse constraint with
    | .error cause => .ofFailure (.ofConstraint constraint cause)
    | .ok _ => guarded options versions (.ofLines (Selection.satisfiedBy versions constraint))
  | .sort reverse versions =>
    guarded options versions
      (.ofLines
        (if options.descending != reverse then Selection.sortDescending versions
          else Selection.sort versions))
  | .compare first operator second =>
    ofQuestion
      ("cannot compare ".toList ++ Text.quoted first ++ ' ' :: operator ++ ' ' ::
        Text.quoted second)
      (Relation.compareBy first operator second)

/-- How a run of the program ends. -/
inductive Outcome where
  /-- Nothing was asked to be done. -/
  | usage (usage : Usage)
  /-- The settings file cannot be used. -/
  | refused (refusal : Settings.Refusal)
  /-- The command was run. -/
  | done (report : Report)

/-- The exit code of the program. -/
def Outcome.exitCode : Outcome → Nat
  | usage reason => reason.exitCode
  | refused _ => 1
  | done report => report.exitCode

/-- Runs an invocation in a file system. -/
def runInvocation (system : FileSystem) (workingDirectory : Text) (invocation : Invocation) :
    Outcome :=
  match Settings.load system invocation.location workingDirectory with
  | .error refusal => .refused refusal
  | .ok settings =>
    .done (execute (.of invocation (settings.getD Settings.default)) invocation.command)

/-- The paths that a run may ask the file system about. -/
def inspected (workingDirectory : Text) (arguments : List Text) : List Text :=
  match read arguments with
  | .error _ => []
  | .ok invocation => Settings.inspected invocation.location workingDirectory

/-- Runs the program with the arguments behind its name. -/
def run (system : FileSystem) (workingDirectory : Text) (arguments : List Text) : Outcome :=
  match read arguments with
  | .error usage => .usage usage
  | .ok invocation => runInvocation system workingDirectory invocation

end VersionRanges.CommandLine

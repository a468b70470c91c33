/-
# The program

Reads the arguments and the files that may hold settings, runs the command, and prints what it
reports. All decisions are taken by `CommandLine.run`.
-/
import VersionRanges.CommandLine.Run

namespace VersionRanges.Program

/-- The system's number for the error of reading a directory as a file. -/
def isDirectoryCode : UInt32 := 21

/-- What stands at a path. -/
def inspect (path : Text) : IO (Option Entry) := do
  try
    let bytes ← IO.FS.readBinFile (String.ofList path)
    return some (.file ((String.fromUTF8? bytes).map String.toList))
  catch
    | .noFileOrDirectory .. => return none
    | .inappropriateType _ code _ =>
      return if code == isDirectoryCode then some .directory else none
    | _ => return some (.file none)

/-- The part of the file system that a run looks at. -/
def snapshot (paths : List Text) : IO FileSystem := do
  return .ofFound (← paths.mapM fun path => return (path, ← inspect path))

/-- The text that explains the use of the program. -/
def usageText : String :=
  "Usage: semver [--strict] [--config PATH] COMMAND\n\n" ++
  "Commands:\n" ++
  "  normalize VERSION...\n" ++
  "  stability VERSION...\n" ++
  "  parse CONSTRAINT\n" ++
  "  satisfies VERSION CONSTRAINT\n" ++
  "  filter CONSTRAINT [VERSION...]\n" ++
  "  sort [--reverse] [VERSION...]\n" ++
  "  compare VERSION OPERATOR VERSION\n"

/-- Prints the outcome of a run and gives its exit code. -/
def conclude (outcome : CommandLine.Outcome) : IO UInt32 := do
  match outcome with
  | .usage .help => IO.print usageText
  | .usage .wrong => IO.eprint usageText
  | .refused refusal => IO.eprintln ("Error: " ++ String.ofList refusal.message)
  | .done report =>
    IO.print (String.ofList report.output)
    if let .error failure := report.ending then
      IO.eprintln ("Error: " ++ String.ofList failure.message)
      IO.eprintln ("  Caused by: " ++ String.ofList failure.cause.message)
  return outcome.exitCode.toUInt32

end VersionRanges.Program

open VersionRanges Program

/-- Runs the program. -/
def main (arguments : List String) : IO UInt32 := do
  let texts := arguments.map String.toList
  let workingDirectory := (← IO.currentDir).toString.toList
  let system ← snapshot (CommandLine.inspected workingDirectory texts)
  conclude (CommandLine.run system workingDirectory texts)

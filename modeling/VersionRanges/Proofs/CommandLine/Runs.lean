/-
# Whole runs

A run reads its arguments, loads the settings and executes a command. The arguments and the working
directory tell beforehand at which paths it may ask the file system, and what stands at any other
path makes no difference. So a program can look at these paths first and run in what it has found.

A run ends without a command, without settings, or with the report of the command. Its exit code
tells a wrong command line from the rest, and success from the answer no and from every failure.

The switch `--strict` in front of the arguments changes nothing in what is read but the strictness.
-/
import Mathlib.Data.List.Basic
import Mathlib.Data.List.Find
import VersionRanges.Proofs.CommandLine.Strictness

namespace VersionRanges

/-! ## What a run looks at -/

/-- What was found at some paths is what stands there. -/
theorem FileSystem.ofFound_map (system : FileSystem) {paths : List Text} {path : Text}
    (looked : path ∈ paths) :
    ofFound (paths.map fun path => (path, system path)) path = system path := by
  rw [ofFound, List.lookup_graph system looked, Option.join_some]

namespace Settings

variable {system system' : FileSystem}

theorem loadFile_congr {path : Text} (same : system path = system' path) :
    loadFile system path = loadFile system' path := by
  rw [loadFile, loadFile, same]

/-- A search asks about its candidates alone. -/
theorem search_congr {start : Text} (same : ∀ path ∈ candidates start, system path = system' path) :
    search system start = search system' start := by
  have found : (candidates start).find? system.isFile = (candidates start).find? system'.isFile :=
    List.find?_congr fun path listed => by
      rw [FileSystem.isFile, FileSystem.isFile, same path listed]
  rw [search, search, ← found]
  cases first : (candidates start).find? system.isFile with
  | none => rfl
  | some path =>
      have here := same path (List.mem_of_find?_eq_some first)
      exact congrArg (Except.map some) (loadFile_congr here)

theorem loadFrom_congr {location : Text}
    (same : ∀ path ∈ location :: candidates location, system path = system' path) :
    loadFrom system location = loadFrom system' location := by
  obtain ⟨here, above⟩ := List.forall_mem_cons.mp same
  rw [loadFrom, loadFrom, FileSystem.isDirectory, FileSystem.isDirectory, here,
    search_congr above, loadFile_congr here]

/-- Loading the settings asks about the inspected paths alone. -/
theorem load_congr {location : Option Text} {workingDirectory : Text}
    (same : ∀ path ∈ inspected location workingDirectory, system path = system' path) :
    load system location workingDirectory = load system' location workingDirectory := by
  cases location with
  | none => exact search_congr same
  | some path => exact loadFrom_congr same

end Settings

namespace CommandLine

variable {system system' : FileSystem} {workingDirectory : Text} {arguments : List Text}

/-- A run asks about the inspected paths alone. -/
theorem run_congr
    (same : ∀ path ∈ inspected workingDirectory arguments, system path = system' path) :
    run system workingDirectory arguments = run system' workingDirectory arguments := by
  rw [inspected] at same
  rw [run, run]
  cases reads : read arguments with
  | error usage => rfl
  | ok invocation =>
      rw [reads] at same
      dsimp only
      rw [runInvocation, runInvocation, Settings.load_congr same]

/-- A run in what was found at the inspected paths is a run in the file system. -/
theorem run_ofFound (system : FileSystem) (workingDirectory : Text) (arguments : List Text) :
    run (.ofFound ((inspected workingDirectory arguments).map fun path => (path, system path)))
        workingDirectory arguments =
      run system workingDirectory arguments :=
  run_congr fun _ looked => system.ofFound_map looked

/-- A search goes up to the root. -/
example : inspected "/a".toList ["sort".toList] =
    ["/a/semver.toml".toList, "/semver.toml".toList] := by
  decide

/-! ## How a run ends -/

/-- A run stops at the arguments, at the settings, or behind the command. -/
theorem run_cases (system : FileSystem) (workingDirectory : Text) (arguments : List Text) :
    (∃ usage, read arguments = .error usage ∧
      run system workingDirectory arguments = .usage usage) ∨
    ∃ invocation, read arguments = .ok invocation ∧
      ((∃ refusal, Settings.load system invocation.location workingDirectory = .error refusal ∧
        run system workingDirectory arguments = .refused refusal) ∨
      ∃ settings, Settings.load system invocation.location workingDirectory = .ok settings ∧
        run system workingDirectory arguments = .done
          (execute (.of invocation (settings.getD Settings.default)) invocation.command)) := by
  rw [run]
  cases reads : read arguments with
  | error usage => exact .inl ⟨usage, rfl, rfl⟩
  | ok invocation =>
      refine .inr ⟨invocation, rfl, ?_⟩
      dsimp only
      rw [runInvocation]
      cases loads : Settings.load system invocation.location workingDirectory with
      | error refusal => exact .inl ⟨refusal, rfl, rfl⟩
      | ok settings => exact .inr ⟨settings, rfl, rfl⟩

theorem run_eq_done_iff {report : Report} :
    run system workingDirectory arguments = .done report ↔
      ∃ invocation settings, read arguments = .ok invocation ∧
        Settings.load system invocation.location workingDirectory = .ok settings ∧
        execute (.of invocation (settings.getD Settings.default)) invocation.command = report := by
  constructor
  · intro ends
    rcases run_cases system workingDirectory arguments with
      ⟨usage, -, stops⟩ | ⟨invocation, reads, ⟨refusal, -, stops⟩ | ⟨settings, loads, runs⟩⟩
    · cases stops.symm.trans ends
    · cases stops.symm.trans ends
    · exact ⟨invocation, settings, reads, loads, Outcome.done.inj (runs.symm.trans ends)⟩
  · rintro ⟨invocation, settings, reads, loads, rfl⟩
    simp [run, runInvocation, reads, loads]

/-- A command fails in a run exactly if the arguments and the settings can be read and the command
fails in one of its ways. It is strict if the command line or the settings say so. -/
theorem run_fails_iff {output : Text} {failure : Failure} :
    run system workingDirectory arguments = .done ⟨output, .error failure⟩ ↔
      ∃ invocation settings, read arguments = .ok invocation ∧
        Settings.load system invocation.location workingDirectory = .ok settings ∧
        Fails (invocation.strict || (settings.getD Settings.default).strict) invocation.command
          output failure := by
  rw [run_eq_done_iff]
  simp only [Options.of, execute_eq_error_iff]

/-! ### Exit codes -/

/-- The ways in which a command ends, each with its exit code. -/
inductive Report.Ends : Report → ℕ → Prop
  | succeeds (output : Text) : Ends ⟨output, .ok 0⟩ 0
  | answersNo : Ends (.ofAnswer false) 1
  | fails (output : Text) (failure : Failure) : Ends ⟨output, .error failure⟩ 1

theorem ends_ofAnswer (answer : Bool) :
    (Report.ofAnswer answer).Ends (Report.ofAnswer answer).exitCode := by
  cases answer with
  | true => exact .succeeds _
  | false => exact .answersNo

theorem ends_ofQuestion (about : Text) (answer : Except Error Bool) :
    (ofQuestion about answer).Ends (ofQuestion about answer).exitCode := by
  cases answer with
  | ok answer => exact ends_ofAnswer answer
  | error cause => exact .fails _ _

theorem ends_guarded (options : Options) (versions lines : List Text) :
    (guarded options versions (.ofLines lines)).Ends
      (guarded options versions (.ofLines lines)).exitCode := by
  rw [guarded]
  split
  · cases firstFailure? versions with
    | none => exact .succeeds _
    | some failure => exact .fails _ _
  · exact .succeeds _

theorem ends_normalizeAll (versions : List Text) :
    (normalizeAll versions).Ends (normalizeAll versions).exitCode := by
  rcases haveNormals_or_stopsAt versions with ⟨normals, all⟩ | ⟨normals, refused, cause, stops⟩
  · rw [normalizeAll_of_haveNormals all]
    exact .succeeds _
  · rw [normalizeAll_of_stopsAt stops]
    exact .fails _ _

/-- A command ends in one of these ways. -/
theorem ends_execute (options : Options) (command : Command) :
    (execute options command).Ends (execute options command).exitCode := by
  cases command with
  | normalize versions => exact ends_normalizeAll versions
  | stability versions => exact .succeeds _
  | parse constraint =>
      rw [execute]
      cases Constraint.parse constraint with
      | error cause => exact .fails _ _
      | ok required => exact .succeeds _
  | satisfies version constraint =>
      rw [execute]
      split
      · exact ends_ofQuestion _ _
      · exact ends_ofAnswer _
  | filter constraint versions =>
      rw [execute]
      cases Constraint.parse constraint with
      | error cause => exact .fails _ _
      | ok required => exact ends_guarded options versions _
  | sort reverse versions => exact ends_guarded options versions _
  | compare first operator second => exact ends_ofQuestion _ _

/-- The ways in which a run ends, each with its exit code. -/
inductive Outcome.Exits : Outcome → ℕ → Prop
  | helps : Exits (.usage .help) 0
  | isWrong : Exits (.usage .wrong) 2
  | isRefused (refusal : Settings.Refusal) : Exits (.refused refusal) 1
  | reports {report : Report} {code : ℕ} (ends : report.Ends code) : Exits (.done report) code

namespace Outcome.Exits

variable {outcome : Outcome}

theorem eq_of_two (exits : outcome.Exits 2) : outcome = .usage .wrong := by
  cases exits with
  | isWrong => rfl
  | reports ends => cases ends

theorem cases_of_one (exits : outcome.Exits 1) :
    (∃ refusal, outcome = .refused refusal) ∨ outcome = .done (.ofAnswer false) ∨
      ∃ output failure, outcome = .done ⟨output, .error failure⟩ := by
  cases exits with
  | isRefused refusal => exact .inl ⟨refusal, rfl⟩
  | reports ends =>
      cases ends with
      | answersNo => exact .inr (.inl rfl)
      | fails output failure => exact .inr (.inr ⟨output, failure, rfl⟩)

end Outcome.Exits

/-- A run ends in one of these ways, with the exit code that belongs to it. -/
theorem exits_run (system : FileSystem) (workingDirectory : Text) (arguments : List Text) :
    (run system workingDirectory arguments).Exits
      (run system workingDirectory arguments).exitCode := by
  rcases run_cases system workingDirectory arguments with
    ⟨usage, -, stops⟩ | ⟨invocation, -, ⟨refusal, -, stops⟩ | ⟨settings, -, runs⟩⟩
  · rw [stops]
    cases usage with
    | help => exact .helps
    | wrong => exact .isWrong
  · rw [stops]
    exact .isRefused refusal
  · rw [runs]
    exact .reports (ends_execute _ _)

theorem run_eq_usage_iff (system : FileSystem) (workingDirectory : Text) {reason : Usage} :
    run system workingDirectory arguments = .usage reason ↔ read arguments = .error reason := by
  rcases run_cases system workingDirectory arguments with
    ⟨usage, reads, stops⟩ | ⟨invocation, reads, ⟨refusal, -, stops⟩ | ⟨settings, -, runs⟩⟩
  · simp [stops, reads]
  · simp [stops, reads]
  · simp [runs, reads]

/-- The exit code 2 is that of a wrong command line. -/
theorem exitCode_run_eq_two_iff :
    (run system workingDirectory arguments).exitCode = 2 ↔ read arguments = .error .wrong := by
  rw [← run_eq_usage_iff system workingDirectory]
  constructor
  · intro two
    have exits := exits_run system workingDirectory arguments
    rw [two] at exits
    exact exits.eq_of_two
  · intro stops
    rw [stops]
    rfl

/-- The exit code 1 is that of settings that cannot be used, of a command that fails, and of the
answer no. -/
theorem exitCode_run_eq_one_iff :
    (run system workingDirectory arguments).exitCode = 1 ↔
      (∃ refusal, run system workingDirectory arguments = .refused refusal) ∨
        run system workingDirectory arguments = .done (.ofAnswer false) ∨
          ∃ output failure,
            run system workingDirectory arguments = .done ⟨output, .error failure⟩ := by
  constructor
  · intro one
    have exits := exits_run system workingDirectory arguments
    rw [one] at exits
    exact exits.cases_of_one
  · rintro (⟨refusal, ends⟩ | ends | ⟨output, failure, ends⟩) <;> rw [ends] <;> rfl

/-! ## The strict switch -/

/-- The invocation that is strict and asks for the same otherwise. -/
def Invocation.strictly (invocation : Invocation) : Invocation := { invocation with strict := true }

namespace Side

/-- The side on which the strict switch was taken. -/
def strictly (side : Side) : Side := { side with strict := true }

variable (side : Side)

theorem location_strictly : side.strictly.location = side.location := rfl

theorem pending_strictly : side.strictly.pending = side.pending := rfl

theorem setLocation_strictly (path : Text) :
    side.strictly.setLocation path = (side.setLocation path).map strictly := by
  rw [setLocation, setLocation, location_strictly]
  split <;> rfl

theorem settle_strictly : side.strictly.settle = side.settle.map strictly := by
  rw [settle, settle, pending_strictly]
  cases side.pending with
  | none => rfl
  | some path => exact side.setLocation_strictly path

end Side

section

variable (side : Side)

theorem takeLetters_strictly (letters : Text) :
    takeLetters false side.strictly letters =
      (takeLetters false side letters).map Side.strictly := by
  cases letters with
  | nil => rfl
  | cons letter letters =>
      rw [takeLetters, takeLetters, Side.settle_strictly]
      cases side.settle with
      | error usage => rfl
      | ok settled =>
          simp only [Except.map, bind, Except.bind, Bool.false_and]
          split <;> rfl

/-- A word is taken with the switch as without it, unless it is the switch again. -/
theorem takeWord_strictly (word : Text) :
    takeWord false side.strictly word = (takeWord false side word).map Side.strictly ∨
      takeWord false side.strictly word = .error .wrong := by
  rw [takeWord, takeWord, Side.settle_strictly]
  cases side.settle with
  | error usage => exact .inl rfl
  | ok settled =>
      simp only [Except.map, bind, Except.bind, Bool.false_and, Bool.false_eq_true, if_false]
      split
      · exact .inl rfl
      · split
        · exact .inr rfl
        · split
          · next path _ => exact .inl (settled.setLocation_strictly path)
          · exact .inl rfl

theorem readCommand_strictly (name : CommandName) (arguments : List Text) :
    readCommand name side.strictly arguments =
      (readCommand name side arguments).map Invocation.strictly := by
  rw [readCommand, readCommand, Side.settle_strictly]
  cases readOperands name Side.empty arguments with
  | error usage => rfl
  | ok behind =>
      simp only [bind, Except.bind]
      cases toCommand? name behind with
      | none => rfl
      | some command =>
          cases side.settle with
          | error usage => rfl
          | ok settled => rfl

end

/-- Reading goes on with the switch as without it if the next step and all that follow it do. -/
theorem bind_strictly {taken taken' : Except Usage Side} {next : Side → Except Usage Invocation}
    (first : taken' = taken.map Side.strictly ∨ taken' = .error .wrong)
    (further : ∀ side : Side, next side.strictly = (next side).map Invocation.strictly ∨
      next side.strictly = .error .wrong) :
    taken'.bind next = (taken.bind next).map Invocation.strictly ∨
      taken'.bind next = .error .wrong := by
  rcases first with rfl | rfl
  · cases taken with
    | error usage => exact .inl rfl
    | ok side => exact further side
  · exact .inr rfl

/-- The arguments are read with the switch as without it, unless they are wrong with it. -/
theorem readFront_strictly (side : Side) (arguments : List Text) :
    readFront side.strictly arguments = (readFront side arguments).map Invocation.strictly ∨
      readFront side.strictly arguments = .error .wrong := by
  match arguments with
  | [] => exact .inr rfl
  | argument :: rest =>
      unfold readFront
      by_cases location : argument = locationOption
      · rw [if_pos location, if_pos location, Side.settle_strictly]
        cases side.settle with
        | error usage => exact .inr rfl
        | ok settled =>
            cases rest with
            | nil => exact .inr rfl
            | cons path more =>
                dsimp only [Except.map]
                split
                · exact .inr rfl
                · exact readFront_strictly { settled with pending := some path } more
      · rw [if_neg location, if_neg location]
        split
        · exact .inr rfl
        · next word _ =>
          exact bind_strictly (takeWord_strictly side word) (readFront_strictly · rest)
        · next letter letters _ _ =>
          have taken := takeLetters_strictly side (letter :: letters)
          exact bind_strictly (.inl taken) (readFront_strictly · rest)
        · split
          · exact .inl rfl
          · split
            · next name _ => exact .inl (readCommand_strictly side name rest)
            · exact .inr rfl

/-- With the switch in front, the arguments ask for the same strictly, or they are wrong. -/
theorem read_strict (arguments : List Text) :
    read ("--strict".toList :: arguments) = (read arguments).map Invocation.strictly ∨
      read ("--strict".toList :: arguments) = .error .wrong := by
  have taken : read ("--strict".toList :: arguments) = readFront Side.empty.strictly arguments := by
    rw [read, readFront.eq_def]
    exact if_neg (by decide)
  rw [taken]
  exact readFront_strictly Side.empty arguments

/-- Where a run with the switch in front succeeds, so does the run without it, with the same
report. -/
theorem run_of_strict {report : Report} {code : ℕ} (succeeds : report.ending = .ok code)
    (strict : run system workingDirectory ("--strict".toList :: arguments) = .done report) :
    run system workingDirectory arguments = .done report := by
  obtain ⟨invocation, settings, reads, loads, reports⟩ := run_eq_done_iff.mp strict
  rcases read_strict arguments with same | wrong
  · rw [reads] at same
    obtain ⟨plain, reads', rfl⟩ := exists_of_map_eq_ok same.symm
    refine run_eq_done_iff.mpr ⟨plain, settings, reads', loads, ?_⟩
    change execute ⟨true, _⟩ _ = report at reports
    change execute ⟨plain.strict || _, _⟩ _ = report
    cases plain.strict || (settings.getD Settings.default).strict with
    | true => exact reports
    | false =>
        rw [← reports] at succeeds
        exact (execute_of_strict succeeds).trans reports
  · cases reads.symm.trans wrong

end CommandLine

end VersionRanges

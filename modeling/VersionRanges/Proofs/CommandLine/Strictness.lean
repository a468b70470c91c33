/-
# Strict runs

A strict run refuses what another run passes over, and differs from it in nothing else. The commands
look for the first version that cannot be read before they print, except for the one that prints
normal forms as it reads: that one has printed the normal forms of the versions in front by then.
Which failures there are, and what has been printed before each, is told by a relation with one
constructor for each way to fail.
-/
import VersionRanges.Proofs.CommandLine.Filtering
import VersionRanges.Proofs.Reading.Refusals

namespace VersionRanges

theorem Version.isValid_iff {version : Text} :
    isValid version = true ↔ ∃ normal, normalize version = .ok normal := by
  rw [isValid]
  cases normalize version <;> simp [Except.isOk, Except.toBool]

namespace CommandLine

open Version (isValid normalize isValid_iff)

/-! ## The first version that cannot be read -/

/-- The versions have these normal forms, one by one. -/
abbrev HaveNormals : List Text → List Text → Prop :=
  List.Forall₂ fun version normal => normalize version = .ok normal

/-- The first of some versions that cannot be read, with the cause, and the normal forms of the
versions in front of it. -/
def StopsAt (versions normals : List Text) (refused : Text) (cause : Error) : Prop :=
  ∃ before after, versions = before ++ refused :: after ∧ HaveNormals before normals ∧
    normalize refused = .error cause

theorem exists_normals_iff {versions : List Text} :
    (∃ normals, HaveNormals versions normals) ↔ ∀ version ∈ versions, isValid version = true := by
  simp only [isValid_iff]
  exact (exists_congr fun normals => mapM_eq_ok_iff.symm).trans exists_mapM_eq_ok_iff

/-- All of the versions can be read, or there is a first one that cannot. -/
theorem haveNormals_or_stopsAt (versions : List Text) :
    (∃ normals, HaveNormals versions normals) ∨
      ∃ normals refused cause, StopsAt versions normals refused cause := by
  induction versions with
  | nil => exact .inl ⟨[], .nil⟩
  | cons version versions ih =>
      -- A refused version is the first one; behind another the first one stays the first.
      cases reads : normalize version with
      | error cause => exact .inr ⟨[], version, cause, [], versions, rfl, .nil, reads⟩
      | ok normal =>
          rcases ih with ⟨normals, all⟩ |
            ⟨normals, refused, cause, before, after, rfl, front, stops⟩
          · exact .inl ⟨normal :: normals, .cons reads all⟩
          · exact .inr ⟨normal :: normals, refused, cause, version :: before, after, rfl,
              .cons reads front, stops⟩

section

variable {versions normals : List Text} {refused : Text} {cause : Error}

/-! ### Printing normal forms -/

/-- The normal forms of the versions in front are printed, whatever comes behind them. -/
theorem normalizeAll_append (front : HaveNormals versions normals) (rest : List Text) :
    normalizeAll (versions ++ rest) =
      ⟨Text.ofLines normals ++ (normalizeAll rest).output, (normalizeAll rest).ending⟩ := by
  induction front with
  | nil => rfl
  | cons reads _ ih => simp [normalizeAll, reads, ih, Text.ofLines]

theorem normalizeAll_of_haveNormals (all : HaveNormals versions normals) :
    normalizeAll versions = .ofLines normals := by
  have printed := normalizeAll_append all []
  rw [List.append_nil] at printed
  simpa [normalizeAll, Report.ofLines, Text.ofLines] using printed

theorem normalizeAll_of_stopsAt (stops : StopsAt versions normals refused cause) :
    normalizeAll versions = ⟨Text.ofLines normals, .error (.ofVersion refused cause)⟩ := by
  obtain ⟨before, after, rfl, front, fails⟩ := stops
  rw [normalizeAll_append front]
  simp [normalizeAll, fails, Report.ofFailure]

theorem normalizeAll_eq_error_iff {output : Text} {failure : Failure} :
    normalizeAll versions = ⟨output, .error failure⟩ ↔
      ∃ normals refused cause, StopsAt versions normals refused cause ∧
        Text.ofLines normals = output ∧ Failure.ofVersion refused cause = failure := by
  constructor
  · intro fails
    rcases haveNormals_or_stopsAt versions with ⟨normals, all⟩ | ⟨normals, refused, cause, stops⟩
    · rw [normalizeAll_of_haveNormals all] at fails
      cases fails
    · rw [normalizeAll_of_stopsAt stops] at fails
      obtain ⟨printed, named⟩ := Report.mk.inj fails
      exact ⟨normals, refused, cause, stops, printed, Except.error.inj named⟩
  · rintro ⟨normals, refused, cause, stops, rfl, rfl⟩
    exact normalizeAll_of_stopsAt stops

/-! ### Looking before printing -/

theorem firstFailure?_append (front : HaveNormals versions normals) (rest : List Text) :
    firstFailure? (versions ++ rest) = firstFailure? rest := by
  induction front with
  | nil => rfl
  | cons reads _ ih => simp [firstFailure?, reads, ih]

theorem firstFailure?_of_haveNormals (all : HaveNormals versions normals) :
    firstFailure? versions = none := by
  have looked := firstFailure?_append all []
  rwa [List.append_nil] at looked

theorem firstFailure?_of_stopsAt (stops : StopsAt versions normals refused cause) :
    firstFailure? versions = some (.ofVersion refused cause) := by
  obtain ⟨before, after, rfl, front, fails⟩ := stops
  rw [firstFailure?_append front]
  simp [firstFailure?, fails]

theorem firstFailure?_eq_some_iff {failure : Failure} :
    firstFailure? versions = some failure ↔
      ∃ normals refused cause, StopsAt versions normals refused cause ∧
        Failure.ofVersion refused cause = failure := by
  constructor
  · intro fails
    rcases haveNormals_or_stopsAt versions with ⟨normals, all⟩ | ⟨normals, refused, cause, stops⟩
    · rw [firstFailure?_of_haveNormals all] at fails
      cases fails
    · rw [firstFailure?_of_stopsAt stops] at fails
      exact ⟨normals, refused, cause, stops, Option.some.inj fails⟩
  · rintro ⟨normals, refused, cause, stops, rfl⟩
    exact firstFailure?_of_stopsAt stops

/-- Where all versions can be read, strictness makes no difference. -/
theorem guarded_of_isValid (options : Options)
    (valid : ∀ version ∈ versions, isValid version = true) (report : Report) :
    guarded options versions report = report := by
  obtain ⟨normals, all⟩ := exists_normals_iff.mpr valid
  rw [guarded, firstFailure?_of_haveNormals all, ite_self]

/-- Lines are printed or withheld as a whole. -/
theorem guarded_ofLines_eq_error_iff {options : Options} {lines : List Text} {output : Text}
    {failure : Failure} :
    guarded options versions (.ofLines lines) = ⟨output, .error failure⟩ ↔
      options.strict = true ∧ [] = output ∧
        ∃ normals refused cause, StopsAt versions normals refused cause ∧
          Failure.ofVersion refused cause = failure := by
  rw [← firstFailure?_eq_some_iff, guarded]
  cases options.strict with
  | false => simp [Report.ofLines]
  | true => cases firstFailure? versions <;> simp [Report.ofLines, Report.ofFailure]

end

/-! ## Ways to fail -/

/-- The ways in which a run fails, strict or not: what it has printed by then, and the failure. -/
inductive Fails : Bool → Command → Text → Failure → Prop
  /-- The normal forms of the versions in front were printed. -/
  | normalize {strict : Bool} {versions normals : List Text} {refused : Text} {cause : Error}
      (stops : StopsAt versions normals refused cause) :
      Fails strict (.normalize versions) (Text.ofLines normals) (.ofVersion refused cause)
  /-- The constraint cannot be read. -/
  | parse {strict : Bool} {constraint : Text} {cause : Error}
      (unread : Constraint.parse constraint = .error cause) :
      Fails strict (.parse constraint) [] (.ofConstraint constraint cause)
  /-- The version cannot be read, or it can and the constraint cannot. -/
  | satisfies {version constraint : Text} {cause : Error}
      (unchecked : normalize version = .error cause ∨
        (∃ normal, normalize version = .ok normal) ∧ Constraint.parse constraint = .error cause) :
      Fails true (.satisfies version constraint) []
        ⟨"cannot check ".toList ++ Text.quoted version ++ " against ".toList ++
          Text.quoted constraint, cause⟩
  /-- The constraint to filter by cannot be read. -/
  | filterBy {strict : Bool} {versions : List Text} {constraint : Text} {cause : Error}
      (unread : Constraint.parse constraint = .error cause) :
      Fails strict (.filter constraint versions) [] (.ofConstraint constraint cause)
  /-- The constraint can be read, and not each of the versions. -/
  | filter {versions normals : List Text} {constraint refused : Text} {required : Constraint}
      {cause : Error} (reads : Constraint.parse constraint = .ok required)
      (stops : StopsAt versions normals refused cause) :
      Fails true (.filter constraint versions) [] (.ofVersion refused cause)
  /-- A version to be sorted cannot be read. -/
  | sort {versions normals : List Text} {reverse : Bool} {refused : Text} {cause : Error}
      (stops : StopsAt versions normals refused cause) :
      Fails true (.sort reverse versions) [] (.ofVersion refused cause)
  /-- The token spells no operator. -/
  | compare {strict : Bool} {first operator second : Text} (unknown : operator ∉ Operator.tokens) :
      Fails strict (.compare first operator second) []
        ⟨"cannot compare ".toList ++ Text.quoted first ++ ' ' :: operator ++ ' ' ::
          Text.quoted second, .unknownOperator operator⟩

theorem Report.ofAnswer_ne_error (answer : Bool) (output : Text) (failure : Failure) :
    ofAnswer answer ≠ ⟨output, .error failure⟩ := by
  cases answer <;> nofun

/-- A question fails without an answer. -/
theorem ofQuestion_eq_error_iff {about : Text} {answer : Except Error Bool} {output : Text}
    {failure : Failure} :
    ofQuestion about answer = ⟨output, .error failure⟩ ↔
      [] = output ∧ ∃ cause, answer = .error cause ∧ ⟨about, cause⟩ = failure := by
  cases answer with
  | ok answer => simp [ofQuestion, Report.ofAnswer_ne_error]
  | error cause => simp [ofQuestion, Report.ofFailure]

theorem compareBy_eq_error_iff {first operator second : Text} {cause : Error} :
    Relation.compareBy first operator second = .error cause ↔
      operator ∉ Operator.tokens ∧ .unknownOperator operator = cause := by
  rw [Relation.compareBy, map_eq_error_iff]
  fun_cases Operator.ofToken operator <;> simp_all [Operator.tokens]

section

variable {strict descending : Bool} {output : Text} {failure : Failure}

theorem execute_satisfies_eq_error_iff {version constraint : Text} :
    execute ⟨strict, descending⟩ (.satisfies version constraint) = ⟨output, .error failure⟩ ↔
      Fails strict (.satisfies version constraint) output failure := by
  cases strict with
  | false =>
      -- An error becomes the answer no.
      exact iff_of_false (Report.ofAnswer_ne_error _ output failure) nofun
  | true =>
      change ofQuestion _ _ = _ ↔ _
      rw [ofQuestion_eq_error_iff]
      simp only [Selection.trySatisfies_eq_error_iff]
      constructor
      · rintro ⟨rfl, cause, unchecked, rfl⟩
        exact .satisfies unchecked
      · intro fails
        cases fails with
        | satisfies unchecked => exact ⟨rfl, _, unchecked, rfl⟩

theorem execute_filter_eq_error_iff {constraint : Text} {versions : List Text} :
    execute ⟨strict, descending⟩ (.filter constraint versions) = ⟨output, .error failure⟩ ↔
      Fails strict (.filter constraint versions) output failure := by
  cases reads : Constraint.parse constraint with
  | error cause =>
      rw [execute, reads]
      constructor
      · rintro ⟨⟩
        exact .filterBy reads
      · intro fails
        cases fails with
        | filterBy unread =>
            cases reads.symm.trans unread
            rfl
        | filter reads' _ => cases reads.symm.trans reads'
  | ok required =>
      rw [execute_filter_of_parse reads, guarded_ofLines_eq_error_iff]
      constructor
      · rintro ⟨rfl, rfl, normals, refused, cause, stops, rfl⟩
        exact .filter reads stops
      · intro fails
        cases fails with
        | filterBy unread => cases reads.symm.trans unread
        | filter _ stops => exact ⟨rfl, rfl, _, _, _, stops, rfl⟩

/-- A run fails in one of the ways to fail, and in no other. -/
theorem execute_eq_error_iff {command : Command} :
    execute ⟨strict, descending⟩ command = ⟨output, .error failure⟩ ↔
      Fails strict command output failure := by
  cases command with
  | normalize versions =>
      rw [execute, normalizeAll_eq_error_iff]
      constructor
      · rintro ⟨normals, refused, cause, stops, rfl, rfl⟩
        exact .normalize stops
      · intro fails
        cases fails with
        | normalize stops => exact ⟨_, _, _, stops, rfl, rfl⟩
  | stability versions =>
      constructor
      · intro fails
        cases fails
      · intro fails
        cases fails
  | parse constraint =>
      rw [execute]
      constructor
      · intro fails
        split at fails
        · cases fails
        · next unread =>
          cases fails
          exact .parse unread
      · intro fails
        cases fails with
        | parse unread =>
            rw [unread]
            rfl
  | satisfies version constraint => exact execute_satisfies_eq_error_iff
  | filter constraint versions => exact execute_filter_eq_error_iff
  | sort reverse versions =>
      rw [execute, guarded_ofLines_eq_error_iff]
      constructor
      · rintro ⟨rfl, rfl, normals, refused, cause, stops, rfl⟩
        exact .sort stops
      · intro fails
        cases fails with
        | sort stops => exact ⟨rfl, rfl, _, _, _, stops, rfl⟩
  | compare first operator second =>
      rw [execute, ofQuestion_eq_error_iff]
      simp only [compareBy_eq_error_iff]
      constructor
      · rintro ⟨rfl, _, ⟨unknown, rfl⟩, rfl⟩
        exact .compare unknown
      · intro fails
        cases fails with
        | compare unknown => exact ⟨rfl, _, ⟨unknown, rfl⟩, rfl⟩

end

/-! ## Strict runs and others -/

/-- The versions that a command is given. -/
def Command.versions : Command → List Text
  | .normalize versions | .stability versions | .filter _ versions | .sort _ versions => versions
  | .parse _ => []
  | .satisfies version _ => [version]
  | .compare first _ second => [first, second]

/-- A command whose versions can all be read, and so can the constraint that a version is checked
against. -/
structure Command.IsReadable (command : Command) : Prop where
  valid : ∀ version ∈ command.versions, isValid version = true
  parses : ∀ version constraint, command = .satisfies version constraint →
    ∃ required, Constraint.parse constraint = .ok required

/-- Where a strict run succeeds, so does another, with the same report. -/
theorem execute_of_strict {descending : Bool} {command : Command} {code : ℕ}
    (succeeds : (execute ⟨true, descending⟩ command).ending = .ok code) :
    execute ⟨false, descending⟩ command = execute ⟨true, descending⟩ command := by
  cases command with
  | normalize versions => rfl
  | stability versions => rfl
  | parse constraint => rfl
  | satisfies version constraint =>
      simp only [execute, if_true] at succeeds ⊢
      cases checks : Selection.trySatisfies version constraint with
      | error cause =>
          rw [checks] at succeeds
          cases succeeds
      | ok answer => simp [Selection.satisfies, checks, ofQuestion]
  | filter constraint versions =>
      cases reads : Constraint.parse constraint with
      | error cause =>
          rw [execute, reads] at succeeds
          cases succeeds
      | ok required =>
          rw [execute_filter_of_parse reads] at succeeds
          rw [execute_filter_of_parse reads, execute_filter_of_parse reads]
          exact (guarded_of_ending succeeds).symm
  | sort reverse versions => exact (guarded_of_ending succeeds).symm
  | compare first operator second => rfl

/-- Where everything that a command is given can be read, strictness makes no difference. -/
theorem execute_of_isReadable {command : Command} (readable : command.IsReadable)
    (descending : Bool) :
    execute ⟨true, descending⟩ command = execute ⟨false, descending⟩ command := by
  cases command with
  | normalize versions => rfl
  | stability versions => rfl
  | parse constraint => rfl
  | satisfies version constraint =>
      obtain ⟨required, parses⟩ := readable.parses version constraint rfl
      obtain ⟨normal, reads⟩ := isValid_iff.mp (readable.valid version List.mem_cons_self)
      have checks : Selection.trySatisfies version constraint = .ok (required.isMetBy normal) := by
        simp [Selection.trySatisfies, reads, parses, bind, Except.bind, pure, Except.pure]
      simp [execute, Selection.satisfies, checks, ofQuestion]
  | filter constraint versions =>
      cases reads : Constraint.parse constraint with
      | error cause => rw [execute, execute, reads]
      | ok required =>
          rw [execute_filter_of_parse reads, execute_filter_of_parse reads]
          exact guarded_of_isValid _ readable.valid _
  | sort reverse versions => exact guarded_of_isValid _ readable.valid _
  | compare first operator second => rfl

/-- Strictness adds failures and nothing else. A strict run that succeeds reports what another does,
and where everything a command is given can be read, it reports what another does that succeeds. A
run, strict or not, fails in exactly one of the ways to fail: with the first version that cannot be
read, if a version is the reason, and after printing nothing, or the normal forms of the versions in
front. -/
theorem strict_adds_failures (command : Command) (descending : Bool) :
    (∀ code, (execute ⟨true, descending⟩ command).ending = .ok code →
      execute ⟨false, descending⟩ command = execute ⟨true, descending⟩ command) ∧
    (∀ code, (execute ⟨false, descending⟩ command).ending = .ok code → command.IsReadable →
      execute ⟨true, descending⟩ command = execute ⟨false, descending⟩ command) ∧
    ∀ strict output failure,
      execute ⟨strict, descending⟩ command = ⟨output, .error failure⟩ ↔
        Fails strict command output failure := by
  refine ⟨?_, ?_, ?_⟩
  · intro code succeeds
    exact execute_of_strict succeeds
  · intro code _ readable
    exact execute_of_isReadable readable descending
  · intro strict output failure
    exact execute_eq_error_iff

/-- A strict run that sorts and one that checks, and a run that stops behind the first of three
versions. -/
theorem strict_adds_failures_sort :
    execute ⟨false, false⟩ (.sort true ["1.0".toList, "2.0-beta".toList]) =
        execute ⟨true, false⟩ (.sort true ["1.0".toList, "2.0-beta".toList]) ∧
      execute ⟨true, false⟩ (.satisfies "1.2".toList "<1.0".toList) =
        execute ⟨false, false⟩ (.satisfies "1.2".toList "<1.0".toList) ∧
      execute ⟨true, false⟩ (.normalize ["v1".toList, "one".toList, "two".toList]) =
        ⟨Text.ofLines ["1.0.0.0".toList],
          .error (.ofVersion "one".toList (.unreadableVersion "one".toList none))⟩ := by
  have readable : (Command.satisfies "1.2".toList "<1.0".toList).IsReadable := by
    refine ⟨by decide, ?_⟩
    rintro _ _ ⟨⟩
    exact ⟨_, rfl⟩
  have stops : StopsAt ["v1".toList, "one".toList, "two".toList] ["1.0.0.0".toList] "one".toList
      (.unreadableVersion "one".toList none) :=
    ⟨["v1".toList], ["two".toList], rfl, .cons rfl .nil, rfl⟩
  refine ⟨?_, ?_, ?_⟩
  · exact (strict_adds_failures _ false).1 0 rfl
  · exact (strict_adds_failures _ false).2.1 1 rfl readable
  · exact ((strict_adds_failures _ false).2.2 true _ _).mpr (.normalize stops)

end CommandLine

end VersionRanges

/-
# Filtering and checking

A list of versions is filtered by reading the constraint once and each version for itself; a single
version is checked by reading it first and the constraint second. The orders differ in what they
refuse first, and no refusal shows in the answer. So a filtered list has the versions that are
checked with success, and the commands that print the two agree.
-/
import VersionRanges.CommandLine.Run
import VersionRanges.Proofs.Reading.Outcome

namespace VersionRanges

/-- The versions that satisfy a constraint are those that satisfy it one by one. -/
theorem Selection.satisfiedBy_eq_filter (versions : List Text) (constraint : Text) :
    satisfiedBy versions constraint = versions.filter (satisfies · constraint) := by
  rw [satisfiedBy]
  cases reads : Constraint.parse constraint with
  | ok required =>
      refine List.filter_congr fun version _ => ?_
      exact (Constraint.satisfies_of_parse reads version).symm
  | error cause =>
      have refused : ∀ required, Constraint.parse constraint ≠ .ok required := by
        intro required reads'
        cases reads.symm.trans reads'
      exact (List.filter_eq_nil_iff.mpr fun version _ => by
        simp [Constraint.satisfies_of_refused refused version]).symm

namespace CommandLine

/-- Whether a report prints the answer yes. -/
def Report.isYes (report : Report) : Bool := report.output == Text.ofLines ["true".toList]

theorem Report.isYes_ofAnswer (answer : Bool) : (ofAnswer answer).isYes = answer := by
  cases answer <;> decide

/-- Without strictness, a version is checked by whether it satisfies the constraint. -/
theorem isYes_execute_satisfies {options : Options} (lenient : options.strict = false)
    (version constraint : Text) :
    (execute options (.satisfies version constraint)).isYes =
      Selection.satisfies version constraint := by
  simp [execute, lenient, Report.isYes_ofAnswer]

/-- A run that is not refused reports what it was to report. -/
theorem guarded_of_ending {options : Options} {versions : List Text} {report : Report} {code : ℕ}
    (succeeds : (guarded options versions report).ending = .ok code) :
    guarded options versions report = report := by
  unfold guarded at succeeds ⊢
  split
  · next strict =>
    rw [if_pos strict] at succeeds
    cases refused : firstFailure? versions with
    | none => rfl
    | some failure =>
        rw [refused] at succeeds
        cases succeeds
  · rfl

theorem execute_filter_of_parse {constraint : Text} {required : Constraint}
    (reads : Constraint.parse constraint = .ok required) (options : Options)
    (versions : List Text) :
    execute options (.filter constraint versions) =
      guarded options versions (.ofLines (Selection.satisfiedBy versions constraint)) := by
  rw [execute, reads]

/-- A run that filters with success prints the versions that satisfy the constraint. -/
theorem execute_filter_of_ending {options : Options} {constraint : Text} {versions : List Text}
    {code : ℕ} (succeeds : (execute options (.filter constraint versions)).ending = .ok code) :
    execute options (.filter constraint versions) =
      .ofLines (Selection.satisfiedBy versions constraint) := by
  cases reads : Constraint.parse constraint with
  | error cause =>
      rw [execute, reads] at succeeds
      cases succeeds
  | ok required =>
      rw [execute_filter_of_parse reads] at succeeds ⊢
      exact guarded_of_ending succeeds

/-- Filtering agrees with checking one by one: the versions kept are those that satisfy the
constraint, as they were written and in the order given, whatever can be read of them and of the
constraint. A command that filters with success prints the versions for which a check without
strictness answers yes. -/
theorem filter_agrees (versions : List Text) (constraint : Text) :
    Selection.satisfiedBy versions constraint =
        versions.filter (Selection.satisfies · constraint) ∧
      ∀ options lenient code, lenient.strict = false →
        (execute options (.filter constraint versions)).ending = .ok code →
        (execute options (.filter constraint versions)).output =
          Text.ofLines (versions.filter fun version =>
            (execute lenient (.satisfies version constraint)).isYes) := by
  refine ⟨Selection.satisfiedBy_eq_filter versions constraint, ?_⟩
  intro options lenient code unchecked succeeds
  have checks : (fun version => (execute lenient (.satisfies version constraint)).isYes) =
      (Selection.satisfies · constraint) :=
    funext fun version => isYes_execute_satisfies unchecked version constraint
  rw [execute_filter_of_ending succeeds, Selection.satisfiedBy_eq_filter, checks]
  rfl

/-- Two versions that are kept, one that is not, and one that cannot be read. -/
theorem filter_agrees_caret :
    (execute ⟨false, false⟩
      (.filter "^1.2".toList
        ["1.2".toList, "2.0".toList, "one".toList, "v1.9.1-beta".toList])).output =
      Text.ofLines ["1.2".toList, "v1.9.1-beta".toList] := by
  have agrees := (filter_agrees ["1.2".toList, "2.0".toList, "one".toList, "v1.9.1-beta".toList]
    "^1.2".toList).2 ⟨false, false⟩ ⟨false, true⟩ 0 rfl rfl
  refine agrees.trans (congrArg Text.ofLines ?_)
  decide +kernel

end CommandLine

end VersionRanges

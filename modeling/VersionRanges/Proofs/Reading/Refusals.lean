/-
# Kinds of refusal

A refusal has a kind that a caller may branch on. A version is refused as a version, and a blank
constraint as an argument. Any other constraint is refused as a constraint, also where a version in
it cannot be read. Caret ranges and hyphen ranges are the exception: they take the normal form of a
part of the term, and a refusal of that part is passed on as it is.
-/
import Mathlib.Data.Set.Insert
import VersionRanges.Proofs.Reading.Outcome

namespace VersionRanges

/-- An outcome that is refused for causes of some kinds only. -/
def RefusedOnlyAs {α : Type} (kinds : Set Error.Kind) (outcome : Except Error α) : Prop :=
  ∀ refusal, outcome = .error refusal → refusal.kind ∈ kinds

namespace RefusedOnlyAs

variable {α β : Type} {kinds kinds' : Set Error.Kind} {outcome : Except Error α}

theorem mono (refused : RefusedOnlyAs kinds outcome) (wider : kinds ⊆ kinds') :
    RefusedOnlyAs kinds' outcome :=
  fun refusal fails => wider (refused refusal fails)

theorem ok (value : α) : RefusedOnlyAs kinds (.ok value) := fun _ fails => nomatch fails

theorem error {refusal : Error} (listed : refusal.kind ∈ kinds) :
    RefusedOnlyAs kinds (.error refusal : Except Error α) :=
  fun _ fails => Except.error.inj fails ▸ listed

theorem map (refused : RefusedOnlyAs kinds outcome) (change : α → β) :
    RefusedOnlyAs kinds (outcome.map change) :=
  fun refusal fails => refused refusal (map_eq_error_iff.mp fails)

theorem mapError {change : Error → Error} (listed : ∀ refusal, (change refusal).kind ∈ kinds) :
    RefusedOnlyAs kinds (outcome.mapError change) := by
  cases outcome with
  | ok value => exact ok value
  | error refusal => exact error (listed refusal)

theorem bind (refused : RefusedOnlyAs kinds outcome) {next : α → Except Error β}
    (further : ∀ value, RefusedOnlyAs kinds (next value)) :
    RefusedOnlyAs kinds (outcome >>= next) := by
  intro refusal fails
  rcases bind_eq_error_iff.mp fails with first | ⟨value, -, second⟩
  · exact refused refusal first
  · exact further value refusal second

theorem both {γ : Type} {outcome' : Except Error β} {combine : α → β → γ}
    (refused : RefusedOnlyAs kinds outcome) (refused' : RefusedOnlyAs kinds outcome') :
    RefusedOnlyAs kinds
      (do let value ← outcome; let value' ← outcome'; return combine value value') :=
  refused.bind fun _ => refused'.bind fun _ => ok _

end RefusedOnlyAs

/-! ## Versions -/

theorem Version.refusedOnlyAs_normalize (version : Text) :
    RefusedOnlyAs {.version} (Version.normalize version) := by
  unfold Version.normalize Version.normalizeWithin
  split
  · exact .ok _
  · exact .error rfl

/-! ## Ranges -/

namespace Range

theorem refusedOnlyAs_raise (term : Text) (slots : List (Option Text)) (position : Nat)
    (increment : Int) : RefusedOnlyAs {.constraint} (raise term slots position increment) := by
  rw [raise]
  split
  · exact .ok _
  · exact .error rfl

theorem refusedOnlyAs_below (term : Text) (slots : List (Option Text)) (position : Nat) :
    RefusedOnlyAs {.constraint} (below term slots position) :=
  (refusedOnlyAs_raise term slots position 1).map _

theorem refusedOnlyAs_tilde (term : Text) (literal : Literal) :
    RefusedOnlyAs {.constraint} (tilde term literal) :=
  (refusedOnlyAs_raise term literal.slots _ 0).both (refusedOnlyAs_below term literal.slots _)

theorem refusedOnlyAs_ofNumbers (term : Text) (numbers : List Text) :
    RefusedOnlyAs {.constraint} (ofNumbers term numbers) := by
  apply (refusedOnlyAs_raise term _ numbers.length 0).bind
  intro low
  apply (refusedOnlyAs_below term _ numbers.length).bind
  intro high
  split <;> exact .ok _

theorem version_subset : {.version} ⊆ ({.version, .constraint} : Set Error.Kind) :=
  Set.singleton_subset_iff.mpr (.inl rfl)

theorem constraint_subset : {.constraint} ⊆ ({.version, .constraint} : Set Error.Kind) :=
  Set.subset_insert _ _

theorem refusedOnlyAs_lowEnd (text : Text) (literal : Literal) :
    RefusedOnlyAs {.version} (lowEnd text literal) :=
  (Version.refusedOnlyAs_normalize text).map _

theorem refusedOnlyAs_hyphenHigh (term : Text) (range : Hyphen) :
    RefusedOnlyAs {.version, .constraint} (hyphenHigh term range) := by
  rw [hyphenHigh]
  split
  · exact ((Version.refusedOnlyAs_normalize range.highText).map _).mono version_subset
  · exact (refusedOnlyAs_below term range.high.slots _).mono constraint_subset

/-- A caret range is refused as a version where its low end is, and else as a constraint. -/
theorem refusedOnlyAs_caret (term : Text) (literal : Literal) :
    RefusedOnlyAs {.version, .constraint} (caret term literal) := by
  have lows := (refusedOnlyAs_lowEnd (term.drop 1) literal).mono version_subset
  exact lows.both ((refusedOnlyAs_below term literal.slots _).mono constraint_subset)

theorem refusedOnlyAs_hyphen (term : Text) (range : Hyphen) :
    RefusedOnlyAs {.version, .constraint} (hyphen term range) := by
  have lows := (refusedOnlyAs_lowEnd range.lowText range.low).mono version_subset
  exact lows.both (refusedOnlyAs_hyphenHigh term range)

end Range

/-! ## Comparators -/

namespace Comparator

/-- Every operator that a term can begin with is one. -/
theorem exists_ofToken_splitOperator (term : Text) : ∃ operator, Operator.ofToken
    (if (splitOperator term).1.isEmpty then ['='] else (splitOperator term).1) = .ok operator := by
  rw [splitOperator.eq_def]
  split <;> exact ⟨_, rfl⟩

/-- A comparator is refused as a constraint, also where its version is refused. -/
theorem refusedOnlyAs_read (term : Text) (flag : Option Text) :
    RefusedOnlyAs {.constraint} (read term flag) := by
  obtain ⟨operator, known⟩ := exists_ofToken_splitOperator term
  rw [read]
  dsimp only
  rw [known]
  have version : RefusedOnlyAs {.constraint}
      ((Version.normalize (operand (splitOperator term).2)).mapError (.unreadableOperand term)) :=
    .mapError fun _ => rfl
  exact version.bind fun normal => .ok _

end Comparator

namespace Constraint

/-! ## Terms -/

/-- A term that is read as a caret range or as a hyphen range, without the flag behind it. -/
inductive IsCaretOrHyphen (term : Text) : Prop
  | caret {literal : Literal} (form : Range.caret? (splitFlag term).1 = some literal)
      (reads : readTerm term = (Range.caret (splitFlag term).1 literal).map (·.map ofBound))
  | hyphen {range : Range.Hyphen} (form : Range.hyphen? (splitFlag term).1 = some range)
      (reads : readTerm term = (Range.hyphen (splitFlag term).1 range).map (·.map ofBound))

/-- The bounds of a term are those of a caret range or of a hyphen range, or else they are refused
as a constraint only. -/
theorem refusedOnlyAs_readBounds (term : Text) (flag : Option Text) :
    (∃ literal, Range.caret? term = some literal ∧
      readBounds term flag = Range.caret term literal) ∨
    (∃ range, Range.hyphen? term = some range ∧ readBounds term flag = Range.hyphen term range) ∨
    RefusedOnlyAs {.constraint} (readBounds term flag) := by
  have form := hasForm_readBounds term flag
  generalize readBounds term flag = outcome at form ⊢
  cases form with
  | arrow => exact .inr (.inr (.error rfl))
  | tilde => exact .inr (.inr (Range.refusedOnlyAs_tilde term _))
  | caret found => exact .inl ⟨_, found, rfl⟩
  | numbers => exact .inr (.inr (Range.refusedOnlyAs_ofNumbers term _))
  | hyphen found => exact .inr (.inl ⟨_, found, rfl⟩)
  | comparator => exact .inr (.inr ((Comparator.refusedOnlyAs_read term flag).map _))

/-- A term is refused as a version only if it is read as a caret range or as a hyphen range, and
else it is refused as a constraint. -/
theorem kind_of_readTerm {term : Text} {refusal : Error}
    (refused : readTerm term = .error refusal) :
    refusal.kind = .constraint ∨ refusal.kind = .version ∧ IsCaretOrHyphen term := by
  by_cases everything : Range.isWildcard (splitFlag term).1 = true
  · have reads : readTerm term = .ok [anything none] := if_pos everything
    rw [reads] at refused
    cases refused
  · have whole : readTerm term =
        (readBounds (splitFlag term).1 (splitFlag term).2).map (·.map ofBound) := if_neg everything
    have bounds := map_eq_error_iff.mp (whole ▸ refused)
    rcases refusedOnlyAs_readBounds (splitFlag term).1 (splitFlag term).2 with
      ⟨literal, form, reads⟩ | ⟨range, form, reads⟩ | only
    · rcases Range.refusedOnlyAs_caret _ _ refusal (reads ▸ bounds) with version | constraint
      · exact .inr ⟨version, .caret form (reads ▸ whole)⟩
      · exact .inl constraint
    · rcases Range.refusedOnlyAs_hyphen _ _ refusal (reads ▸ bounds) with version | constraint
      · exact .inr ⟨version, .hyphen form (reads ▸ whole)⟩
      · exact .inl constraint
    · exact .inl (only refusal bounds)

/-! ## Whole texts -/

/-- An alternative is refused because it is empty, or because one of its terms is refused. -/
theorem exists_of_readAlternative_eq_error {whole alternative : Text} {refusal : Error}
    (refused : readAlternative whole alternative = .error refusal) :
    refusal = .emptyAlternative whole ∨
      ∃ term ∈ Term.split alternative, readTerm term = .error refusal := by
  rw [readAlternative] at refused
  split at refused
  · exact .inl (Except.error.inj refused).symm
  · exact .inr (exists_of_mapM_eq_error (map_eq_error_iff.mp refused))

theorem parse_of_blank {text : Text} (blank : Text.IsBlankText text) :
    parse text = .error .emptyConstraint :=
  if_pos (by rw [Text.trim_eq_nil_of_blank blank, List.isEmpty_nil])

/-- A text that is not blank is refused because an alternative is empty, or because a term is
refused. -/
theorem exists_of_parse_eq_error {text : Text} {refusal : Error}
    (filled : ¬ Text.IsBlankText text) (refused : parse text = .error refusal) :
    refusal = .emptyAlternative text ∨
      ∃ alternative ∈ Alternative.split (core text), ∃ term ∈ Term.split alternative,
        readTerm term = .error refusal := by
  rw [parse, if_neg (by rwa [List.isEmpty_iff, Text.trim_eq_nil_iff])] at refused
  obtain ⟨alternative, listed, refused⟩ := exists_of_mapM_eq_error (map_eq_error_iff.mp refused)
  apply (exists_of_readAlternative_eq_error refused).imp_right
  exact fun term => ⟨alternative, listed, term⟩

/-- A text that is not blank is refused as a version only if one of its terms is read as a caret
range or as a hyphen range, and else it is refused as a constraint. -/
theorem kind_of_parse {text : Text} {refusal : Error} (filled : ¬ Text.IsBlankText text)
    (refused : parse text = .error refusal) :
    refusal.kind = .constraint ∨
      refusal.kind = .version ∧ ∃ alternative ∈ Alternative.split (core text),
        ∃ term ∈ Term.split alternative, IsCaretOrHyphen term ∧ readTerm term = .error refusal := by
  rcases exists_of_parse_eq_error filled refused with
    rfl | ⟨alternative, listed, term, inside, fails⟩
  · exact .inl rfl
  · rcases kind_of_readTerm fails with constraint | ⟨version, form⟩
    · exact .inl constraint
    · exact .inr ⟨version, alternative, listed, term, inside, form, fails⟩

theorem exists_parse_eq_argument_iff (text : Text) :
    (∃ refusal, parse text = .error refusal ∧ refusal.kind = .argument) ↔
      Text.IsBlankText text := by
  constructor
  · rintro ⟨refusal, refused, argument⟩
    by_contra filled
    rcases kind_of_parse filled refused with constraint | ⟨version, -⟩
    · rw [constraint] at argument
      cases argument
    · rw [version] at argument
      cases argument
  · intro blank
    exact ⟨_, parse_of_blank blank, rfl⟩

end Constraint

/-! ## Satisfaction -/

namespace Selection

/-- A question is refused because the version is, or else because the constraint is. -/
theorem trySatisfies_eq_error_iff {version text : Text} {refusal : Error} :
    trySatisfies version text = .error refusal ↔
      Version.normalize version = .error refusal ∨
        (∃ normal, Version.normalize version = .ok normal) ∧
          Constraint.parse text = .error refusal := by
  have further (normal : Text) :
      (do let required ← Constraint.parse text; return required.isMetBy normal) = .error refusal ↔
        Constraint.parse text = .error refusal := by
    rw [bind_eq_error_iff]
    exact or_iff_left fun ⟨_, _, done⟩ => nomatch done
  rw [trySatisfies, bind_eq_error_iff]
  simp only [further, exists_and_right]

theorem satisfies_of_trySatisfies {version text : Text} {refusal : Error}
    (refused : trySatisfies version text = .error refusal) : satisfies version text = false := by
  rw [satisfies, refused]

/-- A version is refused as a version. A constraint is refused as an argument exactly if it is
blank, as a version only if one of its terms is read as a caret range or as a hyphen range, and else
as a constraint. Whether a version satisfies a constraint is refused exactly if one of the two is,
for the reason of the version first, and then the version does not satisfy the constraint. -/
theorem kinds_of_refusals (version text : Text) :
    (∀ refusal, Version.normalize version = .error refusal → refusal.kind = .version) ∧
    ((∃ refusal, Constraint.parse text = .error refusal ∧ refusal.kind = .argument) ↔
      Text.IsBlankText text) ∧
    (∀ refusal, Constraint.parse text = .error refusal →
      refusal.kind = .argument ∨ refusal.kind = .constraint ∨
        refusal.kind = .version ∧ ∃ alternative ∈ Alternative.split (Constraint.core text),
          ∃ term ∈ Term.split alternative, Constraint.IsCaretOrHyphen term ∧
            Constraint.readTerm term = .error refusal) ∧
    (∀ refusal, trySatisfies version text = .error refusal ↔
      Version.normalize version = .error refusal ∨
        (∃ normal, Version.normalize version = .ok normal) ∧
          Constraint.parse text = .error refusal) ∧
    (∀ refusal, trySatisfies version text = .error refusal → satisfies version text = false) := by
  refine ⟨Version.refusedOnlyAs_normalize version, Constraint.exists_parse_eq_argument_iff text, ?_,
    fun _ => trySatisfies_eq_error_iff, fun _ => satisfies_of_trySatisfies⟩
  intro refusal refused
  by_cases blank : Text.IsBlankText text
  · rw [Constraint.parse_of_blank blank] at refused
    exact .inl (Except.error.inj refused ▸ rfl)
  · exact .inr (Constraint.kind_of_parse blank refused)

/-- A caret range before a number that is too long for a version is refused as a version, whatever
else is asked for. The version, which has no known label, is refused first. -/
theorem kinds_of_refusals_in_caret :
    ∃ refusal refusal', Constraint.parse "1.0 || >2 ^123456.1.1@beta".toList = .error refusal ∧
      (∃ alternative ∈ Alternative.split (Constraint.core "1.0 || >2 ^123456.1.1@beta".toList),
        ∃ term ∈ Term.split alternative, Constraint.IsCaretOrHyphen term ∧
          Constraint.readTerm term = .error refusal) ∧
      refusal'.kind = .version ∧
      trySatisfies "1.0-meh".toList "1.0 || >2 ^123456.1.1@beta".toList = .error refusal' ∧
      satisfies "1.0-meh".toList "1.0 || >2 ^123456.1.1@beta".toList = false := by
  have refused : Constraint.parse "1.0 || >2 ^123456.1.1@beta".toList =
      .error (.unreadableVersion "123456.1.1".toList none) := rfl
  have unreadable : Version.normalize "1.0-meh".toList =
      .error (.unreadableVersion "1.0-meh".toList none) := rfl
  obtain ⟨version, -, constraint, question, answer⟩ :=
    kinds_of_refusals "1.0-meh".toList "1.0 || >2 ^123456.1.1@beta".toList
  have asked := (question _).mpr (.inl unreadable)
  rcases constraint _ refused with argument | constraint | ⟨-, term⟩
  · cases argument
  · cases constraint
  · exact ⟨_, _, refused, term, version _ unreadable, asked, answer _ asked⟩

end Selection

end VersionRanges

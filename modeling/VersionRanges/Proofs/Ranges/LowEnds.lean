/-
# Low ends of ranges

The forms that have a literal at the low end agree about that end. The caret and the hyphen always
do. The tilde writes the label `stable` out, which the other forms drop, and its end is the lesser
one there. The operator looks for a hyphen before the modifier, and agrees with the others if it
finds one exactly where there is a modifier.
-/
import VersionRanges.Proofs.Ranges.Within
import VersionRanges.Proofs.Reading.Hyphen

namespace VersionRanges

/-- The versions that the bounds of a constraint include as their least ones. -/
def Constraint.lowEnds (required : Constraint) : List Text :=
  (required.bounds.filter (·.operator == .ge)).map Bound.version

namespace Range.Form

/-- Whether the low end of a form has the suffix that all forms agree about. -/
def Agrees : Form → Text → Modifier → Prop
  | atLeast, text, modifier => Literal.IsHyphenated text ↔ modifier.isSilent = false
  | tilde, _, modifier => modifier.label.map Char.toLower ≠ "stable".toList
  | caret, _, _ | hyphen, _, _ => True

theorem Agrees.suffix_eq {form : Form} {text : Text} {literal : Literal}
    (reads : Literal.ofVersion? text = some literal) (agrees : form.Agrees text literal.modifier) :
    form.suffix text literal.modifier = lowSuffix literal.modifier := by
  cases form with
  | atLeast =>
      have hyphenated := Comparator.hasExplicitModifier_iff_isHyphenated
        (Literal.read?_of_ofVersion? reads).1
      have explicit := hyphenated.trans agrees
      rw [suffix, lowSuffix]
      by_cases silent : literal.modifier.isSilent = true
      · have bare : ¬ Comparator.hasExplicitModifier text = true := by simp [explicit, silent]
        rw [if_neg bare, if_pos silent, Modifier.suffix_of_isSilent silent, List.nil_append]
      · have said : Comparator.hasExplicitModifier text = true := by simpa [explicit] using silent
        rw [if_pos said, if_neg silent, List.append_nil]
  | caret => rfl
  | tilde => exact tildeSuffix_eq_lowSuffix agrees
  | hyphen => rfl

end Range.Form

theorem Literal.IsUpper.operator_ne {literal : Literal} {high : Bound}
    (upper : literal.IsUpper high) : high.operator ≠ .ge := by
  rcases upper with rfl | ⟨numeral, rfl, -⟩ <;> nofun

namespace Constraint

section

variable {text : Text} {literal : Literal} (reads : Literal.ofVersion? text = some literal)

include reads

/-- A form has one low end, made of the literal and the suffix of the form. -/
theorem exists_lowEnds_eq {form : Range.Form} {required : Constraint}
    (parses : parse (form.write text) = .ok required) :
    ∃ low, required.lowEnds = [low] ∧
      literal.Respells (form.suffix text literal.modifier) low := by
  have range := (isLone_form reads form).readBounds_of_parse parses
  obtain ⟨low, highs, bounds, respells, upper⟩ := exists_of_readBounds_form reads range
  have others : highs.filter (·.operator == .ge) = [] := by
    refine List.filter_eq_nil_iff.mpr fun high listed => ?_
    simpa using (upper high listed).operator_ne
  refine ⟨low, ?_, respells⟩
  rw [lowEnds, bounds, List.filter_cons_of_pos rfl, others]
  rfl

end

/-- Each form of a literal that can be read has one low end. The low ends of forms that agree
compare equal, and where the label is `stable` the low end of the tilde range is less than those. -/
theorem compare_lowEnds {text : Text} {literal : Literal}
    (reads : Literal.ofVersion? text = some literal) (form form' : Range.Form)
    {required required' : Constraint} (parses : parse (form.write text) = .ok required)
    (parses' : parse (form'.write text) = .ok required') :
    ∃ low low', required.lowEnds = [low] ∧ required'.lowEnds = [low'] ∧
      (form.Agrees text literal.modifier → form'.Agrees text literal.modifier →
        Version.compare low low' = .eq) ∧
      (literal.modifier.label.map Char.toLower = "stable".toList → form = .tilde →
        form'.Agrees text literal.modifier → Version.compare low low' = .lt) := by
  have wellFormed := Literal.isWellFormed_of_ofVersion? reads
  obtain ⟨low, ends, respells⟩ := exists_lowEnds_eq reads parses
  obtain ⟨low', ends', respells'⟩ := exists_lowEnds_eq reads parses'
  refine ⟨low, low', ends, ends', fun agrees agrees' => ?_, ?_⟩
  · rw [agrees.suffix_eq reads] at respells
    rw [agrees'.suffix_eq reads] at respells'
    rw [respells.isNumeral.compare_eq_cmp respells'.isNumeral, respells.standing_eq respells',
      cmp_self_eq_eq]
  · rintro dropped rfl agrees'
    have kept : Range.lowSuffix literal.modifier = literal.modifier.suffix :=
      if_neg (Modifier.not_isSilent_of_dropped dropped)
    rw [agrees'.suffix_eq reads, kept] at respells'
    have less := respells'.standing_lt respells
      (Range.lowers_tildeSuffix wellFormed.modifier dropped)
    rw [respells.isNumeral.compare_eq_cmp respells'.isNumeral, less.cmp_eq_lt]

/-- A candidate behind a hyphen, at the low end of a comparator and of a tilde range. -/
theorem compare_lowEnds_candidate :
    ∃ required required', parse ">=1.2-RC.4".toList = .ok required ∧
      parse "~1.2-RC.4".toList = .ok required' ∧
      ∃ low low', required.lowEnds = [low] ∧ required'.lowEnds = [low'] ∧
        Version.compare low low' = .eq := by
  have reads : Literal.ofVersion? "1.2-RC.4".toList =
      some ⟨"1".toList, ["2".toList], ⟨"RC".toList, ".4".toList, false⟩⟩ := by decide
  have parses : parse ">=1.2-RC.4".toList =
      .ok (atom ⟨.ge, "1.2.0.0-RC4".toList⟩ (some ">=1.2-RC.4".toList)) := rfl
  have parses' : parse "~1.2-RC.4".toList = .ok (group .and
      [atom ⟨.ge, "1.2.0.0-RC4".toList⟩ none, atom ⟨.lt, "2.0.0.0-dev".toList⟩ none]
      (some "~1.2-RC.4".toList)) := rfl
  have hyphenated : Literal.IsHyphenated "1.2-RC.4".toList := by
    refine ⟨"1.2".toList, "RC.4".toList, rfl, ?_⟩
    rintro c ⟨⟩
    decide
  have kept : "RC".toList.map Char.toLower ≠ "stable".toList := by decide
  obtain ⟨low, low', ends, ends', equal, -⟩ :=
    compare_lowEnds reads .atLeast .tilde parses parses'
  exact ⟨_, _, parses, parses', low, low', ends, ends', equal (iff_of_true hyphenated rfl) kept⟩

/-- The tilde keeps the label `stable` and the caret drops it, and the operator passes over a
candidate that no hyphen stands before, so that their low ends differ. -/
theorem lowEnds_ne_stable_candidate :
    ((Literal.ofVersion? "1.2.2-stable".toList).isSome = true ∧
      ∃ required required', parse "~1.2.2-stable".toList = .ok required ∧
        parse "^1.2.2-stable".toList = .ok required' ∧
        required.lowEnds = ["1.2.2.0-stable".toList] ∧ required'.lowEnds = ["1.2.2.0".toList] ∧
        Version.compare "1.2.2.0-stable".toList "1.2.2.0".toList ≠ .eq) ∧
      (Literal.ofVersion? "1.2.2RC1".toList).isSome = true ∧
      ∃ required required', parse ">=1.2.2RC1".toList = .ok required ∧
        parse "^1.2.2RC1".toList = .ok required' ∧
        required.lowEnds = ["1.2.2.0-RC1-dev".toList] ∧
        required'.lowEnds = ["1.2.2.0-RC1".toList] ∧
        Version.compare "1.2.2.0-RC1-dev".toList "1.2.2.0-RC1".toList ≠ .eq := by
  have tilde : parse "~1.2.2-stable".toList = .ok (group .and
      [atom ⟨.ge, "1.2.2.0-stable".toList⟩ none, atom ⟨.lt, "1.3.0.0-dev".toList⟩ none]
      (some "~1.2.2-stable".toList)) := rfl
  have caret : parse "^1.2.2-stable".toList = .ok (group .and
      [atom ⟨.ge, "1.2.2.0".toList⟩ none, atom ⟨.lt, "2.0.0.0-dev".toList⟩ none]
      (some "^1.2.2-stable".toList)) := rfl
  have atLeast : parse ">=1.2.2RC1".toList =
      .ok (atom ⟨.ge, "1.2.2.0-RC1-dev".toList⟩ (some ">=1.2.2RC1".toList)) := rfl
  have caret' : parse "^1.2.2RC1".toList = .ok (group .and
      [atom ⟨.ge, "1.2.2.0-RC1".toList⟩ none, atom ⟨.lt, "2.0.0.0-dev".toList⟩ none]
      (some "^1.2.2RC1".toList)) := rfl
  exact ⟨⟨by decide, _, _, tilde, caret, rfl, rfl, by decide⟩,
    by decide, _, _, atLeast, caret', rfl, rfl, by decide⟩

end Constraint

end VersionRanges

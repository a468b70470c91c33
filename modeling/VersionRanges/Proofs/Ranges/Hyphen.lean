/-
# Hyphen ranges

A hyphen range goes from the floor of the numbers on its left side up to an end that depends on how
much is given on the right side. One or two numbers there take in all versions that begin with them
or with less; three or four are the last version of the range, so that its previews lie inside and
its patches do not.
-/
import VersionRanges.Proofs.Ranges.Span

namespace VersionRanges

open Version (IsFloor IsNumeral NumericForm paddedNumbers Part.value)

namespace Range

/-- What a version has to be so that the right side of a hyphen range takes it in. -/
def EndsAt (components : List Text) (form : NumericForm) : Prop :=
  if components.length ≤ 2 then
    form.numbers.take components.length ≤ components.map Part.value
  else
    ∃ normal, Version.normalize (List.intercalate ['.'] components) = .ok normal ∧
      Version.compare form.text normal ≠ .gt

theorem admits_le_iff {version : Text} (isNumeral : IsNumeral version) (form : NumericForm) :
    (⟨.le, version⟩ : Bound).admits form.text = true ↔
      Version.compare form.text version ≠ .gt := by
  simp [Bound.admits, Comparison.holds, Comparison.holdsBetween, Comparison.isBranch,
    isNumeral.release, form.isNumeral_text.release, Comparison.order, Operator.admits]

/-- The normal form of a literal is made of its components. -/
theorem isNumeral_normalForm {literal : Literal} (wellFormed : literal.IsWellFormed) :
    IsNumeral literal.normalForm :=
  (wellFormed.respells (Version.isSuffix_suffix wellFormed.modifier)).isNumeral

/-- The upper bound of a hyphen range takes in what its right side says. -/
theorem exists_hyphenHigh_eq {components : List Text} (written : IsWritten components)
    (short : ∀ major ∈ components.head?, major.length ≤ 5) :
    ∃ literal, Literal.ofVersion? (List.intercalate ['.'] components) = some literal ∧
      ∀ (term lowText : Text) (low : Literal), ∃ high,
        hyphenHigh term ⟨lowText, low, List.intercalate ['.'] components, literal⟩ = .ok high ∧
        ∀ form : NumericForm, high.admits form.text = true ↔ EndsAt components form := by
  obtain ⟨literal, found, rfl, silent⟩ := written.toIsSpelled.exists_ofVersion? short
  have wellFormed := Literal.isWellFormed_of_ofVersion? found
  have count : literal.components.length = literal.further.length + 1 := rfl
  refine ⟨literal, found, fun term lowText low => ?_⟩
  by_cases brief : literal.components.length ≤ 2
  · obtain ⟨high, belows, caps⟩ := exists_below wellFormed written term
      ⟨List.length_pos_of_ne_nil written.filled, le_rfl⟩
    refine ⟨high, ?_, fun form => ?_⟩
    · rw [hyphenHigh, silent, if_neg (by simpa using by omega), belows]
    · rw [EndsAt, if_pos brief, caps form,
        List.take_of_length_le (List.length_map Part.value).le]
  · have normal := Version.normalize_of_literal found
    refine ⟨⟨.le, literal.normalForm⟩, ?_, fun form => ?_⟩
    · rw [hyphenHigh, if_pos (by simpa using by omega), normal]
      rfl
    · rw [EndsAt, if_neg brief, admits_le_iff (isNumeral_normalForm wellFormed) form, normal]
      simp

end Range

namespace Selection

open Range Constraint

/-- A version in numeric normal form satisfies a hyphen range if its numbers are no less than those
on the left side and the right side takes it in. -/
theorem satisfies_hyphen_iff {low high : List Text} (spelled : IsSpelled low)
    (written : IsWritten high) (short : ∀ major ∈ low.head?, major.length ≤ 5)
    (short' : ∀ major ∈ high.head?, major.length ≤ 5) {version : Text} {form : NumericForm}
    (readable : Version.normalize version = .ok form.text) :
    satisfies version (List.intercalate ['.'] low ++ ' ' :: '-' :: ' ' ::
        List.intercalate ['.'] high) = true ↔
      paddedNumbers (low.map Part.value) ≤ form.numbers ∧ EndsAt high form := by
  obtain ⟨literal, found, rfl, -, floorText, lows, floor⟩ := exists_lowEnd_eq spelled short
  obtain ⟨literal', found', ends⟩ := exists_hyphenHigh_eq written short'
  have lone : IsLone (List.intercalate ['.'] literal.components ++ ' ' :: '-' :: ' ' ::
      List.intercalate ['.'] high) :=
    isLone_hyphen (Version.isNumbered_of_literal found) (Version.isNumbered_of_literal found')
  obtain ⟨bound, highs, takesIn⟩ := ends (List.intercalate ['.'] literal.components ++
    ' ' :: '-' :: ' ' :: List.intercalate ['.'] high)
    (List.intercalate ['.'] literal.components) literal
  have range := readBounds_hyphen (Literal.read?_of_ofVersion? found).1
    (Literal.read?_of_ofVersion? found').1
  rw [hyphen, lows, highs] at range
  rw [lone.satisfies_eq range readable, List.all_cons, List.all_cons, List.all_nil, Bool.and_true,
    Bool.and_eq_true, takesIn form,
    floor.admits_ge_iff (Version.length_paddedNumbers spelled.length_map_value_le) form]

/-- A patch of a version that begins with the numbers on the right side, and a patch of the version
on the right side. -/
theorem satisfies_hyphen_iff_patches :
    satisfies "2.1.9-p3".toList "01.0.0.99999999999999999999 - 2.1".toList = true ∧
      satisfies "2.1.0-p1".toList "1 - 2.1.0".toList = false := by
  let begun : NumericForm := ⟨["2".toList, "1".toList, "9".toList, "0".toList],
    some (.patch, "3".toList), false, rfl, by decide, by decide⟩
  let patched : NumericForm := ⟨["2".toList, "1".toList, "0".toList, "0".toList],
    some (.patch, "1".toList), false, rfl, by decide, by decide⟩
  have spelled : IsSpelled
      ["01".toList, "0".toList, "0".toList, "99999999999999999999".toList] := by
    decide +kernel
  have readable : Version.normalize "2.1.9-p3".toList = .ok begun.text := by decide +kernel
  have readable' : Version.normalize "2.1.0-p1".toList = .ok patched.text := by decide +kernel
  have inside := satisfies_hyphen_iff spelled (show IsWritten ["2".toList, "1".toList] by decide)
    (by decide) (by decide) readable
  have outside := satisfies_hyphen_iff (show IsSpelled ["1".toList] by decide)
    (show IsWritten ["2".toList, "1".toList, "0".toList] by decide) (by decide) (by decide)
    readable'
  have ends : EndsAt ["2".toList, "1".toList] begun := by
    rw [EndsAt, if_pos (by decide)]
    decide
  have passed : ¬ EndsAt ["2".toList, "1".toList, "0".toList] patched := by
    rw [EndsAt, if_neg (by decide)]
    rintro ⟨normal, normalizes, within⟩
    have last : Version.normalize "2.1.0".toList = .ok "2.1.0.0".toList := by decide +kernel
    obtain rfl := Except.ok.inj (last.symm.trans normalizes)
    exact within (by decide +kernel)
  exact ⟨inside.mpr ⟨by decide +kernel, ends⟩,
    Bool.eq_false_iff.mpr fun satisfied => passed (outside.mp satisfied).2⟩

end Selection

end VersionRanges

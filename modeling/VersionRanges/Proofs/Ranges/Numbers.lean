/-
# Ranges told by their numbers

A caret, a tilde and components left open say in three ways which of the numbers of a version have
to stay as they are. The versions in such a range are found by their four numbers alone, compared
lexicographically, so that each preview is where the release with the same numbers is: the previews
of the least version of a range belong to it, and those of the first version behind it do not.
-/
import VersionRanges.Proofs.Ranges.Span

namespace VersionRanges

open Version (IsFloor NumericForm paddedNumbers Part.value Part.IsDecimal)

namespace Range

/-! ## Caret -/

/-- How many of its numbers a caret range holds fixed: those up to the first that is not zero, or
else all that are given, but no more than three. -/
def caretCount (numbers : List ℕ) : ℕ :=
  if numbers[0]? ≠ some 0 ∨ numbers.length = 1 then 1
  else if numbers[1]? ≠ some 0 ∨ numbers.length = 2 then 2
  else 3

theorem caretCount_pos (numbers : List ℕ) : 0 < caretCount numbers := by
  unfold caretCount
  split_ifs <;> decide

theorem caretCount_le {numbers : List ℕ} (filled : numbers ≠ []) :
    caretCount numbers ≤ numbers.length := by
  have positive := List.length_pos_of_ne_nil filled
  unfold caretCount
  split_ifs with major minor
  · exact positive
  · omega
  · have given : 1 < numbers.length := by
      by_contra short
      exact minor (.inl (by simp [Nat.le_of_not_lt short]))
    omega

/-- A number without leading zeros is zero if it is spelled so. -/
theorem value_eq_zero_iff {part : Text} (filled : part ≠ []) (decimal : Part.IsDecimal part)
    (unpadded : part = ['0'] ∨ part.head? ≠ some '0') : Part.value part = 0 ↔ part = ['0'] := by
  constructor
  · intro zero
    apply unpadded.resolve_right
    intro leading
    obtain ⟨c, rest, rfl⟩ := List.exists_cons_of_ne_nil filled
    have other : c ≠ '0' := by simpa using leading
    have positive : 10 ^ rest.length ≤ Part.value (c :: rest) :=
      Version.Part.le_value (decimal c List.mem_cons_self) other
    rw [zero] at positive
    exact absurd positive (Nat.pow_pos (by norm_num)).not_ge
  · rintro rfl
    rfl

/-- The position that the text of a caret range gives is told by its numbers, if they have no
leading zeros. -/
theorem caretPosition_eq {literal : Literal} (written : IsWritten literal.components)
    (unpadded : ∀ part ∈ literal.components, part = ['0'] ∨ part.head? ≠ some '0') :
    caretPosition literal = caretCount (literal.components.map Part.value) := by
  have zero (part : Text) (listed : part ∈ literal.components) :
      Part.value part = 0 ↔ part = ['0'] :=
    value_eq_zero_iff (written.areDecimal part listed).1 (written.areDecimal part listed).2
      (unpadded part listed)
  obtain ⟨major, further, modifier⟩ := literal
  have first := zero major List.mem_cons_self
  cases further with
  | nil => simp [caretPosition, caretCount, Literal.components]
  | cons minor further =>
      have second := zero minor (List.mem_cons_of_mem _ List.mem_cons_self)
      have only : further.length + 1 < 2 ↔ further = [] := by
        rw [← List.length_eq_zero_iff]
        omega
      simp [caretPosition, caretCount, Literal.components, first, second, only]

/-- A caret range has a bound at the floor of its numbers, and one above the position that it holds
fixed. -/
theorem exists_caret_eq {components : List Text} (written : IsWritten components)
    (unpadded : ∀ part ∈ components, part = ['0'] ∨ part.head? ≠ some '0')
    (short : ∀ major ∈ components.head?, major.length ≤ 5) :
    ∃ literal, Literal.ofVersion? (List.intercalate ['.'] components) = some literal ∧
      ∃ low high, caret ('^' :: List.intercalate ['.'] components) literal =
        .ok [⟨.ge, low⟩, high] ∧ IsFloor (paddedNumbers (components.map Part.value)) low ∧
        high.Keeps (components.map Part.value) (caretCount (components.map Part.value)) := by
  obtain ⟨literal, found, rfl, -, low, lows, floor⟩ := exists_lowEnd_eq written.toIsSpelled short
  have wellFormed := Literal.isWellFormed_of_ofVersion? found
  have filled : literal.components.map Part.value ≠ [] := by simp [written.filled]
  have inside := caretCount_le filled
  obtain ⟨high, belows, caps⟩ := exists_below wellFormed written
    ('^' :: List.intercalate ['.'] literal.components)
    ⟨caretCount_pos _, List.length_map Part.value ▸ inside⟩
  rw [← caretPosition_eq written unpadded] at belows
  refine ⟨literal, found, low, high, ?_, floor, caps.keeps inside⟩
  rw [caret, List.drop_one, List.tail_cons, lows, belows]
  rfl

/-! ## Tilde -/

/-- A tilde range has a bound at the floor of its numbers, and one above the last of its numbers but
one, or above the first where there is no other. -/
theorem exists_tilde_eq {components : List Text} (written : IsWritten components) :
    ∃ literal, Literal.read? (List.intercalate ['.'] components) = some (literal, []) ∧
      ∃ low high, tilde ('~' :: List.intercalate ['.'] components) literal =
        .ok [⟨.ge, low⟩, high] ∧ IsFloor (paddedNumbers (components.map Part.value)) low ∧
        high.Keeps (components.map Part.value) (max (components.length - 1) 1) := by
  obtain ⟨literal, reads, rfl, silent⟩ := written.exists_read?
  have wellFormed := Literal.isWellFormed_of_read? reads
  obtain ⟨version, raises, floor⟩ := exists_raise_zero wellFormed written
    ('~' :: List.intercalate ['.'] literal.components)
  have positive := List.length_pos_of_ne_nil written.filled
  have inside : 0 < max (literal.components.length - 1) 1 ∧
      max (literal.components.length - 1) 1 ≤ literal.components.length := by
    omega
  obtain ⟨high, belows, caps⟩ := exists_below wellFormed written
    ('~' :: List.intercalate ['.'] literal.components) inside
  have given := inside.2.trans (List.length_map Part.value).ge
  refine ⟨literal, reads, _, high, ?_, floor, caps.keeps given⟩
  rw [tilde, raises, belows, tildeSuffix, if_pos silent]
  rfl

/-! ## Components left open -/

/-- Components left open by signs, each with a dot before it. -/
def openTail (signs : List Char) : Text := signs.flatMap fun sign => ['.', sign]

theorem isOpenTail_openTail {signs : List Char}
    (wild : ∀ sign ∈ signs, Branch.isWildcard sign = true) :
    isOpenTail (openTail signs) = true := by
  induction signs with
  | nil => rfl
  | cons sign signs ih =>
      obtain ⟨first, further⟩ := List.forall_mem_cons.mp wild
      change (Branch.isWildcard sign && isOpenTail (openTail signs)) = true
      rw [first, ih further]
      rfl

/-- No digit stands before the first dot. -/
theorem head?_openTail (signs : List Char) :
    ∀ c, (openTail signs).head? = some c → Text.isDecimalDigit c = false := by
  cases signs with
  | nil => nofun
  | cons sign signs =>
      rintro c ⟨⟩
      decide

theorem isDecimalDigit_of_isWildcard {sign : Char} (wild : Branch.isWildcard sign = true) :
    Text.isDecimalDigit sign = false := by
  rw [Bool.eq_false_iff]
  intro digit
  rw [Branch.isWildcard_of_isDecimalDigit digit] at wild
  cases wild

/-- A sign that no literal holds leaves no component open. -/
theorem not_mem_openTail {signs : List Char}
    (wild : ∀ sign ∈ signs, Branch.isWildcard sign = true) {sign : Char}
    (foreign : Text.IsForeign sign) : sign ∉ openTail signs := by
  have other := foreign.other
  intro inside
  obtain ⟨here, listed, within⟩ := List.mem_flatMap.mp inside
  have wild' := wild here listed
  simp only [Branch.isWildcard, Bool.or_eq_true, beq_iff_eq] at wild'
  rcases List.mem_pair.mp within with rfl | rfl
  · exact other (by simp)
  · rcases wild' with (rfl | rfl) | rfl <;> exact other (by simp)

theorem isNumbered_append_openTail {text : Text} (numbered : Version.IsNumbered text)
    {signs : List Char} (wild : ∀ sign ∈ signs, Branch.isWildcard sign = true) :
    Version.IsNumbered (text ++ openTail signs) :=
  numbered.append fun _ => not_mem_openTail wild

/-- Nothing is read as a component where a component is left open. -/
theorem readFurther_openTail {signs : List Char}
    (wild : ∀ sign ∈ signs, Branch.isWildcard sign = true) (limit : ℕ) :
    Literal.readFurther limit (openTail signs) = ([], openTail signs) := by
  cases limit with
  | zero => rfl
  | succ limit =>
      cases signs with
      | nil => rfl
      | cons sign signs =>
          have stop := isDecimalDigit_of_isWildcard (wild sign List.mem_cons_self)
          have none : Literal.readDigits (sign :: openTail signs) =
              ([], sign :: openTail signs) := by
            simp [Literal.readDigits, stop]
          change Literal.readFurther (limit + 1) ('.' :: sign :: openTail signs) = _
          rw [Literal.readFurther, none]
          rfl

/-- Components with some left open behind them are read as such. -/
theorem open?_append_openTail {components : List Text} (spelled : IsSpelled components)
    (short : components.length ≤ 3) {signs : List Char} (filled : signs ≠ [])
    (wild : ∀ sign ∈ signs, Branch.isWildcard sign = true) :
    open? (List.intercalate ['.'] components ++ openTail signs) = some components := by
  obtain ⟨major, further, rfl⟩ := List.exists_cons_of_ne_nil spelled.filled
  obtain ⟨isNumber, areNumbers⟩ := List.forall_mem_cons.mp spelled.areNumbers
  obtain ⟨c, digits, rfl, digit⟩ := isNumber.exists_cons
  have stops := head?_openTail signs
  obtain ⟨sign, signs, rfl⟩ := List.exists_cons_of_ne_nil filled
  have other : c ≠ 'v' := Text.ne_of_isDecimalDigit digit (by decide)
  have unmarked (rest : Text) : Modifier.dropOne (· == 'v') (c :: rest) = c :: rest :=
    if_neg (by simpa using other)
  have number := Literal.readDigits_append isNumber (Literal.head?_dotted_append further stops)
  have components := Literal.readFurther_append areNumbers stops (2 - further.length)
  rw [Nat.add_sub_cancel' (Nat.le_of_succ_le_succ short), readFurther_openTail wild] at components
  rw [Literal.intercalate_cons, List.append_assoc, open?, List.cons_append,
    unmarked, ← List.cons_append, number]
  simp only [components, Prod.map_apply, List.append_nil, id_eq]
  exact if_pos (isOpenTail_openTail wild)

/-- The floor that a range with components left open does without. -/
theorem isFloor_zeros : IsFloor (List.replicate 4 0) ("0.0.0.0".toList ++ lowest) := by
  have zeros : ∀ part ∈ List.replicate 4 ['0'], part ≠ [] ∧ Part.IsDecimal part := by
    simp [Version.Part.IsDecimal]
  exact Version.isFloor_append_lowest (by simp) zeros

theorem ofNumbers_eq {term version : Text} {literal : Literal} {high : Bound}
    (raises : raise term literal.slots literal.components.length 0 = .ok version)
    (belows : below term literal.slots literal.components.length = .ok high) :
    ofNumbers term literal.components =
      .ok (if version = "0.0.0.0".toList then [high] else [⟨.ge, version ++ lowest⟩, high]) := by
  change raise term literal.slots literal.components.length 0 >>= _ = _
  rw [raises]
  change below term literal.slots literal.components.length >>= _ = _
  rw [belows]
  exact (apply_ite Except.ok _ _ _).symm

/-- The bounds of a range given by the numbers that its versions begin with take in those versions,
with or without the bound at its floor. -/
theorem exists_ofNumbers_eq {components : List Text} (written : IsWritten components)
    (term : Text) :
    ∃ bounds, ofNumbers term components = .ok bounds ∧ ∀ form : NumericForm,
      bounds.all (·.admits form.text) = true ↔
        form.numbers.take components.length = components.map Part.value := by
  obtain ⟨literal, reads, rfl, -⟩ := written.exists_read?
  have wellFormed := Literal.isWellFormed_of_read? reads
  obtain ⟨version, raises, floor⟩ := exists_raise_zero wellFormed written term
  obtain ⟨high, belows, caps⟩ := exists_below wellFormed written term
    ⟨List.length_pos_of_ne_nil written.filled, le_rfl⟩
  have length : (literal.components.map Part.value).length = literal.components.length :=
    List.length_map Part.value
  have keeps := caps.keeps length.ge
  refine ⟨_, ofNumbers_eq raises belows, fun form => ?_⟩
  rw [← length] at keeps ⊢
  rw [← Version.paddedNumbers_le_and_take_iff form.length_numbers]
  split
  · next zero =>
    rw [zero] at floor
    have least : paddedNumbers (literal.components.map Part.value) ≤ form.numbers := by
      rw [floor.numbers_eq isFloor_zeros, ← form.length_numbers]
      exact Version.replicate_zero_le form.numbers
    rw [List.all_cons, List.all_nil, Bool.and_true, keeps form least]
    exact (and_iff_right least).symm
  · exact keeps.all_admits_iff floor written.length_map_value_le form

/-- Components with some left open behind them are one term, and its bounds take in the versions
that begin with the numbers of the components. -/
theorem exists_readBounds_openTail {components : List Text} (written : IsWritten components)
    (short : components.length ≤ 3) {signs : List Char} (filled : signs ≠ [])
    (wild : ∀ sign ∈ signs, Branch.isWildcard sign = true) :
    Constraint.IsLone (List.intercalate ['.'] components ++ openTail signs) ∧
      ∃ bounds, Constraint.readBounds (List.intercalate ['.'] components ++ openTail signs) none =
        .ok bounds ∧ ∀ form : NumericForm, bounds.all (·.admits form.text) = true ↔
          form.numbers.take components.length = components.map Part.value := by
  have numbered := written.toIsSpelled.isNumbered
  obtain ⟨bounds, range, spans⟩ :=
    exists_ofNumbers_eq written (List.intercalate ['.'] components ++ openTail signs)
  have opens := Constraint.readBounds_append numbered (openTail signs)
  rw [open?_append_openTail written.toIsSpelled short filled wild] at opens
  exact ⟨Constraint.isLone_of_isNumbered (isNumbered_append_openTail numbered wild), bounds,
    opens.trans range, spans⟩

end Range

namespace Selection

open Range Constraint

/-- A version in numeric normal form satisfies a caret range if its numbers are no less than those
of the range and agree with them as far as the caret holds them fixed. -/
theorem satisfies_caret_iff {components : List Text} (written : IsWritten components)
    (unpadded : ∀ part ∈ components, part = ['0'] ∨ part.head? ≠ some '0')
    (short : ∀ major ∈ components.head?, major.length ≤ 5) {version : Text} {form : NumericForm}
    (readable : Version.normalize version = .ok form.text) :
    satisfies version ('^' :: List.intercalate ['.'] components) = true ↔
      paddedNumbers (components.map Part.value) ≤ form.numbers ∧
        form.numbers.take (caretCount (components.map Part.value)) =
          (components.map Part.value).take (caretCount (components.map Part.value)) := by
  obtain ⟨literal, found, low, high, range, floor, keeps⟩ :=
    exists_caret_eq written unpadded short
  have lone : IsLone ('^' :: List.intercalate ['.'] components) := isLone_form found .caret
  rw [lone.satisfies_eq ((readBounds_caret found).trans range) readable]
  exact keeps.all_admits_iff floor written.length_map_value_le form

/-- A development version at the floor of a range that holds three numbers, and a preview of the
first version behind it. -/
theorem satisfies_caret_iff_previews :
    satisfies "0.0.3-dev".toList "^0.0.3".toList = true ∧
      satisfies "0.0.4-alpha1".toList "^0.0.3".toList = false := by
  let least : NumericForm := ⟨["0".toList, "0".toList, "3".toList, "0".toList], none, true, rfl,
    by decide, by decide⟩
  let next : NumericForm := ⟨["0".toList, "0".toList, "4".toList, "0".toList],
    some (.alpha, "1".toList), false, rfl, by decide, by decide⟩
  have written : IsWritten ["0".toList, "0".toList, "3".toList] := by decide
  have unpadded : ∀ part ∈ ["0".toList, "0".toList, "3".toList],
      part = ['0'] ∨ part.head? ≠ some '0' := by decide
  have readable : Version.normalize "0.0.3-dev".toList = .ok least.text := by decide
  have readable' : Version.normalize "0.0.4-alpha1".toList = .ok next.text := by decide
  have inside := satisfies_caret_iff written unpadded (by decide) readable
  have outside := satisfies_caret_iff written unpadded (by decide) readable'
  exact ⟨inside.mpr (by decide), Bool.eq_false_iff.mpr (mt outside.mp (by decide))⟩

/-- A version in numeric normal form satisfies a tilde range if its numbers are no less than those
of the range and agree with all of them but the last. The first one has to agree in any case. -/
theorem satisfies_tilde_iff {components : List Text} (written : IsWritten components)
    {version : Text} {form : NumericForm}
    (readable : Version.normalize version = .ok form.text) :
    satisfies version ('~' :: List.intercalate ['.'] components) = true ↔
      paddedNumbers (components.map Part.value) ≤ form.numbers ∧
        form.numbers.take (max (components.length - 1) 1) =
          (components.map Part.value).take (max (components.length - 1) 1) := by
  obtain ⟨literal, reads, low, high, range, floor, keeps⟩ := exists_tilde_eq written
  have lone : IsLone (['~'] ++ List.intercalate ['.'] components) :=
    isLone_append (Version.isNumbered_of_read? reads) (by simp)
  rw [← List.singleton_append,
    lone.satisfies_eq ((readBounds_tilde reads).trans range) readable]
  exact keeps.all_admits_iff floor written.length_map_value_le form

/-- The greatest number that can be raised, with leading zeros around it, and the development
version of the first number that cannot. -/
theorem satisfies_tilde_iff_greatest :
    satisfies "1.9223372036854775806.7-dev".toList "~01.9223372036854775806.007".toList = true ∧
      satisfies "1.9223372036854775807-dev".toList "~01.9223372036854775806.007".toList =
        false := by
  let least : NumericForm := ⟨["1".toList, "9223372036854775806".toList, "7".toList, "0".toList],
    none, true, rfl, by decide, by decide⟩
  let next : NumericForm := ⟨["1".toList, "9223372036854775807".toList, "0".toList, "0".toList],
    none, true, rfl, by decide, by decide⟩
  have written : IsWritten ["01".toList, "9223372036854775806".toList, "007".toList] := by
    decide +kernel
  have readable : Version.normalize "1.9223372036854775806.7-dev".toList = .ok least.text := by
    decide +kernel
  have readable' : Version.normalize "1.9223372036854775807-dev".toList = .ok next.text := by
    decide +kernel
  have inside := satisfies_tilde_iff written readable
  have outside := satisfies_tilde_iff written readable'
  exact ⟨inside.mpr (by decide), Bool.eq_false_iff.mpr (mt outside.mp (by decide))⟩

/-- A version in numeric normal form satisfies a range with components left open if it begins with
the numbers of the range. -/
theorem satisfies_open_iff {components : List Text} (written : IsWritten components)
    (short : components.length ≤ 3) {signs : List Char} (filled : signs ≠ [])
    (wild : ∀ sign ∈ signs, Branch.isWildcard sign = true) {version : Text} {form : NumericForm}
    (readable : Version.normalize version = .ok form.text) :
    satisfies version (List.intercalate ['.'] components ++ openTail signs) = true ↔
      form.numbers.take components.length = components.map Part.value := by
  obtain ⟨lone, bounds, reads, spans⟩ := exists_readBounds_openTail written short filled wild
  rw [lone.satisfies_eq reads readable]
  exact spans form

/-- Previews at both ends of a range that has no bound below it. -/
theorem satisfies_open_iff_zeros :
    satisfies "0.0.0-dev".toList "0.0.X.*".toList = true ∧
      satisfies "0.1.0-dev".toList "0.0.X.*".toList = false := by
  let least : NumericForm := ⟨["0".toList, "0".toList, "0".toList, "0".toList], none, true, rfl,
    by decide, by decide⟩
  let next : NumericForm := ⟨["0".toList, "1".toList, "0".toList, "0".toList], none, true, rfl,
    by decide, by decide⟩
  have written : IsWritten ["0".toList, "0".toList] := by decide
  have wild : ∀ sign ∈ ['X', '*'], Branch.isWildcard sign = true := by simp [Branch.isWildcard]
  have readable : Version.normalize "0.0.0-dev".toList = .ok least.text := by decide
  have readable' : Version.normalize "0.1.0-dev".toList = .ok next.text := by decide
  have inside := satisfies_open_iff written (by decide) (by decide) wild readable
  have outside := satisfies_open_iff written (by decide) (by decide) wild readable'
  exact ⟨inside.mpr (by decide), Bool.eq_false_iff.mpr (mt outside.mp (by decide))⟩

end Selection

end VersionRanges

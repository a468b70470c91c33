/-
# Spans of versions

A range without a modifier goes from the floor of its numbers up to the floor of the same numbers
with one of them raised by one and zeros behind it. The numeric forms between the two floors are
those with no lesser numbers that agree with the range up to the number raised.
-/
import VersionRanges.Proofs.Order.NumericForm
import VersionRanges.Proofs.Ranges.Within

namespace VersionRanges

open Literal (IsNumber)
open Version (IsFloor Numeral NumericForm Part.value Part.IsDecimal)

/-! ## Numbers in lexicographic order -/

namespace Version

/-- Nothing of the same length stands below zeros. -/
theorem replicate_zero_le (numbers : List ℕ) : List.replicate numbers.length 0 ≤ numbers := by
  induction numbers with
  | nil => exact le_rfl
  | cons first numbers ih =>
      rw [← not_lt] at ih ⊢
      rw [List.length_cons, List.replicate_succ, List.cons_lt_cons_iff]
      rintro (below | ⟨-, below⟩)
      · exact Nat.not_lt_zero first below
      · exact ih below

/-- Numbers followed by zeros are the least of their length that begin like this. -/
theorem append_replicate_zero_le (front rest : List ℕ) :
    front ++ List.replicate rest.length 0 ≤ front ++ rest := by
  induction front with
  | nil => exact replicate_zero_le rest
  | cons first front ih => exact List.cons_le_cons first ih

theorem cons_le_cons_iff {n n' : ℕ} {numbers numbers' : List ℕ} :
    n :: numbers ≤ n' :: numbers' ↔ n < n' ∨ n = n' ∧ numbers ≤ numbers' := by
  rw [← not_lt, List.cons_lt_cons_iff, ← not_lt]
  rcases lt_trichotomy n n' with below | rfl | above
  · simp [below, below.not_gt, below.ne']
  · simp
  · simp [above, above.not_gt, above.ne']

/-- Lists in lexicographic order begin with lists in that order. -/
theorem take_le_take {numbers numbers' : List ℕ} (less : numbers ≤ numbers') (count : ℕ) :
    numbers.take count ≤ numbers'.take count := by
  induction count generalizing numbers numbers' with
  | zero => exact le_rfl
  | succ count ih =>
      cases numbers with
      | nil => exact not_lt.mp (List.not_lt_nil _)
      | cons n numbers =>
          cases numbers' with
          | nil => exact absurd (List.nil_lt_cons n numbers) less.not_gt
          | cons n' numbers' =>
              rw [List.take_succ_cons, List.take_succ_cons, cons_le_cons_iff]
              exact (cons_le_cons_iff.mp less).imp_right (And.imp_right ih)

/-- Below some numbers with one of them raised and zeros behind it stand those that go up to the
number raised and no further. -/
theorem lt_raised_iff {front numbers : List ℕ} {n count : ℕ}
    (length : numbers.length = front.length + 1 + count) :
    numbers < front ++ (n + 1) :: List.replicate count 0 ↔
      numbers.take (front.length + 1) ≤ front ++ [n] := by
  induction front generalizing numbers with
  | nil =>
      obtain ⟨m, numbers, rfl⟩ : ∃ m rest, numbers = m :: rest :=
        List.exists_cons_of_length_pos (by omega)
      have same : numbers.length = count := by
        rw [List.length_cons, List.length_nil] at length
        omega
      have zeros := (replicate_zero_le numbers).not_gt
      rw [same] at zeros
      simp only [List.nil_append, List.cons_lt_cons_iff, zeros, and_false, or_false,
        List.length_nil, Nat.zero_add, List.take_succ_cons, List.take_zero, cons_le_cons_iff,
        le_refl, and_true]
      omega
  | cons first front ih =>
      obtain ⟨m, numbers, rfl⟩ : ∃ m rest, numbers = m :: rest :=
        List.exists_cons_of_length_pos (by omega)
      have same : numbers.length = front.length + 1 + count := by
        rw [List.length_cons, List.length_cons] at length
        omega
      rw [List.cons_append, List.cons_append, List.cons_lt_cons_iff, ih same, List.length_cons,
        List.take_succ_cons, cons_le_cons_iff]

/-! ## Floors -/

theorem runMarks_lowest : runMarks Range.lowest = [.dev] := by decide

/-- Components in ASCII digits make the floor of their numbers with the mark behind them. -/
theorem isFloor_append_lowest {components : List Text} (filled : components ≠ [])
    (areDecimal : ∀ part ∈ components, part ≠ [] ∧ Part.IsDecimal part) :
    IsFloor (components.map Part.value) (List.intercalate ['.'] components ++ Range.lowest) := by
  have areNumbers : ∀ part ∈ components, IsNumber part :=
    fun part listed => Literal.isNumber_of_isDecimal (areDecimal part listed)
  exact ⟨⟨components, Range.lowest, filled, areNumbers, isSuffix_lowest⟩, rfl,
    flatMap_runMarks areDecimal, runMarks_lowest⟩

namespace IsFloor

variable {numbers : List ℕ} {version : Text} (floor : IsFloor numbers version)
  (length : numbers.length = 4) (form : NumericForm)

include floor length

theorem admits_ge_iff : (⟨.ge, version⟩ : Bound).admits form.text = true ↔
    numbers ≤ form.numbers := by
  have isNumeral : IsNumeral version := floor.imp fun _ made => made.1
  exact (isNumeral.admits_iff .ge form.isNumeral_text).trans (form.standing_le_iff floor length)

theorem admits_lt_iff : (⟨.lt, version⟩ : Bound).admits form.text = true ↔
    form.numbers < numbers := by
  have isNumeral : IsNumeral version := floor.imp fun _ made => made.1
  rw [isNumeral.admits_iff .lt form.isNumeral_text, ← not_le, ← form.standing_le_iff floor length]
  exact not_le.symm

omit length in
/-- A version is the floor of no other numbers. -/
theorem numbers_eq {numbers' : List ℕ} (floor' : IsFloor numbers' version) :
    numbers = numbers' := by
  obtain ⟨numeral, rfl, has, lowest⟩ := floor
  obtain ⟨numeral', same, has', lowest'⟩ := floor'
  have marks := numeral.marks_standing
  rw [← same, numeral'.marks_standing, has, has', lowest, lowest', List.append_cancel_right_eq]
    at marks
  exact (List.map_injective_iff.mpr (fun _ _ => Mark.number.inj) marks).symm

end IsFloor

/-- The numbers of a version with a zero for each that is missing from four. -/
def paddedNumbers (numbers : List ℕ) : List ℕ := numbers ++ List.replicate (4 - numbers.length) 0

theorem length_paddedNumbers {numbers : List ℕ} (short : numbers.length ≤ 4) :
    (paddedNumbers numbers).length = 4 := by
  rw [paddedNumbers, List.length_append, List.length_replicate]
  omega

theorem take_paddedNumbers {numbers : List ℕ} {count : ℕ} (given : count ≤ numbers.length) :
    (paddedNumbers numbers).take count = numbers.take count := by
  rw [paddedNumbers, List.take_append_of_le_length given]

/-- Four numbers that begin with some numbers are no less than those with zeros behind them. -/
theorem paddedNumbers_le_of_take {numbers front : List ℕ} (length : numbers.length = 4)
    (begins : numbers.take front.length = front) : paddedNumbers front ≤ numbers := by
  have rest : (numbers.drop front.length).length = 4 - front.length := by
    rw [List.length_drop, length]
  have whole : front ++ numbers.drop front.length = numbers := by
    nth_rewrite 1 [← begins]
    exact List.take_append_drop front.length numbers
  calc
    paddedNumbers front = front ++ List.replicate (numbers.drop front.length).length 0 := by
      rw [paddedNumbers, rest]
    _ ≤ front ++ numbers.drop front.length := append_replicate_zero_le front _
    _ = numbers := whole

/-- Where all numbers of a range are to stay as they are, nothing is left to be said about its
floor. -/
theorem paddedNumbers_le_and_take_iff {numbers front : List ℕ} (length : numbers.length = 4) :
    paddedNumbers front ≤ numbers ∧ numbers.take front.length = front.take front.length ↔
      numbers.take front.length = front := by
  rw [List.take_length]
  exact and_iff_right_of_imp (paddedNumbers_le_of_take length)

end Version

/-- A bound takes in the versions whose first numbers go no further than those of some numbers. -/
def Bound.Caps (bound : Bound) (numbers : List ℕ) (count : ℕ) : Prop :=
  ∀ form : NumericForm,
    bound.admits form.text = true ↔ form.numbers.take count ≤ numbers.take count

/-- Of the versions with no lesser numbers, a bound takes in those that have the first ones of the
numbers as they are. -/
def Bound.Keeps (bound : Bound) (numbers : List ℕ) (count : ℕ) : Prop :=
  ∀ form : NumericForm, Version.paddedNumbers numbers ≤ form.numbers →
    (bound.admits form.text = true ↔ form.numbers.take count = numbers.take count)

theorem Bound.Caps.keeps {high : Bound} {numbers : List ℕ} {count : ℕ}
    (caps : high.Caps numbers count) (given : count ≤ numbers.length) :
    high.Keeps numbers count := by
  intro form least
  have reaches := Version.take_le_take least count
  rw [Version.take_paddedNumbers given] at reaches
  rw [caps form]
  exact ⟨fun within => le_antisymm within reaches, fun same => same.le⟩

/-- A version meets the two bounds of a range if its numbers are no less than those at the floor and
the first ones are the same. -/
theorem Bound.Keeps.all_admits_iff {high : Bound} {numbers : List ℕ} {count : ℕ}
    (keeps : high.Keeps numbers count) {low : Text}
    (floor : IsFloor (Version.paddedNumbers numbers) low) (short : numbers.length ≤ 4)
    (form : NumericForm) :
    [⟨.ge, low⟩, high].all (·.admits form.text) = true ↔
      Version.paddedNumbers numbers ≤ form.numbers ∧
        form.numbers.take count = numbers.take count := by
  rw [List.all_cons, List.all_cons, List.all_nil, Bool.and_true, Bool.and_eq_true,
    floor.admits_ge_iff (Version.length_paddedNumbers short) form]
  exact and_congr_right (keeps form)

/-! ## Ranges as they are written -/

namespace Range

open Version (paddedNumbers)

/-- The components that a version is spelled with: one to four numbers in ASCII digits. -/
@[mk_iff]
structure IsSpelled (components : List Text) : Prop where
  filled : components ≠ []
  short : components.length ≤ 4
  areDecimal : ∀ part ∈ components, part ≠ [] ∧ Part.IsDecimal part

instance (components : List Text) : Decidable (IsSpelled components) :=
  decidable_of_iff' _ (isSpelled_iff components)

namespace IsSpelled

variable {components : List Text} (spelled : IsSpelled components)

include spelled

theorem areNumbers : ∀ part ∈ components, IsNumber part :=
  fun part listed => Literal.isNumber_of_isDecimal (spelled.areDecimal part listed)

theorem length_map_value_le : (components.map Part.value).length ≤ 4 := by
  rw [List.length_map]
  exact spelled.short

/-- With zeros behind them, the components are spelled in full. -/
theorem append_zeros {count : ℕ} (short : components.length + count ≤ 4) :
    IsSpelled (components ++ List.replicate count ['0']) where
  filled := by simp [spelled.filled]
  short := by simpa using short
  areDecimal := Literal.forall_mem_append_zeros spelled.areDecimal (by decide) count

/-- The components are read as a literal that says nothing but its numbers. -/
theorem exists_read? :
    ∃ literal : Literal, Literal.read? (List.intercalate ['.'] components) = some (literal, []) ∧
      literal.components = components ∧ literal.modifier.isSilent = true := by
  obtain ⟨major, further, rfl⟩ := List.exists_cons_of_ne_nil spelled.filled
  obtain ⟨isNumber, areNumbers⟩ := List.forall_mem_cons.mp spelled.areNumbers
  have ends : Literal.readFurther (3 - further.length) [] = ([], []) := by
    cases 3 - further.length <;> rfl
  have reads := Literal.read?_append_dotted isNumber areNumbers
    (Nat.le_of_succ_le_succ spelled.short) (by simp) ends
  rw [List.append_nil] at reads
  exact ⟨_, by rw [Literal.intercalate_cons, reads]; rfl, rfl, rfl⟩

theorem isNumbered : Version.IsNumbered (List.intercalate ['.'] components) := by
  obtain ⟨literal, reads, -, -⟩ := spelled.exists_read?
  exact Version.isNumbered_of_read? reads

/-- A first component of at most five digits makes the components a version by itself. -/
theorem exists_ofVersion? (short : ∀ major ∈ components.head?, major.length ≤ 5) :
    ∃ literal : Literal, Literal.ofVersion? (List.intercalate ['.'] components) = some literal ∧
      literal.components = components ∧ literal.modifier.isSilent = true := by
  obtain ⟨literal, reads, rfl, silent⟩ := spelled.exists_read?
  refine ⟨literal, ?_, rfl, silent⟩
  rw [Literal.ofVersion?, reads]
  exact if_pos (short literal.major rfl)

end IsSpelled

/-- The components that a range is written with: one to four numbers in ASCII digits, each of which
can be raised as a signed number of 64 bits. -/
@[mk_iff]
structure IsWritten (components : List Text) : Prop extends IsSpelled components where
  small : ∀ part ∈ components, Part.value part < 2 ^ 63 - 1

instance (components : List Text) : Decidable (IsWritten components) :=
  decidable_of_iff' _ (isWritten_iff components)

/-- A missing component is a zero, which can be raised. -/
theorem IsWritten.small_append_zeros {components : List Text} (written : IsWritten components)
    (count : ℕ) :
    ∀ part ∈ components ++ List.replicate count ['0'], Part.value part < 2 ^ 63 - 1 :=
  Literal.forall_mem_append_zeros written.small (by decide) count

/-! ## Ends -/

section

variable {literal : Literal} (wellFormed : literal.IsWellFormed)

theorem isSpelled_canonical (spelled : IsSpelled literal.components) :
    IsSpelled literal.canonical.components := by
  rw [Literal.components_canonical]
  refine spelled.append_zeros ?_
  have short := spelled.short
  rw [Literal.components, List.length_cons] at short ⊢
  omega

theorem map_value_canonical :
    literal.canonical.components.map Part.value =
      paddedNumbers (literal.components.map Part.value) := by
  have missing : 4 - (literal.components.map Part.value).length = 3 - literal.further.length := by
    rw [List.length_map, Literal.components, List.length_cons]
    omega
  rw [Literal.components_canonical, List.map_append, List.map_replicate, paddedNumbers, missing]
  rfl

/-- The version with a number behind some components, and zeros behind it. -/
def raisedText (before : List Text) (n count : ℕ) : Text :=
  List.intercalate ['.'] (before ++ Text.ofNat n :: List.replicate count ['0'])

theorem isFloor_raisedText {before : List Text}
    (kept : ∀ part ∈ before, part ≠ [] ∧ Part.IsDecimal part) (n count : ℕ) :
    IsFloor (before.map Part.value ++ n :: List.replicate count 0)
      (raisedText before n count ++ lowest) := by
  have changed : Text.ofNat n ≠ [] ∧ Part.IsDecimal (Text.ofNat n) :=
    ⟨Nat.toDigits_ne_nil, Version.Part.isDecimal_ofNat _⟩
  have areDecimal := forall_mem_raised kept changed (by decide) count
  have floor := Version.isFloor_append_lowest (by simp) areDecimal
  rw [List.map_append, List.map_cons, Version.Part.value_ofNat, List.map_replicate] at floor
  exact floor

include wellFormed

/-- A component of a literal can be raised by a natural number if the sum is a signed number of 64
bits, and then nothing before it changes. -/
theorem raise_eq (spelled : IsSpelled literal.components) (term : Text)
    {before behind : List Text} {digits : Text}
    (split : literal.canonical.components = before ++ digits :: behind) (increment : ℕ) :
    raise term literal.slots (before.length + 1) increment =
      if Part.value digits + increment < 2 ^ 63 then
        .ok (raisedText before (Part.value digits + increment) behind.length)
      else .error (.componentOutOfRange term) := by
  have listed : digits ∈ literal.canonical.components := by simp [split]
  obtain ⟨filled, decimal⟩ := (isSpelled_canonical spelled).areDecimal digits listed
  rw [raise, Component.adjust_eq (wellFormed.map_slots.trans split) rfl,
    Component.raiseLast_eq filled decimal]
  split_ifs
  · simp [raisedText]
  · rfl

variable (written : IsWritten literal.components)

include written

/-- A component of a written literal can be raised by one at most, and what comes out is read as the
numbers that it says. -/
theorem exists_raise_isFloor (term : Text) {before behind : List Text} {digits : Text}
    (split : literal.canonical.components = before ++ digits :: behind) {increment : ℕ}
    (small : increment ≤ 1) :
    ∃ version, raise term literal.slots (before.length + 1) increment = .ok version ∧
      IsFloor (before.map Part.value ++
        (Part.value digits + increment) :: List.replicate behind.length 0)
        (version ++ lowest) := by
  have full := (isSpelled_canonical written.toIsSpelled).areDecimal
  have room := written.small_append_zeros (3 - literal.further.length)
  rw [← Literal.components_canonical, split] at room
  rw [split] at full
  have fits := room digits (by simp)
  have raises := raise_eq wellFormed written.toIsSpelled term split increment
  rw [if_pos (by omega)] at raises
  exact ⟨_, raises, isFloor_raisedText (List.forall_mem_append.mp full).1 _ _⟩

/-- Where the last component that is written is raised by nothing, the floor of the range comes
out. -/
theorem exists_raise_zero (term : Text) :
    ∃ version, raise term literal.slots literal.components.length 0 = .ok version ∧
      IsFloor (paddedNumbers (literal.components.map Part.value)) (version ++ lowest) := by
  have filled : literal.components ≠ [] := List.cons_ne_nil _ _
  have ends := List.dropLast_append_getLast filled
  have split : literal.canonical.components = literal.components.dropLast ++
      literal.components.getLast filled :: List.replicate (3 - literal.further.length) ['0'] := by
    rw [Literal.components_canonical, List.append_cons, ends]
  have last : literal.components.dropLast.length + 1 = literal.components.length := by
    rw [List.length_dropLast, Nat.sub_add_cancel (List.length_pos_of_ne_nil filled)]
  obtain ⟨version, raises, floor⟩ :=
    exists_raise_isFloor wellFormed written term split (Nat.zero_le 1)
  rw [last] at raises
  refine ⟨version, raises, ?_⟩
  rw [← map_value_canonical, split, List.map_append, List.map_cons, List.map_replicate]
  rw [List.length_replicate] at floor
  exact floor

/-- The bound above a range takes in what goes no further than the numbers up to its position. -/
theorem exists_below (term : Text) {position : ℕ}
    (inside : 0 < position ∧ position ≤ literal.components.length) :
    ∃ high, below term literal.slots position = .ok high ∧
      high.Caps (literal.components.map Part.value) position := by
  have full : literal.canonical.components.length = 4 :=
    congrArg Nat.succ wellFormed.length_canonical
  obtain ⟨before, digits, behind, split, count⟩ :=
    Component.exists_eq_append_cons literal.canonical.components
      ⟨inside.1, inside.2.trans (full ▸ written.short)⟩
  obtain ⟨version, raises, floor⟩ := exists_raise_isFloor wellFormed written term split le_rfl
  have taken : (literal.components.map Part.value).take position =
      before.map Part.value ++ [Part.value digits] := by
    rw [← Version.take_paddedNumbers (by simpa using inside.2), ← map_value_canonical, split,
      List.append_cons, List.map_append, List.map_append, List.take_left' (by simp [count])]
    rfl
  have length : (before.map Part.value).length + 1 + behind.length = 4 := by
    rw [← full, split, List.length_map, List.length_append, List.length_cons]
    omega
  have length' : (before.map Part.value ++
      (Part.value digits + 1) :: List.replicate behind.length 0).length = 4 := by
    rw [← length, List.length_append, List.length_cons, List.length_replicate]
    omega
  refine ⟨⟨.lt, version ++ lowest⟩, ?_, fun form => ?_⟩
  · rw [← count]
    exact congrArg (Except.map _) raises
  · have raised := Version.lt_raised_iff (n := Part.value digits)
      (form.length_numbers.trans length.symm)
    rw [floor.admits_lt_iff length' form, raised, taken, List.length_map, count]

end

/-- The low end of a range is the floor of the numbers that are given there. -/
theorem exists_lowEnd_eq {components : List Text} (spelled : IsSpelled components)
    (short : ∀ major ∈ components.head?, major.length ≤ 5) :
    ∃ literal, Literal.ofVersion? (List.intercalate ['.'] components) = some literal ∧
      literal.components = components ∧ literal.modifier.isSilent = true ∧
      ∃ low, lowEnd (List.intercalate ['.'] components) literal = .ok low ∧
        IsFloor (paddedNumbers (components.map Part.value)) low := by
  obtain ⟨literal, found, rfl, silent⟩ := spelled.exists_ofVersion? short
  have full := isSpelled_canonical spelled
  have floor := Version.isFloor_append_lowest full.filled full.areDecimal
  rw [map_value_canonical, ← Literal.padded_eq_intercalate] at floor
  have lows := lowEnd_of_literal found
  rw [lowSuffix, if_pos silent] at lows
  exact ⟨literal, found, rfl, silent, _, lows, floor⟩

end Range

end VersionRanges

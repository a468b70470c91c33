/-
# Numeric normal forms

A version in numeric normal form is four numbers in ASCII digits, a label with a tail of further
numbers, and a development mark; the label and the mark may be missing. Among versions of as many
numbers the first number that differs decides, whatever stands behind the numbers. Where all of
them agree, no such version stands below the floor of its numbers, the one that is marked as a
development version alone.
-/
import VersionRanges.Proofs.Order.Numeral

namespace VersionRanges.Version

/-! ## Labels and tails -/

/-- The labels of normal forms: the three kinds of preview, and the patch of a release. -/
inductive Label where
  | alpha
  | beta
  | candidate
  | patch
deriving DecidableEq, Repr

namespace Label

/-- The spelling of a label in normal forms. -/
def text : Label → Text
  | alpha => "alpha".toList
  | beta => "beta".toList
  | candidate => "RC".toList
  | patch => "patch".toList

/-- The mark of a label in the order of versions. -/
def mark : Label → Mark
  | alpha => .alpha
  | beta => .beta
  | candidate => .candidate
  | patch => .patch

theorem ofPart_text (label : Label) : Mark.ofPart label.text = label.mark := by
  cases label <;> decide

theorem dev_lt_mark (label : Label) : Mark.dev < label.mark := by
  cases label <;> decide

theorem foldCase_text_mem (label : Label) : label.text.map Text.foldCase ∈ Modifier.labels := by
  cases label <;> decide

theorem plain_text (label : Label) :
    label.text ≠ [] ∧ ∀ c ∈ label.text, isSeparator c = false ∧ c.isDigit = false := by
  cases label <;> exact ⟨by decide, List.all_iff_forall_prop.mp (by decide)⟩

end Label

/-- The tail of a label, with its numbers in ASCII digits. -/
structure IsPlainTail (tail : Text) : Prop where
  isTail : Modifier.IsTail tail
  ascii : ∀ c ∈ tail, (c.isDigit || Modifier.isJoint c) = true

instance (tail : Text) : Decidable (IsPlainTail tail) :=
  decidable_of_iff
    (Modifier.IsTail tail ∧ tail.all (fun c => c.isDigit || Modifier.isJoint c) = true)
    ⟨fun plain => ⟨plain.1, List.all_eq_true.mp plain.2⟩,
      fun plain => ⟨plain.isTail, List.all_eq_true.mpr plain.ascii⟩⟩

theorem isSeparator_of_isJoint {c : Char} (joint : Modifier.isJoint c = true) :
    isSeparator c = true := by
  simp only [Modifier.isJoint, Bool.or_eq_true, beq_iff_eq] at joint
  rcases joint with rfl | rfl <;> rfl

/-- A label ends where its tail begins. -/
theorem IsPlainTail.stops {tail rest : Text} (isTail : IsPlainTail tail)
    (separated : ∀ c ∈ rest.head?, isSeparator c = true) : Stops false (tail ++ rest) := by
  cases tail with
  | nil => exact fun c first => .inl (separated c first)
  | cons c tail =>
      rintro d ⟨⟩
      rcases Bool.or_eq_true_iff.mp (isTail.ascii c List.mem_cons_self) with digit | joint
      · exact .inr (by simp [digit])
      · exact .inl (isSeparator_of_isJoint joint)

/-! ## Versions of four numbers -/

/-- A version in numeric normal form. Components are kept as they are spelled, leading zeros
included. -/
structure NumericForm where
  components : List Text
  labelled : Option (Label × Text)
  isDev : Bool
  length_components : components.length = 4
  areDecimal : ∀ part ∈ components, part ≠ [] ∧ Part.IsDecimal part
  isTail : ∀ pair ∈ labelled, IsPlainTail pair.2

namespace NumericForm

/-- The numbers of a version. -/
def numbers (form : NumericForm) : List ℕ := form.components.map Part.value

/-- The label of a version and its tail, as they stand behind the numbers. -/
def labelSuffix (form : NumericForm) : Text :=
  match form.labelled with
  | some (label, tail) => '-' :: label.text ++ tail
  | none => []

/-- The development mark of a version. -/
def devSuffix (form : NumericForm) : Text := if form.isDev then "-dev".toList else []

/-- What stands behind the numbers. -/
def suffix (form : NumericForm) : Text := form.labelSuffix ++ form.devSuffix

/-- The text of a version. -/
def text (form : NumericForm) : Text :=
  List.intercalate ['.'] form.components ++ form.suffix

variable (form : NumericForm)

theorem length_numbers : form.numbers.length = 4 := by
  rw [numbers, List.length_map, form.length_components]

theorem separated_devSuffix : ∀ c ∈ form.devSuffix.head?, isSeparator c = true := by
  rw [devSuffix]
  split <;> simp [isSeparator]

theorem isSuffix_suffix : IsSuffix form.suffix := by
  refine ⟨?_, fun sign foreign => ?_⟩
  · rw [suffix, labelSuffix]
    split
    · rintro c ⟨⟩
      rfl
    · exact form.separated_devSuffix
  · have unmarked : sign ∉ form.devSuffix := by
      rw [devSuffix]
      split
      · exact Modifier.not_mem_of_plain foreign (by decide)
      · simp
    have unlabelled : sign ∉ form.labelSuffix := by
      rw [labelSuffix]
      split
      · next label tail labelled =>
        have hyphen : sign ≠ '-' := fun same => foreign.other (by simp [same])
        have listed := foreign.letter _ (List.mem_cons_of_mem _ label.foldCase_text_mem)
        have letter : sign ∉ label.text := fun inside => listed (List.mem_map_of_mem inside)
        have further := Modifier.not_mem_of_isTail foreign (form.isTail _ labelled).isTail
        simp [hyphen, letter, further]
      · simp
    simp [suffix, unlabelled, unmarked]

/-- Such a version is made of components. -/
def toNumeral : Numeral where
  components := form.components
  suffix := form.suffix
  filled := by
    intro empty
    have four := form.length_components
    rw [empty] at four
    cases four
  areNumbers part listed := Literal.isNumber_of_isDecimal (form.areDecimal part listed)
  isSuffix := form.isSuffix_suffix

theorem isNumeral_text : IsNumeral form.text := ⟨form.toNumeral, rfl⟩

end NumericForm

/-! ## Order by numbers -/

/-- Components in ASCII digits have their numbers as marks. -/
theorem flatMap_runMarks {parts : List Text}
    (areDecimal : ∀ part ∈ parts, part ≠ [] ∧ Part.IsDecimal part) :
    parts.flatMap runMarks = (parts.map Part.value).map .number := by
  induction parts with
  | nil => rfl
  | cons part parts ih =>
      obtain ⟨⟨filled, decimal⟩, further⟩ := List.forall_mem_cons.mp areDecimal
      rw [List.flatMap_cons, runMarks_of_isDecimal decimal filled, ih further]
      rfl

/-- Of two lists of one length the lesser one has the lesser number where they first differ. -/
theorem exists_first_difference {first second : List ℕ} (length : first.length = second.length)
    (less : first < second) :
    ∃ front n n' rest rest', first = front ++ n :: rest ∧ second = front ++ n' :: rest' ∧
      n < n' := by
  induction less with
  | nil => cases length
  | rel below => exact ⟨[], _, _, _, _, rfl, rfl, below⟩
  | cons _ ih =>
      obtain ⟨front, n, n', rest, rest', rfl, rfl, below⟩ := ih (Nat.succ.inj length)
      exact ⟨_ :: front, n, n', rest, rest', rfl, rfl, below⟩

/-- A version has these numbers, in any spelling and with any suffix. -/
def Numeral.HasNumbers (numeral : Numeral) (numbers : List ℕ) : Prop :=
  numeral.components.flatMap runMarks = numbers.map .number

/-- The floor of some numbers: a version that has them and is marked as a development version, and
as nothing else. -/
def IsFloor (numbers : List ℕ) (version : Text) : Prop :=
  ∃ numeral : Numeral, numeral.text = version ∧ numeral.HasNumbers numbers ∧
    runMarks numeral.suffix = [.dev]

/-- Among versions of as many numbers the lesser numbers make the lesser version, whatever stands
behind them. -/
theorem Numeral.HasNumbers.standing_lt {numeral numeral' : Numeral} {numbers numbers' : List ℕ}
    (has : numeral.HasNumbers numbers) (has' : numeral'.HasNumbers numbers')
    (length : numbers.length = numbers'.length) (less : numbers < numbers') :
    standing numeral.text < standing numeral'.text := by
  obtain ⟨front, n, n', rest, rest', rfl, rfl, below⟩ := exists_first_difference length less
  rw [HasNumbers, List.map_append] at has has'
  exact standing_lt_of_raised has has' below

namespace NumericForm

variable (form : NumericForm)

theorem hasNumbers : form.toNumeral.HasNumbers form.numbers := flatMap_runMarks form.areDecimal

/-- The version with the lesser numbers is the lesser one, whatever stands behind them. -/
theorem compare_of_numbers_lt {form form' : NumericForm} (less : form.numbers < form'.numbers) :
    compare form.text form'.text = .lt := by
  have length : form.numbers.length = form'.numbers.length := by
    rw [length_numbers, length_numbers]
  have below : standing form.toNumeral.text < standing form'.toNumeral.text :=
    form.hasNumbers.standing_lt form'.hasNumbers length less
  rw [form.isNumeral_text.compare_eq_cmp form'.isNumeral_text, cmp_eq_lt_iff]
  exact below

/-- A label is the first mark behind the numbers. -/
theorem runMarks_suffix_of_labelled {label : Label} {tail : Text}
    (labelled : form.labelled = some (label, tail)) :
    runMarks form.suffix = label.mark :: runMarks (tail ++ form.devSuffix) := by
  have isTail := form.isTail _ labelled
  obtain ⟨filled, plain⟩ := label.plain_text
  have name : runs (label.text ++ (tail ++ form.devSuffix)) =
      label.text :: runs (tail ++ form.devSuffix) :=
    runs_append filled (fun c inside => (plain c inside).1) (fun c inside => (plain c inside).2)
      (isTail.stops form.separated_devSuffix)
  have whole : form.suffix = '-' :: (label.text ++ (tail ++ form.devSuffix)) := by
    simp [suffix, labelSuffix, labelled]
  rw [whole, runMarks, runs_cons_of_isSeparator rfl, name, List.map_cons, label.ofPart_text]
  rfl

theorem suffix_of_unlabelled (unlabelled : form.labelled = none) :
    form.suffix = form.devSuffix := by
  rw [suffix, labelSuffix, unlabelled, List.nil_append]

/-- Behind the numbers stands nothing, or the development mark alone, or a label above it. -/
theorem runMarks_suffix_cases :
    runMarks form.suffix = [] ∨ runMarks form.suffix = [.dev] ∨
      ∃ mark rest, runMarks form.suffix = mark :: rest ∧ Mark.dev < mark := by
  cases labelled : form.labelled with
  | some pair =>
      obtain ⟨label, tail⟩ := pair
      exact .inr (.inr ⟨_, _, form.runMarks_suffix_of_labelled labelled, label.dev_lt_mark⟩)
  | none =>
      rw [form.suffix_of_unlabelled labelled, devSuffix]
      split
      · exact .inr (.inl (by decide))
      · exact .inl (by decide)

/-- A version stands no lower than the floor of some numbers exactly if its own numbers are no
less. -/
theorem standing_le_iff {numbers : List ℕ} {version : Text} (floor : IsFloor numbers version)
    (length : numbers.length = 4) :
    standing version ≤ standing form.text ↔ numbers ≤ form.numbers := by
  obtain ⟨numeral, rfl, has, lowest⟩ := floor
  have same : numbers.length = form.numbers.length := length.trans form.length_numbers.symm
  rcases lt_trichotomy numbers form.numbers with less | equal | greater
  · exact iff_of_true (has.standing_lt form.hasNumbers same less).le less.le
  · have marks : (standing numeral.text).marks = numbers.map .number ++ [.dev] := by
      rw [numeral.marks_standing, has, lowest]
    have marks' : (standing form.text).marks = numbers.map .number ++ runMarks form.suffix := by
      rw [equal, ← form.hasNumbers]
      exact form.toNumeral.marks_standing
    refine iff_of_true ?_ equal.le
    rcases form.runMarks_suffix_cases with none | dev | ⟨mark, rest, label, above⟩
    · rw [none, List.append_nil] at marks'
      exact (Standing.lt_of_goesOn (marks' ▸ marks) Standing.dev_lt_closing).le
    · exact (Standing.ext (marks.trans (dev ▸ marks').symm)).le
    · exact (Standing.lt_of_marks marks (label ▸ marks') above).le
  · exact iff_of_false (form.hasNumbers.standing_lt has same.symm greater).not_ge greater.not_ge

end NumericForm

end VersionRanges.Version

/-
# Spellings of literals

The literals of a range may carry a mark and leading zeros. Tilde ranges and hyphen ranges read
their components as numbers, so that neither makes a difference. A caret looks for components that
are spelled as a single zero, and so does a range with components left open, for which moreover the
mark may only be a small letter. What such a range means is told by its numbers and by that much of
their spelling.
-/
import Mathlib.Data.Option.NAry
import VersionRanges.Proofs.Ranges.Meaning
import VersionRanges.Proofs.Ranges.Numbers

namespace VersionRanges

open Version (IsFloor IsNumeral IsSuffix paddedNumbers standing runMarks Part.value)
open Range (IsSpelled lowest raise below)

/-! ## Spellings -/

/-- A literal without a modifier, as it is spelled: a mark and one to four numbers. -/
structure Spelling where
  mark : Text
  components : List Text
  isMark : Literal.IsMark mark
  isSpelled : IsSpelled components

namespace Spelling

variable (spelling : Spelling)

/-- The components with dots between them. -/
def unmarked : Text := List.intercalate ['.'] spelling.components

/-- The text of a literal. -/
def text : Text := spelling.mark ++ spelling.unmarked

/-- The numbers of a literal. -/
def numbers : List ℕ := spelling.components.map Part.value

/-- Whether the first component of a literal has at most five digits. -/
def IsShort : Prop := ∀ major ∈ spelling.components.head?, major.length ≤ 5

instance : Decidable spelling.IsShort :=
  inferInstanceAs (Decidable (∀ major ∈ spelling.components.head?, major.length ≤ 5))

/-- The last number of a literal. -/
def last : ℕ := Part.value (spelling.components.getLast spelling.isSpelled.filled)

/-- The version whose last number is raised, with zeros behind it. -/
def raised (increment : ℕ) : Text :=
  Range.raisedText spelling.components.dropLast (spelling.last + increment)
    (4 - spelling.components.length)

/-- The number of components in front of the last one, up to the third, that are spelled as a single
zero before any is not. -/
def zeros : ℕ := ((spelling.components.dropLast.take 2).takeWhile (· == ['0'])).length

theorem zeros_inside : 0 < spelling.zeros + 1 ∧ spelling.zeros + 1 ≤ 4 := by
  have taken : spelling.zeros ≤ (spelling.components.dropLast.take 2).length :=
    (List.takeWhile_prefix _).length_le
  have two := List.length_take_le 2 spelling.components.dropLast
  omega

/-- With further components left open, a literal can be read if no capital letter marks it and its
last number can be raised. -/
def IsOpenable : Prop := spelling.mark ≠ ['V'] ∧ spelling.last + 1 < 2 ^ 63

/-- With further components left open, a literal has no bound at its floor if the last number is
zero and all components before it are spelled as a single zero. -/
def LacksFloor : Prop :=
  (∀ part ∈ spelling.components.dropLast, part = ['0']) ∧ spelling.last = 0

instance : Decidable spelling.LacksFloor := inferInstanceAs (Decidable (_ ∧ _))

/-- Two literals have the same numbers, with any marks and any leading zeros. A first component of
more than five digits may be a date, for which the digits count, and there the marks alone may
differ. -/
structure Respells (spelling spelling' : Spelling) : Prop where
  numbers : spelling.numbers = spelling'.numbers
  digits : spelling.IsShort ∧ spelling'.IsShort ∨ spelling.components = spelling'.components

theorem exists_unmarked_cons :
    ∃ c rest, spelling.unmarked = c :: rest ∧ Text.isDecimalDigit c = true := by
  obtain ⟨major, further, whole⟩ := List.exists_cons_of_ne_nil spelling.isSpelled.filled
  have isNumber := spelling.isSpelled.areNumbers major (by simp [whole])
  obtain ⟨c, digits, rfl, digit⟩ := isNumber.exists_cons
  refine ⟨c, digits ++ Literal.dotted further, ?_, digit⟩
  rw [unmarked, whole, Literal.intercalate_cons]
  rfl

theorem dropMark_text : Literal.dropMark spelling.text = spelling.unmarked := by
  obtain ⟨c, rest, begins, digit⟩ := spelling.exists_unmarked_cons
  rw [text, begins]
  exact Literal.dropMark_mark_append spelling.isMark digit rest

theorem dropMark_unmarked : Literal.dropMark spelling.unmarked = spelling.unmarked := by
  obtain ⟨c, rest, begins, digit⟩ := spelling.exists_unmarked_cons
  rw [begins, Literal.dropMark_cons digit]

theorem read?_text : Literal.read? spelling.text = Literal.read? spelling.unmarked := by
  rw [Literal.read?, Literal.read?, dropMark_text, dropMark_unmarked]

/-- A spelling is read as a literal that says nothing but its numbers. -/
structure Reads (literal : Literal) : Prop where
  reads : Literal.read? spelling.text = some (literal, [])
  components : literal.components = spelling.components
  silent : literal.modifier.isSilent = true

theorem exists_reads : ∃ literal, spelling.Reads literal := by
  obtain ⟨literal, reads, components, silent⟩ := spelling.isSpelled.exists_read?
  exact ⟨literal, spelling.read?_text.trans reads, components, silent⟩

theorem isNumbered_text : Version.IsNumbered spelling.text := by
  obtain ⟨literal, reading⟩ := spelling.exists_reads
  exact Version.isNumbered_of_read? reading.reads

namespace Reads

variable {spelling : Spelling} {literal : Literal} (reading : spelling.Reads literal)

include reading

theorem isWellFormed : literal.IsWellFormed := Literal.isWellFormed_of_read? reading.reads

theorem isSpelled : IsSpelled literal.components := reading.components ▸ spelling.isSpelled

theorem map_value : literal.components.map Part.value = spelling.numbers := by
  rw [reading.components, numbers]

theorem map_value_canonical :
    literal.canonical.components.map Part.value = paddedNumbers spelling.numbers := by
  rw [Range.map_value_canonical, reading.map_value]

end Reads

/-! ## Normal forms -/

theorem ofVersion?_text :
    Literal.ofVersion? spelling.text = Literal.ofVersion? spelling.unmarked := by
  rw [Literal.ofVersion?, Literal.ofVersion?, read?_text]

theorem timestamp_text :
    Timestamp.ofVersion? spelling.text = Timestamp.ofVersion? spelling.unmarked := by
  rw [Timestamp.ofVersion?, Timestamp.ofVersion?, dropMark_text, dropMark_unmarked]

/-- No spelling of a literal ends in `dev`. -/
theorem ofDevName?_text : Version.ofDevName? spelling.text = none := by
  have letterless : ∀ c ∈ spelling.text, Text.foldCase c ≠ 'e' := by
    intro c inside
    rcases List.mem_append.mp inside with mark | within
    · have isMark := spelling.isMark
      simp only [Literal.IsMark, List.mem_cons, List.not_mem_nil, or_false] at isMark
      rcases isMark with text | text | text <;> rw [text] at mark
      · cases mark
      · obtain rfl := List.mem_singleton.mp mark
        decide
      · obtain rfl := List.mem_singleton.mp mark
        decide
    · rcases Component.mem_or_mem_of_mem_intercalate within with dot | ⟨part, listed, here⟩
      · obtain rfl := List.mem_singleton.mp dot
        decide
      · have digit := (spelling.isSpelled.areNumbers part listed).digits c here
        rw [Text.foldCase_of_isDecimalDigit digit]
        exact Text.ne_of_isDecimalDigit digit (by decide)
  have unnamed : Version.devName? spelling.text = none := by
    rw [Option.eq_none_iff_forall_ne_some]
    intro name named
    obtain ⟨v, e, d, before, reversed, spelled⟩ := Version.exists_devName?_iff.mp ⟨name, named⟩
    have inside : e ∈ spelling.text := by
      rw [← List.mem_reverse, reversed]
      simp
    exact letterless e inside (List.cons.inj (List.cons.inj spelled).2).1
  rw [Version.ofDevName?, unnamed]
  rfl

theorem normalForm?_text :
    Version.normalForm? spelling.text =
      match Literal.ofVersion? spelling.unmarked with
      | some literal => some literal.normalForm
      | none => (Timestamp.ofVersion? spelling.unmarked).map Timestamp.normalForm := by
  rw [spelling.isNumbered_text.normalForm?_eq, ofVersion?_text, timestamp_text, ofDevName?_text]
  cases Timestamp.ofVersion? spelling.unmarked <;> rfl

theorem toOption_normalize :
    (Version.normalize spelling.text).toOption = Version.normalForm? spelling.text := by
  rw [Version.normalize, Version.normalizeWithin, spelling.isNumbered_text.core_eq_self]
  cases Version.normalForm? spelling.text <;> rfl

variable {spelling}

/-- A short literal comes to its numbers, with anything behind them. -/
theorem exists_numeral_of_isShort (short : spelling.IsShort) {suffix : Text}
    (isSuffix : IsSuffix suffix) :
    ∃ normal, Version.normalize spelling.text = .ok normal ∧
      ∃ numeral : Version.Numeral, numeral.text = normal ++ suffix ∧ numeral.suffix = suffix ∧
        numeral.HasNumbers (paddedNumbers spelling.numbers) := by
  obtain ⟨literal, found, components, silent⟩ := spelling.isSpelled.exists_ofVersion? short
  have full := Range.isSpelled_canonical (components ▸ spelling.isSpelled)
  have normal : literal.normalForm = List.intercalate ['.'] literal.canonical.components := by
    rw [Literal.normalForm, Modifier.suffix_of_isSilent silent, List.append_nil,
      literal.padded_eq_intercalate]
  refine ⟨literal.normalForm, Version.normalize_of_literal (spelling.ofVersion?_text.trans found),
    ⟨literal.canonical.components, suffix, full.filled, full.areNumbers, isSuffix⟩, ?_, rfl, ?_⟩
  · rw [normal]
    rfl
  · rw [numbers, ← components, ← Range.map_value_canonical]
    exact Version.flatMap_runMarks full.areDecimal

theorem Respells.length_components {spelling' : Spelling}
    (respells : spelling.Respells spelling') :
    spelling.components.length = spelling'.components.length := by
  simpa [Spelling.numbers] using congrArg List.length respells.numbers

/-- Bounds at the normal forms of two spellings take the same versions, with anything behind
them. -/
theorem Respells.normalize_takes {spelling' : Spelling} (respells : spelling.Respells spelling')
    {suffix : Text} (isSuffix : IsSuffix suffix) (op : Operator) :
    (Version.normalize spelling.text).toOption.map
        (fun normal => (⟨op, normal ++ suffix⟩ : Bound).takes) =
      (Version.normalize spelling'.text).toOption.map
        (fun normal => (⟨op, normal ++ suffix⟩ : Bound).takes) := by
  rcases respells.digits with ⟨short, short'⟩ | same
  · obtain ⟨normal, reads, numeral, whole, kept, has⟩ := exists_numeral_of_isShort short isSuffix
    obtain ⟨normal', reads', numeral', whole', kept', has'⟩ :=
      exists_numeral_of_isShort short' isSuffix
    rw [respells.numbers] at has
    have level : standing (normal ++ suffix) = standing (normal' ++ suffix) := by
      rw [← whole, ← whole']
      exact Version.Numeral.standing_congr (has.trans has'.symm) (by rw [kept, kept'])
    rw [reads, reads']
    exact congrArg some (Bound.takes_congr ⟨numeral, whole⟩ ⟨numeral', whole'⟩ level op)
  · have unmarked : spelling.unmarked = spelling'.unmarked := by
      rw [Spelling.unmarked, Spelling.unmarked, same]
    rw [toOption_normalize, toOption_normalize, normalForm?_text, normalForm?_text, unmarked]

end Spelling

/-! ## Raised numbers -/

section

variable {spelling spelling' : Spelling} {literal literal' : Literal}
  (reading : spelling.Reads literal) (reading' : spelling'.Reads literal')
  (same : spelling.numbers = spelling'.numbers) (term term' : Text) {position : ℕ}

namespace Spelling.Reads

include reading

/-- What raising a component gives is told by its number, by the components before it and by how
many there are behind it. -/
theorem raise_eq (inside : 0 < position ∧ position ≤ 4) (increment : ℕ) :
    let number := (paddedNumbers spelling.numbers).getD (position - 1) 0
    raise term literal.slots position increment =
      if number + increment < 2 ^ 63 then
        .ok (Range.raisedText (literal.canonical.components.take (position - 1))
          (number + increment) (4 - position))
      else .error (.componentOutOfRange term) := by
  have full : literal.canonical.components.length = 4 :=
    congrArg Nat.succ reading.isWellFormed.length_canonical
  obtain ⟨before, digits, behind, split, rfl⟩ :=
    Component.exists_eq_append_cons literal.canonical.components (full ▸ inside)
  have count : 4 - (before.length + 1) = behind.length := by
    rw [← full, split, List.length_append, List.length_cons]
    omega
  rw [Range.raise_eq reading.isWellFormed reading.isSpelled term split,
    ← reading.map_value_canonical, split, count]
  simp

theorem isFloor_raisedText (count n rest : ℕ) :
    IsFloor ((paddedNumbers spelling.numbers).take count ++ n :: List.replicate rest 0)
      (Range.raisedText (literal.canonical.components.take count) n rest ++ lowest) := by
  have kept : ∀ part ∈ literal.canonical.components.take count,
      part ≠ [] ∧ Version.Part.IsDecimal part := by
    intro part inside
    have full := Range.isSpelled_canonical reading.isSpelled
    exact full.areDecimal part (List.mem_of_mem_take inside)
  rw [← reading.map_value_canonical, ← List.map_take]
  exact Range.isFloor_raisedText kept n rest

include reading' same

/-- The same components raised to the same number make bounds that take the same versions. -/
theorem raisedText_takes (count n rest : ℕ) (op : Operator) :
    (⟨op, Range.raisedText (literal.canonical.components.take count) n rest ++ lowest⟩ :
        Bound).takes =
      (⟨op, Range.raisedText (literal'.canonical.components.take count) n rest ++ lowest⟩ :
        Bound).takes := by
  have floor := reading.isFloor_raisedText count n rest
  rw [same] at floor
  exact floor.takes_eq (reading'.isFloor_raisedText count n rest) op

/-- A component can be raised in both of two spellings or in neither, and what comes out is the same
in every respect in which the raised texts are. -/
theorem raise_map_congr {α : Type} {f : Text → α} (inside : 0 < position ∧ position ≤ 4)
    (increment : ℕ)
    (agree :
      let n := (paddedNumbers spelling'.numbers).getD (position - 1) 0 + increment
      f (Range.raisedText (literal.canonical.components.take (position - 1)) n (4 - position)) =
        f (Range.raisedText (literal'.canonical.components.take (position - 1)) n (4 - position))) :
    (raise term literal.slots position increment).toOption.map f =
      (raise term' literal'.slots position increment).toOption.map f := by
  rw [reading.raise_eq term inside, reading'.raise_eq term' inside, same]
  split_ifs
  · exact congrArg some agree
  · rfl

theorem raise_takes_congr (inside : 0 < position ∧ position ≤ 4) (increment : ℕ) (op : Operator) :
    (raise term literal.slots position increment).toOption.map
        (fun version => (⟨op, version ++ lowest⟩ : Bound).takes) =
      (raise term' literal'.slots position increment).toOption.map
        (fun version => (⟨op, version ++ lowest⟩ : Bound).takes) :=
  reading.raise_map_congr reading' same term term' inside increment
    (reading.raisedText_takes reading' same _ _ _ op)

theorem below_takes_congr (inside : 0 < position ∧ position ≤ 4) :
    (below term literal.slots position).toOption.map Bound.takes =
      (below term' literal'.slots position).toOption.map Bound.takes := by
  have bounds (term : Text) (literal : Literal) :
      (below term literal.slots position).toOption.map Bound.takes =
        (raise term literal.slots position 1).toOption.map
          (fun version => (⟨.lt, version ++ lowest⟩ : Bound).takes) := by
    rw [below]
    cases raise term literal.slots position 1 <;> rfl
  rw [bounds, bounds]
  exact reading.raise_takes_congr reading' same term term' inside 1 .lt

/-! ## Ends of ranges -/

omit reading' same in
/-- A caret holds the component behind the zeros fixed. -/
theorem caretPosition_eq : Range.caretPosition literal = spelling.zeros + 1 := by
  rw [Spelling.zeros, ← reading.components]
  obtain ⟨major, further, modifier⟩ := literal
  match further with
  | [] => simp [Range.caretPosition, Literal.components]
  | [minor] =>
      by_cases first : major = ['0'] <;> simp [Range.caretPosition, Literal.components, first]
  | minor :: third :: rest =>
      by_cases first : major = ['0'] <;> by_cases second : minor = ['0'] <;>
        simp [Range.caretPosition, Literal.components, first, second]

omit same in
/-- The low ends of two spellings take the same versions. -/
theorem lowEnd_takes (respells : spelling.Respells spelling') :
    (Range.lowEnd spelling.text literal).toOption.map
        (fun version => (⟨.ge, version⟩ : Bound).takes) =
      (Range.lowEnd spelling'.text literal').toOption.map
        (fun version => (⟨.ge, version⟩ : Bound).takes) := by
  have lows {spelling : Spelling} {literal : Literal} (reading : spelling.Reads literal) :
      (Range.lowEnd spelling.text literal).toOption.map
          (fun version => (⟨.ge, version⟩ : Bound).takes) =
        (Version.normalize spelling.text).toOption.map
          (fun normal => (⟨.ge, normal ++ lowest⟩ : Bound).takes) := by
    rw [Range.lowEnd, reading.silent]
    cases Version.normalize spelling.text <;> rfl
  rw [lows reading, lows reading']
  exact respells.normalize_takes Version.isSuffix_lowest .ge

omit same in
/-- The upper ends of two spellings take the same versions. -/
theorem hyphenHigh_takes (respells : spelling.Respells spelling') (lowText lowText' : Text)
    (low low' : Literal) :
    (Range.hyphenHigh term ⟨lowText, low, spelling.text, literal⟩).toOption.map Bound.takes =
      (Range.hyphenHigh term' ⟨lowText', low', spelling'.text, literal'⟩).toOption.map
        Bound.takes := by
  have highs {spelling : Spelling} {literal : Literal} (reading : spelling.Reads literal)
      (term lowText : Text) (low : Literal) :
      (Range.hyphenHigh term ⟨lowText, low, spelling.text, literal⟩).toOption.map Bound.takes =
        if 3 ≤ spelling.components.length then
          (Version.normalize spelling.text).toOption.map
            (fun normal => (⟨.le, normal ++ []⟩ : Bound).takes)
        else
          (below term literal.slots spelling.components.length).toOption.map Bound.takes := by
    have count : 2 ≤ literal.further.length ↔ 3 ≤ spelling.components.length := by
      rw [← reading.components, Literal.components, List.length_cons]
      omega
    simp only [Range.hyphenHigh, reading.silent, reading.components, count, Bool.not_true,
      Bool.or_false, decide_eq_true_eq, List.append_nil]
    split_ifs
    · cases Version.normalize spelling.text <;> rfl
    · rfl
  have length := respells.length_components
  have filled := List.length_pos_of_ne_nil spelling'.isSpelled.filled
  rw [highs reading, highs reading', length,
    respells.normalize_takes Version.isSuffix_nil .le,
    reading.below_takes_congr reading' respells.numbers term term'
      ⟨filled, spelling'.isSpelled.short⟩]

end Spelling.Reads

end

/-! ## Two ends -/

namespace Constraint

/-- The versions that two ends leave between them. -/
def between (lower upper : NormalForm → Bool) (normal : NormalForm) : Bool :=
  lower normal && upper normal

/-- A range with an upper end means what the ends leave between them. At the low end there may be
any bounds. -/
theorem toOption_map_ends {α : Type} (low : Except Error α) (high : Except Error Bound)
    (lows : α → List Bound) :
    ((do let version ← low; let bound ← high; return lows version ++ [bound]) :
        Except Error (List Bound)).toOption.map
        (fun bounds (normal : NormalForm) => bounds.all (·.takes normal)) =
      Option.map₂ between
        (low.toOption.map fun version normal => (lows version).all (·.takes normal))
        (high.toOption.map Bound.takes) := by
  cases low with
  | error fault => rfl
  | ok version =>
      cases high with
      | error fault => rfl
      | ok bound =>
          refine congrArg some (funext fun normal => ?_)
          change (lows version ++ [bound]).all (·.takes normal) = _
          rw [List.all_append, List.all_cons, List.all_nil, Bool.and_true]
          rfl

/-- A range with one bound at either end means what the bounds leave between them. -/
theorem toOption_map_pair {α : Type} (low : Except Error α) (high : Except Error Bound)
    (lows : α → Bound) :
    ((do let version ← low; let bound ← high; return [lows version, bound]) :
        Except Error (List Bound)).toOption.map
        (fun bounds (normal : NormalForm) => bounds.all (·.takes normal)) =
      Option.map₂ between (low.toOption.map fun version => (lows version).takes)
        (high.toOption.map Bound.takes) := by
  have single : (fun version (normal : NormalForm) => [lows version].all (·.takes normal)) =
      fun version => (lows version).takes := by
    funext version normal
    rw [List.all_cons, List.all_nil, Bool.and_true]
  rw [← single]
  exact toOption_map_ends low high fun version => [lows version]

end Constraint

namespace Spelling

open Constraint

/-- A caret range lies between its low end and the bound above the component that it holds fixed. -/
theorem Reads.meaning?_caret {spelling : Spelling} {literal : Literal}
    (reading : spelling.Reads literal) :
    meaning? ('^' :: spelling.text) = Option.map₂ between
      ((Range.lowEnd spelling.text literal).toOption.map
        fun version => (⟨.ge, version⟩ : Bound).takes)
      ((below ('^' :: spelling.text) literal.slots (spelling.zeros + 1)).toOption.map
        Bound.takes) := by
  rw [meaning?, readBounds_caret_of_read? reading.reads, Range.caret, reading.caretPosition_eq]
  exact toOption_map_pair _ _ _

namespace Respells

variable {spelling spelling' : Spelling} (respells : spelling.Respells spelling')

include respells

/-- A tilde range is told by its numbers. -/
theorem meaning?_tilde : meaning? ('~' :: spelling.text) = meaning? ('~' :: spelling'.text) := by
  obtain ⟨literal, reading⟩ := spelling.exists_reads
  obtain ⟨literal', reading'⟩ := spelling'.exists_reads
  have ends {spelling : Spelling} {literal : Literal} (reading : spelling.Reads literal) :
      meaning? ('~' :: spelling.text) = Option.map₂ between
        ((raise ('~' :: spelling.text) literal.slots spelling.components.length 0).toOption.map
          fun version => (⟨.ge, version ++ lowest⟩ : Bound).takes)
        ((below ('~' :: spelling.text) literal.slots
          (max (spelling.components.length - 1) 1)).toOption.map Bound.takes) := by
    rw [meaning?, readBounds_tilde reading.reads, Range.tilde, Range.tildeSuffix,
      if_pos reading.silent, reading.components]
    exact toOption_map_pair _ _ _
  have filled := List.length_pos_of_ne_nil spelling'.isSpelled.filled
  have short := spelling'.isSpelled.short
  rw [ends reading, ends reading', respells.length_components]
  exact congrArg₂ (Option.map₂ between)
    (reading.raise_takes_congr reading' respells.numbers _ _ ⟨filled, short⟩ 0 .ge)
    (reading.below_takes_congr reading' respells.numbers _ _ (by omega))

/-- A caret range is told by its numbers and by the zeros that its position is found by. -/
theorem meaning?_caret (zeros : spelling.zeros = spelling'.zeros) :
    meaning? ('^' :: spelling.text) = meaning? ('^' :: spelling'.text) := by
  obtain ⟨literal, reading⟩ := spelling.exists_reads
  obtain ⟨literal', reading'⟩ := spelling'.exists_reads
  rw [reading.meaning?_caret, reading'.meaning?_caret, zeros]
  exact congrArg₂ (Option.map₂ between) (reading.lowEnd_takes reading' respells)
    (reading.below_takes_congr reading' respells.numbers _ _ spelling'.zeros_inside)

/-- A hyphen range is told by the numbers on its sides. -/
theorem meaning?_hyphen {high high' : Spelling} (respells' : high.Respells high') :
    meaning? (spelling.text ++ ' ' :: '-' :: ' ' :: high.text) =
      meaning? (spelling'.text ++ ' ' :: '-' :: ' ' :: high'.text) := by
  obtain ⟨literal, reading⟩ := spelling.exists_reads
  obtain ⟨literal', reading'⟩ := spelling'.exists_reads
  obtain ⟨upper, readingHigh⟩ := high.exists_reads
  obtain ⟨upper', readingHigh'⟩ := high'.exists_reads
  have ends {low high : Spelling} {literal upper : Literal} (reading : low.Reads literal)
      (readingHigh : high.Reads upper) :
      meaning? (low.text ++ ' ' :: '-' :: ' ' :: high.text) = Option.map₂ between
        ((Range.lowEnd low.text literal).toOption.map
          fun version => (⟨.ge, version⟩ : Bound).takes)
        ((Range.hyphenHigh (low.text ++ ' ' :: '-' :: ' ' :: high.text)
          ⟨low.text, literal, high.text, upper⟩).toOption.map Bound.takes) := by
    rw [meaning?, readBounds_hyphen reading.reads readingHigh.reads, Range.hyphen]
    exact toOption_map_pair _ _ _
  rw [ends reading readingHigh, ends reading' readingHigh']
  exact congrArg₂ (Option.map₂ between) (reading.lowEnd_takes reading' respells)
    (readingHigh.hyphenHigh_takes readingHigh' _ _ respells' _ _ _ _)

end Respells

end Spelling

/-! ## Components left open -/

namespace Range

/-- The bound at the floor of a range with components left open, if there is one. -/
def floorBounds (version : Text) : List Bound :=
  if version = "0.0.0.0".toList then [] else [⟨.ge, version ++ lowest⟩]

theorem ofNumbers_eq_bind (term : Text) (literal : Literal) :
    ofNumbers term literal.components =
      (do let version ← raise term literal.slots literal.components.length 0
          let bound ← below term literal.slots literal.components.length
          return floorBounds version ++ [bound]) := by
  refine bind_congr fun version => bind_congr fun bound => ?_
  rw [floorBounds]
  split <;> rfl

/-- A raised version is spelled as zeros only if all of its components are single zeros. -/
theorem raisedText_eq_zeros_iff {before : List Text} {n count : ℕ}
    (kept : ∀ part ∈ before, part ≠ [] ∧ Version.Part.IsDecimal part)
    (length : before.length + 1 + count = 4) :
    raisedText before n count = "0.0.0.0".toList ↔ (∀ part ∈ before, part = ['0']) ∧ n = 0 := by
  have zeros : "0.0.0.0".toList = List.intercalate ['.'] (List.replicate 4 ['0']) := rfl
  have changed : Text.ofNat n ≠ [] ∧ Version.Part.IsDecimal (Text.ofNat n) :=
    ⟨Nat.toDigits_ne_nil, Version.Part.isDecimal_ofNat _⟩
  have undotted : ∀ part ∈ before ++ Text.ofNat n :: List.replicate count ['0'], '.' ∉ part := by
    intro part listed inside
    have areDecimal := forall_mem_raised kept changed (by decide) count
    exact absurd ((areDecimal part listed).2 '.' inside) (by decide)
  constructor
  · intro same
    have parts := congrArg (List.splitOn '.') same
    rw [raisedText, zeros, List.splitOn_intercalate '.' undotted (by simp),
      List.splitOn_intercalate '.' (by decide) (by decide)] at parts
    have all : ∀ part ∈ before ++ Text.ofNat n :: List.replicate count ['0'], part = ['0'] := by
      rw [parts]
      exact fun part => List.eq_of_mem_replicate
    obtain ⟨front, further⟩ := List.forall_mem_append.mp all
    have number := congrArg Part.value (List.forall_mem_cons.mp further).1
    rw [Version.Part.value_ofNat] at number
    exact ⟨front, number⟩
  · rintro ⟨front, rfl⟩
    rw [raisedText, zeros, List.eq_replicate_of_mem front,
      show Text.ofNat 0 = ['0'] from rfl, ← List.replicate_succ, List.replicate_append_replicate,
      Nat.add_comm count 1, ← Nat.add_assoc, length]

end Range

namespace Spelling

variable {spelling : Spelling}

theorem getD_paddedNumbers :
    (paddedNumbers spelling.numbers).getD (spelling.components.length - 1) 0 = spelling.last := by
  have positive := List.length_pos_of_ne_nil spelling.isSpelled.filled
  have inside : spelling.components.length - 1 < spelling.numbers.length := by
    rw [numbers, List.length_map]
    omega
  rw [paddedNumbers, List.getD_eq_getElem?_getD, List.getElem?_append_left inside,
    List.getElem?_eq_getElem inside]
  simp [numbers, last, List.getLast_eq_getElem]

theorem Respells.last_eq {spelling' : Spelling} (respells : spelling.Respells spelling') :
    spelling.last = spelling'.last := by
  rw [← getD_paddedNumbers, ← getD_paddedNumbers, respells.numbers, respells.length_components]

theorem areDecimal_dropLast :
    ∀ part ∈ spelling.components.dropLast, part ≠ [] ∧ Version.Part.IsDecimal part :=
  fun part listed => spelling.isSpelled.areDecimal part (List.mem_of_mem_dropLast listed)

/-- With its last number raised, a literal comes to the floor of the numbers that it has then. -/
theorem isFloor_raised (increment : ℕ) :
    IsFloor (spelling.numbers.dropLast ++
        (spelling.last + increment) :: List.replicate (4 - spelling.components.length) 0)
      (spelling.raised increment ++ lowest) := by
  rw [numbers, ← List.map_dropLast]
  exact Range.isFloor_raisedText areDecimal_dropLast _ _

theorem Respells.raised_takes {spelling' : Spelling} (respells : spelling.Respells spelling')
    (increment : ℕ) (op : Operator) :
    (⟨op, spelling.raised increment ++ lowest⟩ : Bound).takes =
      (⟨op, spelling'.raised increment ++ lowest⟩ : Bound).takes := by
  have floor := spelling.isFloor_raised increment
  rw [respells.numbers, respells.last_eq, respells.length_components] at floor
  exact floor.takes_eq (spelling'.isFloor_raised increment) op

/-- The bound at the floor is left out for the literals that lack it. -/
theorem floorBounds_raised :
    Range.floorBounds (spelling.raised 0) =
      if spelling.LacksFloor then [] else [⟨.ge, spelling.raised 0 ++ lowest⟩] := by
  have positive := List.length_pos_of_ne_nil spelling.isSpelled.filled
  have short := spelling.isSpelled.short
  have length : spelling.components.dropLast.length + 1 + (4 - spelling.components.length) = 4 := by
    rw [List.length_dropLast]
    omega
  rw [Range.floorBounds]
  exact if_congr (Range.raisedText_eq_zeros_iff areDecimal_dropLast length) rfl rfl

namespace Reads

variable {literal : Literal} (reading : spelling.Reads literal)

include reading

theorem raise_last (term : Text) (increment : ℕ) :
    raise term literal.slots spelling.components.length increment =
      if spelling.last + increment < 2 ^ 63 then .ok (spelling.raised increment)
      else .error (.componentOutOfRange term) := by
  have inside : 0 < spelling.components.length ∧ spelling.components.length ≤ 4 :=
    ⟨List.length_pos_of_ne_nil spelling.isSpelled.filled, spelling.isSpelled.short⟩
  have kept : literal.canonical.components.take (spelling.components.length - 1) =
      spelling.components.dropLast := by
    rw [Literal.components_canonical, reading.components,
      List.take_append_of_le_length (Nat.sub_le _ _), List.dropLast_eq_take]
  rw [reading.raise_eq term inside, kept, getD_paddedNumbers]
  rfl

/-- A literal that no capital letter marks is found in front of components that are left open. -/
theorem open?_eq (small : spelling.mark ≠ ['V']) {signs : List Char}
    (short : spelling.components.length ≤ 3) (filled : signs ≠ [])
    (wild : ∀ sign ∈ signs, Branch.isWildcard sign = true) :
    Range.open? (spelling.text ++ Range.openTail signs) = some literal.components := by
  have unmarked : Range.open? (spelling.text ++ Range.openTail signs) =
      Range.open? (spelling.unmarked ++ Range.openTail signs) := by
    obtain ⟨c, rest, begins, digit⟩ := spelling.exists_unmarked_cons
    have other : ¬ (c == 'v') = true := by
      simpa using Text.ne_of_isDecimalDigit digit (show Text.isDecimalDigit 'v' = false by decide)
    have isMark := spelling.isMark
    simp only [Literal.IsMark, List.mem_cons, List.not_mem_nil, or_false] at isMark
    rcases isMark with mark | mark | mark
    · rw [text, mark, List.nil_append]
    · have kept : Modifier.dropOne (· == 'v') (c :: rest ++ Range.openTail signs) =
          c :: rest ++ Range.openTail signs := if_neg other
      rw [text, mark, begins, Range.open?, Range.open?, kept]
      rfl
    · exact absurd mark small
  rw [unmarked, reading.components]
  exact Range.open?_append_openTail spelling.isSpelled short filled wild

end Reads

end Spelling

end VersionRanges

/-
# The ends of ranges

A literal behind an operator, a tilde or a caret, or on both sides of a hyphen, has a bound at its
low end and at most one above it. The low end is the literal in some spelling, with a suffix that
depends on the form; the bound above it is the literal itself or stands above it.
-/
import VersionRanges.Proofs.Overlap.Exactness
import VersionRanges.Proofs.Ranges.Comparators
import VersionRanges.Proofs.Ranges.Raising

namespace VersionRanges

open Version (Numeral standing runMarks)

/-! ## Forms -/

namespace Range

/-- The forms of a constraint with a literal at its low end. -/
inductive Form where
  | atLeast
  | caret
  | tilde
  | hyphen
deriving DecidableEq, Repr

/-- The constraint of a form. A hyphen has the literal on both sides. -/
def Form.write : Form → Text → Text
  | atLeast, text => '>' :: '=' :: text
  | caret, text => '^' :: text
  | tilde, text => '~' :: text
  | hyphen, text => text ++ ' ' :: '-' :: ' ' :: text

/-- The suffix at the low end of a caret range or a hyphen range. -/
def lowSuffix (modifier : Modifier) : Text :=
  if modifier.isSilent then lowest else modifier.suffix

/-- The suffix at the low end of a form. -/
def Form.suffix : Form → Text → Modifier → Text
  | atLeast, text, modifier =>
    modifier.suffix ++ if Comparator.hasExplicitModifier text then [] else lowest
  | caret, _, modifier | hyphen, _, modifier => lowSuffix modifier
  | tilde, _, modifier => tildeSuffix modifier

end Range

theorem Modifier.suffix_of_isSilent {modifier : Modifier} (silent : modifier.isSilent = true) :
    modifier.suffix = [] := by
  simp only [isSilent, Bool.and_eq_true, Bool.not_eq_true'] at silent
  rw [suffix, labelSuffix, devSuffix, silent.1, silent.2]
  split <;> rfl

section

variable {modifier : Modifier} (dropped : modifier.label.map Char.toLower = "stable".toList)

include dropped

/-- The label that is left out of a normal form is one. -/
theorem Modifier.hasLabel_of_dropped : modifier.hasLabel = true := by
  rw [hasLabel, Bool.not_eq_true', List.isEmpty_eq_false_iff]
  intro empty
  rw [empty] at dropped
  cases dropped

theorem Modifier.not_isSilent_of_dropped : ¬ modifier.isSilent = true := by
  simp [isSilent, hasLabel_of_dropped dropped]

end

theorem Version.isSuffix_lowSuffix {modifier : Modifier} (wellFormed : modifier.IsWellFormed) :
    IsSuffix (Range.lowSuffix modifier) := by
  rw [Range.lowSuffix]
  split
  · exact isSuffix_lowest
  · exact isSuffix_suffix wellFormed

/-! ## Terms written with a literal -/

/-- A sign for a component left open is in no literal and in no date. -/
theorem Branch.stranger_of_isWildcard {c : Char} (wild : isWildcard c = true) :
    Modifier.IsStranger c ∧ (c == 'v' || c == 'V') = false ∧ Timestamp.isDivider c = false ∧
      Text.foldCase c ∉ "dev".toList := by
  simp only [isWildcard, Bool.or_eq_true, beq_iff_eq] at wild
  rcases wild with (rfl | rfl) | rfl <;>
    exact ⟨⟨by decide, by decide, by decide⟩, by decide, by decide, by decide⟩

theorem Literal.leaves_of_read?_of_isWildcard {c : Char} (wild : Branch.isWildcard c = true)
    {text rest : Text} {literal : Literal} (reads : read? text = some (literal, rest)) :
    Text.Leaves c text rest := by
  obtain ⟨stranger, mark, -, letter⟩ := Branch.stranger_of_isWildcard wild
  exact leaves_of_read?_of_isStranger stranger mark reads (.inl letter)

/-- A version written with numbers that leaves a component open is read as a branch, or not at
all. -/
theorem Version.IsNumbered.normalForm?_of_isWildcard {text : Text} (numbered : IsNumbered text)
    {c : Char} (wild : Branch.isWildcard c = true) (inside : c ∈ text) :
    normalForm? text = ofDevName? text := by
  obtain ⟨stranger, mark, divider, letter⟩ := Branch.stranger_of_isWildcard wild
  have literal : Literal.ofVersion? text = none := by
    rw [Literal.ofVersion?]
    split
    · next literal reads =>
      exact absurd ((Literal.leaves_of_read?_of_isWildcard wild reads).mem inside) (by simp)
    · rfl
  rw [numbered.normalForm?_eq, literal,
    Timestamp.ofVersion?_eq_none_of_isStranger stranger mark divider letter inside]

namespace Range

theorem exists_isWildcard_of_isOpenTail {rest : Text} (isOpen : isOpenTail rest = true)
    (filled : rest ≠ []) : ∃ c ∈ rest, Branch.isWildcard c = true := by
  unfold isOpenTail at isOpen
  split at isOpen
  · exact absurd rfl filled
  · next c rest =>
    exact ⟨c, by simp, (Bool.and_eq_true_iff.mp isOpen).1⟩
  · cases isOpen

/-- A term that leaves a component open has a sign for it. -/
theorem exists_isWildcard_of_open? {term : Text} {numbers : List Text}
    (reads : open? term = some numbers) : ∃ c ∈ term, Branch.isWildcard c = true := by
  have blank : Text.IsForeign ' ' := by decide
  obtain ⟨rest, ⟨taken, rfl, -⟩, filled, isOpen⟩ := exists_leaves_of_open? blank reads
  obtain ⟨c, inside, wild⟩ := exists_isWildcard_of_isOpenTail isOpen filled
  exact ⟨c, List.mem_append_right taken inside, wild⟩

theorem signed?_eq_none_of_ne {sign c : Char} (other : c ≠ sign) (rest : Text) :
    signed? sign (c :: rest) = none := by
  rw [signed?, if_neg other]

/-- A literal that is read to its end has no build metadata behind it. -/
theorem readWithMetadata?_of_read? {text : Text} {literal : Literal}
    (reads : Literal.read? text = some (literal, [])) :
    Literal.readWithMetadata? text = some (literal, []) := by
  rw [Literal.readWithMetadata?, reads]
  rfl

theorem signed?_cons_of_read? {text : Text} {literal : Literal}
    (reads : Literal.read? text = some (literal, [])) (sign : Char) :
    signed? sign (sign :: text) = some literal := by
  rw [signed?, if_pos rfl, readWithMetadata?_of_read? reads]

section

variable {text : Text} {literal : Literal} (reads : Literal.read? text = some (literal, []))

include reads

/-- A literal leaves no component open. -/
theorem open?_eq_none_of_read? : open? text = none := by
  by_contra some
  obtain ⟨numbers, found⟩ := Option.ne_none_iff_exists'.mp some
  obtain ⟨c, inside, wild⟩ := exists_isWildcard_of_open? found
  have left := Literal.leaves_of_read?_of_isWildcard wild reads
  exact absurd (left.mem inside) (by simp)

/-- Two literals with a hyphen and gaps between them are the ends of a range, however long their
first components are. -/
theorem hyphen?_of_literals {high : Text} {literal' : Literal}
    (reads' : Literal.read? high = some (literal', [])) (m n : ℕ) :
    hyphen? (Term.hyphenated text high (m + 1) (n + 1)) = some ⟨text, literal, high, literal'⟩ := by
  have end' := readWithMetadata?_of_read? reads'
  have low : Literal.readWithMetadata? (Term.hyphenated text high (m + 1) (n + 1)) =
      some (literal, Term.spaces (m + 1) ++ '-' :: (Term.spaces (n + 1) ++ high)) := by
    rw [Literal.readWithMetadata?, Term.hyphenated, Term.spaces_append,
      Literal.read?_append_cons (by decide) reads]
    rfl
  have solid : high.head? ≠ some ' ' := fun space =>
    (Version.isNumbered_of_read? reads').ne_of_mem (List.mem_of_head? space) (by decide) rfl
  have spaced := Alias.dropSpaces?_replicate_append n solid
  have spaced' : Alias.dropSpaces? (Term.spaces (m + 1) ++ '-' :: (Term.spaces (n + 1) ++ high)) =
      some ('-' :: (Term.spaces (n + 1) ++ high)) := Alias.dropSpaces?_replicate_append m (by simp)
  simp only [hyphen?, low, spaced', spaced, end']
  simp [Term.hyphenated]

end

end Range

/-- A bound that a literal is below: the literal itself, or a version above all its spellings. -/
def Literal.IsUpper (literal : Literal) (bound : Bound) : Prop :=
  bound = ⟨.le, literal.normalForm⟩ ∨
    ∃ numeral : Numeral, bound = ⟨.lt, numeral.text⟩ ∧
      ∀ {suffix version}, literal.Respells suffix version → standing version < standing numeral.text

namespace Range

section

variable {text term : Text} {literal : Literal} (reads : Literal.ofVersion? text = some literal)

include reads

theorem lowEnd_of_literal :
    lowEnd text literal = .ok (literal.padded ++ lowSuffix literal.modifier) := by
  rw [lowEnd, Version.normalize_of_literal reads, lowSuffix]
  refine congrArg Except.ok ?_
  split
  · next silent =>
    rw [Literal.normalForm, Modifier.suffix_of_isSilent silent, List.append_nil]
  · rfl

theorem respells_lowSuffix : literal.Respells (lowSuffix literal.modifier)
    (literal.padded ++ lowSuffix literal.modifier) := by
  have wellFormed := Literal.isWellFormed_of_ofVersion? reads
  exact wellFormed.respells (Version.isSuffix_lowSuffix wellFormed.modifier)

theorem isUpper_of_below {position : Nat} {high : Bound} (inside : 0 < position ∧ position ≤ 4)
    (belows : below term literal.slots position = .ok high) : literal.IsUpper high :=
  .inr (exists_numeral_of_below (Literal.isWellFormed_of_ofVersion? reads) inside belows)

theorem exists_of_caret {bounds : List Bound} (range : caret ('^' :: text) literal = .ok bounds) :
    ∃ low high, bounds = [⟨.ge, low⟩, high] ∧
      literal.Respells (lowSuffix literal.modifier) low ∧ literal.IsUpper high := by
  obtain ⟨low, high, lows, belows, rfl⟩ := exists_of_both_eq_ok range
  obtain rfl := Except.ok.inj ((lowEnd_of_literal reads).symm.trans lows)
  have inside : 0 < caretPosition literal ∧ caretPosition literal ≤ 4 := by
    rw [caretPosition]
    split_ifs <;> decide
  exact ⟨_, _, rfl, respells_lowSuffix reads, isUpper_of_below reads inside belows⟩

theorem exists_of_tilde {bounds : List Bound} (range : tilde term literal = .ok bounds) :
    ∃ low high, bounds = [⟨.ge, low⟩, high] ∧
      literal.Respells (tildeSuffix literal.modifier) low ∧ literal.IsUpper high := by
  have wellFormed := Literal.isWellFormed_of_ofVersion? reads
  obtain ⟨low, high, raises, belows, rfl⟩ := exists_of_both_eq_ok range
  have short : literal.components.length ≤ 4 := Nat.succ_le_succ wellFormed.short
  have respells := respells_of_raise wellFormed
    (Version.isSuffix_tildeSuffix wellFormed.modifier) raises
  exact ⟨_, _, rfl, respells, isUpper_of_below reads (by omega) belows⟩

theorem exists_of_hyphen {bounds : List Bound}
    (range : hyphen term ⟨text, literal, text, literal⟩ = .ok bounds) :
    ∃ low high, bounds = [⟨.ge, low⟩, high] ∧
      literal.Respells (lowSuffix literal.modifier) low ∧ literal.IsUpper high := by
  have wellFormed := Literal.isWellFormed_of_ofVersion? reads
  obtain ⟨low, high, lows, highs, rfl⟩ := exists_of_both_eq_ok range
  obtain rfl := Except.ok.inj ((lowEnd_of_literal reads).symm.trans lows)
  refine ⟨_, _, rfl, respells_lowSuffix reads, ?_⟩
  rw [hyphenHigh] at highs
  split at highs
  · rw [Version.normalize_of_literal reads] at highs
    exact .inl (Except.ok.inj highs).symm
  · have inside : 0 < literal.components.length ∧ literal.components.length ≤ 4 :=
      ⟨Nat.succ_pos _, Nat.succ_le_succ wellFormed.short⟩
    exact isUpper_of_below reads inside highs

end

end Range

namespace Comparator

/-- A literal behind an operator is lowered to its previews behind two of the operators only. -/
theorem bounded_of_literal {text : Text} {literal : Literal}
    (reads : Literal.ofVersion? text = some literal) (token normal : Text) :
    bounded token text normal none =
      if (token = ['<'] || token = ['>', '=']) && !hasExplicitModifier text then
        normal ++ Range.lowest
      else normal := by
  have release := (Version.isNumbered_of_literal reads).isBranch_append []
  rw [List.append_nil] at release
  rw [bounded, Option.filter_none, release]
  simp [Range.lowest]

end Comparator

namespace Constraint

section

variable {text : Text} {literal : Literal} (reads : Literal.ofVersion? text = some literal)

include reads

omit reads in
/-- A literal behind a caret may have a first component of any length, as far as reading goes. -/
theorem readBounds_caret_of_read? (reads : Literal.read? text = some (literal, [])) :
    readBounds ('^' :: text) none = Range.caret ('^' :: text) literal := by
  have found := Range.signed?_cons_of_read? reads '^'
  have other : Range.signed? '~' ('^' :: text) = none :=
    Range.signed?_eq_none_of_ne (by decide) text
  simp only [readBounds, Range.tilde?, Range.caret?, found, other]
  rfl

theorem readBounds_caret : readBounds ('^' :: text) none = Range.caret ('^' :: text) literal :=
  readBounds_caret_of_read? (Literal.read?_of_ofVersion? reads).1

omit reads in
/-- A literal behind a tilde may have a first component of any length. -/
theorem readBounds_tilde (reads : Literal.read? text = some (literal, [])) :
    readBounds ('~' :: text) none = Range.tilde ('~' :: text) literal := by
  have found := Range.signed?_cons_of_read? reads '~'
  have numbered := Version.isNumbered_of_read? reads
  have unsigned : ['~', '>'].isPrefixOf ('~' :: text) = false := by
    obtain ⟨c, rest, rfl, -⟩ := numbered.exists_cons
    have other : c ≠ '>' := numbered.ne_of_mem List.mem_cons_self (by decide)
    simp [List.isPrefixOf, other.symm]
  rw [readBounds, unsigned, if_neg Bool.false_ne_true, Range.tilde?, found]

omit reads in
/-- A version written with numbers, with anything behind it, is neither a tilde range nor a caret
range. -/
theorem readBounds_append (numbered : Version.IsNumbered text) (rest : Text) :
    readBounds (text ++ rest) none =
      match Range.open? (text ++ rest) with
      | some numbers => Range.ofNumbers (text ++ rest) numbers
      | none =>
        match Range.hyphen? (text ++ rest) with
        | some range => Range.hyphen (text ++ rest) range
        | none => (Comparator.read (text ++ rest) none).map ([·]) := by
  obtain ⟨c, behind, rfl, -⟩ := numbered.exists_cons
  have other : c ≠ '~' := numbered.ne_of_mem List.mem_cons_self (by decide)
  have other' : c ≠ '^' := numbered.ne_of_mem List.mem_cons_self (by decide)
  have tilde := Range.signed?_eq_none_of_ne other (behind ++ rest)
  have caret := Range.signed?_eq_none_of_ne other' (behind ++ rest)
  have unsigned : ['~', '>'].isPrefixOf (c :: (behind ++ rest)) = false := by
    simp [List.isPrefixOf, other.symm]
  rw [List.cons_append]
  simp only [readBounds, unsigned, Range.tilde?, tilde, Range.caret?, caret]
  rfl

omit reads in
/-- Two literals with a hyphen between them are read as the ends of a range, whatever the gaps. -/
theorem readBounds_hyphenated (reads : Literal.read? text = some (literal, [])) {high : Text}
    {literal' : Literal} (reads' : Literal.read? high = some (literal', [])) (m n : ℕ) :
    readBounds (Term.hyphenated text high (m + 1) (n + 1)) none =
      Range.hyphen (Term.hyphenated text high (m + 1) (n + 1))
        ⟨text, literal, high, literal'⟩ := by
  have blank : Text.IsForeign ' ' := by decide
  have closed := Range.open?_eq_none blank
    (show ' ' ∈ Term.hyphenated text high (m + 1) (n + 1) by simp [Term.hyphenated])
  have range := Range.hyphen?_of_literals reads reads' m n
  rw [Term.hyphenated] at closed range ⊢
  rw [readBounds_append (Version.isNumbered_of_read? reads), closed, range]

omit reads in
theorem readBounds_hyphen (reads : Literal.read? text = some (literal, [])) {high : Text}
    {literal' : Literal} (reads' : Literal.read? high = some (literal', [])) :
    readBounds (text ++ ' ' :: '-' :: ' ' :: high) none =
      Range.hyphen (text ++ ' ' :: '-' :: ' ' :: high) ⟨text, literal, high, literal'⟩ :=
  readBounds_hyphenated reads reads' 0 0

/-- A form that can be read has its low end first, and above it only what the literal is below. -/
theorem exists_of_readBounds_form {form : Range.Form} {bounds : List Bound}
    (range : readBounds (form.write text) none = .ok bounds) :
    ∃ low highs, bounds = ⟨.ge, low⟩ :: highs ∧
      literal.Respells (form.suffix text literal.modifier) low ∧
      ∀ high ∈ highs, literal.IsUpper high := by
  cases form with
  | atLeast =>
      have wellFormed := Literal.isWellFormed_of_ofVersion? reads
      have isToken : Comparator.IsToken ['>', '='] .ge := ⟨by decide, rfl⟩
      have compares := readBounds_comparator (Version.isNumbered_of_literal reads)
        (Version.normalize_of_literal reads) isToken (by decide)
      obtain rfl := Except.ok.inj (compares.symm.trans range)
      have isSuffix := Version.isSuffix_suffix wellFormed.modifier
      refine ⟨_, [], rfl, ?_, List.forall_mem_nil _⟩
      rw [Comparator.bounded_of_literal reads, Range.Form.suffix, Literal.normalForm]
      cases Comparator.hasExplicitModifier text with
      | true =>
          rw [if_pos rfl, List.append_nil]
          exact wellFormed.respells isSuffix
      | false =>
          have respells := wellFormed.respells isSuffix.append_lowest
          rw [← List.append_assoc] at respells
          exact respells
  | caret =>
      obtain ⟨low, high, rfl, respells, upper⟩ :=
        Range.exists_of_caret reads ((readBounds_caret reads).symm.trans range)
      exact ⟨low, [high], rfl, respells, List.forall_mem_singleton.mpr upper⟩
  | tilde =>
      obtain ⟨low, high, rfl, respells, upper⟩ :=
        Range.exists_of_tilde reads
          ((readBounds_tilde (Literal.read?_of_ofVersion? reads).1).symm.trans range)
      exact ⟨low, [high], rfl, respells, List.forall_mem_singleton.mpr upper⟩
  | hyphen =>
      obtain ⟨read, -⟩ := Literal.read?_of_ofVersion? reads
      obtain ⟨low, high, rfl, respells, upper⟩ :=
        Range.exists_of_hyphen reads ((readBounds_hyphen read read).symm.trans range)
      exact ⟨low, [high], rfl, respells, List.forall_mem_singleton.mpr upper⟩

/-- Each form is one term. -/
theorem isLone_form (form : Range.Form) : IsLone (form.write text) := by
  have numbered := Version.isNumbered_of_literal reads
  cases form with
  | atLeast =>
      change IsLone (['>', '='] ++ text)
      exact isLone_append numbered (by simp)
  | caret =>
      change IsLone (['^'] ++ text)
      exact isLone_append numbered (by simp)
  | tilde =>
      change IsLone (['~'] ++ text)
      exact isLone_append numbered (by simp)
  | hyphen => exact isLone_hyphen numbered numbered

end

end Constraint

end VersionRanges

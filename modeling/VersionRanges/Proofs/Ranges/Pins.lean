/-
# Terms without an operator

A term that is no range and has no operator in front is a version, and pins the normal form of it. A
literal is such a term. What a gap tears off a hyphen range is one too, but hardly ever a version:
only what ends in `dev` can have a space in it.
-/
import VersionRanges.Proofs.Ranges.Ends
import VersionRanges.Proofs.Reading.Hyphen

namespace VersionRanges

namespace Comparator

/-- Without an operator in front, the version that is compared for equality is the whole term. -/
theorem read_eq_ok_iff {c : Char} {rest : Text} (unsigned : c ∉ ['<', '>', '=', '!'])
    (solid : Text.isBlank c = false) (line : '\n' ∉ c :: rest) (bound : Bound) :
    read (c :: rest) none = .ok bound ↔
      ∃ normal, Version.normalize (c :: rest) = .ok normal ∧ bound = ⟨.eq, normal⟩ := by
  have split : splitOperator (c :: rest) = ([], c :: rest) := by
    simp only [List.mem_cons, List.not_mem_nil, or_false, not_or] at unsigned
    obtain ⟨less, greater, equal, bang⟩ := unsigned
    unfold splitOperator
    split <;> simp_all
  have whole : operand (c :: rest) = c :: rest := by
    rw [operand, Text.trimLeft_eq_self (by rintro _ ⟨⟩; exact solid)]
    exact List.takeWhile_eq_self_iff.mpr (Text.forall_bne line)
  rw [read, split]
  dsimp only
  rw [whole]
  cases Version.normalize (c :: rest) with
  | error fault =>
      constructor
      · rintro ⟨⟩
      · rintro ⟨normal, ⟨⟩, -⟩
  | ok normal =>
      have pinned :
          (.ok ⟨.eq, normal⟩ : Except Error Bound) = .ok bound ↔ bound = ⟨.eq, normal⟩ := by
        rw [Except.ok.injEq, eq_comm]
      exact pinned.trans (by simp)

end Comparator

namespace Constraint

/-- A term that is no range and has no operator in front pins the normal form of its version. -/
theorem readBounds_eq_ok_iff {c : Char} {rest : Text}
    (unsigned : c ∉ ['<', '>', '=', '!', '~', '^']) (solid : Text.isBlank c = false)
    (line : '\n' ∉ c :: rest) (closed : Range.open? (c :: rest) = none)
    (single : Range.hyphen? (c :: rest) = none) {bounds : List Bound} :
    readBounds (c :: rest) none = .ok bounds ↔
      ∃ normal, Version.normalize (c :: rest) = .ok normal ∧ bounds = [⟨.eq, normal⟩] := by
  simp only [List.mem_cons, List.not_mem_nil, or_false, not_or] at unsigned
  obtain ⟨less, greater, equal, bang, tilde, caret⟩ := unsigned
  have arrow : ['~', '>'].isPrefixOf (c :: rest) = false := by
    simp [List.isPrefixOf, Ne.symm tilde]
  have compares :=
    Comparator.read_eq_ok_iff (by simp [less, greater, equal, bang]) solid line
  rw [readBounds, arrow, if_neg Bool.false_ne_true, Range.tilde?, Range.signed?_eq_none_of_ne tilde,
    Range.caret?, Range.signed?_eq_none_of_ne caret, closed, single]
  constructor
  · intro reads
    obtain ⟨bound, compared, rfl⟩ := exists_of_map_eq_ok reads
    obtain ⟨normal, normalizes, rfl⟩ := (compares bound).mp compared
    exact ⟨normal, normalizes, rfl⟩
  · rintro ⟨normal, normalizes, rfl⟩
    exact congrArg (Except.map ([·])) ((compares _).mpr ⟨normal, normalizes, rfl⟩)

/-- A literal by itself can be read if it has a normal form, and pins that. -/
theorem readBounds_eq_ok_iff_of_read? {text : Text} {literal : Literal}
    (reads : Literal.read? text = some (literal, [])) {bounds : List Bound} :
    readBounds text none = .ok bounds ↔
      ∃ normal, Version.normalize text = .ok normal ∧ bounds = [⟨.eq, normal⟩] := by
  have numbered := Version.isNumbered_of_read? reads
  have closed := Range.open?_eq_none_of_read? reads
  have single := Range.hyphen?_eq_none (numbered.plain ' ' (by decide))
  have unsigned := numbered.unsigned
  obtain ⟨c, rest, rfl, -⟩ := numbered.exists_cons
  exact readBounds_eq_ok_iff (unsigned c rfl) (numbered.solid c List.mem_cons_self)
    (numbered.plain '\n' (by decide)) closed single

theorem readBounds_literal {text : Text} {literal : Literal}
    (reads : Literal.ofVersion? text = some literal) :
    readBounds text none = .ok [⟨.eq, literal.normalForm⟩] :=
  (readBounds_eq_ok_iff_of_read? (Literal.read?_of_ofVersion? reads).1).mpr
    ⟨_, Version.normalize_of_literal reads, rfl⟩

theorem readTerm_eq_ok_iff_of_read? {text : Text} {literal : Literal}
    (reads : Literal.read? text = some (literal, [])) {members : List Constraint} :
    readTerm text = .ok members ↔
      ∃ normal, Version.normalize text = .ok normal ∧ members = [ofBound ⟨.eq, normal⟩] := by
  have lone : IsLone text := isLone_of_isNumbered (Version.isNumbered_of_read? reads)
  rw [lone.readTerm_eq]
  constructor
  · intro read
    obtain ⟨bounds, pins, rfl⟩ := exists_of_map_eq_ok read
    obtain ⟨normal, normalizes, rfl⟩ := (readBounds_eq_ok_iff_of_read? reads).mp pins
    exact ⟨normal, normalizes, rfl⟩
  · rintro ⟨normal, normalizes, rfl⟩
    rw [(readBounds_eq_ok_iff_of_read? reads).mpr ⟨normal, normalizes, rfl⟩]
    rfl

end Constraint

/-! ## What a gap tears off -/

theorem Text.trim_ne_nil_of_mem {text : Text} {c : Char} (inside : c ∈ text)
    (solid : Text.isBlank c = false) : Text.trim text ≠ [] := by
  obtain ⟨leading, trailing, blank, blank', whole⟩ := Text.exists_blank_append_trim text
  intro empty
  rw [whole, empty, List.append_nil] at inside
  exact (List.mem_append.mp inside).elim (blank.not_mem solid) (blank'.not_mem solid)

/-- A branch has a normal form if its name is not blank. -/
theorem Branch.exists_normalize_of_mem {name : Text} {c : Char} (inside : c ∈ name)
    (solid : Text.isBlank c = false) : ∃ normal, normalize name = .ok normal := by
  have filled : (Text.trim name).isEmpty = false := by
    simpa using Text.trim_ne_nil_of_mem inside solid
  rw [normalize, filled, if_neg Bool.false_ne_true]
  split
  · exact ⟨_, rfl⟩
  · exact ⟨_, rfl⟩

namespace Version

open Term (spaces)

/-- A version with a gap in it that begins like no branch and is no alias ends in `dev`. -/
theorem exists_devName?_of_gap {c : Char} {rest normal : Text}
    (other : Text.foldCase c ∉ ['m', 't', 'd']) (gap : ' ' ∈ c :: rest) (plain : '+' ∉ c :: rest)
    (trimmed : Text.trim (c :: rest) = c :: rest)
    (unnamed : Alias.dropWord? ((c :: rest).dropWhile Alias.isPartChar) = none)
    (reads : normalize (c :: rest) = .ok normal) : ∃ name, devName? (c :: rest) = some name := by
  have blank : Text.IsForeign ' ' := by decide
  have whole : core (c :: rest) = c :: rest := by
    rw [core, trimmed, Alias.source, unnamed, Alias.withoutMetadata_eq_self plain]
  rw [normalize_eq_ok_iff, whole, normalForm?_cons other, Literal.ofVersion?_eq_none blank gap,
    Timestamp.ofVersion?_eq_none blank gap] at reads
  obtain ⟨name, named, -⟩ := Option.bind_eq_some_iff.mp reads
  exact ⟨name, named⟩

/-- The letters of `dev` do not reach back over a space. -/
theorem exists_devName?_of_space (before : Text) {text : Text}
    (named : ∃ name, devName? (before ++ ' ' :: text) = some name) :
    ∃ name, devName? text = some name := by
  obtain ⟨v, e, d, behind, reversed, spelled⟩ := exists_devName?_iff.mp named
  refine exists_devName?_iff.mpr ?_
  rw [List.reverse_append, List.reverse_cons, List.append_assoc] at reversed
  -- the last three letters are all in the text, or one of them is the space
  rcases backwards : text.reverse with _ | ⟨v', _ | ⟨e', _ | ⟨d', behind'⟩⟩⟩ <;>
    rw [backwards] at reversed
  · obtain ⟨rfl, -⟩ : ' ' = v ∧ _ := by simpa using reversed
    simp [show Text.foldCase ' ' ≠ 'v' by decide] at spelled
  · obtain ⟨-, rfl, -⟩ : v' = v ∧ ' ' = e ∧ _ := by simpa using reversed
    simp [show Text.foldCase ' ' ≠ 'e' by decide] at spelled
  · obtain ⟨-, -, rfl, -⟩ : v' = v ∧ e' = e ∧ ' ' = d ∧ _ := by simpa using reversed
    simp [show Text.foldCase ' ' ≠ 'd' by decide] at spelled
  · obtain ⟨rfl, rfl, rfl, -⟩ : v' = v ∧ e' = e ∧ d' = d ∧ _ := by simpa using reversed
    exact ⟨v', e', d', behind', rfl, spelled⟩

section

variable {text : Text} (numbered : IsNumbered text)

include numbered

/-- With a hyphen behind it, a version written with numbers is none. -/
theorem normalize_ne_ok_of_hyphen_behind (count : ℕ) (normal : Text) :
    normalize (text ++ (spaces (count + 1) ++ ['-'])) ≠ .ok normal := by
  intro reads
  have gap : ' ' ∈ text ++ (spaces (count + 1) ++ ['-']) := by simp
  have plain : '+' ∉ text ++ (spaces (count + 1) ++ ['-']) := by
    simp [numbered.plain '+' (by decide), List.mem_replicate]
  have unnamed : Alias.dropWord?
      ((text ++ (spaces (count + 1) ++ ['-'])).dropWhile Alias.isPartChar) = none := by
    have stop : (spaces (count + 1) ++ ['-']).dropWhile Alias.isPartChar =
        spaces (count + 1) ++ ['-'] := List.dropWhile_cons_of_neg (by decide)
    rw [List.dropWhile_append_of_pos numbered.isPartChar, stop]
    exact Alias.dropWord?_replicate_append count (by simp) (by simp)
  have trimmed : Text.trim (text ++ (spaces (count + 1) ++ ['-'])) =
      text ++ (spaces (count + 1) ++ ['-']) := by
    obtain ⟨c, rest, rfl, -⟩ := numbered.exists_cons
    refine Text.trim_eq_self_of_ends ?_ fun d trailing => ?_
    · rintro _ ⟨⟩
      exact numbered.solid c List.mem_cons_self
    · rw [← List.append_assoc, List.getLast?_concat] at trailing
      obtain rfl := Option.some.inj trailing
      decide
  have named : ∃ name, devName? (text ++ (spaces (count + 1) ++ ['-'])) = some name := by
    obtain ⟨c, rest, rfl, -⟩ := numbered.exists_cons
    exact exists_devName?_of_gap numbered.foldCase_not_mem gap plain trimmed unnamed reads
  obtain ⟨v, e, d, before, reversed, spelled⟩ := exists_devName?_iff.mp named
  rw [← List.append_assoc, List.reverse_append] at reversed
  obtain rfl := (List.cons.inj reversed).1
  simp [show Text.foldCase '-' ≠ 'v' by decide] at spelled

/-- With a hyphen before it, it is a name if it ends in `dev`, or none. -/
theorem exists_devName?_of_hyphen_before {normal : Text}
    (reads : normalize ('-' :: ' ' :: text) = .ok normal) : ∃ name, devName? text = some name := by
  obtain ⟨c, rest, rfl, first⟩ := numbered.exists_cons
  have space : c ≠ ' ' := (numbered.undivided c List.mem_cons_self).2
  have letter : c ≠ 'a' := by
    rcases first with digit | rfl | rfl
    · exact Text.ne_of_isDecimalDigit digit (by decide)
    · decide
    · decide
  have plain : '+' ∉ '-' :: ' ' :: c :: rest := by
    simpa using numbered.plain '+' (by decide)
  have unnamed : Alias.dropWord? (('-' :: ' ' :: c :: rest).dropWhile Alias.isPartChar) = none :=
    Alias.dropWord?_replicate_append 0 (by simpa using space) (by simpa using letter)
  have trimmed : Text.trim ('-' :: ' ' :: c :: rest) = '-' :: ' ' :: c :: rest := by
    refine Text.trim_eq_self_of_ends (by rintro _ ⟨⟩; decide) fun d trailing => ?_
    rw [List.getLast?_cons_cons, List.getLast?_cons_cons] at trailing
    exact numbered.solid d (List.mem_of_getLast? trailing)
  have named := exists_devName?_of_gap (by decide) (by simp) plain trimmed unnamed reads
  exact exists_devName?_of_space ['-'] named

/-- A version written with numbers that ends in `dev` has a normal form. -/
theorem exists_normalize_of_devName? (named : ∃ name, devName? text = some name) :
    ∃ normal, normalize text = .ok normal := by
  obtain ⟨name, named⟩ := named
  obtain ⟨c, rest, begins, digit⟩ := numbered.digit
  have inside : c ∈ text := by
    obtain ⟨mark, -, whole⟩ := Literal.exists_isMark_append_dropMark text
    rw [whole, begins]
    simp
  have letter : Text.foldCase c ∉ "dev".toList := by
    have other : ∀ letter ∈ "dev".toList, Text.isDecimalDigit letter = false :=
      List.all_iff_forall_prop.mp (by decide)
    rw [Text.foldCase_of_isDecimalDigit digit]
    exact fun listed => Text.ne_of_isDecimalDigit digit (other c listed) rfl
  have kept : c ∈ name :=
    (mem_of_devName? letter (Modifier.isJoint_of_isDecimalDigit digit) inside
      (numbered.plain '\n' (by decide)) named).1
  have branch := Branch.exists_normalize_of_mem kept (numbered.solid c inside)
  simp only [normalize_eq_ok_iff, numbered.core_eq_self, numbered.normalForm?_eq]
  cases Literal.ofVersion? text with
  | some literal => exact ⟨_, rfl⟩
  | none =>
      cases Timestamp.ofVersion? text with
      | some timestamp => exact ⟨_, rfl⟩
      | none =>
          obtain ⟨normal, normalizes⟩ := branch
          refine ⟨normal, ?_⟩
          dsimp only
          rw [ofDevName?, named, Option.bind_some, normalizes]
          rfl

end

/-- A literal that ends in `dev` is marked as a development version. -/
theorem isDev_of_devName? {text : Text} {literal : Literal}
    (reads : Literal.read? text = some (literal, [])) (named : ∃ name, devName? text = some name) :
    literal.modifier.isDev = true := by
  obtain ⟨v, e, d, before, reversed, spelled⟩ := exists_devName?_iff.mp named
  have inside : d ∈ text := by
    rw [← List.mem_reverse, reversed]
    simp
  have letter : Text.foldCase d = 'd' := (List.cons.inj spelled).1
  have digit : Text.isDecimalDigit d = false := by
    rw [Bool.eq_false_iff]
    intro digit
    rw [Text.foldCase_of_isDecimalDigit digit] at letter
    exact absurd (letter ▸ digit) (by decide)
  have mark : (d == 'v' || d == 'V') = false := by
    rw [Bool.eq_false_iff]
    intro mark
    rcases (by simpa using mark : d = 'v' ∨ d = 'V') with rfl | rfl <;>
      exact absurd letter (by decide)
  have stranger : Modifier.IsStranger d :=
    ⟨digit, Modifier.isSeparator_of_foldCase letter, by rw [letter]; decide⟩
  by_contra unmarked
  have left := Literal.leaves_of_read?_of_isStranger stranger mark reads
    (.inr (by simpa using unmarked))
  exact absurd (left.mem inside) List.not_mem_nil

end Version

namespace Constraint

open Term (spaces)

/-- A term with a gap in it that is no range and has no operator in front is read only if it is a
version. -/
theorem exists_normalize_of_readTerm {c : Char} {rest : Text} {members : List Constraint}
    (unsigned : c ∉ ['<', '>', '=', '!', '~', '^']) (solid : Text.isBlank c = false)
    (line : '\n' ∉ c :: rest) (gap : ' ' ∈ c :: rest) (unflagged : '@' ∉ c :: rest)
    (single : Range.hyphen? (c :: rest) = none) (read : readTerm (c :: rest) = .ok members) :
    ∃ normal, Version.normalize (c :: rest) = .ok normal := by
  have blank : Text.IsForeign ' ' := by decide
  rw [readTerm, splitFlag_eq_self unflagged] at read
  dsimp only at read
  rw [Range.isWildcard_eq_false blank gap, if_neg Bool.false_ne_true] at read
  obtain ⟨bounds, pins, -⟩ := exists_of_map_eq_ok read
  obtain ⟨normal, normalizes, -⟩ :=
    (readBounds_eq_ok_iff unsigned solid line (Range.open?_eq_none blank gap) single).mp pins
  exact ⟨normal, normalizes⟩

section

variable {text : Text} {literal : Literal} (reads : Literal.read? text = some (literal, []))
  {members : List Constraint}

include reads

/-- A literal with a hyphen behind it is no term. -/
theorem readTerm_ne_ok_of_hyphen_behind (count : ℕ) :
    readTerm (text ++ (spaces (count + 1) ++ ['-'])) ≠ .ok members := by
  have numbered := Version.isNumbered_of_read? reads
  have single : Range.hyphen? (text ++ (spaces (count + 1) ++ ['-'])) = none := by
    have low : Literal.readWithMetadata? (text ++ (spaces (count + 1) ++ ['-'])) =
        some (literal, spaces (count + 1) ++ ['-']) := by
      rw [Literal.readWithMetadata?, Term.spaces_append,
        Literal.read?_append_cons (by decide) reads]
      rfl
    have spaced : Alias.dropSpaces? (spaces (count + 1) ++ ['-']) = some ['-'] :=
      Alias.dropSpaces?_replicate_append count (by simp)
    simp only [Range.hyphen?, low, spaced]
    rfl
  have foreign (sign : Char) (foreign : Text.IsForeign sign) (space : sign ≠ ' ')
      (hyphen : sign ≠ '-') : sign ∉ text ++ (spaces (count + 1) ++ ['-']) := by
    simp [numbered.plain sign foreign, space, hyphen, List.mem_replicate]
  have line := foreign '\n' (by decide) (by decide) (by decide)
  have unflagged := foreign '@' (by decide) (by decide) (by decide)
  have gap : ' ' ∈ text ++ (spaces (count + 1) ++ ['-']) := by simp
  have never := Version.normalize_ne_ok_of_hyphen_behind numbered count
  intro read
  have unsigned := numbered.unsigned
  obtain ⟨c, rest, rfl, -⟩ := numbered.exists_cons
  obtain ⟨normal, normalizes⟩ := exists_normalize_of_readTerm (unsigned c rfl)
    (numbered.solid c List.mem_cons_self) line gap unflagged single read
  exact never normal normalizes

/-- A literal with a hyphen before it is a term only if it is marked as a development version, and
then it is a version by itself. -/
theorem isDev_of_readTerm_hyphen_before (read : readTerm ('-' :: ' ' :: text) = .ok members) :
    literal.modifier.isDev = true ∧ ∃ normal, Version.normalize text = .ok normal := by
  have numbered := Version.isNumbered_of_read? reads
  have single : Range.hyphen? ('-' :: ' ' :: text) = none := rfl
  have foreign (sign : Char) (foreign : Text.IsForeign sign) (space : sign ≠ ' ')
      (hyphen : sign ≠ '-') : sign ∉ '-' :: ' ' :: text := by
    simp [numbered.plain sign foreign, space, hyphen]
  obtain ⟨normal, normalizes⟩ := exists_normalize_of_readTerm (by decide) (by decide)
    (foreign '\n' (by decide) (by decide) (by decide)) (by simp)
    (foreign '@' (by decide) (by decide) (by decide)) single read
  have named := Version.exists_devName?_of_hyphen_before numbered normalizes
  exact ⟨Version.isDev_of_devName? reads named,
    Version.exists_normalize_of_devName? numbered named⟩

end

end Constraint

end VersionRanges

/-
# Spacing inside a term

The readers of hyphen ranges and of aliases skip any number of spaces around the hyphen and the
word. They see a term only after the text was divided, and a wide gap divides it: then the sides of
a range are read as versions that all have to be equal, and the word of an alias becomes part of a
name, or nothing can be read. A range and an alias stay whole just where no gap divides.
-/
import VersionRanges.Proofs.Normal.Additions
import VersionRanges.Proofs.Ranges.Pins
import VersionRanges.Proofs.Reading.Padding

namespace VersionRanges

open Term (spaces hyphenated aliased IsNarrow)

/-! ## Texts that are read alike -/

namespace Constraint

section

variable {text text' : Text}

/-- Terms with the same bounds are read alike. -/
theorem IsLone.readAlike (lone : IsLone text) (lone' : IsLone text')
    (same : ∀ bounds, readBounds text none = .ok bounds ↔ readBounds text' none = .ok bounds) :
    ReadAlike text text' := by
  refine Option.ext fun required => ?_
  rw [Option.map_eq_some_iff]
  simp only [toOption_eq_some_iff, lone.parse_eq_ok_iff, lone'.parse_eq_ok_iff, same]
  constructor
  · rintro ⟨_, ⟨bounds, reads, rfl⟩, rfl⟩
    exact ⟨bounds, reads, (withLabel_withLabel _ _ _).symm⟩
  · rintro ⟨bounds, reads, rfl⟩
    exact ⟨_, ⟨bounds, reads, rfl⟩, withLabel_withLabel _ _ _⟩

/-- What one of two texts that are read alike is read as, the other is too, with another label. -/
theorem ReadAlike.exists_parse (alike : ReadAlike text text') {required : Constraint}
    (reads : parse text' = .ok required) :
    ∃ required', parse text = .ok required' ∧ required'.withLabel text' = required := by
  rw [ReadAlike, toOption_eq_some_iff.mpr reads, Option.map_eq_some_iff] at alike
  simpa only [toOption_eq_some_iff] using alike

theorem readAlike_of_refused (refused : ∀ required, parse text ≠ .ok required)
    (refused' : ∀ required, parse text' ≠ .ok required) : ReadAlike text text' := by
  refine Option.ext fun required => ?_
  rw [Option.map_eq_some_iff]
  simp only [toOption_eq_some_iff, refused, refused', false_and, exists_false]

theorem mem_bounds_join {connective : Connective} {members : List Constraint} {member : Constraint}
    (listed : member ∈ members) {bound : Bound} (leaf : bound ∈ member.bounds) :
    bound ∈ (join connective members).bounds := by
  match members with
  | [single] => exact List.mem_singleton.mp listed ▸ leaf
  | first :: second :: members => exact mem_bounds_group.mpr ⟨member, listed, leaf⟩

/-- If a text of one alternative is read, so are its terms, and their bounds are bounds of it. -/
theorem exists_readTerm_of_parse (alone : Alternative.split (core text) = [text])
    (filled : text ≠ []) {required : Constraint} (reads : parse text = .ok required) {term : Text}
    (listed : term ∈ Term.split text) :
    ∃ members, readTerm term = .ok members ∧
      ∀ member ∈ members, ∀ bound ∈ member.bounds, bound ∈ required.bounds := by
  obtain ⟨terms, read, rfl⟩ := (parse_eq_ok_iff_of_alone alone filled).mp reads
  obtain ⟨members, inside, readTerm⟩ := exists_of_mem_left (mapM_eq_ok_iff.mp read) listed
  refine ⟨members, readTerm, fun member listed' bound leaf => ?_⟩
  rw [bounds_withLabel]
  exact mem_bounds_join (List.mem_flatten_of_mem inside listed') leaf

end

/-- Whatever is read as a term has a bound. -/
theorem readBounds_ne_nil {term : Text} {flag : Option Text} {bounds : List Bound}
    (reads : readBounds term flag = .ok bounds) : bounds ≠ [] := by
  have form := hasForm_readBounds term flag
  generalize readBounds term flag = outcome at form reads
  cases form with
  | arrow => cases reads
  | tilde | caret | hyphen =>
      obtain ⟨low, high, -, -, rfl⟩ := exists_of_both_eq_ok reads
      exact List.cons_ne_nil _ _
  | numbers =>
      obtain ⟨low, -, reads⟩ := exists_of_bind_eq_ok reads
      obtain ⟨high, -, reads⟩ := exists_of_bind_eq_ok reads
      split at reads <;> exact Except.ok.inj reads ▸ List.cons_ne_nil _ _
  | comparator =>
      obtain ⟨bound, -, rfl⟩ := exists_of_map_eq_ok reads
      exact List.cons_ne_nil _ _

theorem readTerm_ne_nil {term : Text} {members : List Constraint}
    (reads : readTerm term = .ok members) : members ≠ [] := by
  rcases eq_anything_or_exists_of_readTerm reads with rfl | ⟨bounds, read, rfl⟩
  · exact List.cons_ne_nil _ _
  · simpa using readBounds_ne_nil read

theorem asBound?_withLabel (text : Text) (required : Constraint) :
    (required.withLabel text).asBound? = required.asBound? := by
  cases required <;> rfl

/-- Several terms make no single bound. -/
theorem asBound?_eq_none_of_parse {text : Text} (alone : Alternative.split (core text) = [text])
    (filled : text ≠ []) {first second : Text} {further : List Text}
    (split : Term.split text = first :: second :: further) {required : Constraint}
    (reads : parse text = .ok required) : required.asBound? = none := by
  obtain ⟨terms, read, rfl⟩ := (parse_eq_ok_iff_of_alone alone filled).mp reads
  rw [split, mapM_eq_ok_iff] at read
  obtain ⟨members, _, readFirst, behind, rfl⟩ := List.forall₂_cons_left_iff.mp read
  obtain ⟨members', _, readSecond, -, rfl⟩ := List.forall₂_cons_left_iff.mp behind
  obtain ⟨member, others, rfl⟩ := List.exists_cons_of_ne_nil (readTerm_ne_nil readFirst)
  obtain ⟨member', others', rfl⟩ := List.exists_cons_of_ne_nil (readTerm_ne_nil readSecond)
  rw [asBound?_withLabel]
  cases others <;> rfl

end Constraint

/-! ## Hyphens -/

namespace Range

/-- The term has a part in the refusals of a range alone. -/
theorem hyphen_eq_ok_iff (term term' : Text) (range : Hyphen) (bounds : List Bound) :
    hyphen term range = .ok bounds ↔ hyphen term' range = .ok bounds := by
  have same : (hyphenHigh term range).toOption = (hyphenHigh term' range).toOption := by
    rw [hyphenHigh, hyphenHigh]
    split
    · rfl
    · rw [below, below, raise, raise]
      split <;> rfl
  rw [hyphen, hyphen]
  cases lowEnd range.lowText range.low with
  | error fault => exact Iff.rfl
  | ok low =>
      cases high : hyphenHigh term range <;> cases high' : hyphenHigh term' range <;>
        simp_all [Except.toOption, bind, Except.bind]

/-- No end of a hyphen range pins a version. -/
theorem operator_ne_of_hyphen {term : Text} {range : Hyphen} {bounds : List Bound}
    (reads : hyphen term range = .ok bounds) : ∀ bound ∈ bounds, bound.operator ≠ .eq := by
  obtain ⟨low, high, -, highs, rfl⟩ := exists_of_both_eq_ok reads
  have upper : high.operator ≠ .eq := by
    rw [hyphenHigh] at highs
    split at highs
    · obtain ⟨_, -, rfl⟩ := exists_of_map_eq_ok highs
      simp
    · obtain ⟨_, -, rfl⟩ := exists_of_map_eq_ok highs
      simp
  simp [upper]

/-- A range is read if its ends are versions and the upper one is marked as a development
version. -/
theorem exists_hyphen_of_isDev {term : Text} {range : Hyphen} {low high : Text}
    (lows : Version.normalize range.lowText = .ok low)
    (isDev : range.high.modifier.isDev = true)
    (highs : Version.normalize range.highText = .ok high) :
    ∃ bounds, hyphen term range = .ok bounds := by
  have marked : (2 ≤ range.high.further.length || !range.high.modifier.isSilent) = true := by
    simp [Modifier.isSilent, isDev]
  have upper : hyphenHigh term range = .ok ⟨.le, high⟩ := by
    rw [hyphenHigh, if_pos marked, highs]
    rfl
  rw [hyphen, upper, lowEnd, lows]
  exact ⟨_, rfl⟩

end Range

namespace Term

theorem opens_of_isNumbered {text : Text} (numbered : Version.IsNumbered text) : Opens text := by
  obtain ⟨c, rest, rfl, first⟩ := numbered.exists_cons
  obtain ⟨comma, space⟩ := numbered.undivided c List.mem_cons_self
  have other : c ≠ 'a' ∧ c ≠ '-' := by
    rcases first with digit | rfl | rfl
    · exact ⟨Text.ne_of_isDecimalDigit digit (by decide),
        Text.ne_of_isDecimalDigit digit (by decide)⟩
    · decide
    · decide
  refine ⟨?_, by simpa using other.2, by simpa using space⟩
  simp [canBegin, comma, List.isPrefixOf, Ne.symm other.1]

/-- A term can end with a literal: no keyword ends in the letters of an alias. -/
theorem canEnd_of_read? {text : Text} {literal : Literal}
    (reads : Literal.read? text = some (literal, [])) : canEnd text.reverse = true := by
  have numbered := Version.isNumbered_of_read? reads
  obtain ⟨c, rest, rfl, -⟩ := numbered.exists_cons
  obtain ⟨last, front, reversed⟩ :=
    List.exists_cons_of_ne_nil (List.reverse_ne_nil_iff.mpr (List.cons_ne_nil c rest))
  have inside : last ∈ c :: rest := List.mem_reverse.mp (reversed ▸ List.mem_cons_self)
  have ending : (c :: rest).getLast? = some last := by
    rw [← List.head?_reverse, reversed, List.head?_cons]
  have letter : last ≠ 's' := by
    rintro rfl
    exact Literal.getLast?_ne_of_read? (by decide) (by decide) (by decide) (by decide) (by decide)
      reads ending
  obtain ⟨comma, space⟩ := numbered.undivided last inside
  have equal : last ≠ '=' := numbered.ne_of_mem inside (by decide)
  have less : last ≠ '<' := numbered.ne_of_mem inside (by decide)
  have greater : last ≠ '>' := numbered.ne_of_mem inside (by decide)
  rw [reversed, canEnd]
  simp [comma, space, equal, less, greater, letter]

end Term

namespace Constraint

section

variable {low high : Text} {lowLiteral highLiteral : Literal}
  (reads : Literal.read? low = some (lowLiteral, []))
  (reads' : Literal.read? high = some (highLiteral, [])) {m n : ℕ}

include reads reads'

/-- The bounds of a hyphen range do not depend on its gaps. -/
theorem readBounds_hyphenated_iff (bounds : List Bound) :
    readBounds (hyphenated low high (m + 1) (n + 1)) none = .ok bounds ↔
      readBounds (hyphenated low high 1 1) none = .ok bounds := by
  have single := readBounds_hyphenated reads reads' 0 0
  rw [readBounds_hyphenated reads reads', single]
  exact Range.hyphen_eq_ok_iff _ _ _ bounds

theorem readAlike_hyphenated_of_isNarrow (narrow : IsNarrow low (m + 1)) :
    ReadAlike (hyphenated low high (m + 1) 1) (hyphenated low high 1 1) := by
  have numbered := Version.isNumbered_of_read? reads
  have numbered' := Version.isNumbered_of_read? reads'
  have single : IsNarrow low 1 := .inl le_rfl
  exact (isLone_hyphenated numbered numbered' narrow).readAlike
    (isLone_hyphenated numbered numbered' single) (readBounds_hyphenated_iff reads reads')

section

variable (torn : ¬ (IsNarrow low (m + 1) ∧ n + 1 = 1)) {required : Constraint}
  (parses : parse (hyphenated low high (m + 1) (n + 1)) = .ok required)

include torn parses

theorem exists_readTerm_of_torn (term : Text)
    (listed : term ∈ if IsNarrow low (m + 1) then [low ++ (spaces (m + 1) ++ ['-']), high]
      else if n + 1 = 1 then [low, '-' :: ' ' :: high] else [low, ['-'], high]) :
    ∃ members, readTerm term = .ok members ∧
      ∀ member ∈ members, ∀ bound ∈ member.bounds, bound ∈ required.bounds := by
  have numbered := Version.isNumbered_of_read? reads
  have numbered' := Version.isNumbered_of_read? reads'
  rw [← Term.split_hyphenated numbered.undivided numbered'.undivided (Term.canEnd_of_read? reads)
    (Term.opens_of_isNumbered numbered') (Nat.succ_pos n) torn] at listed
  exact exists_readTerm_of_parse (isUncut_hyphenated numbered numbered' _ _).alone
    (by simp [hyphenated]) parses listed

/-- A range that is torn apart, if it is read at all, pins a version. -/
theorem exists_pin_of_torn : ∃ bound ∈ required.bounds, bound.operator = .eq := by
  have pinned {side : Text} {literal : Literal} (reads : Literal.read? side = some (literal, []))
      (read : ∃ members, readTerm side = .ok members ∧
        ∀ member ∈ members, ∀ bound ∈ member.bounds, bound ∈ required.bounds) :
      ∃ bound ∈ required.bounds, bound.operator = .eq := by
    obtain ⟨members, read, within⟩ := read
    obtain ⟨normal, -, rfl⟩ := (readTerm_eq_ok_iff_of_read? reads).mp read
    exact ⟨⟨.eq, normal⟩, within _ (List.mem_singleton_self _) _ (List.mem_singleton_self _), rfl⟩
  by_cases narrow : IsNarrow low (m + 1)
  · exact pinned reads' (exists_readTerm_of_torn reads reads' torn parses _ (by simp [narrow]))
  · refine pinned reads (exists_readTerm_of_torn reads reads' torn parses _ ?_)
    rw [if_neg narrow]
    split <;> simp

/-- A range that is torn apart is read only if it could be read whole: its sides are versions, and
the upper one is marked as a development version. -/
theorem exists_parse_of_torn :
    ∃ required', parse (hyphenated low high 1 1) = .ok required' := by
  have numbered := Version.isNumbered_of_read? reads
  have numbered' := Version.isNumbered_of_read? reads'
  have found := exists_readTerm_of_torn reads reads' torn parses
  by_cases narrow : IsNarrow low (m + 1)
  · obtain ⟨members, read, -⟩ := found _ (by rw [if_pos narrow]; exact List.mem_cons_self)
    exact absurd read (readTerm_ne_ok_of_hyphen_behind reads m)
  · by_cases single : n + 1 = 1
    · obtain ⟨members, read, -⟩ := found low (by simp [narrow, single])
      obtain ⟨members', read', -⟩ := found ('-' :: ' ' :: high) (by simp [narrow, single])
      obtain ⟨normal, normalizes, -⟩ := (readTerm_eq_ok_iff_of_read? reads).mp read
      obtain ⟨isDev, normal', normalizes'⟩ := isDev_of_readTerm_hyphen_before reads' read'
      have lone := isLone_hyphenated numbered numbered' (m := 1) (.inl le_rfl)
      refine lone.exists_parse_iff.mpr ?_
      rw [readBounds_hyphenated reads reads' 0 0]
      exact Range.exists_hyphen_of_isDev normalizes isDev normalizes'
    · obtain ⟨members, read, -⟩ := found ['-']
        (by rw [if_neg narrow, if_neg single]; simp)
      cases read

end

/-- The gaps of a hyphen range make no difference where they leave it whole, or where it could not
be read anyway. -/
theorem readAlike_hyphenated_iff :
    ReadAlike (hyphenated low high (m + 1) (n + 1)) (hyphenated low high 1 1) ↔
      IsNarrow low (m + 1) ∧ n + 1 = 1 ∨
        ∀ required, parse (hyphenated low high 1 1) ≠ .ok required := by
  by_cases whole : IsNarrow low (m + 1) ∧ n + 1 = 1
  · refine iff_of_true ?_ (.inl whole)
    rw [whole.2]
    exact readAlike_hyphenated_of_isNarrow reads reads' whole.1
  -- a range that is torn apart pins a version, which a whole one never does
  · have numbered := Version.isNumbered_of_read? reads
    have numbered' := Version.isNumbered_of_read? reads'
    have lone := isLone_hyphenated numbered numbered' (m := 1) (.inl le_rfl)
    rw [or_iff_right whole]
    constructor
    · intro alike required parses
      obtain ⟨required', parses', rfl⟩ := alike.exists_parse parses
      obtain ⟨bound, leaf, pins⟩ := exists_pin_of_torn reads reads' whole parses'
      have range := lone.readBounds_of_parse parses
      rw [readBounds_hyphenated reads reads' 0 0, bounds_withLabel] at range
      exact Range.operator_ne_of_hyphen range bound leaf pins
    · intro refused
      refine readAlike_of_refused (fun required parses => ?_) refused
      obtain ⟨required', parses'⟩ := exists_parse_of_torn reads reads' whole parses
      exact refused required' parses'

end

end Constraint

/-! ## Aliases -/

/-- A text that can stand on either side of an alias in a constraint: it holds no blank, no comma
and none of the signs that divide alternatives, flag a constraint or refer to a commit. -/
structure Alias.IsSide (text : Text) : Prop extends Alias.IsPart text where
  absent : ∀ sign ∈ ['|', '@', '#'], sign ∉ text

theorem Alias.IsSide.isEnd {text : Text} (isSide : IsSide text) : Constraint.IsEnd text :=
  ⟨isSide.filled, isSide.solid, isSide.absent⟩

/-- A literal with its build metadata takes no blank. -/
theorem Literal.leaves_of_readWithMetadata? {text rest : Text} {literal : Literal}
    (reads : readWithMetadata? text = some (literal, rest)) : Text.Leaves ' ' text rest := by
  obtain ⟨left, read, rfl⟩ := exists_read?_of_readWithMetadata? reads
  refine (leaves_of_read? (by decide) read).trans ?_
  fun_cases dropMetadata left with
  | case1 c rest blank => exact .refl ' ' _
  | case2 c rest solid =>
      have other : c ≠ ' ' := by
        rintro rfl
        exact absurd solid (by decide)
      exact ((Text.leaves_dropWhile (by decide) rest).cons other.symm).cons (by decide)
  | case3 => exact .refl ' ' _

section

variable {source target : Text} (isSide : Alias.IsSide source) (isSide' : Alias.IsSide target)
  {m n : ℕ}

include isSide isSide'

namespace Constraint

theorem isUncut_aliased (m n : ℕ) : IsUncut (aliased source target m n) := by
  have whole : aliased source target m n =
      source ++ ((spaces m ++ 'a' :: 's' :: spaces n) ++ target) := by simp [aliased]
  rw [whole]
  apply isUncut_between isSide.isEnd isSide'.isEnd
  have other : ∀ sign ∈ ['|', '@', '#'], sign ≠ ' ' ∧ sign ≠ 'a' ∧ sign ≠ 's' :=
    List.all_iff_forall_prop.mp (by decide)
  intro sign listed
  simp [other sign listed, List.mem_replicate]

end Constraint

/-- An alias has the normal form of its source. -/
theorem Version.normalize_aliased_iff (normal : Text) :
    normalize (aliased source target (m + 1) (n + 1)) = .ok normal ↔
      normalize source = .ok normal := by
  rw [normalize_eq_ok_iff, normalize_eq_ok_iff, core_aliased isSide.toIsPart isSide'.toIsPart]

omit isSide' in
/-- An alias is no hyphen range: behind the literal that it may begin with, the first gap goes on
with the word. -/
theorem Range.hyphen?_aliased : hyphen? (aliased source target (m + 1) (n + 1)) = none := by
  rw [hyphen?]
  split
  · rfl
  · next low rest read =>
    have left : Text.Leaves ' '
        (source ++ ' ' :: (spaces m ++ 'a' :: 's' :: (spaces (n + 1) ++ target))) rest :=
      Literal.leaves_of_readWithMetadata? read
    obtain ⟨front, ending, rfl⟩ := left.exists_suffix
    cases front with
    | nil =>
        have spaced : Alias.dropSpaces?
            (spaces (m + 1) ++ 'a' :: 's' :: (spaces (n + 1) ++ target)) = some _ :=
          Alias.dropSpaces?_replicate_append m (by simp)
        rw [List.nil_append, ← Term.spaces_append, spaced]
        rfl
    | cons c front =>
        have solid := (isSide.undivided c (ending.subset List.mem_cons_self)).2
        rw [Alias.dropSpaces?_eq_none (by simpa using solid)]

namespace Constraint

variable (unsigned : ∀ c, source.head? = some c → c ∉ ['<', '>', '=', '!', '~', '^'])

include unsigned

/-- An alias without an operator in front pins the normal form of its source. -/
theorem readBounds_aliased_iff (bounds : List Bound) :
    readBounds (aliased source target (m + 1) (n + 1)) none = .ok bounds ↔
      ∃ normal, Version.normalize source = .ok normal ∧ bounds = [⟨.eq, normal⟩] := by
  have blank : Text.IsForeign ' ' := by decide
  have closed := Range.open?_eq_none blank
    (show ' ' ∈ aliased source target (m + 1) (n + 1) by simp [aliased])
  have single : Range.hyphen? (aliased source target (m + 1) (n + 1)) = none :=
    Range.hyphen?_aliased isSide
  have line : '\n' ∉ aliased source target (m + 1) (n + 1) := by
    have apart : '\n' ∉ source := isSide.not_mem (by decide)
    have apart' : '\n' ∉ target := isSide'.not_mem (by decide)
    simp [aliased, apart, apart', List.mem_replicate]
  simp only [← Version.normalize_aliased_iff isSide isSide' (m := m) (n := n)]
  have solid := isSide.solid
  obtain ⟨c, rest, rfl⟩ := List.exists_cons_of_ne_nil isSide.filled
  exact readBounds_eq_ok_iff (unsigned c rfl) (solid c List.mem_cons_self) line closed single

omit unsigned in
/-- An alias is one term, with a narrow gap in front of the word or a source that no term can end
with. -/
theorem isLone_aliased (kept : IsNarrow source (m + 1) ∨ Term.canEnd source.reverse = false) :
    IsLone (aliased source target (m + 1) (n + 1)) :=
  (isUncut_aliased isSide isSide' (m + 1) (n + 1)).isLone_of_gap (by simp [aliased])
    (Term.split_aliased_of_kept isSide.undivided isSide'.undivided kept)

/-- With single spaces, the alias of a version is read as the pin of its normal form. -/
theorem exists_parse_aliased (isVersion : ∃ normal, Version.normalize source = .ok normal) :
    ∃ required, parse (aliased source target 1 1) = .ok required ∧
      required.asBound?.isSome = true := by
  obtain ⟨normal, normalizes⟩ := isVersion
  have single : IsLone (aliased source target 1 1) :=
    isLone_aliased isSide isSide' (m := 0) (n := 0) (.inl (.inl le_rfl))
  have pins := (readBounds_aliased_iff isSide isSide' unsigned (m := 0) (n := 0) _).mpr
    ⟨normal, normalizes, rfl⟩
  exact ⟨_, single.parse_eq_ok_iff.mpr ⟨_, pins, rfl⟩, rfl⟩

/-- The gap behind the word of an alias makes no difference. The gap in front makes none where it
leaves the alias whole; a wider one makes two terms of it, which are no pin together. -/
theorem readAlike_aliased_iff (isVersion : ∃ normal, Version.normalize source = .ok normal) :
    ReadAlike (aliased source target (m + 1) (n + 1)) (aliased source target 1 1) ↔
      IsNarrow source (m + 1) ∨ Term.canEnd source.reverse = false := by
  have pins {m n : ℕ} := readBounds_aliased_iff isSide isSide' unsigned (m := m) (n := n)
  have single : IsLone (aliased source target 1 1) :=
    isLone_aliased isSide isSide' (m := 0) (n := 0) (.inl (.inl le_rfl))
  by_cases kept : IsNarrow source (m + 1) ∨ Term.canEnd source.reverse = false
  · refine iff_of_true ?_ kept
    exact (isLone_aliased isSide isSide' kept).readAlike single fun bounds =>
      (pins bounds).trans (pins (m := 0) (n := 0) bounds).symm
  · refine iff_of_false (fun alike => ?_) kept
    obtain ⟨wide, ends⟩ := not_or.mp kept
    obtain ⟨required, parses, isPin⟩ := exists_parse_aliased isSide isSide' unsigned isVersion
    obtain ⟨required', parses', rfl⟩ := alike.exists_parse parses
    have torn :=
      Term.split_aliased isSide.undivided isSide'.undivided wide (by simpa using ends) (n := n + 1)
    have several := asBound?_eq_none_of_parse (isUncut_aliased isSide isSide' _ _).alone
      (by simp [aliased]) torn parses'
    rw [asBound?_withLabel, several] at isPin
    cases isPin

end Constraint

end

/-! ## Phrases -/

/-- What has spaces in it and is meant to be one term: two literals with a hyphen between them, or a
version with another name behind the word of an alias. -/
inductive Phrase where
  | hyphen (low high : Text) (lowLiteral highLiteral : Literal)
      (reads : Literal.read? low = some (lowLiteral, []))
      (reads' : Literal.read? high = some (highLiteral, []))
  | naming (source target : Text) (isSide : Alias.IsSide source) (isSide' : Alias.IsSide target)
      (unsigned : ∀ c, source.head? = some c → c ∉ ['<', '>', '=', '!', '~', '^'])
      (isVersion : ∃ normal, Version.normalize source = .ok normal)

namespace Phrase

/-- The text of a phrase, with gaps of two sizes before and behind what stands in the middle. -/
def text : Phrase → ℕ → ℕ → Text
  | hyphen low high _ _ _ _, m, n => hyphenated low high m n
  | naming source target _ _ _ _, m, n => aliased source target m n

/-- Whether two gaps leave a phrase whole. The gap in front has to be narrow, unless no term can end
before it, and behind a hyphen there has to be a single space. -/
def StaysWhole : Phrase → ℕ → ℕ → Prop
  | hyphen low _ _ _ _ _, m, n => IsNarrow low m ∧ n = 1
  | naming source _ _ _ _ _, m, _ => IsNarrow source m ∨ Term.canEnd source.reverse = false

/-- A phrase is read like the one with single spaces just where its gaps leave it whole, or where
the one with single spaces cannot be read. -/
theorem readAlike_text_iff (phrase : Phrase) {m n : ℕ} (before : 0 < m) (behind : 0 < n) :
    Constraint.ReadAlike (phrase.text m n) (phrase.text 1 1) ↔
      phrase.StaysWhole m n ∨ ∀ required, Constraint.parse (phrase.text 1 1) ≠ .ok required := by
  obtain ⟨m, rfl⟩ := Nat.exists_eq_add_of_lt before
  obtain ⟨n, rfl⟩ := Nat.exists_eq_add_of_lt behind
  rw [Nat.zero_add, Nat.zero_add]
  cases phrase with
  | hyphen low high lowLiteral highLiteral reads reads' =>
      exact Constraint.readAlike_hyphenated_iff reads reads'
  | naming source target isSide isSide' unsigned isVersion =>
      have alike :=
        Constraint.readAlike_aliased_iff isSide isSide' unsigned isVersion (m := m) (n := n)
      refine alike.trans (or_iff_left fun refused => ?_).symm
      obtain ⟨required, parses, -⟩ :=
        Constraint.exists_parse_aliased isSide isSide' unsigned isVersion
      exact refused required parses

/-- Gaps that leave an alias whole because its source ends in the letters of the word, and gaps
that tear a range apart. -/
theorem readAlike_text_iff_canvas :
    Constraint.ReadAlike "dev-canvas   as  1.0".toList "dev-canvas as 1.0".toList ∧
      ¬ Constraint.ReadAlike "1.0-   -  2.0".toList "1.0- - 2.0".toList := by
  have isSide : Alias.IsSide "dev-canvas".toList :=
    ⟨by decide, List.all_iff_forall_prop.mp (by decide)⟩
  have isSide' : Alias.IsSide "1.0".toList :=
    ⟨by decide, List.all_iff_forall_prop.mp (by decide)⟩
  let canvas : Phrase := .naming _ _ isSide isSide' (by rintro _ ⟨⟩; decide)
    ⟨"dev-canvas".toList, by decide⟩
  let range : Phrase := .hyphen "1.0-".toList "2.0".toList _ _ rfl rfl
  have kept : canvas.StaysWhole 3 2 := .inr (by decide)
  have torn : ¬ range.StaysWhole 3 2 := fun whole => absurd whole.2 (by decide)
  have parses : ∃ required, Constraint.parse (range.text 1 1) = .ok required := ⟨_, rfl⟩
  refine ⟨(readAlike_text_iff canvas (by decide) (by decide)).mpr (.inl kept), fun alike => ?_⟩
  rcases (readAlike_text_iff range (m := 3) (n := 2) (by decide) (by decide)).mp alike with
    whole | refused
  · exact torn whole
  · exact parses.elim refused

/-- A second space before a hyphen, behind one, or before the word of an alias makes a
difference. -/
theorem not_readAlike_text :
    ¬ Constraint.ReadAlike "1.0  - 2.0".toList "1.0 - 2.0".toList ∧
      ¬ Constraint.ReadAlike "1.0 -  2.0".toList "1.0 - 2.0".toList ∧
      ¬ Constraint.ReadAlike "dev-main  as 1.0".toList "dev-main as 1.0".toList := by
  decide +kernel

end Phrase

end VersionRanges

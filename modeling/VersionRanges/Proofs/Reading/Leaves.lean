/-
# Signs at the leaves of a term

The bounds of a term compare to versions that are put together from the digits of the term, from
keywords, and from normal forms of parts of the term. A sign that no literal holds comes into such a
version with a normal form only, and so as a part of the name of a branch.
-/
import VersionRanges.Proofs.Normal.Origin
import VersionRanges.Proofs.Reading.Outcome
import VersionRanges.Proofs.Reading.Signed

namespace VersionRanges

open Text (IsForeign)

variable {sign : Char}

/-! ## Raised components -/

namespace Component

section

variable (foreign : IsForeign sign) {increment : Int} {filling : Text}
  (unfilled : sign ∉ filling)

include foreign unfilled

theorem not_mem_raiseLast {components raised : List Text}
    (plain : ∀ part ∈ components, sign ∉ part)
    (raises : raiseLast increment filling components = some raised) :
    ∀ part ∈ raised, sign ∉ part := by
  have number (n : Nat) : sign ∉ Text.ofNat n := by
    intro inside
    have digit := Nat.isDigit_of_mem_toDigits (by decide) (by decide) inside
    exact Bool.false_ne_true (foreign.digit.symm.trans (Text.isDecimalDigit_of_isDigit digit))
  induction components generalizing raised with
  | nil => cases raises
  | cons component before ih =>
      obtain ⟨-, plain⟩ := List.forall_mem_cons.mp plain
      rw [raiseLast] at raises
      split at raises
      · cases raises
      · next sum _ =>
        split at raises
        · cases raises
        · split at raises
          · obtain ⟨further, raises', rfl⟩ := Option.map_eq_some_iff.mp raises
            exact List.forall_mem_cons.mpr ⟨unfilled, ih plain raises'⟩
          · obtain rfl := Option.some.inj raises
            exact List.forall_mem_cons.mpr ⟨number _, plain⟩

omit foreign unfilled in
theorem mem_or_mem_of_mem_intercalate {separator : Text} {parts : List Text}
    (inside : sign ∈ List.intercalate separator parts) :
    sign ∈ separator ∨ ∃ part ∈ parts, sign ∈ part := by
  induction parts with
  | nil => cases inside
  | cons first parts ih =>
      cases parts with
      | nil => exact .inr ⟨first, List.mem_cons_self, by simpa [List.intercalate] using inside⟩
      | cons second parts =>
          simp only [List.intercalate, List.intersperse_cons_cons, List.flatten_cons,
            List.mem_append] at inside
          rcases inside with here | divider | behind
          · exact .inr ⟨first, List.mem_cons_self, here⟩
          · exact .inl divider
          · exact (ih behind).imp_right fun ⟨part, listed, within⟩ =>
              ⟨part, List.mem_cons_of_mem first listed, within⟩

theorem not_mem_adjust {slots : List (Option Text)} {position : Nat} {version : Text}
    (plain : ∀ part, some part ∈ slots → sign ∉ part)
    (adjusts : adjust slots position increment filling = some version) : sign ∉ version := by
  have zero : sign ∉ ['0'] := Modifier.not_mem_of_plain foreign (by decide)
  have dot : sign ∉ ['.'] := fun inside => foreign.other (by simp_all)
  have components : ∀ part ∈ slots.map (·.getD ['0']), sign ∉ part := by
    intro part inside
    obtain ⟨slot, listed, rfl⟩ := List.mem_map.mp inside
    cases slot with
    | none => exact zero
    | some part => exact plain part listed
  have taken : ∀ part ∈ (slots.map (·.getD ['0'])).take position, sign ∉ part :=
    fun part inside => components part (List.mem_of_mem_take inside)
  rw [adjust] at adjusts
  obtain ⟨kept, raised, rfl⟩ := Option.map_eq_some_iff.mp adjusts
  have kept' : ∀ part ∈ kept, sign ∉ part := by
    split at raised
    · obtain rfl := Option.some.inj raised
      exact taken
    · obtain ⟨reversed, raises, rfl⟩ := Option.map_eq_some_iff.mp raised
      intro part inside
      refine not_mem_raiseLast foreign unfilled (fun part inside => ?_) raises part
        (List.mem_reverse.mp inside)
      exact taken part (List.mem_reverse.mp inside)
  intro inside
  rcases mem_or_mem_of_mem_intercalate inside with separator | ⟨part, listed, within⟩
  · exact dot separator
  · rcases List.mem_append.mp listed with first | behind
    · exact kept' part first within
    · exact unfilled (List.eq_of_mem_replicate behind ▸ within)

end

end Component

/-! ## Normal forms of parts -/

/-- A version that has a sign in the name of a branch, which is a part of a term. The version may be
raised to the previews of the branch. -/
def HasInName (sign : Char) (term version : Text) : Prop :=
  ∃ name previews, name <:+: term ∧ sign ∈ name ∧
    version = Branch.marker ++ name ++ previews ∧ (previews = [] ∨ previews = "-dev".toList)

section

variable (foreign : IsForeign sign) {term part normal : Text}

include foreign

/-- The normal form of a part of a term, and its previews, have a foreign sign in a name only. -/
theorem hasInName_of_normalize (within : part <:+: term)
    (reads : Version.normalize part = .ok normal) {previews : Text}
    (raised : previews = [] ∨ previews = "-dev".toList) (inside : sign ∈ normal ++ previews) :
    HasInName sign term (normal ++ previews) := by
  have plain : sign ∉ previews := by
    rcases raised with rfl | rfl
    · simp
    · exact Modifier.not_mem_of_plain foreign (by decide)
  obtain ⟨name, infixed, signed, rfl⟩ := Version.exists_name_of_foreign reads foreign
    ((List.mem_append.mp inside).resolve_right plain)
  exact ⟨name, previews, infixed.trans within, signed, rfl, raised⟩

end

/-! ## Ranges -/

namespace Literal

theorem isWellFormed_of_readWithMetadata? {text rest : Text} {literal : Literal}
    (reads : readWithMetadata? text = some (literal, rest)) : literal.IsWellFormed := by
  obtain ⟨left, read, -⟩ := exists_read?_of_readWithMetadata? reads
  exact isWellFormed_of_read? read

theorem IsWellFormed.not_mem_slots {literal : Literal} (wellFormed : literal.IsWellFormed)
    (foreign : IsForeign sign) : ∀ part, some part ∈ literal.slots → sign ∉ part := by
  intro part inside
  obtain ⟨index, -, found⟩ := List.mem_map.mp inside
  rcases List.mem_cons.mp (List.mem_of_getElem? found) with rfl | further
  · exact wellFormed.major.not_mem foreign.digit
  · exact (wellFormed.further part further).not_mem foreign.digit

end Literal

theorem Alias.dropSpaces?_suffix {text rest : Text} (spaced : dropSpaces? text = some rest) :
    rest <:+ text := by
  unfold dropSpaces? at spaced
  split at spaced
  · obtain rfl := Option.some.inj spaced
    exact (List.dropWhile_suffix _).trans (List.suffix_cons ' ' _)
  · cases spaced

namespace Range

theorem isWellFormed_of_signed? {mark : Char} {term : Text} {literal : Literal}
    (reads : signed? mark term = some literal) : literal.IsWellFormed := by
  unfold signed? at reads
  split at reads
  · split at reads
    · split at reads
      · next found read =>
        obtain rfl := Option.some.inj reads
        exact Literal.isWellFormed_of_readWithMetadata? read
      · cases reads
    · cases reads
  · cases reads

theorem isNumber_of_open? {term : Text} {numbers : List Text} (reads : open? term = some numbers) :
    ∀ part ∈ numbers, Literal.IsNumber part := by
  rw [open?] at reads
  split at reads
  · cases reads
  · next major afterMajor filled split =>
    have further := (Literal.isNumber_of_mem_readFurther 2 afterMajor).2
    split at reads
    · cases reads
    · next parts rest _ read =>
      rw [read] at further
      split at reads
      · obtain rfl := Option.some.inj reads
        exact List.forall_mem_cons.mpr ⟨Literal.isNumber_of_readDigits split filled, further⟩
      · cases reads

/-- The ends of a hyphen range are parts of the term. -/
theorem spec_of_hyphen? {term : Text} {range : Hyphen} (reads : hyphen? term = some range) :
    range.lowText <:+: term ∧ range.highText <:+: term ∧ range.high.IsWellFormed := by
  rw [hyphen?] at reads
  split at reads
  · cases reads
  · next low rest lowRead =>
    split at reads
    · next afterHyphen spaced =>
      split at reads
      · cases reads
      · next highText spaced' =>
        split at reads
        · next high highRead =>
          obtain rfl := Option.some.inj reads
          have afterLow := Literal.suffix_of_readWithMetadata? lowRead
          have hyphen := (List.suffix_cons '-' afterHyphen).trans (Alias.dropSpaces?_suffix spaced)
          have ending := ((Alias.dropSpaces?_suffix spaced').trans hyphen).trans afterLow
          exact ⟨(List.take_prefix _ term).isInfix, ending.isInfix,
            Literal.isWellFormed_of_readWithMetadata? highRead⟩
        · cases reads
    · cases reads

section

variable (foreign : IsForeign sign) {term : Text}

include foreign

theorem not_mem_raise {slots : List (Option Text)} {position : Nat} {increment : Int}
    {version : Text} (plain : ∀ part, some part ∈ slots → sign ∉ part)
    (raises : raise term slots position increment = .ok version) : sign ∉ version := by
  rw [raise] at raises
  split at raises
  · next raised adjusts =>
    obtain rfl := Except.ok.inj raises
    have zero : sign ∉ ['0'] := Modifier.not_mem_of_plain foreign (by decide)
    exact Component.not_mem_adjust foreign zero plain adjusts
  · cases raises

theorem not_mem_lowest : sign ∉ lowest := Modifier.not_mem_of_plain foreign (by decide)

theorem not_mem_below {slots : List (Option Text)} {position : Nat} {bound : Bound}
    (plain : ∀ part, some part ∈ slots → sign ∉ part)
    (reads : below term slots position = .ok bound) : sign ∉ bound.version := by
  obtain ⟨version, raises, rfl⟩ := exists_of_map_eq_ok reads
  simp [not_mem_raise foreign plain raises, not_mem_lowest foreign]

theorem hasInName_of_lowEnd {part low : Text} {literal : Literal} (within : part <:+: term)
    (reads : lowEnd part literal = .ok low) (inside : sign ∈ low) : HasInName sign term low := by
  obtain ⟨normal, normalized, rfl⟩ := exists_of_map_eq_ok reads
  by_cases silent : literal.modifier.isSilent = true
  · rw [if_pos silent] at inside ⊢
    exact hasInName_of_normalize foreign within normalized (.inr rfl) inside
  · rw [if_neg silent, ← List.append_nil normal] at inside ⊢
    exact hasInName_of_normalize foreign within normalized (.inl rfl) inside

theorem not_mem_tildeSuffix {modifier : Modifier} (wellFormed : modifier.IsWellFormed) :
    sign ∉ tildeSuffix modifier := by
  rw [tildeSuffix]
  split
  · exact not_mem_lowest foreign
  · simp [Modifier.not_mem_labelSuffix foreign wellFormed, Modifier.not_mem_devSuffix foreign]

/-- The bounds of a tilde range hold no foreign sign. -/
theorem not_mem_tilde {literal : Literal} {bounds : List Bound} (wellFormed : literal.IsWellFormed)
    (reads : tilde term literal = .ok bounds) : ∀ bound ∈ bounds, sign ∉ bound.version := by
  have slots := wellFormed.not_mem_slots foreign
  obtain ⟨low, high, raises, belows, rfl⟩ := exists_of_both_eq_ok reads
  have low' : sign ∉ low ++ tildeSuffix literal.modifier := by
    simp [not_mem_raise foreign slots raises, not_mem_tildeSuffix foreign wellFormed.modifier]
  exact List.forall_mem_cons.mpr ⟨low', List.forall_mem_singleton.mpr
    (not_mem_below foreign slots belows)⟩

theorem hasInName_of_caret {literal : Literal} {bounds : List Bound}
    (wellFormed : literal.IsWellFormed) (reads : caret term literal = .ok bounds) :
    ∀ bound ∈ bounds, sign ∈ bound.version → HasInName sign term bound.version := by
  have slots := wellFormed.not_mem_slots foreign
  obtain ⟨low, high, lows, belows, rfl⟩ := exists_of_both_eq_ok reads
  have part : term.drop 1 <:+: term := (List.drop_suffix 1 term).isInfix
  exact List.forall_mem_cons.mpr ⟨hasInName_of_lowEnd foreign part lows,
    List.forall_mem_singleton.mpr fun inside =>
      absurd inside (not_mem_below foreign slots belows)⟩

/-- The bounds of a range with components left open hold no foreign sign. -/
theorem not_mem_ofNumbers {numbers : List Text} {bounds : List Bound}
    (areNumbers : ∀ part ∈ numbers, Literal.IsNumber part)
    (reads : ofNumbers term numbers = .ok bounds) : ∀ bound ∈ bounds, sign ∉ bound.version := by
  have slots : ∀ part, some part ∈ (List.range 4).map (fun index => numbers[index]?) →
      sign ∉ part := by
    intro part inside
    obtain ⟨index, -, found⟩ := List.mem_map.mp inside
    exact (areNumbers part (List.mem_of_getElem? found)).not_mem foreign.digit
  obtain ⟨low, raises, reads⟩ := exists_of_bind_eq_ok reads
  obtain ⟨high, belows, reads⟩ := exists_of_bind_eq_ok reads
  have high' := not_mem_below foreign slots belows
  split at reads
  · obtain rfl := Except.ok.inj reads
    exact List.forall_mem_singleton.mpr high'
  · obtain rfl := Except.ok.inj reads
    have low' : sign ∉ low ++ lowest := by
      simp [not_mem_raise foreign slots raises, not_mem_lowest foreign]
    exact List.forall_mem_cons.mpr ⟨low', List.forall_mem_singleton.mpr high'⟩

theorem hasInName_of_hyphen {range : Hyphen} {bounds : List Bound}
    (found : hyphen? term = some range) (reads : hyphen term range = .ok bounds) :
    ∀ bound ∈ bounds, sign ∈ bound.version → HasInName sign term bound.version := by
  obtain ⟨lowPart, highPart, wellFormed⟩ := spec_of_hyphen? found
  obtain ⟨low, high, lows, highs, rfl⟩ := exists_of_both_eq_ok reads
  refine List.forall_mem_cons.mpr ⟨hasInName_of_lowEnd foreign lowPart lows,
    List.forall_mem_singleton.mpr fun inside => ?_⟩
  rw [hyphenHigh] at highs
  split at highs
  · obtain ⟨normal, normalized, rfl⟩ := exists_of_map_eq_ok highs
    dsimp only at inside ⊢
    rw [← List.append_nil normal] at inside ⊢
    exact hasInName_of_normalize foreign highPart normalized (.inl rfl) inside
  · exact absurd inside (not_mem_below foreign (wellFormed.not_mem_slots foreign) highs)

end

end Range

/-! ## Terms -/

namespace Comparator

theorem operand_isInfix (term : Text) : operand (splitOperator term).2 <:+: term := by
  obtain ⟨operator, whole, -⟩ := leaves_splitOperator term
  have behind : (splitOperator term).2 <:+ term := ⟨operator, whole.symm⟩
  have unblank : Text.trimLeft (splitOperator term).2 <:+ (splitOperator term).2 :=
    List.dropWhile_suffix _
  exact (List.takeWhile_prefix _).isInfix.trans (unblank.trans behind).isInfix

theorem hasInName_of_read (foreign : IsForeign sign) {term : Text} {bound : Bound}
    (reads : read term none = .ok bound) (inside : sign ∈ bound.version) :
    HasInName sign term bound.version := by
  obtain ⟨normal, normalized, same⟩ := exists_of_read reads
  obtain ⟨previews, raised, kinds⟩ := exists_bounded_eq_append (splitOperator term).1
    (operand (splitOperator term).2) normal
  rw [same, raised] at inside ⊢
  exact hasInName_of_normalize foreign (operand_isInfix term) normalized kinds inside

end Comparator

namespace Constraint

theorem hasInName_of_readBounds (foreign : IsForeign sign) {term : Text} {bounds : List Bound}
    (reads : readBounds term none = .ok bounds) :
    ∀ bound ∈ bounds, sign ∈ bound.version → HasInName sign term bound.version := by
  have form := hasForm_readBounds term none
  generalize readBounds term none = outcome at form reads
  cases form with
  | arrow => cases reads
  | tilde found =>
      have absent := Range.not_mem_tilde foreign (Range.isWellFormed_of_signed? found) reads
      exact fun bound listed inside => absurd inside (absent bound listed)
  | caret found =>
      exact Range.hasInName_of_caret foreign (Range.isWellFormed_of_signed? found) reads
  | numbers found =>
      have absent := Range.not_mem_ofNumbers foreign (Range.isNumber_of_open? found) reads
      exact fun bound listed inside => absurd inside (absent bound listed)
  | hyphen found => exact Range.hasInName_of_hyphen foreign found reads
  | comparator =>
      obtain ⟨bound, read, rfl⟩ := exists_of_map_eq_ok reads
      exact List.forall_mem_singleton.mpr (Comparator.hasInName_of_read foreign read)

/-- At the leaves of a term without a flag, a foreign sign stands in the name of a branch only. -/
theorem hasInName_of_readTerm (foreign : IsForeign sign) {term : Text} (unflagged : '@' ∉ term)
    {members : List Constraint} (reads : readTerm term = .ok members) :
    ∀ member ∈ members, ∀ bound ∈ member.bounds, sign ∈ bound.version →
      HasInName sign term bound.version := by
  rcases eq_anything_or_exists_of_readTerm reads with rfl | ⟨bounds, read, rfl⟩
  · exact List.forall_mem_singleton.mpr (List.forall_mem_nil _)
  · rw [splitFlag_eq_self unflagged] at read
    intro member inside bound leaf
    obtain ⟨bound', listed, rfl⟩ := List.mem_map.mp inside
    obtain rfl : bound = bound' := List.mem_singleton.mp leaf
    exact hasInName_of_readBounds foreign read bound listed

end Constraint

end VersionRanges

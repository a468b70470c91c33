/-
# Versions written with numbers

A version that is a literal or a date begins with a digit, behind the mark that it may have, and
holds no sign that no literal holds. It is therefore read whole and as nothing else, with or without
build metadata behind it, and its normal form is no branch.
-/
import VersionRanges.Proofs.Normal.Origin
import VersionRanges.Proofs.Reading.Extent

namespace VersionRanges

open Text (IsForeign)

theorem Branch.isBranch_cons {c : Char} (other : c ≠ 'd') (rest : Text) :
    isBranch (c :: rest) = false := by
  simp [isBranch, marker, List.isPrefixOf, other.symm]

namespace Version

/-- A text with a digit in front, behind the mark of a version, and without foreign signs. -/
structure IsNumbered (text : Text) : Prop where
  digit : ∃ c rest, Literal.dropMark text = c :: rest ∧ Text.isDecimalDigit c = true
  plain : ∀ sign, IsForeign sign → sign ∉ text

section

variable {text : Text}

/-- A text that is read to its end as a literal, however long its first component is. -/
theorem isNumbered_of_read? {literal : Literal} (reads : Literal.read? text = some (literal, [])) :
    IsNumbered text := by
  refine ⟨?_, fun sign foreign inside => ?_⟩
  · have filled := (Literal.isWellFormed_of_read? reads).major.filled
    rw [Literal.read?] at reads
    split at reads
    · cases reads
    · next major afterMajor _ split =>
      obtain rfl := congrArg (Literal.major ∘ Prod.fst) (Option.some.inj reads)
      obtain ⟨c, digits, spelled, digit⟩ :=
        (Literal.isNumber_of_readDigits split filled).exists_cons
      refine ⟨c, digits ++ afterMajor, ?_, digit⟩
      rw [Literal.append_of_readDigits split]
      exact congrArg (· ++ afterMajor) spelled
  · exact absurd ((Literal.leaves_of_read? foreign reads).mem inside) List.not_mem_nil

theorem isNumbered_of_literal {literal : Literal} (reads : Literal.ofVersion? text = some literal) :
    IsNumbered text :=
  isNumbered_of_read? (Literal.read?_of_ofVersion? reads).1

theorem isNumbered_of_date {timestamp : Timestamp}
    (reads : Timestamp.ofVersion? text = some timestamp) : IsNumbered text := by
  refine ⟨?_, fun sign foreign inside => ?_⟩
  · obtain ⟨wellFormed, -⟩ := Timestamp.isWellFormed_of_ofVersion? reads
    obtain ⟨c, rest, begins, digit⟩ := Timestamp.exists_cons_of_isDate wellFormed.date
    have figures : (Timestamp.readFigures (Literal.dropMark text)).1 = timestamp.figures := by
      simp only [Timestamp.ofVersion?] at reads
      split at reads
      · split at reads
        · exact congrArg Timestamp.figures (Option.some.inj reads)
        · cases reads
      · cases reads
    have whole := Timestamp.append_readFigures (Literal.dropMark text)
    rw [figures, begins] at whole
    exact ⟨c, rest ++ _, whole.symm, digit⟩
  · rw [Timestamp.ofVersion?_eq_none foreign inside] at reads
    cases reads

/-- A version written with numbers begins with a digit or with a mark. -/
theorem IsNumbered.exists_cons (numbered : IsNumbered text) :
    ∃ c rest, text = c :: rest ∧ (Text.isDecimalDigit c = true ∨ c = 'v' ∨ c = 'V') := by
  obtain ⟨c, rest, unmarked, digit⟩ := numbered.digit
  obtain ⟨mark, isMark, whole⟩ := Literal.exists_isMark_append_dropMark text
  rw [unmarked] at whole
  simp only [Literal.IsMark, List.mem_cons, List.not_mem_nil, or_false] at isMark
  rcases isMark with rfl | rfl | rfl
  · exact ⟨c, rest, whole, .inl digit⟩
  · exact ⟨'v', c :: rest, whole, .inr (.inl rfl)⟩
  · exact ⟨'V', c :: rest, whole, .inr (.inr rfl)⟩

theorem IsNumbered.ne_of_mem (numbered : IsNumbered text) {c sign : Char} (inside : c ∈ text)
    (foreign : IsForeign sign) : c ≠ sign := by
  rintro rfl
  exact numbered.plain c foreign inside

/-- No branch begins like a version written with numbers. -/
theorem IsNumbered.isBranch_append (numbered : IsNumbered text) (rest : Text) :
    Branch.isBranch (text ++ rest) = false := by
  obtain ⟨c, behind, rfl, first⟩ := numbered.exists_cons
  have other : c ≠ 'd' := by
    rcases first with digit | rfl | rfl
    · exact Text.ne_of_isDecimalDigit digit (by decide)
    · decide
    · decide
  exact Branch.isBranch_cons other _

/-- Nothing behind a version written with numbers changes what stands in front. -/
theorem IsNumbered.exists_dropMark_append (numbered : IsNumbered text) (rest : Text) :
    ∃ c behind, Literal.dropMark (text ++ rest) = c :: behind ∧ Text.isDecimalDigit c = true := by
  obtain ⟨d, behind, unmarked, digit⟩ := numbered.digit
  obtain ⟨c, further, rfl, first⟩ := numbered.exists_cons
  rcases first with digit' | rfl | rfl
  · exact ⟨c, further ++ rest, Literal.dropMark_cons digit' _, digit'⟩
  · exact ⟨d, behind ++ rest, congrArg (· ++ rest) unmarked, digit⟩
  · exact ⟨d, behind ++ rest, congrArg (· ++ rest) unmarked, digit⟩

/-- Behind a version written with numbers there may be more of the signs that versions hold. -/
theorem IsNumbered.append (numbered : IsNumbered text) {rest : Text}
    (plain : ∀ sign, IsForeign sign → sign ∉ rest) : IsNumbered (text ++ rest) where
  digit := numbered.exists_dropMark_append rest
  plain sign foreign inside :=
    (List.mem_append.mp inside).elim (numbered.plain sign foreign) (plain sign foreign)

theorem IsNumbered.solid (numbered : IsNumbered text) : ∀ c ∈ text, Text.isBlank c = false := by
  intro c inside
  rw [Bool.eq_false_iff]
  exact fun blank => numbered.plain c (Text.isForeign_of_isBlank blank) inside

theorem IsNumbered.undivided (numbered : IsNumbered text) : ∀ c ∈ text, c ≠ ',' ∧ c ≠ ' ' :=
  fun _ inside =>
    ⟨numbered.ne_of_mem inside (by decide), numbered.ne_of_mem inside (by decide)⟩

theorem IsNumbered.isPartChar (numbered : IsNumbered text) :
    ∀ c ∈ text, Alias.isPartChar c = true := by
  intro c inside
  simp [Alias.isPartChar, (numbered.undivided c inside).1, numbered.solid c inside]

theorem IsNumbered.core_eq_self (numbered : IsNumbered text) : core text = text :=
  core_eq_self_of_foreign numbered.plain

/-- Build metadata behind a version written with numbers are cut off. -/
theorem IsNumbered.core_append {build : Text} (numbered : IsNumbered text) (filled : build ≠ [])
    (solid : ∀ c ∈ build, Text.isBlank c = false) : core (text ++ '+' :: build) = text := by
  have plain : ∀ c ∈ text, (Alias.isPartChar c && c != '+') = true := by
    intro c inside
    have plus : c ≠ '+' := numbered.ne_of_mem inside (by decide)
    simp [numbered.isPartChar c inside, plus]
  have whole : ∀ c ∈ text ++ '+' :: build, Text.isBlank c = false :=
    List.forall_mem_append.mpr
      ⟨numbered.solid, List.forall_mem_cons.mpr ⟨by decide, solid⟩⟩
  obtain ⟨c, rest, begins, -⟩ := numbered.exists_cons
  have kept : build.all (!Text.isBlank ·) = true := by simpa using solid
  rw [core_eq_withoutMetadata_of_solid whole]
  simp only [Alias.withoutMetadata, List.takeWhile_append_of_pos plain,
    List.dropWhile_append_of_pos plain]
  simp [begins, filled, kept]

/-- A version written with numbers begins with no sign of a range or a comparator. -/
theorem IsNumbered.unsigned (numbered : IsNumbered text) :
    ∀ c, text.head? = some c → c ∉ ['<', '>', '=', '!', '~', '^'] := by
  intro c begins listed
  have foreign := Text.isForeign_of_mem c (List.mem_append_right _ listed)
  exact numbered.ne_of_mem (List.mem_of_head? begins) foreign rfl

/-- No name of a branch that is known or marked begins like a version written with numbers. -/
theorem IsNumbered.foldCase_not_mem {c : Char} {rest : Text} (numbered : IsNumbered (c :: rest)) :
    Text.foldCase c ∉ ['m', 't', 'd'] := by
  obtain ⟨d, behind, same, first⟩ := numbered.exists_cons
  obtain ⟨rfl, -⟩ := List.cons.inj same
  rcases first with digit | rfl | rfl
  · have other : ∀ letter ∈ ['m', 't', 'd'], Text.isDecimalDigit letter = false :=
      List.all_iff_forall_prop.mp (by decide)
    rw [Text.foldCase_of_isDecimalDigit digit]
    exact fun listed => Text.ne_of_isDecimalDigit digit (other c listed) rfl
  · decide
  · decide

/-- A version written with numbers is read by the grammars of numbers. -/
theorem IsNumbered.normalForm?_eq (numbered : IsNumbered text) :
    normalForm? text =
      match Literal.ofVersion? text with
      | some literal => some literal.normalForm
      | none =>
        match Timestamp.ofVersion? text with
        | some timestamp => some timestamp.normalForm
        | none => ofDevName? text := by
  obtain ⟨c, rest, rfl, -⟩ := numbered.exists_cons
  exact normalForm?_cons numbered.foldCase_not_mem rest

theorem normalize_of_literal {literal : Literal} (reads : Literal.ofVersion? text = some literal) :
    normalize text = .ok literal.normalForm := by
  have numbered := isNumbered_of_literal reads
  rw [normalize_eq_ok_iff, numbered.core_eq_self, numbered.normalForm?_eq, reads]

/-- A literal or a date comes to a normal form that begins with no letter. -/
theorem exists_normalize_of_number
    (number : (Literal.ofVersion? text).isSome = true ∨ (Timestamp.ofVersion? text).isSome = true) :
    IsNumbered text ∧ ∃ c rest, normalize text = .ok (c :: rest) ∧ c ≠ 'd' := by
  cases found : Literal.ofVersion? text with
  | some literal =>
      obtain ⟨read, -⟩ := Literal.read?_of_ofVersion? found
      obtain ⟨c, rest, begins, digit⟩ :=
        (Literal.isWellFormed_of_read? read).exists_normalForm_cons
      exact ⟨isNumbered_of_literal found, c, rest, begins ▸ normalize_of_literal found,
        Text.ne_of_isDecimalDigit digit (by decide)⟩
  | none =>
      have isDate := number.resolve_left (by simp [found])
      obtain ⟨timestamp, found'⟩ := Option.isSome_iff_exists.mp isDate
      have numbered := isNumbered_of_date found'
      obtain ⟨wellFormed, -⟩ := Timestamp.isWellFormed_of_ofVersion? found'
      obtain ⟨c, rest, begins, digit⟩ := Timestamp.exists_cons_of_isDate wellFormed.date
      refine ⟨numbered, Timestamp.dot c, rest.map Timestamp.dot ++ timestamp.modifier.suffix,
        ?_, ?_⟩
      · rw [normalize_eq_ok_iff, numbered.core_eq_self, numbered.normalForm?_eq, found, found']
        simp [Timestamp.normalForm_eq, begins]
      · rw [Timestamp.dot]
        split
        · exact Text.ne_of_isDecimalDigit digit (by decide)
        · decide

end

end Version

end VersionRanges

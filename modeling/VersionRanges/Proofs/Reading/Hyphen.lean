/-
# Modifiers behind a hyphen

A literal has a hyphen before its modifier, or a part of it, exactly if a hyphen stands in it that
no digit follows: its components have no hyphens in them, and a hyphen before a digit belongs to a
tail of numbers.
-/
import VersionRanges.Constraint.Comparator
import VersionRanges.Proofs.Reading.Extent

namespace VersionRanges

/-! ## Hyphens in a modifier -/

namespace Modifier

open Text (foldCase)

theorem read_congr {text text' : Text}
    (same : dropOne isSeparator text = dropOne isSeparator text') : read text = read text' := by
  rw [read, read, same]

/-- The first letter of a development mark is no separator, and no label begins with it. -/
theorem isSeparator_of_foldCase {c : Char} (letter : foldCase c = 'd') : isSeparator c = false := by
  rw [Bool.eq_false_iff]
  intro separator
  simp only [isSeparator, Bool.or_eq_true, beq_iff_eq] at separator
  rcases separator with (rfl | rfl) | rfl <;> exact absurd letter (by decide)

theorem exists_cons_of_dev {text : Text} {split : Text × Text}
    (marked : Text.keyword? "dev".toList text = some split) :
    ∃ c rest, text = c :: rest ∧ foldCase c = 'd' := by
  cases text with
  | nil => cases marked
  | cons c rest =>
      refine ⟨c, rest, rfl, ?_⟩
      by_contra other
      have unspelled : Text.keyword? "dev".toList (c :: rest) = none := if_neg other
      rw [unspelled] at marked
      cases marked

/-- A development mark behind a separator is read whole. -/
theorem read_of_dev {text spelling : Text}
    (marked : Text.keyword? "dev".toList (dropOne isSeparator text) = some (spelling, [])) :
    (read text).2 = [] := by
  obtain ⟨c, rest, start, letter⟩ := exists_cons_of_dev marked
  have unlabelled : readLabel? (c :: rest) = none := by
    simp [readLabel?, labels, Text.keyword?, letter]
  have unjoined : dropOne isJoint (c :: rest) = c :: rest :=
    dropOne_cons_of_neg (isJoint_eq_false (isSeparator_of_foldCase letter)) rest
  rw [start] at marked
  simp only [read, start, unlabelled, readDev, unjoined, marked]

/-- Behind a hyphen, a separator stands before a development mark only. -/
theorem read_of_separator {c : Char} {rest : Text} (separator : isSeparator c = true)
    (whole : (read ('-' :: c :: rest)).2 = []) : (read (c :: rest)).2 = [] := by
  have unlabelled : readLabel? (c :: rest) = none := by
    simp only [isSeparator, Bool.or_eq_true, beq_iff_eq] at separator
    rcases separator with (rfl | rfl) | rfl <;> rfl
  have start : dropOne isSeparator ('-' :: c :: rest) = c :: rest := rfl
  simp only [read, start, unlabelled] at whole
  rw [readDev] at whole
  split at whole
  · next spelling left marked =>
    obtain rfl : left = [] := whole
    by_cases joint : isJoint c = true
    · have behind : dropOne isSeparator (c :: rest) = dropOne isJoint (c :: rest) := by
        rw [dropOne, dropOne, if_pos separator, if_pos joint]
      exact read_of_dev (behind ▸ marked)
    · rw [dropOne, if_neg joint] at marked
      obtain ⟨d, rest', same, letter⟩ := exists_cons_of_dev marked
      obtain ⟨rfl, -⟩ := List.cons.inj same
      exact absurd ((isSeparator_of_foldCase letter).symm.trans separator) Bool.false_ne_true
  · cases whole

/-- A tail takes no hyphen unless a digit follows. -/
theorem exists_readTail_eq (front : Text) {behind : Text}
    (stops : ∀ c ∈ behind.head?, Text.isDecimalDigit c = false) :
    ∃ front', (readTail (front ++ '-' :: behind)).2 = front' ++ '-' :: behind := by
  induction front with
  | nil =>
      have stop : goesOn '-' behind = false := by
        cases behind with
        | nil => decide
        | cons c behind =>
            have hyphen : Text.isDecimalDigit '-' = false := by decide
            simp [goesOn, stops c rfl, hyphen]
      exact ⟨[], by rw [List.nil_append, readTail_cons, stop]; rfl⟩
  | cons c front ih =>
      rw [List.cons_append, readTail_cons]
      split
      · exact ih
      · exact ⟨c :: front, rfl⟩

/-- A hyphen in a text that is read as a development mark stands before the mark. -/
theorem exists_dev_of_readDev {front behind : Text}
    (whole : (readDev (front ++ '-' :: behind)).2 = []) :
    ∃ spelling, Text.keyword? "dev".toList behind = some (spelling, []) := by
  rw [readDev] at whole
  split at whole
  · next spelling rest marked =>
    obtain rfl : rest = [] := whole
    cases front with
    | nil => exact ⟨spelling, marked⟩
    | cons c front =>
        have inside : '-' ∈ dropOne isJoint (c :: front ++ '-' :: behind) := by
          rw [List.cons_append, dropOne]
          split <;> simp
        have left := (Text.leaves_of_keyword? (by decide) marked).mem inside
        cases left
  · simp at whole

/-- Where a modifier is read to its end, so is what stands behind a hyphen in it that no digit
follows. -/
theorem read_of_hyphen {front behind : Text}
    (stops : ∀ c ∈ behind.head?, Text.isDecimalDigit c = false)
    (whole : (read (front ++ '-' :: behind)).2 = []) : (read behind).2 = [] := by
  have dev {text spelling : Text}
      (marked : Text.keyword? "dev".toList text = some (spelling, [])) : (read text).2 = [] := by
    obtain ⟨c, rest, rfl, letter⟩ := exists_cons_of_dev marked
    rw [← dropOne_cons_of_neg (isSeparator_of_foldCase letter) rest] at marked
    exact read_of_dev marked
  cases front with
  | nil =>
      -- The hyphen is the separator of the whole modifier, which a modifier may do without.
      cases behind with
      | nil => rfl
      | cons c behind =>
          by_cases separator : isSeparator c = true
          · exact read_of_separator separator whole
          · have start : dropOne isSeparator (c :: behind) =
                dropOne isSeparator ('-' :: c :: behind) := if_neg separator
            rw [read_congr start]
            exact whole
  | cons c front =>
      -- No label has a hyphen in it and no tail ends in one, so that it is left for the mark.
      obtain ⟨front', start⟩ : ∃ front',
          dropOne isSeparator (c :: front ++ '-' :: behind) = front' ++ '-' :: behind := by
        rw [List.cons_append, dropOne]
        split
        · exact ⟨front, rfl⟩
        · exact ⟨c :: front, rfl⟩
      rw [read, start] at whole
      split at whole
      · next label afterLabel labelled =>
        obtain ⟨keyword, listed, spelled⟩ := List.exists_of_findSome?_eq_some labelled
        have letters : ∀ keyword ∈ labels, foldCase '-' ∉ keyword := by decide
        obtain ⟨front'', -, rfl⟩ :=
          (Text.leaves_of_keyword? (letters keyword listed) spelled).exists_suffix
        obtain ⟨front₃, afterTail⟩ := exists_readTail_eq front'' stops
        dsimp only at whole
        rw [afterTail] at whole
        obtain ⟨spelling, marked⟩ := exists_dev_of_readDev whole
        exact dev marked
      · obtain ⟨spelling, marked⟩ := exists_dev_of_readDev whole
        exact dev marked

end Modifier

/-! ## Hyphens in a literal -/

/-- A hyphen stands in a text that no digit follows. -/
def Literal.IsHyphenated (text : Text) : Prop :=
  ∃ front behind, text = front ++ '-' :: behind ∧
    ∀ c ∈ behind.head?, Text.isDecimalDigit c = false

theorem Comparator.hasExplicitModifier_iff (text : Text) :
    hasExplicitModifier text = true ↔
      ∃ front behind, text = front ++ '-' :: behind ∧ (Modifier.read behind).2 = [] := by
  induction text with
  | nil => simp [hasExplicitModifier]
  | cons c text ih =>
      simp only [hasExplicitModifier, Bool.or_eq_true, Bool.and_eq_true, beq_iff_eq,
        List.isEmpty_iff, ih]
      constructor
      · rintro (⟨rfl, whole⟩ | ⟨front, behind, rfl, whole⟩)
        · exact ⟨[], text, rfl, whole⟩
        · exact ⟨c :: front, behind, rfl, whole⟩
      · rintro ⟨front, behind, same, whole⟩
        cases front with
        | nil =>
            obtain ⟨rfl, rfl⟩ := List.cons.inj same
            exact .inl ⟨rfl, whole⟩
        | cons d front =>
            obtain ⟨rfl, rfl⟩ := List.cons.inj same
            exact .inr ⟨front, behind, rfl, whole⟩

/-- A comparator takes a literal to have a modifier where a hyphen stands in it that no digit
follows. -/
theorem Comparator.hasExplicitModifier_iff_isHyphenated {text : Text} {literal : Literal}
    (reads : Literal.read? text = some (literal, [])) :
    hasExplicitModifier text = true ↔ Literal.IsHyphenated text := by
  rw [hasExplicitModifier_iff]
  constructor
  · rintro ⟨front, behind, rfl, whole⟩
    refine ⟨front, behind, rfl, ?_⟩
    rintro c first
    obtain ⟨rest, rfl⟩ := List.head?_eq_some_iff.mp first
    rw [Bool.eq_false_iff]
    intro digit
    have idle := Modifier.isIdle_of_isDecimalDigit digit
    rw [idle.read_eq (Modifier.dropOne_cons_of_neg idle.separator rest)] at whole
    cases whole
  · -- The hyphen stands behind the components, in the text that the modifier is read from.
    rintro ⟨front, behind, same, stops⟩
    obtain ⟨mark, written, isMark, whole, read⟩ := Literal.exists_append_of_read? reads
    have wellFormed := Literal.isWellFormed_of_read? reads
    have left : Text.Leaves '-' text written := by
      have marks : ∀ mark ∈ [[], ['v'], ['V']], '-' ∉ mark := by decide
      refine ⟨mark ++ (literal.major ++ Literal.dotted literal.further), by simp [whole], ?_⟩
      have digit : Text.isDecimalDigit '-' = false := by decide
      simp [marks mark isMark, wellFormed.major.not_mem digit,
        Literal.not_mem_dotted wellFormed.further digit]
    subst same
    obtain ⟨front', -, rfl⟩ := left.exists_suffix
    have ends : (Modifier.read (front' ++ '-' :: behind)).2 = [] := congrArg Prod.snd read
    exact ⟨front, behind, rfl, Modifier.read_of_hyphen stops ends⟩

end VersionRanges

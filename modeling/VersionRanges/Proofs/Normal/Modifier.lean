/-
# Modifiers that are read back

The modifiers that a reader finds spell a label that this library knows, with a tail of numbers
behind it. The canonical form of such a modifier is read back as a modifier with the same canonical
form: the label in full, the tail without the joint before it, and the development mark.

The label `stable` is dropped where it is spelled with ASCII letters. Spelled with a long s it is
a label like any other, and the canonical form keeps it.
-/
import Mathlib.Data.List.DropRight
import VersionRanges.Proofs.Reading.Literal

namespace VersionRanges

/-! ## Letters of labels -/

namespace Text

theorem foldCase_eq_toLower {c : Char} (long : c ≠ 'ſ') (kelvin : c ≠ '\u212A') :
    foldCase c = c.toLower := by
  rw [foldCase, if_neg long, if_neg kelvin]

theorem map_toLower_eq_map_foldCase {text : Text} (long : 'ſ' ∉ text) (kelvin : '\u212A' ∉ text) :
    text.map Char.toLower = text.map foldCase := by
  refine List.map_congr_left fun c inside => (foldCase_eq_toLower ?_ ?_).symm
  · rintro rfl
    exact long inside
  · rintro rfl
    exact kelvin inside

/-- A character whose lower case is an ASCII character is one itself. -/
theorem ascii_of_toLower {c : Char} (ascii : c.toLower.toNat < 0x80) : c.toNat < 0x80 := by
  by_cases capital : c.val ≥ 'A'.val ∧ c.val ≤ 'Z'.val
  · have below : c.toNat ≤ 90 := capital.2
    omega
  · have same : c.toLower = c := dif_neg capital
    rwa [same] at ascii

/-- Lower case is taken character by character where it asks for no table and no neighbours. -/
theorem lowercaseAfter_eq_map {text : Text} (plain : ∀ c ∈ text, c.toNat < 0x80 ∨ c = 'ſ')
    (before : Text) : lowercaseAfter before text = text.map Char.toLower := by
  induction text generalizing before with
  | nil => rfl
  | cons c text ih =>
      obtain ⟨first, plain⟩ := List.forall_mem_cons.mp plain
      have sigma : c ≠ 'Σ' := by
        rintro rfl
        revert first
        decide
      have lower : lowerChar c = [c.toLower] := by
        rcases first with ascii | rfl
        · rw [lowerChar, if_pos ascii]
        · decide
      simp only [lowercaseAfter, if_neg sigma, lower, ih plain]
      rfl

end Text

namespace Modifier

section

variable {label : Text} (listed : label.map Text.foldCase ∈ labels)

include listed

/-- The letters of a label are ASCII letters, or the long s. -/
theorem plain_of_listed : ∀ c ∈ label, c ≠ '\u212A' ∧ (c.toNat < 0x80 ∨ c = 'ſ') := by
  have letters : ∀ k ∈ labels.flatten, k.toNat < 0x80 ∧ k ≠ 'k' :=
    List.all_iff_forall_prop.mp (by decide)
  intro c inside
  obtain ⟨ascii, other⟩ := letters _ (List.mem_flatten_of_mem listed (List.mem_map_of_mem inside))
  have kelvin : c ≠ '\u212A' := by
    rintro rfl
    exact other rfl
  refine ⟨kelvin, ?_⟩
  by_cases long : c = 'ſ'
  · exact .inr long
  · rw [Text.foldCase_eq_toLower long kelvin] at ascii
    exact .inl (Text.ascii_of_toLower ascii)

theorem lowercase_eq_map_of_listed : Text.lowercase label = label.map Char.toLower :=
  Text.lowercaseAfter_eq_map (fun c inside => (plain_of_listed listed c inside).2) []

/-- In lower case a label is a keyword, unless it is `stable` with a long s. -/
theorem map_toLower_of_listed :
    label.map Char.toLower ∈ labels ∨ label.map Char.toLower = "ſtable".toList := by
  have kelvin : '\u212A' ∉ label := fun inside => (plain_of_listed listed _ inside).1 rfl
  by_cases long : 'ſ' ∈ label
  · have only : ∀ keyword ∈ labels, 's' ∈ keyword → keyword = 's' :: "table".toList := by decide
    have stable := only _ listed (List.mem_map.mpr ⟨'ſ', long, rfl⟩)
    cases label with
    | nil => cases long
    | cons c rest =>
        have folded : rest.map Text.foldCase = "table".toList := (List.cons.inj stable).2
        have short : 'ſ' ∉ rest := by
          intro inside
          have letter : 's' ∈ "table".toList := folded ▸ List.mem_map.mpr ⟨'ſ', inside, rfl⟩
          revert letter
          decide
        obtain rfl := (List.mem_cons.mp long).resolve_right short
        have kelvin' : '\u212A' ∉ rest := fun inside => kelvin (List.mem_cons_of_mem _ inside)
        rw [List.map_cons, Text.map_toLower_eq_map_foldCase short kelvin', folded]
        exact .inr rfl
  · rw [Text.map_toLower_eq_map_foldCase long kelvin]
    exact .inl listed

/-- The full name of a label does not depend on the case of its letters. -/
theorem expandLabel_map_toLower : expandLabel (label.map Char.toLower) = expandLabel label := by
  have lower : ∀ keyword ∈ "ſtable".toList :: labels, Text.lowercase keyword = keyword := by decide
  have same := lower _ (List.mem_cons.mpr (map_toLower_of_listed listed).symm)
  rw [expandLabel, expandLabel, same, lowercase_eq_map_of_listed listed]

end

/-! ## Canonical labels -/

/-- The labels that stand in canonical forms. -/
def canonicalLabels : List Text :=
  ["ſtable".toList, "beta".toList, "RC".toList, "alpha".toList, "patch".toList]

theorem expandLabel_mem_canonicalLabels {label : Text} (listed : label.map Text.foldCase ∈ labels)
    (kept : label.map Char.toLower ≠ "stable".toList) : expandLabel label ∈ canonicalLabels := by
  have expands : ∀ lower ∈ "ſtable".toList :: labels, lower ≠ "stable".toList →
      (if lower = "a".toList then "alpha".toList
        else if lower = "b".toList then "beta".toList
        else if lower = "p".toList || lower = "pl".toList then "patch".toList
        else if lower = "rc".toList then "RC".toList
        else lower) ∈ canonicalLabels := by decide
  rw [expandLabel, lowercase_eq_map_of_listed listed]
  refine expands _ ?_ kept
  rcases map_toLower_of_listed listed with keyword | long
  · exact List.mem_cons_of_mem _ keyword
  · exact List.mem_cons.mpr (.inl long)

/-- A canonical label is spelled in one way only. -/
theorem expandLabel_of_canonical : ∀ label ∈ canonicalLabels, expandLabel label = label := by
  decide

theorem kept_of_canonical :
    ∀ label ∈ canonicalLabels, label.map Char.toLower ≠ "stable".toList ∧ label ≠ [] := by
  decide

/-- A canonical label is read whole, whatever stands behind it. -/
theorem readLabel?_append {label : Text} (canonical : label ∈ canonicalLabels) (rest : Text) :
    readLabel? (label ++ rest) = some (label, rest) := by
  simp only [canonicalLabels, List.mem_cons, List.not_mem_nil, or_false] at canonical
  rcases canonical with rfl | rfl | rfl | rfl | rfl <;> rfl

/-! ## Tails -/

/-- A tail of numbers: the reader of tails takes all of it. -/
def IsTail (tail : Text) : Prop := readTail tail = (tail, [])

instance (tail : Text) : Decidable (IsTail tail) := inferInstanceAs (Decidable (_ = _))

/-- Whether the reader of tails takes the first character of a text. -/
def goesOn (c : Char) (rest : Text) : Bool :=
  Text.isDecimalDigit c || (isJoint c && (rest.head?.map Text.isDecimalDigit).getD false)

theorem readTail_cons (c : Char) (rest : Text) :
    readTail (c :: rest) =
      if goesOn c rest then (c :: (readTail rest).1, (readTail rest).2) else ([], c :: rest) :=
  rfl

theorem isTail_cons_iff {c : Char} {tail : Text} :
    IsTail (c :: tail) ↔ goesOn c tail = true ∧ IsTail tail := by
  rw [IsTail, IsTail, readTail_cons]
  split
  · next more => simp [more, Prod.ext_iff]
  · next more => simp [more]

theorem goesOn_of_isDecimalDigit {c : Char} (digit : Text.isDecimalDigit c = true) (rest : Text) :
    goesOn c rest = true := by
  simp [goesOn, digit]

/-- What follows a character in a text has a say by its own first character alone. -/
theorem goesOn_congr {rest rest' : Text} (c : Char) (same : rest.head? = rest'.head?) :
    goesOn c rest = goesOn c rest' := by
  rw [goesOn, goesOn, same]

theorem isTail_readTail (text : Text) : IsTail (readTail text).1 := by
  induction text with
  | nil => rfl
  | cons c text ih =>
      rw [readTail_cons]
      split
      · next more =>
        refine isTail_cons_iff.mpr ⟨?_, ih⟩
        cases text with
        | nil => exact more
        | cons d text =>
            by_cases digit : Text.isDecimalDigit d = true
            · rw [readTail_cons, if_pos (goesOn_of_isDecimalDigit digit text)]
              exact (goesOn_congr c rfl).trans more
            · have digit' : Text.isDecimalDigit c = true := by simpa [goesOn, digit] using more
              exact goesOn_of_isDecimalDigit digit' _
      · rfl

/-- A tail ends where the reader of tails stops. -/
theorem readTail_append {tail rest : Text} (isTail : IsTail tail)
    (stops : readTail rest = ([], rest)) : readTail (tail ++ rest) = (tail, rest) := by
  induction tail with
  | nil => exact stops
  | cons c tail ih =>
      obtain ⟨more, isTail⟩ := isTail_cons_iff.mp isTail
      have more' : goesOn c (tail ++ rest) = true := by
        cases tail with
        | nil =>
            have digit : Text.isDecimalDigit c = true := by simpa [goesOn] using more
            exact goesOn_of_isDecimalDigit digit _
        | cons d tail => exact (goesOn_congr c rfl).trans more
      rw [List.cons_append, readTail_cons, if_pos more', ih isTail]

theorem isJoint_of_isDecimalDigit {c : Char} (digit : Text.isDecimalDigit c = true) :
    isJoint c = false := by
  rw [Bool.eq_false_iff]
  intro joint
  simp only [isJoint, Bool.or_eq_true, beq_iff_eq] at joint
  rcases joint with rfl | rfl <;> exact absurd digit (by decide)

/-- Without the joint before it a tail is one still. -/
theorem isTail_dropWhile {tail : Text} (isTail : IsTail tail) :
    IsTail (tail.dropWhile isJoint) := by
  cases tail with
  | nil => exact isTail
  | cons c tail =>
      obtain ⟨more, isTail'⟩ := isTail_cons_iff.mp isTail
      by_cases joint : isJoint c = true
      · have digit : ∃ d rest, tail = d :: rest ∧ Text.isDecimalDigit d = true := by
          have other : Text.isDecimalDigit c ≠ true := fun digit =>
            Bool.false_ne_true ((isJoint_of_isDecimalDigit digit).symm.trans joint)
          cases tail with
          | nil => simp [goesOn, other] at more
          | cons d rest => exact ⟨d, rest, rfl, by simpa [goesOn, other, joint] using more⟩
        obtain ⟨d, rest, rfl, digit⟩ := digit
        rwa [List.dropWhile_cons_of_pos joint,
          List.dropWhile_cons_of_neg (by simp [isJoint_of_isDecimalDigit digit])]
      · rwa [List.dropWhile_cons_of_neg joint]

/-! ## Reading and writing -/

/-- A modifier as readers find it: the label spells a keyword, and a tail stands behind a label
only. -/
structure IsWellFormed (modifier : Modifier) : Prop where
  label : modifier.label = [] ∨ modifier.label.map Text.foldCase ∈ labels
  tail : IsTail modifier.tail
  bare : modifier.label = [] → modifier.tail = []

/-- What a reader finds is well-formed. -/
theorem isWellFormed_read (text : Text) : (read text).1.IsWellFormed := by
  rw [read]
  split
  · next label afterLabel labelled =>
    obtain ⟨keyword, listed, spelled⟩ := List.exists_of_findSome?_eq_some labelled
    have folded := Text.map_foldCase_of_keyword? spelled
    refine ⟨.inr (folded ▸ listed), isTail_readTail afterLabel, ?_⟩
    rintro rfl
    subst folded
    exact absurd listed (by decide)
  · exact ⟨.inl rfl, rfl, fun _ => rfl⟩

/-- The modifier that the canonical form of a modifier is read as. -/
def canonical (modifier : Modifier) : Modifier :=
  if modifier.label.map Char.toLower = "stable".toList then ⟨[], [], false⟩
  else if modifier.hasLabel then
    ⟨expandLabel modifier.label, modifier.tail.dropWhile isJoint, modifier.isDev⟩
  else ⟨[], [], modifier.isDev⟩

theorem readTail_devSuffix (modifier : Modifier) :
    readTail modifier.devSuffix = ([], modifier.devSuffix) := by
  rw [devSuffix]
  split <;> decide

theorem readDev_devSuffix (modifier : Modifier) :
    readDev modifier.devSuffix = (modifier.isDev, []) := by
  rw [devSuffix]
  split
  · next marked => rw [marked]; decide
  · next marked => rw [Bool.eq_false_iff.mpr marked]; decide

/-- Behind a hyphen a canonical label is read, and what follows it as tail and development mark. -/
theorem read_cons_label {label : Text} (canonical : label ∈ canonicalLabels) (rest : Text) :
    read ('-' :: (label ++ rest)) =
      (⟨label, (readTail rest).1, (readDev (readTail rest).2).1⟩,
        (readDev (readTail rest).2).2) := by
  have start : dropOne isSeparator ('-' :: (label ++ rest)) = label ++ rest := rfl
  simp only [read, start, readLabel?_append canonical]

section

variable {modifier : Modifier}

theorem IsWellFormed.expandLabel_mem (wellFormed : modifier.IsWellFormed)
    (kept : modifier.label.map Char.toLower ≠ "stable".toList) (filled : modifier.label ≠ []) :
    expandLabel modifier.label ∈ canonicalLabels :=
  expandLabel_mem_canonicalLabels (wellFormed.label.resolve_left filled) kept

/-- A canonical form is read back to its end. -/
theorem IsWellFormed.read_suffix (wellFormed : modifier.IsWellFormed) :
    read modifier.suffix = (modifier.canonical, []) := by
  rw [suffix, canonical]
  split
  · rfl
  · next kept =>
    by_cases filled : modifier.label = []
    · have silent : modifier.hasLabel = false := by simp [hasLabel, filled]
      rw [labelSuffix, silent, if_neg Bool.false_ne_true, if_neg Bool.false_ne_true, devSuffix]
      cases modifier.isDev <;> decide
    · have labelled : modifier.hasLabel = true := by simpa [hasLabel] using filled
      have canonical := wellFormed.expandLabel_mem kept filled
      have tail := readTail_append (isTail_dropWhile wellFormed.tail) (readTail_devSuffix modifier)
      rw [labelSuffix, if_pos labelled, if_pos labelled, List.append_assoc, List.cons_append,
        read_cons_label canonical, tail, readDev_devSuffix]

/-- Reading a canonical form back and writing it again changes nothing. -/
theorem IsWellFormed.suffix_canonical (wellFormed : modifier.IsWellFormed) :
    modifier.canonical.suffix = modifier.suffix := by
  rw [canonical]
  split
  · next dropped => rw [suffix, suffix, if_pos dropped]; rfl
  · next kept =>
    split
    · next labelled =>
      have canonical := wellFormed.expandLabel_mem kept (by simpa [hasLabel] using labelled)
      obtain ⟨kept', filled⟩ := kept_of_canonical _ canonical
      have labelled' : (expandLabel modifier.label).isEmpty = false := by simpa using filled
      rw [suffix, suffix, if_neg kept', if_neg kept, labelSuffix, labelSuffix, if_pos labelled]
      simp only [hasLabel, labelled', devSuffix, expandLabel_of_canonical _ canonical,
        List.dropWhile_idempotent, Bool.not_false, if_true]
    · next unlabelled =>
      have unlabelled' : labelSuffix modifier = [] := if_neg unlabelled
      rw [suffix, suffix, if_neg kept, unlabelled']
      rfl

/-- A canonical form is empty, or a hyphen with a letter behind it. -/
theorem IsWellFormed.suffix_cases (wellFormed : modifier.IsWellFormed) :
    modifier.suffix = [] ∨ ∃ c rest, modifier.suffix = '-' :: c :: rest ∧
      Text.isDecimalDigit c = false ∧ c ∉ ['.', ':', '-'] := by
  have letters : ∀ label ∈ canonicalLabels, ∃ c rest, label = c :: rest ∧
      Text.isDecimalDigit c = false ∧ c ∉ ['.', ':', '-'] := by
    simp only [canonicalLabels, List.forall_mem_cons]
    exact ⟨⟨_, _, rfl, by decide⟩, ⟨_, _, rfl, by decide⟩, ⟨_, _, rfl, by decide⟩,
      ⟨_, _, rfl, by decide⟩, ⟨_, _, rfl, by decide⟩, List.forall_mem_nil _⟩
  rw [suffix]
  split
  · exact .inl rfl
  · next kept =>
    by_cases filled : modifier.label = []
    · have unlabelled : modifier.labelSuffix = [] := by simp [labelSuffix, hasLabel, filled]
      rw [unlabelled, List.nil_append, devSuffix]
      split
      · exact .inr ⟨'d', _, rfl, by decide⟩
      · exact .inl rfl
    · have labelled : modifier.hasLabel = true := by simpa [hasLabel] using filled
      obtain ⟨c, rest, spelled, letter⟩ := letters _ (wellFormed.expandLabel_mem kept filled)
      rw [labelSuffix, if_pos labelled, spelled]
      exact .inr ⟨c, _, rfl, letter⟩

/-- A canonical form begins with no digit. -/
theorem IsWellFormed.suffix_stops (wellFormed : modifier.IsWellFormed) :
    ∀ c, modifier.suffix.head? = some c → Text.isDecimalDigit c = false := by
  rcases wellFormed.suffix_cases with empty | ⟨d, rest, written, -⟩
  · simp [empty]
  · rw [written]
    rintro c ⟨⟩
    decide

end

/-! ## Signs that no modifier holds -/

section

variable {sign : Char} (foreign : Text.IsForeign sign)

include foreign

theorem not_mem_expandLabel {label : Text} (listed : label.map Text.foldCase ∈ labels) :
    sign ∉ expandLabel label := by
  have spelled : ∀ label ∈ "stable".toList :: canonicalLabels,
      label.map Text.foldCase ∈ labels := by decide
  have written : expandLabel label ∈ "stable".toList :: canonicalLabels := by
    by_cases dropped : label.map Char.toLower = "stable".toList
    · have same : expandLabel label = "stable".toList := by
        rw [expandLabel, lowercase_eq_map_of_listed listed, dropped]
        rfl
      exact List.mem_cons.mpr (.inl same)
    · exact List.mem_cons_of_mem _ (expandLabel_mem_canonicalLabels listed dropped)
  intro inside
  exact foreign.letter _ (List.mem_cons_of_mem _ (spelled _ written)) (List.mem_map_of_mem inside)

theorem not_mem_of_isTail {tail : Text} (isTail : IsTail tail) : sign ∉ tail := by
  induction tail with
  | nil => simp
  | cons c tail ih =>
      obtain ⟨more, isTail⟩ := isTail_cons_iff.mp isTail
      refine List.not_mem_cons_of_ne_of_not_mem ?_ (ih isTail)
      rintro rfl
      simp [goesOn, foreign.digit, (isStranger_of_isForeign foreign).joint] at more

/-- A sign that no literal holds is not in a development mark, nor in a number. -/
theorem not_mem_of_plain {text : Text}
    (plain : text.all (fun c => Text.isDecimalDigit c || "-dev".toList.contains c) = true) :
    sign ∉ text := by
  intro inside
  rcases Bool.or_eq_true_iff.mp (List.all_eq_true.mp plain sign inside) with digit | listed
  · exact Bool.false_ne_true (foreign.digit.symm.trans digit)
  · rcases List.mem_cons.mp (List.contains_iff_mem.mp listed) with rfl | letter
    · exact foreign.other (by decide)
    · have folded : Text.foldCase sign ∈ "dev".toList.map Text.foldCase :=
        List.mem_map_of_mem letter
      exact foreign.letter "dev".toList (by simp) folded

theorem not_mem_devSuffix (modifier : Modifier) : sign ∉ modifier.devSuffix := by
  rw [devSuffix]
  split
  · exact not_mem_of_plain foreign (by decide)
  · simp

theorem not_mem_labelSuffix {modifier : Modifier} (wellFormed : modifier.IsWellFormed) :
    sign ∉ modifier.labelSuffix := by
  have hyphen : sign ≠ '-' := fun same => foreign.other (by simp [same])
  rw [labelSuffix]
  split
  · next labelled =>
    have listed := wellFormed.label.resolve_left (by simpa [hasLabel] using labelled)
    have tail := not_mem_of_isTail foreign (isTail_dropWhile wellFormed.tail)
    simp [hyphen, not_mem_expandLabel foreign listed, tail]
  · simp

theorem not_mem_suffix {modifier : Modifier} (wellFormed : modifier.IsWellFormed) :
    sign ∉ modifier.suffix := by
  rw [suffix]
  split
  · simp
  · simp [not_mem_labelSuffix foreign wellFormed, not_mem_devSuffix foreign modifier]

end

end Modifier

end VersionRanges

/-
# The stability of normal forms

A literal states the stability of its modifier: the search for an ending that is a modifier passes
over the mark and the numbers, and finds the modifier as the literal has it. The normal form states
the same stability, but for two things. The label `stable` takes a development mark behind it along
when it is dropped, and build metadata that end like a development version make one of the text that
they stand behind.
-/
import VersionRanges.Proofs.Normal.Numbered
import VersionRanges.Version.Maturity

namespace VersionRanges

open Text (foldCase)

/-! ## The stability of a modifier -/

/-- Upper and lower case of a letter are one letter of a keyword. -/
theorem Text.foldCase_toLower (c : Char) : foldCase c.toLower = foldCase c := by
  by_cases capital : c.val ≥ 'A'.val ∧ c.val ≤ 'Z'.val
  · have letters : ∀ n < 91, foldCase (Char.ofNat n).toLower = foldCase (Char.ofNat n) := by decide
    have below : c.toNat ≤ 90 := capital.2
    rw [← Char.ofNat_toNat c]
    exact letters c.toNat (Nat.lt_succ_of_le below)
  · have same : c.toLower = c := dif_neg capital
    rw [same]

theorem Text.map_foldCase_of_map_toLower {spelling keyword : Text}
    (spells : spelling.map Char.toLower = keyword) (plain : keyword.map foldCase = keyword) :
    spelling.map foldCase = keyword := by
  rw [← plain, ← spells, List.map_map]
  exact List.map_congr_left fun c _ => (foldCase_toLower c).symm

namespace Modifier

/-- A modifier states its stability by its development mark and the letters of its label. -/
theorem stability_congr {modifier modifier' : Modifier} (isDev : modifier.isDev = modifier'.isDev)
    (letters : modifier.label.map foldCase = modifier'.label.map foldCase) :
    modifier.stability = modifier'.stability := by
  unfold stability Text.spells
  rw [isDev, letters]

theorem stability_eq_dev_iff (modifier : Modifier) :
    modifier.stability = .dev ↔ modifier.isDev = true := by
  unfold stability
  split_ifs <;> simp_all

theorem stability_of_dropped {modifier : Modifier}
    (dropped : modifier.label.map Char.toLower = "stable".toList) :
    modifier.stability = if modifier.isDev then .dev else .stable := by
  have letters : modifier.label.map foldCase = "stable".toList.map foldCase :=
    Text.map_foldCase_of_map_toLower dropped rfl
  have same : modifier.stability = (⟨"stable".toList, [], modifier.isDev⟩ : Modifier).stability :=
    stability_congr rfl letters
  rw [same]
  cases modifier.isDev <;> decide

/-- The canonical modifier states the same stability, unless the label `stable` is dropped. -/
theorem IsWellFormed.stability_canonical {modifier : Modifier}
    (wellFormed : modifier.IsWellFormed) :
    modifier.canonical.stability =
      if modifier.label.map Char.toLower = "stable".toList then .stable
      else modifier.stability := by
  rw [canonical]
  split
  · rfl
  · next kept =>
    split
    · next labelled =>
      have listed := wellFormed.label.resolve_left (by simpa [hasLabel] using labelled)
      have expands : ∀ lower ∈ "ſtable".toList :: labels, lower ≠ "stable".toList → ∀ isDev,
          (⟨expandLabel lower, [], isDev⟩ : Modifier).stability =
            (⟨lower, [], isDev⟩ : Modifier).stability := by decide
      have stability := expands (modifier.label.map Char.toLower)
        (List.mem_cons.mpr (map_toLower_of_listed listed).symm)
      rw [← expandLabel_map_toLower listed]
      exact (stability kept modifier.isDev).trans
        (stability_congr rfl (by simp [Text.foldCase_toLower]))
    · next unlabelled =>
      have empty : modifier.label = [] := by simpa [hasLabel] using unlabelled
      exact stability_congr rfl (by rw [empty])

end Modifier

/-! ## The search for a modifier -/

namespace Stability

open Literal (IsNumber IsMark dotted)

theorem ofEnding_of_isClosing {text : Text} (closing : isClosing (Modifier.read text).2 = true) :
    ofEnding text = (Modifier.read text).1.stability := by
  cases text with
  | nil => rfl
  | cons c rest => rw [ofEnding, if_pos closing]

/-- The search passes over a text in which no modifier is read before a character that closes
nothing. -/
theorem ofEnding_cons {c d : Char} {rest rest' : Text} (idle : Modifier.IsIdle d) (open' : d ≠ '+')
    (start : Modifier.dropOne Modifier.isSeparator (c :: rest) = d :: rest') :
    ofEnding (c :: rest) = ofEnding rest := by
  have passes : isClosing (Modifier.read (c :: rest)).2 = false := by
    rw [idle.read_eq start]
    simp [isClosing, open']
  rw [ofEnding, passes, if_neg Bool.false_ne_true]

theorem ofEnding_cons_of_isIdle {c : Char} (idle : Modifier.IsIdle c) (open' : c ≠ '+')
    (rest : Text) : ofEnding (c :: rest) = ofEnding rest :=
  ofEnding_cons idle open' (Modifier.dropOne_cons_of_neg idle.separator rest)

theorem ofEnding_digits {digits : Text} (areDigits : ∀ c ∈ digits, Text.isDecimalDigit c = true)
    (rest : Text) : ofEnding (digits ++ rest) = ofEnding rest := by
  induction digits with
  | nil => rfl
  | cons c digits ih =>
      obtain ⟨digit, areDigits⟩ := List.forall_mem_cons.mp areDigits
      rw [List.cons_append, ofEnding_cons_of_isIdle (Modifier.isIdle_of_isDecimalDigit digit)
        (Text.ne_of_isDecimalDigit digit (by decide)), ih areDigits]

theorem ofEnding_dotted {parts : List Text} (areNumbers : ∀ part ∈ parts, IsNumber part)
    (rest : Text) : ofEnding (dotted parts ++ rest) = ofEnding rest := by
  induction parts with
  | nil => rfl
  | cons part parts ih =>
      obtain ⟨isNumber, further⟩ := List.forall_mem_cons.mp areNumbers
      obtain ⟨c, digits, rfl, digit⟩ := isNumber.exists_cons
      have dot : ofEnding ('.' :: (c :: digits ++ (dotted parts ++ rest))) =
          ofEnding (c :: digits ++ (dotted parts ++ rest)) :=
        ofEnding_cons (Modifier.isIdle_of_isDecimalDigit digit)
          (Text.ne_of_isDecimalDigit digit (by decide)) rfl
      rw [Literal.dotted_cons, dot, ofEnding_digits isNumber.digits, ih further]

theorem ofEnding_mark {mark : Text} (isMark : IsMark mark) (rest : Text) :
    ofEnding (mark ++ rest) = ofEnding rest := by
  simp only [IsMark, List.mem_cons, List.not_mem_nil, or_false] at isMark
  rcases isMark with rfl | rfl | rfl
  · rfl
  · exact ofEnding_cons_of_isIdle ⟨by decide, by decide⟩ (by decide) rest
  · exact ofEnding_cons_of_isIdle ⟨by decide, by decide⟩ (by decide) rest

/-! ## The stability of a literal -/

/-- What may stand behind a version: nothing, or build metadata. -/
def IsMetadata (metadata : Text) : Prop :=
  metadata = [] ∨
    ∃ build, metadata = '+' :: build ∧ build ≠ [] ∧ ∀ c ∈ build, Text.isBlank c = false

/-- The reference to a commit is cut off from the metadata alone. -/
theorem withoutReference_append {text : Text} (unsigned : '#' ∉ text) (metadata : Text) :
    withoutReference (text ++ metadata) = text ++ withoutReference metadata := by
  have plain := Text.forall_bne unsigned
  simp only [withoutReference, List.dropWhile_append_of_pos plain,
    List.takeWhile_append_of_pos plain]
  split <;> rfl

theorem isPrefix_withoutReference (text : Text) : withoutReference text <+: text := by
  unfold withoutReference
  split
  · exact List.takeWhile_prefix _
  · exact List.prefix_refl text

/-- Without a reference, metadata close a modifier. -/
theorem isClosing_withoutReference {metadata : Text} (isMetadata : IsMetadata metadata) :
    isClosing (withoutReference metadata) = true ∧
      (withoutReference metadata = [] ∨ (withoutReference metadata).head? = some '+') := by
  have part := isPrefix_withoutReference metadata
  rcases isMetadata with rfl | ⟨build, rfl, -, solid⟩
  · rw [List.prefix_nil.mp part]
    exact ⟨rfl, .inl rfl⟩
  · rcases List.prefix_cons_iff.mp part with empty | ⟨build', left, part'⟩
    · rw [empty]
      exact ⟨rfl, .inl rfl⟩
    · have line : '\n' ∉ build' := fun inside =>
        Text.not_mem_of_solid solid (by decide) (part'.subset inside)
      rw [left]
      exact ⟨by simp [isClosing, line], .inr rfl⟩

/-- A literal that ends like a development version is one. -/
theorem isDev_of_suffix {text : Text} {literal : Literal}
    (reads : Literal.read? text = some (literal, [])) (ends : "-dev".toList <:+ text) :
    literal.modifier.isDev = true := by
  have stranger : Modifier.IsStranger 'd' := ⟨by decide, by decide, by decide⟩
  have letter : 'd' ∈ text := ends.subset (by decide)
  by_contra unmarked
  have left := Literal.leaves_of_read?_of_isStranger stranger (by decide) reads
    (.inr (by simpa using unmarked))
  exact absurd (left.mem letter) (by simp)

/-- The search finds the modifier of a literal in front of what closes a version. -/
theorem ofEnding_append {text metadata : Text} {literal : Literal}
    (reads : Literal.read? text = some (literal, [])) (closing : isClosing metadata = true)
    (begins : metadata = [] ∨ metadata.head? = some '+') :
    ofEnding (text ++ metadata) = literal.modifier.stability := by
  obtain ⟨mark, written, isMark, rfl, read⟩ := Literal.exists_append_of_read? reads
  have wellFormed := Literal.isWellFormed_of_read? reads
  have whole : Modifier.read (written ++ metadata) = (literal.modifier, metadata) := by
    rcases begins with rfl | plus
    · rw [List.append_nil, read]
    · obtain ⟨build, rfl⟩ := List.head?_eq_some_iff.mp plus
      rw [Modifier.read_append_cons (by decide), read]
      rfl
  have found : ofEnding (written ++ metadata) = literal.modifier.stability := by
    rw [ofEnding_of_isClosing (by rw [whole, closing]), whole]
  rw [List.append_assoc, ofEnding_mark isMark, List.append_assoc,
    ofEnding_digits wellFormed.major.digits, List.append_assoc,
    ofEnding_dotted wellFormed.further, found]

/-- The stability of a version with metadata behind it: that of its modifier, unless the metadata
end like a development version. -/
theorem ofVersion_append {text metadata : Text} {literal : Literal}
    (reads : Literal.ofVersion? text = some literal) (isMetadata : IsMetadata metadata) :
    ofVersion (text ++ metadata) =
      if "-dev".toList <:+ withoutReference metadata then .dev else literal.modifier.stability := by
  obtain ⟨closing, begins⟩ := isClosing_withoutReference isMetadata
  obtain ⟨read, -⟩ := Literal.read?_of_ofVersion? reads
  have numbered := Version.isNumbered_of_literal reads
  have unbranched : "dev-".toList.isPrefixOf (text ++ withoutReference metadata) = false :=
    numbered.isBranch_append _
  rw [ofVersion, withoutReference_append (numbered.plain '#' (by decide)), unbranched,
    Bool.false_or, ofEnding_append read closing begins]
  simp only [List.isSuffixOf_iff_suffix]
  by_cases ends : "-dev".toList <:+ withoutReference metadata
  · rw [if_pos ends, if_pos (ends.trans (List.suffix_append _ _))]
  · rw [if_neg ends]
    refine ite_eq_right_iff.mpr fun whole => ?_
    -- The metadata have a plus sign in front, and so the ending is not spread over both parts.
    have ends' : "-dev".toList <:+ text := by
      rcases begins with empty | plus
      · rwa [empty, List.append_nil] at whole
      · obtain ⟨build, left⟩ := List.head?_eq_some_iff.mp plus
        rcases List.suffix_or_suffix_of_suffix whole (List.suffix_append _ _) with inner | outer
        · exact absurd inner ends
        · rw [left] at outer
          exact absurd (outer.subset List.mem_cons_self) (by decide)
    exact (literal.modifier.stability_eq_dev_iff.mpr (isDev_of_suffix read ends')).symm

/-- The normal form of a literal states its stability, except for a development mark that is
dropped. -/
theorem ofVersion_normalForm {text : Text} {literal : Literal}
    (reads : Literal.ofVersion? text = some literal) :
    ofVersion literal.normalForm =
      if literal.modifier.label.map Char.toLower = "stable".toList then .stable
      else literal.modifier.stability := by
  obtain ⟨read, short⟩ := Literal.read?_of_ofVersion? reads
  have wellFormed := Literal.isWellFormed_of_read? read
  have again : Literal.ofVersion? literal.normalForm = some literal.canonical := by
    rw [wellFormed.ofVersion?_normalForm, if_pos short]
  rw [← List.append_nil literal.normalForm, ofVersion_append again (.inl rfl),
    if_neg (by decide)]
  exact wellFormed.modifier.stability_canonical

/-- A literal, with or without build metadata behind it, and its normal form state the same
stability, but for two cases: a development mark behind the label `stable` is lost, and metadata
that end like a development version, up to the reference in them, make a version one. -/
theorem ofVersion_normalize_iff {version metadata : Text} {literal : Literal}
    (reads : Literal.ofVersion? version = some literal) (isMetadata : IsMetadata metadata) :
    ∃ normal, Version.normalize (version ++ metadata) = .ok normal ∧
      (ofVersion (version ++ metadata) = ofVersion normal ↔
        (literal.modifier.label.map Char.toLower = "stable".toList →
          literal.modifier.isDev = false) ∧
        ("-dev".toList <:+ withoutReference metadata → literal.modifier.isDev = true)) := by
  have numbered := Version.isNumbered_of_literal reads
  have kept : Version.core (version ++ metadata) = Version.core version := by
    rcases isMetadata with rfl | ⟨build, rfl, filled, solid⟩
    · rw [List.append_nil]
    · rw [numbered.core_append filled solid, numbered.core_eq_self]
  have normalized : Version.normalize (version ++ metadata) = .ok literal.normalForm := by
    rw [Version.normalize_eq_ok_iff, kept]
    exact Version.normalize_eq_ok_iff.mp (Version.normalize_of_literal reads)
  refine ⟨literal.normalForm, normalized, ?_⟩
  rw [ofVersion_append reads isMetadata, ofVersion_normalForm reads]
  by_cases dropped : literal.modifier.label.map Char.toLower = "stable".toList
  · rw [if_pos dropped, Modifier.stability_of_dropped dropped]
    cases literal.modifier.isDev <;> simp [dropped]
  · rw [if_neg dropped]
    split
    · next ends =>
      rw [eq_comm, Modifier.stability_eq_dev_iff]
      exact ⟨fun isDev => ⟨fun named => absurd named dropped, fun _ => isDev⟩,
        fun states => states.2 ends⟩
    · next plain =>
      exact iff_of_true rfl
        ⟨fun named => absurd named dropped, fun ends => absurd ends plain⟩

/-- A preview with metadata keeps its stability, and a version whose metadata end like a development
version does not. -/
theorem ofVersion_normalize_iff_preview :
    ∃ literal literal', Literal.ofVersion? "v1.2RC1".toList = some literal ∧
      Literal.ofVersion? "1.0.0".toList = some literal' ∧
      IsMetadata "+build.5".toList ∧ IsMetadata "+foo-dev".toList ∧
      (∃ normal, Version.normalize ("v1.2RC1".toList ++ "+build.5".toList) = .ok normal ∧
        ofVersion ("v1.2RC1".toList ++ "+build.5".toList) = ofVersion normal) ∧
      ∃ normal, Version.normalize ("1.0.0".toList ++ "+foo-dev".toList) = .ok normal ∧
        ofVersion ("1.0.0".toList ++ "+foo-dev".toList) ≠ ofVersion normal := by
  have reads : Literal.ofVersion? "v1.2RC1".toList =
      some ⟨['1'], [['2']], ⟨"RC".toList, ['1'], false⟩⟩ := by decide
  have reads' : Literal.ofVersion? "1.0.0".toList =
      some ⟨['1'], [['0'], ['0']], ⟨[], [], false⟩⟩ := by decide
  have isMetadata : IsMetadata "+build.5".toList :=
    .inr ⟨"build.5".toList, rfl, by decide, List.all_iff_forall_prop.mp (by decide)⟩
  have isMetadata' : IsMetadata "+foo-dev".toList :=
    .inr ⟨"foo-dev".toList, rfl, by decide, List.all_iff_forall_prop.mp (by decide)⟩
  obtain ⟨normal, normalized, kept⟩ := ofVersion_normalize_iff reads isMetadata
  obtain ⟨normal', normalized', kept'⟩ := ofVersion_normalize_iff reads' isMetadata'
  refine ⟨_, _, reads, reads', isMetadata, isMetadata', ⟨normal, normalized, kept.mpr ?_⟩,
    normal', normalized', fun same => ?_⟩
  · exact ⟨fun _ => rfl, fun ends => absurd ends (by decide)⟩
  · exact Bool.false_ne_true ((kept'.mp same).2 (by decide))

/-- The development mark behind the label `stable` and the ending of metadata are both told apart
from the normal form. -/
theorem ofVersion_ne_ofVersion_normalize :
    (Literal.ofVersion? "1.0.0-stable-dev".toList).isSome = true ∧
      Version.normalize "1.0.0-stable-dev".toList = .ok "1.0.0.0".toList ∧
      ofVersion "1.0.0-stable-dev".toList = .dev ∧
      (Literal.ofVersion? "1.0.0".toList).isSome = true ∧
      Version.normalize "1.0.0+foo-dev".toList = .ok "1.0.0.0".toList ∧
      ofVersion "1.0.0+foo-dev".toList = .dev ∧
      ofVersion "1.0.0.0".toList = .stable := by
  decide

end Stability

end VersionRanges

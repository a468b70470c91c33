/-
# Signs that no literal holds

The readers of literals take digits, the signs between them, and the letters of keywords. Whatever
else stands in a text is left by all of them, and so a text with another sign in it is neither a
literal nor a date nor the number of a branch.
-/
import Mathlib.Data.List.Basic
import VersionRanges.Proofs.Text.Caseless
import VersionRanges.Version.Branch
import VersionRanges.Version.Timestamp

namespace VersionRanges

namespace Text

/-- What is left of a text by a reader that does not take a sign. -/
def Leaves (sign : Char) (text rest : Text) : Prop := ∃ taken, text = taken ++ rest ∧ sign ∉ taken

variable {sign : Char} {text rest rest' : Text}

theorem Leaves.refl (sign : Char) (text : Text) : Leaves sign text text := ⟨[], rfl, by simp⟩

theorem Leaves.trans (leaves : Leaves sign text rest) (leaves' : Leaves sign rest rest') :
    Leaves sign text rest' := by
  obtain ⟨taken, rfl, absent⟩ := leaves
  obtain ⟨taken', rfl, absent'⟩ := leaves'
  exact ⟨taken ++ taken', by simp, by simp [absent, absent']⟩

theorem Leaves.cons {c : Char} (other : sign ≠ c) (leaves : Leaves sign text rest) :
    Leaves sign (c :: text) rest := by
  obtain ⟨taken, rfl, absent⟩ := leaves
  exact ⟨c :: taken, rfl, List.not_mem_cons_of_ne_of_not_mem other absent⟩

/-- The sign itself is left. -/
theorem Leaves.mem (leaves : Leaves sign text rest) (inside : sign ∈ text) : sign ∈ rest := by
  obtain ⟨taken, rfl, absent⟩ := leaves
  exact (List.mem_append.mp inside).resolve_left absent

/-- Everything from the first place of the sign on is left. -/
theorem Leaves.exists_suffix {front behind : Text}
    (leaves : Leaves sign (front ++ sign :: behind) rest) :
    ∃ front', front' <:+ front ∧ rest = front' ++ sign :: behind := by
  obtain ⟨taken, whole, absent⟩ := leaves
  rcases List.append_eq_append_iff.mp whole with ⟨between, longer, left⟩ | ⟨between, left, rest⟩
  · cases between with
    | nil => exact ⟨[], List.nil_suffix, left.symm⟩
    | cons c between =>
        obtain ⟨rfl, -⟩ := List.cons.inj left
        exact absurd (longer ▸ by simp) absent
  · exact ⟨between, ⟨taken, left.symm⟩, rest⟩

theorem head?_append_ne {front : Text} {c sign : Char} (absent : c ∉ front) (other : c ≠ sign)
    (behind : Text) : (front ++ sign :: behind).head? ≠ some c := by
  cases front with
  | nil => simpa using other.symm
  | cons d front =>
      rintro ⟨⟩
      exact absent List.mem_cons_self

theorem leaves_dropWhile {property : Char → Bool} (other : property sign = false) (text : Text) :
    Leaves sign text (text.dropWhile property) := by
  refine ⟨text.takeWhile property, List.takeWhile_append_dropWhile.symm, fun inside => ?_⟩
  have taken := List.all_eq_true.mp (List.all_takeWhile (l := text)) sign inside
  exact Bool.false_ne_true (other.symm.trans taken)

theorem leaves_of_keyword? {keyword spelling : Text} (other : foldCase sign ∉ keyword)
    (split : keyword? keyword text = some (spelling, rest)) : Leaves sign text rest := by
  refine ⟨spelling, eq_append_of_keyword? split, fun inside => other ?_⟩
  rw [← map_foldCase_of_keyword? split]
  exact List.mem_map_of_mem inside

/-- A sign that no literal holds: no digit, none of the signs that stand between or in place of
digits, and no letter of a keyword. -/
@[mk_iff]
structure IsForeign (sign : Char) : Prop where
  digit : isDecimalDigit sign = false
  other : sign ∉ ['.', '_', '-', ':', 'v', 'V', 'x', 'X', '*']
  letter : ∀ keyword ∈ "dev".toList :: Modifier.labels, foldCase sign ∉ keyword

instance (sign : Char) : Decidable (IsForeign sign) := decidable_of_iff' _ (isForeign_iff sign)

theorem isForeign_numberSign : IsForeign '#' := by
  decide

/-- No literal holds a sign that divides or flags a constraint or refers to a commit, nor one that
stands in front of a version. -/
theorem isForeign_of_mem :
    ∀ sign ∈ [',', '|', '@', '#'] ++ ['<', '>', '=', '!', '~', '^'], IsForeign sign := by
  simp only [List.forall_mem_append, List.forall_mem_cons, List.not_mem_nil, IsEmpty.forall_iff,
    implies_true, and_true]
  decide

/-- No literal holds a blank. -/
theorem isForeign_of_isBlank {c : Char} (blank : isBlank c = true) : IsForeign c := by
  have signs : ∀ d ∈ ['.', '_', '-', ':', 'v', 'V', 'x', 'X', '*'], isBlank d = false :=
    List.all_iff_forall_prop.mp (by decide)
  have letters : ∀ k ∈ ("dev".toList :: Modifier.labels).flatten, isBlank k = false :=
    List.all_iff_forall_prop.mp (by decide)
  refine ⟨isDecimalDigit_of_isBlank blank, fun listed => ?_, fun keyword listed inside => ?_⟩
  · exact Bool.false_ne_true ((signs c listed).symm.trans blank)
  · rw [foldCase_of_isBlank blank] at inside
    exact Bool.false_ne_true ((letters c (List.mem_flatten_of_mem listed inside)).symm.trans blank)

end Text

open Text (Leaves IsForeign)

variable {sign : Char}

/-! ## Modifiers -/

namespace Modifier

theorem leaves_dropOne {property : Char → Bool} (other : property sign = false) (text : Text) :
    Leaves sign text (dropOne property text) := by
  cases text with
  | nil => exact .refl sign []
  | cons c text =>
      by_cases dropped : property c = true
      · rw [dropOne, if_pos dropped]
        refine (Leaves.refl sign text).cons ?_
        rintro rfl
        exact Bool.false_ne_true (other.symm.trans dropped)
      · rw [dropOne, if_neg dropped]
        exact .refl sign _

theorem dropOne_cons_of_neg {property : Char → Bool} {c : Char} (kept : property c = false)
    (rest : Text) : dropOne property (c :: rest) = c :: rest := by
  rw [dropOne, kept, if_neg Bool.false_ne_true]

/-- A sign that is in no label and in no tail of numbers, and that separates neither. -/
structure IsStranger (sign : Char) : Prop where
  digit : Text.isDecimalDigit sign = false
  separator : isSeparator sign = false
  letter : ∀ keyword ∈ labels, Text.foldCase sign ∉ keyword

theorem isStranger_of_isForeign (foreign : IsForeign sign) : IsStranger sign := by
  have other := foreign.other
  simp only [List.mem_cons, not_or] at other
  exact ⟨foreign.digit, by simp [isSeparator, other],
    fun keyword listed => foreign.letter keyword (List.mem_cons_of_mem _ listed)⟩

theorem isJoint_eq_false (separator : isSeparator sign = false) : isJoint sign = false := by
  simp only [isSeparator, Bool.or_eq_false_iff] at separator
  simp [isJoint, separator]

theorem IsStranger.joint (stranger : IsStranger sign) : isJoint sign = false :=
  isJoint_eq_false stranger.separator

theorem leaves_readTail (digit : Text.isDecimalDigit sign = false) (joint : isJoint sign = false)
    (text : Text) : Leaves sign text (readTail text).2 := by
  induction text with
  | nil => exact .refl sign []
  | cons c text ih =>
      rw [readTail]
      split
      · next taken =>
        refine ih.cons ?_
        rintro rfl
        simp [digit, joint] at taken
      · exact .refl sign _

theorem leaves_readDev (joint : isJoint sign = false) {text : Text}
    (unmarked : Text.foldCase sign ∉ "dev".toList ∨ (readDev text).1 = false) :
    Leaves sign text (readDev text).2 := by
  rw [readDev] at unmarked ⊢
  split
  · next marked =>
    rw [marked] at unmarked
    have letter : Text.foldCase sign ∉ "dev".toList := unmarked.resolve_right (by simp)
    exact (leaves_dropOne joint text).trans (Text.leaves_of_keyword? letter marked)
  · exact .refl sign text

theorem leaves_of_readLabel? (stranger : IsStranger sign) {text label rest : Text}
    (reads : readLabel? text = some (label, rest)) : Leaves sign text rest := by
  obtain ⟨keyword, listed, spelled⟩ := List.exists_of_findSome?_eq_some reads
  exact Text.leaves_of_keyword? (stranger.letter keyword listed) spelled

/-- A modifier takes no stranger, except for the letters of a development mark. -/
theorem leaves_read (stranger : IsStranger sign) {text : Text}
    (unmarked : Text.foldCase sign ∉ "dev".toList ∨ (read text).1.isDev = false) :
    Leaves sign text (read text).2 := by
  have start := leaves_dropOne stranger.separator text
  rw [read] at unmarked ⊢
  split
  · next label afterLabel labelled =>
    simp only [labelled] at unmarked
    have afterTail := leaves_readTail stranger.digit stranger.joint afterLabel
    exact (start.trans (leaves_of_readLabel? stranger labelled)).trans
      (afterTail.trans (leaves_readDev stranger.joint unmarked))
  · next unlabelled =>
    simp only [unlabelled] at unmarked
    exact start.trans (leaves_readDev stranger.joint unmarked)

end Modifier

/-! ## Literals -/

namespace Literal

theorem leaves_readDigits (digit : Text.isDecimalDigit sign = false) (text : Text) :
    Leaves sign text (readDigits text).2 :=
  Text.leaves_dropWhile digit text

theorem leaves_readFurther (stranger : Modifier.IsStranger sign) (limit : Nat) (text : Text) :
    Leaves sign text (readFurther limit text).2 := by
  have dot : sign ≠ '.' := by
    rintro rfl
    exact absurd stranger.separator (by decide)
  induction limit, text using readFurther.induct with
  | case1 text => exact .refl sign text
  | case2 limit rest after empty =>
      simp only [readFurther, empty]
      exact .refl sign _
  | case3 limit rest digits after filled split ih =>
      obtain ⟨d, digits, rfl⟩ := List.exists_cons_of_ne_nil filled
      have number := leaves_readDigits stranger.digit rest
      rw [split] at number
      simp only [readFurther, split]
      exact (number.trans ih).cons dot
  | case4 limit text undotted =>
      rw [readFurther]
      · exact .refl sign text
      · exact undotted

theorem leaves_dropMark (foreign : IsForeign sign) (text : Text) :
    Leaves sign text (dropMark text) := by
  have other := foreign.other
  simp only [List.mem_cons, not_or] at other
  exact Modifier.leaves_dropOne (by simp [other]) text

/-- A literal takes no stranger but its mark and the letters of its development mark. -/
theorem leaves_of_read?_of_isStranger (stranger : Modifier.IsStranger sign)
    (mark : (sign == 'v' || sign == 'V') = false) {text rest : Text} {literal : Literal}
    (reads : read? text = some (literal, rest))
    (unmarked : Text.foldCase sign ∉ "dev".toList ∨ literal.modifier.isDev = false) :
    Leaves sign text rest := by
  rw [read?] at reads
  split at reads
  · cases reads
  · next major afterMajor filled split =>
    have start : Leaves sign text (dropMark text) := Modifier.leaves_dropOne mark text
    have number := leaves_readDigits stranger.digit (dropMark text)
    rw [split] at number
    obtain ⟨same, left⟩ := Prod.mk.inj (Option.some.inj reads)
    rw [← same] at unmarked
    rw [← left]
    exact ((start.trans number).trans (leaves_readFurther stranger 3 afterMajor)).trans
      (Modifier.leaves_read stranger unmarked)

theorem leaves_of_read? (foreign : IsForeign sign) {text rest : Text} {literal : Literal}
    (reads : read? text = some (literal, rest)) : Leaves sign text rest := by
  have other := foreign.other
  simp only [List.mem_cons, not_or] at other
  exact leaves_of_read?_of_isStranger (Modifier.isStranger_of_isForeign foreign) (by simp [other])
    reads (.inl (foreign.letter "dev".toList (by simp)))

/-- A text that does not begin with a plus sign begins with no metadata. -/
theorem dropMetadata_eq_self {text : Text} (plain : text.head? ≠ some '+') :
    dropMetadata text = text := by
  unfold dropMetadata
  split
  · exact absurd rfl plain
  · rfl

theorem exists_read?_of_readWithMetadata? {text rest : Text} {literal : Literal}
    (reads : readWithMetadata? text = some (literal, rest)) :
    ∃ left, read? text = some (literal, left) ∧ dropMetadata left = rest := by
  obtain ⟨⟨literal', left⟩, read, same⟩ := Option.map_eq_some_iff.mp reads
  obtain ⟨rfl, kept⟩ := Prod.mk.inj same
  exact ⟨left, read, kept⟩

theorem dropMetadata_suffix (text : Text) : dropMetadata text <:+ text := by
  fun_cases dropMetadata text with
  | case1 c rest blank => exact List.suffix_refl _
  | case2 c rest solid =>
      have behind := (List.suffix_cons c rest).trans (List.suffix_cons '+' _)
      exact (List.dropWhile_suffix _).trans behind
  | case3 => exact List.suffix_refl _

theorem suffix_of_readWithMetadata? {text rest : Text} {literal : Literal}
    (reads : readWithMetadata? text = some (literal, rest)) : rest <:+ text := by
  obtain ⟨left, read, rfl⟩ := exists_read?_of_readWithMetadata? reads
  obtain ⟨taken, rfl, -⟩ := leaves_of_read? Text.isForeign_numberSign read
  exact (dropMetadata_suffix left).trans (List.suffix_append taken left)

theorem ofVersion?_eq_none (foreign : IsForeign sign) {text : Text} (inside : sign ∈ text) :
    ofVersion? text = none := by
  rw [ofVersion?]
  split
  · next literal reads => exact absurd ((leaves_of_read? foreign reads).mem inside) (by simp)
  · rfl

end Literal

/-! ## Dates -/

namespace Timestamp

theorem isPrefix_readFigures (text : Text) :
    (readFigures text).1 <+: text.takeWhile fun c => Text.isDecimalDigit c || isDivider c := by
  have ended := List.reverse_prefix.mpr (List.dropWhile_suffix isDivider
    (l := (text.takeWhile fun c => Text.isDecimalDigit c || isDivider c).reverse))
  rwa [List.reverse_reverse] at ended

theorem append_readFigures (text : Text) : (readFigures text).1 ++ (readFigures text).2 = text := by
  obtain ⟨rest, whole⟩ := (isPrefix_readFigures text).trans (List.takeWhile_prefix _)
  have left : text.drop (readFigures text).1.length = rest := by
    generalize (readFigures text).1 = figures at whole
    rw [← whole, List.drop_left]
  exact (congrArg ((readFigures text).1 ++ ·) left).trans whole

theorem leaves_readFigures (digit : Text.isDecimalDigit sign = false)
    (divider : isDivider sign = false) (text : Text) : Leaves sign text (readFigures text).2 := by
  refine ⟨(readFigures text).1, (append_readFigures text).symm, fun inside => ?_⟩
  have figure := (isPrefix_readFigures text).subset inside
  have taken := List.all_eq_true.mp List.all_takeWhile sign figure
  simp [digit, divider] at taken

/-- A text with a stranger in it is no date, if that is no colon and no letter of a mark. -/
theorem ofVersion?_eq_none_of_isStranger (stranger : Modifier.IsStranger sign)
    (mark : (sign == 'v' || sign == 'V') = false) (divider : isDivider sign = false)
    (letter : Text.foldCase sign ∉ "dev".toList) {text : Text} (inside : sign ∈ text) :
    ofVersion? text = none := by
  have start : Leaves sign text (Literal.dropMark text) := Modifier.leaves_dropOne mark text
  have rest := start.trans (leaves_readFigures stranger.digit divider _)
  have left := (rest.trans (Modifier.leaves_read stranger (.inl letter))).mem inside
  simp only [ofVersion?]
  split
  · next modifier reads => exact absurd (reads ▸ left) (by simp)
  · rfl

theorem ofVersion?_eq_none (foreign : IsForeign sign) {text : Text} (inside : sign ∈ text) :
    ofVersion? text = none := by
  have other := foreign.other
  simp only [List.mem_cons, not_or] at other
  exact ofVersion?_eq_none_of_isStranger (Modifier.isStranger_of_isForeign foreign)
    (by simp [other]) (by simp [isDivider, other]) (foreign.letter "dev".toList (by simp)) inside

end Timestamp

/-! ## Numbers of branches -/

namespace Branch

theorem isWildcard_eq_false (foreign : IsForeign sign) : isWildcard sign = false := by
  have other := foreign.other
  simp only [List.mem_cons, not_or] at other
  simp [isWildcard, other]

theorem leaves_readComponents (foreign : IsForeign sign) (limit : Nat) (text : Text) :
    Leaves sign text (readComponents limit text).2 := by
  have dot : sign ≠ '.' := fun same => foreign.other (by simp [same])
  induction limit, text using readComponents.induct with
  | case1 text => exact .refl sign text
  | case2 limit c rest wild ih =>
      have other : sign ≠ c := by
        rintro rfl
        exact Bool.false_ne_true ((isWildcard_eq_false foreign).symm.trans wild)
      rw [readComponents, if_pos wild]
      exact (ih.cons other).cons dot
  | case3 limit c rest closed after empty =>
      rw [readComponents, if_neg closed, empty]
      exact .refl sign _
  | case4 limit c rest closed digits after filled split ih =>
      obtain ⟨d, digits, rfl⟩ := List.exists_cons_of_ne_nil filled
      have number := Literal.leaves_readDigits foreign.digit (c :: rest)
      rw [split] at number
      rw [readComponents, if_neg closed, split]
      exact (number.trans ih).cons dot
  | case5 limit text undotted =>
      rw [readComponents]
      · exact .refl sign text
      · exact undotted

theorem numeric?_eq_none (foreign : IsForeign sign) {name : Text} (inside : sign ∈ name) :
    numeric? name = none := by
  rw [numeric?]
  split
  · rfl
  · next major afterMajor filled split =>
    have number := Literal.leaves_readDigits foreign.digit (Literal.dropMark name)
    rw [split] at number
    have left := (((Literal.leaves_dropMark foreign name).trans number).trans
      (leaves_readComponents foreign 3 afterMajor)).mem inside
    split
    · next further reads => exact absurd (reads ▸ left) (by simp)
    · rfl

end Branch

end VersionRanges

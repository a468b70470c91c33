/-
# How far a literal reaches

No reader of literals takes a sign that no literal holds, nor does it look behind one. So what
stands in front of such a sign is read as if it were the whole text, and the sign is left with all
that follows it. What a literal took of a text is its mark, its components with dots between them,
and its modifier. Of a modifier nothing is read in front of a digit.
-/
import VersionRanges.Proofs.Normal.Literal

namespace VersionRanges

open Text (IsForeign)

variable {sign : Char}

/-! ## In front of a foreign sign -/

/-- A keyword is spelled in front of a sign that is no letter of it, or not at all. -/
theorem Text.keyword?_append_cons {keyword : Text} (other : foldCase sign ∉ keyword)
    (text rest : Text) :
    keyword? keyword (text ++ sign :: rest) =
      (keyword? keyword text).map (Prod.map id (· ++ sign :: rest)) := by
  induction keyword generalizing text with
  | nil => rfl
  | cons k keyword ih =>
      obtain ⟨first, other⟩ := not_or.mp (mt List.mem_cons.mpr other)
      cases text with
      | nil => simp [keyword?, first]
      | cons c text =>
          simp only [List.cons_append, keyword?, ih other]
          split
          · cases keyword? keyword text <;> rfl
          · rfl

namespace Modifier

theorem dropOne_append_cons {property : Char → Bool} (other : property sign = false)
    (text rest : Text) :
    dropOne property (text ++ sign :: rest) = dropOne property text ++ sign :: rest := by
  cases text with
  | nil => simp [dropOne, other]
  | cons c text =>
      simp only [List.cons_append, dropOne]
      split <;> rfl

section

variable (foreign : IsForeign sign) (text rest : Text)

include foreign

theorem readLabel?_append_cons :
    readLabel? (text ++ sign :: rest) =
      (readLabel? text).map (Prod.map id (· ++ sign :: rest)) := by
  have spells : ∀ keyword ∈ labels, Text.keyword? keyword (text ++ sign :: rest) =
      (Text.keyword? keyword text).map (Prod.map id (· ++ sign :: rest)) := fun keyword listed =>
    Text.keyword?_append_cons (foreign.letter keyword (List.mem_cons_of_mem _ listed)) text rest
  rw [readLabel?, readLabel?, List.map_findSome?]
  generalize labels = keywords at spells
  induction keywords with
  | nil => rfl
  | cons keyword keywords ih =>
      obtain ⟨first, further⟩ := List.forall_mem_cons.mp spells
      rw [List.findSome?_cons, List.findSome?_cons, Function.comp_apply, first, ih further]

theorem readTail_append_cons :
    readTail (text ++ sign :: rest) = Prod.map id (· ++ sign :: rest) (readTail text) := by
  have stranger := isStranger_of_isForeign foreign
  induction text with
  | nil => simp [readTail, stranger.digit, stranger.joint]
  | cons c text ih =>
      have same : goesOn c (text ++ sign :: rest) = goesOn c text := by
        cases text with
        | nil => simp [goesOn, stranger.digit]
        | cons d text => exact goesOn_congr c rfl
      rw [List.cons_append, readTail_cons, readTail_cons, same, ih]
      split <;> rfl

theorem readDev_append_cons :
    readDev (text ++ sign :: rest) = Prod.map id (· ++ sign :: rest) (readDev text) := by
  have letter := foreign.letter "dev".toList (by simp)
  rw [readDev, readDev, dropOne_append_cons (isStranger_of_isForeign foreign).joint,
    Text.keyword?_append_cons letter]
  cases Text.keyword? "dev".toList (dropOne isJoint text) <;> rfl

theorem read_append_cons :
    read (text ++ sign :: rest) = Prod.map id (· ++ sign :: rest) (read text) := by
  rw [read, read, dropOne_append_cons (isStranger_of_isForeign foreign).separator,
    readLabel?_append_cons foreign]
  cases readLabel? (dropOne isSeparator text) with
  | none => simp [readDev_append_cons foreign]
  | some labelled => simp [readTail_append_cons foreign, readDev_append_cons foreign]

end

end Modifier

namespace Literal

section

variable (foreign : IsForeign sign)

include foreign

theorem readDigits_append_cons (text rest : Text) :
    readDigits (text ++ sign :: rest) = Prod.map id (· ++ sign :: rest) (readDigits text) := by
  have digit : ¬ Text.isDecimalDigit sign = true := by simp [foreign.digit]
  induction text with
  | nil =>
      rw [List.nil_append, readDigits, List.takeWhile_cons_of_neg digit,
        List.dropWhile_cons_of_neg digit]
      rfl
  | cons c text ih =>
      simp only [readDigits, Prod.map_apply, id_eq, Prod.mk.injEq] at ih
      simp only [readDigits, List.cons_append, List.takeWhile_cons, List.dropWhile_cons]
      split <;> simp [ih]

theorem readFurther_append_cons (limit : Nat) (text rest : Text) :
    readFurther limit (text ++ sign :: rest) =
      Prod.map id (· ++ sign :: rest) (readFurther limit text) := by
  have dot : sign ≠ '.' := fun same => foreign.other (by simp [same])
  induction limit, text using readFurther.induct with
  | case1 text => simp [readFurther]
  | case2 limit text after empty =>
      simp [readFurther, readDigits_append_cons foreign, empty]
  | case3 limit text digits after filled split ih =>
      obtain ⟨d, digits, rfl⟩ := List.exists_cons_of_ne_nil filled
      simp only [List.cons_append, readFurther, readDigits_append_cons foreign, split,
        Prod.map_apply, id_eq, ih]
      rfl
  | case4 limit text undotted =>
      rw [readFurther.eq_3 _ _ undotted, readFurther]
      · rfl
      · intro rest' same
        cases text with
        | nil => exact dot (List.cons.inj same).1
        | cons c text => exact undotted text (by rw [(List.cons.inj same).1])

/-- In front of a foreign sign a literal is read as if nothing stood behind it. -/
theorem read?_append_cons {text left : Text} {literal : Literal}
    (reads : read? text = some (literal, left)) (rest : Text) :
    read? (text ++ sign :: rest) = some (literal, left ++ sign :: rest) := by
  have other := foreign.other
  simp only [List.mem_cons, not_or] at other
  have unmarked : dropMark (text ++ sign :: rest) = dropMark text ++ sign :: rest :=
    Modifier.dropOne_append_cons (by simp [other]) text rest
  rw [read?] at reads ⊢
  rw [unmarked, readDigits_append_cons foreign]
  cases split : readDigits (dropMark text) with
  | mk major afterMajor =>
      rw [split] at reads
      cases major with
      | nil => cases reads
      | cons d major =>
          simp only [Prod.map_apply, Prod.map_fst, Prod.map_snd, id_eq,
            readFurther_append_cons foreign, Modifier.read_append_cons foreign] at reads ⊢
          obtain ⟨rfl, rfl⟩ := Prod.mk.inj (Option.some.inj reads)
          rfl

end

/-! ## What a literal takes -/

theorem append_of_readFurther (limit : Nat) (text : Text) :
    text = dotted (readFurther limit text).1 ++ (readFurther limit text).2 := by
  induction limit, text using readFurther.induct with
  | case1 text => rfl
  | case2 limit rest after empty => simp [readFurther, empty, dotted]
  | case3 limit rest digits after filled split ih =>
      obtain ⟨d, digits, rfl⟩ := List.exists_cons_of_ne_nil filled
      simp only [readFurther, split, Prod.map_fst, Prod.map_snd, id_eq, dotted_cons, ← ih]
      rw [append_of_readDigits split]
  | case4 limit text undotted =>
      rw [readFurther.eq_3 _ _ undotted]
      rfl

/-- The mark that may stand before a version. -/
def IsMark (mark : Text) : Prop := mark ∈ [[], ['v'], ['V']]

theorem exists_isMark_append_dropMark (text : Text) :
    ∃ mark, IsMark mark ∧ text = mark ++ dropMark text := by
  cases text with
  | nil => exact ⟨[], by simp [IsMark], rfl⟩
  | cons c text =>
      rw [dropMark, Modifier.dropOne]
      split
      · next marked =>
        refine ⟨[c], ?_, rfl⟩
        simpa [IsMark] using marked
      · exact ⟨[], by simp [IsMark], rfl⟩

/-- A mark in front of a digit is left out. -/
theorem dropMark_mark_append {mark : Text} {c : Char} (isMark : IsMark mark)
    (digit : Text.isDecimalDigit c = true) (rest : Text) :
    dropMark (mark ++ c :: rest) = c :: rest := by
  simp only [IsMark, List.mem_cons, List.not_mem_nil, or_false] at isMark
  rcases isMark with rfl | rfl | rfl
  · exact dropMark_cons digit rest
  · rfl
  · rfl

/-- A literal takes its mark, its components and its modifier of a text. -/
theorem exists_append_of_read? {text rest : Text} {literal : Literal}
    (reads : read? text = some (literal, rest)) :
    ∃ mark written, IsMark mark ∧
      text = mark ++ (literal.major ++ (dotted literal.further ++ written)) ∧
      Modifier.read written = (literal.modifier, rest) := by
  obtain ⟨mark, isMark, whole⟩ := exists_isMark_append_dropMark text
  rw [read?] at reads
  split at reads
  · cases reads
  · next major afterMajor filled split =>
    obtain ⟨rfl, rfl⟩ := Prod.mk.inj (Option.some.inj reads)
    refine ⟨mark, (readFurther 3 afterMajor).2, isMark, ?_, rfl⟩
    rw [whole, append_of_readDigits split, ← append_of_readFurther]

end Literal

/-! ## Characters that no modifier ends in -/

section

variable {c : Char} (separator : Modifier.isSeparator c = false)
  (digit : Text.isDecimalDigit c = false) (unmarked : Text.foldCase c ∉ "dev".toList)
  (open' : ∀ keyword ∈ Modifier.labels, keyword.getLast? ≠ some (Text.foldCase c))

include separator digit unmarked open'

/-- A modifier that a text is read as does not end in a letter that no keyword ends in. -/
theorem Modifier.getLast?_ne_of_read {text : Text} (whole : (read text).2 = []) :
    text.getLast? ≠ some c := by
  intro ending
  have joint := isJoint_eq_false separator
  have start : (dropOne isSeparator text).getLast? = some c := by
    cases text with
    | nil => cases ending
    | cons d text =>
        rw [dropOne]
        split
        · next dropped =>
          cases text with
          | nil =>
              obtain rfl := Option.some.inj ending
              exact absurd (separator.symm.trans dropped) Bool.false_ne_true
          | cons e text => simpa using ending
        · exact ending
  rw [read] at whole
  split at whole
  · next label afterLabel labelled =>
    obtain ⟨keyword, listed, spelled⟩ := List.exists_of_findSome?_eq_some labelled
    rw [Text.eq_append_of_keyword? spelled] at start
    cases afterLabel with
    | nil =>
        have last := congrArg (Option.map Text.foldCase) start
        rw [List.append_nil, ← List.getLast?_map, Text.map_foldCase_of_keyword? spelled] at last
        exact open' keyword listed last
    | cons d afterLabel =>
        rw [List.getLast?_append_of_ne_nil _ (by simp)] at start
        have left := (leaves_readTail digit joint (d :: afterLabel)).trans
          (leaves_readDev joint (.inl unmarked))
        rw [show (readDev (readTail (d :: afterLabel)).2).2 = [] from whole] at left
        exact absurd (left.mem (List.mem_of_getLast? start)) List.not_mem_nil
  · next unlabelled =>
    have left : Text.Leaves c (dropOne isSeparator text) (readDev (dropOne isSeparator text)).2 :=
      leaves_readDev joint (.inl unmarked)
    rw [show (readDev (dropOne isSeparator text)).2 = [] from whole] at left
    exact absurd (left.mem (List.mem_of_getLast? start)) List.not_mem_nil

/-- Nor does a literal. -/
theorem Literal.getLast?_ne_of_read? (mark : c ≠ 'v' ∧ c ≠ 'V') {text : Text} {literal : Literal}
    (reads : read? text = some (literal, [])) : text.getLast? ≠ some c := by
  obtain ⟨front, written, isMark, whole, read⟩ := exists_append_of_read? reads
  have wellFormed := isWellFormed_of_read? reads
  intro ending
  by_cases silent : written = []
  · have dot : c ≠ '.' := by
      rintro rfl
      exact absurd separator (by decide)
    have marks : c ∉ front := by
      simp only [IsMark, List.mem_cons, List.not_mem_nil, or_false] at isMark
      rcases isMark with rfl | rfl | rfl <;> simp [mark]
    have inside := List.mem_of_getLast? ending
    rw [whole, silent, List.append_nil] at inside
    simp [marks, wellFormed.major.not_mem digit,
      not_mem_dotted wellFormed.further digit dot] at inside
  · rw [whole, List.getLast?_append_of_ne_nil _ (by simp [silent]),
      List.getLast?_append_of_ne_nil _ (by simp [silent]),
      List.getLast?_append_of_ne_nil _ silent] at ending
    exact Modifier.getLast?_ne_of_read separator digit unmarked open' (congrArg Prod.snd read)
      ending

end

/-! ## Characters that no modifier begins with -/

namespace Modifier

/-- A character that no modifier begins with. -/
structure IsIdle (c : Char) : Prop where
  separator : isSeparator c = false
  letter : ∀ keyword ∈ "dev".toList :: labels, keyword.head? ≠ some (Text.foldCase c)

theorem isIdle_of_isDecimalDigit {c : Char} (digit : Text.isDecimalDigit c = true) : IsIdle c := by
  have letters : ∀ keyword ∈ "dev".toList :: labels,
      keyword.head?.map Text.isDecimalDigit ≠ some true := by decide
  refine ⟨?_, fun keyword listed first => ?_⟩
  · have apart (sign : Char) (other : Text.isDecimalDigit sign = false) : c ≠ sign :=
      Text.ne_of_isDecimalDigit digit other
    simp [isSeparator, apart '.' (by decide), apart '_' (by decide),
      apart '-' (by decide)]
  · rw [Text.foldCase_of_isDecimalDigit digit] at first
    exact letters keyword listed (by rw [first, Option.map_some, digit])

/-- In front of such a character nothing is read, except for a separator before it. -/
theorem IsIdle.read_eq {c : Char} (idle : IsIdle c) {text rest : Text}
    (start : dropOne isSeparator text = c :: rest) : read text = (⟨[], [], false⟩, c :: rest) := by
  have unspelled : ∀ keyword ∈ "dev".toList :: labels,
      Text.keyword? keyword (c :: rest) = none := by
    intro keyword listed
    have apart := idle.letter keyword listed
    cases keyword with
    | nil => exact absurd listed (by decide)
    | cons k keyword =>
        have other : Text.foldCase c ≠ k := fun same => apart (by simp [same])
        rw [Text.keyword?, if_neg other]
  obtain ⟨unmarked, unlabelled⟩ := List.forall_mem_cons.mp unspelled
  have label : readLabel? (c :: rest) = none := List.findSome?_eq_none_iff.mpr unlabelled
  have mark : readDev (c :: rest) = (false, c :: rest) := by
    rw [readDev, dropOne_cons_of_neg (isJoint_eq_false idle.separator), unmarked]
  simp only [read, start, label, mark]

end Modifier

end VersionRanges

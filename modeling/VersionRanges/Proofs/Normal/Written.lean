/-
# Versions that are read by their parts

A version written with numbers is put together from a mark, one to four numbers, a separator, a
label with a tail of numbers and a development mark, most of which may be left out. Labels have long
and short forms, and letters of either case. The reader takes such a text apart into the parts that
it was put together from: a label is tried before those that it begins with, and what stands behind
a label goes on with none of the letters that would make it a longer one. The normal form is then
made of the parts, and states the stability of the label unless it ends like a development version.
-/
import VersionRanges.Proofs.Normal.Stability
import VersionRanges.Proofs.Order.NumericForm
import VersionRanges.Proofs.Reading.Hyphen

namespace VersionRanges

open Literal (IsMark IsNumber)
open Text (foldCase)

/-! ## Keywords that are spelled out -/

namespace Text

/-- A spelling of a keyword is taken off a text, whatever stands behind it. -/
theorem keyword?_spelling (spelling rest : Text) :
    keyword? (spelling.map foldCase) (spelling ++ rest) = some (spelling, rest) := by
  induction spelling with
  | nil => rfl
  | cons c spelling ih =>
      rw [List.map_cons, List.cons_append, keyword?, if_pos rfl, ih]
      rfl

theorem isPrefix_of_keyword? {keyword text : Text} {split : Text × Text}
    (spelled : keyword? keyword text = some split) : keyword <+: text.map foldCase := by
  obtain ⟨spelling, rest⟩ := split
  rw [eq_append_of_keyword? spelled, List.map_append, map_foldCase_of_keyword? spelled]
  exact List.prefix_append keyword _

end Text

namespace Modifier

/-- The letters with which a label can go on to a longer one. -/
def continuations : Text := ['e', 'l', 'a']

/-- No label is tried after one that it begins with, and a longer label goes on with one of a few
letters. -/
theorem pairwise_labels :
    labels.Pairwise fun first second => ¬ first <+: second ∧
      (second <+: first → (first.drop second.length).take 1 ⊆ continuations) := by
  decide

/-- A label is read whole if what stands behind it does not make it a longer one. -/
theorem readLabel?_spelling {label rest : Text} (listed : label.map foldCase ∈ labels)
    (closed : ∀ c ∈ rest.head?, foldCase c ∉ continuations) :
    readLabel? (label ++ rest) = some (label, rest) := by
  obtain ⟨before, after, tried⟩ := List.append_of_mem listed
  rw [readLabel?, List.findSome?_eq_some_iff]
  refine ⟨before, label.map foldCase, after, tried, Text.keyword?_spelling label rest, ?_⟩
  intro first earlier
  have apart := pairwise_labels
  rw [tried, List.pairwise_append] at apart
  obtain ⟨shorter, longer⟩ := apart.2.2 first earlier _ List.mem_cons_self
  rw [← Option.not_isSome_iff_eq_none]
  intro spelled
  obtain ⟨split, spelled⟩ := Option.isSome_iff_exists.mp spelled
  have begins := Text.isPrefix_of_keyword? spelled
  rw [List.map_append] at begins
  -- one of the two labels begins with the other, and the earlier one is the longer
  rcases List.prefix_or_prefix_of_prefix begins (List.prefix_append _ _) with inner | outer
  · exact shorter inner
  · obtain ⟨more, rfl⟩ := outer
    rw [List.prefix_append_right_inj] at begins
    cases more with
    | nil => exact shorter (by simp)
    | cons c more =>
        obtain ⟨behind, whole⟩ := begins
        cases rest with
        | nil => cases whole
        | cons d rest =>
            obtain ⟨rfl, -⟩ := List.cons.inj whole
            exact closed d rfl (longer (List.prefix_append _ _) (by simp))

/-- What may stand behind a label does not go on with it. -/
theorem foldCase_not_mem_continuations {c : Char}
    (first : Text.isDecimalDigit c = true ∨ isJoint c = true ∨ foldCase c = 'd') :
    foldCase c ∉ continuations := by
  rcases first with digit | joint | letter
  · have letters : ∀ k ∈ continuations, Text.isDecimalDigit k = false :=
      List.all_iff_forall_prop.mp (by decide)
    rw [Text.foldCase_of_isDecimalDigit digit]
    exact fun inside => Text.ne_of_isDecimalDigit digit (letters c inside) rfl
  · simp only [isJoint, Bool.or_eq_true, beq_iff_eq] at joint
    rcases joint with rfl | rfl <;> decide
  · rw [letter]
    decide

/-- The letters of a label are neither digits nor separators. -/
theorem letter_of_listed {label : Text} (listed : label.map foldCase ∈ labels) :
    ∀ c ∈ label, Text.isDecimalDigit c = false ∧ isSeparator c = false := by
  have letters : ∀ k ∈ labels.flatten, Text.isDecimalDigit k = false :=
    List.all_iff_forall_prop.mp (by decide)
  intro c inside
  have letter := List.mem_flatten_of_mem listed (List.mem_map_of_mem inside)
  constructor
  · rw [Bool.eq_false_iff]
    intro digit
    rw [Text.foldCase_of_isDecimalDigit digit] at letter
    exact Bool.false_ne_true ((letters c letter).symm.trans digit)
  · rw [Bool.eq_false_iff]
    intro separator
    simp only [isSeparator, Bool.or_eq_true, beq_iff_eq] at separator
    rcases separator with (rfl | rfl) | rfl <;> exact absurd letter (by decide)

theorem isDecimalDigit_of_isSeparator {c : Char} (separator : isSeparator c = true) :
    Text.isDecimalDigit c = false := by
  rw [Bool.eq_false_iff]
  intro digit
  exact Bool.false_ne_true ((isIdle_of_isDecimalDigit digit).separator.symm.trans separator)

theorem isSeparator_of_isJoint {c : Char} (joint : isJoint c = true) : isSeparator c = true := by
  by_contra other
  have apart := isJoint_eq_false (Bool.eq_false_iff.mpr other)
  exact Bool.false_ne_true (apart.symm.trans joint)

/-- The first letter of a development mark is no digit. -/
theorem isDecimalDigit_of_foldCase {c : Char} (letter : foldCase c = 'd') :
    Text.isDecimalDigit c = false := by
  rw [Bool.eq_false_iff]
  intro digit
  rw [Text.foldCase_of_isDecimalDigit digit] at letter
  exact Text.ne_of_isDecimalDigit digit (by decide) letter

/-- No label begins with another letter. -/
theorem readLabel?_eq_none {c : Char} (other : foldCase c ∉ ['s', 'b', 'r', 'a', 'p'])
    (rest : Text) : readLabel? (c :: rest) = none := by
  simp only [List.mem_cons, List.not_mem_nil, or_false, not_or] at other
  simp [readLabel?, labels, Text.keyword?, other]

/-- Digits in front of a tail belong to it. -/
theorem isTail_append {digits tail : Text}
    (areDigits : ∀ c ∈ digits, Text.isDecimalDigit c = true) (isTail : IsTail tail) :
    IsTail (digits ++ tail) := by
  induction digits with
  | nil => exact isTail
  | cons c digits ih =>
      obtain ⟨digit, areDigits⟩ := List.forall_mem_cons.mp areDigits
      exact isTail_cons_iff.mpr ⟨goesOn_of_isDecimalDigit digit _, ih areDigits⟩

end Modifier

/-- A mark in front of a number is left out. -/
theorem Literal.read?_mark_append {mark text : Text} (isMark : IsMark mark)
    (begins : ∃ c rest, text = c :: rest ∧ Text.isDecimalDigit c = true) :
    read? (mark ++ text) = read? text := by
  obtain ⟨c, rest, rfl, digit⟩ := begins
  rw [read?, read?, dropMark_mark_append isMark digit, dropMark_cons digit]

/-- No component is read from a text that begins with no digit, with a separator or without one. -/
theorem Literal.readFurther_eq_nil {text : Text}
    (start : ∀ c ∈ (Modifier.dropOne Modifier.isSeparator text).head?,
      Text.isDecimalDigit c = false) (limit : ℕ) : readFurther limit text = ([], text) := by
  cases limit with
  | zero => rfl
  | succ limit =>
      by_cases dot : ∃ rest, text = '.' :: rest
      · obtain ⟨rest, rfl⟩ := dot
        have none : readDigits rest = ([], rest) := readDigits_eq_nil start
        rw [readFurther, none]
      · rw [readFurther.eq_3]
        exact fun rest same => dot ⟨rest, same⟩

/-- Numbers are read apart from a modifier that begins with no digit, with a separator or without
one. -/
theorem Literal.read?_append_modifier {major modifierText : Text} {further : List Text}
    (isNumber : IsNumber major) (areNumbers : ∀ part ∈ further, IsNumber part)
    (short : further.length ≤ 3)
    (start : ∀ c ∈ (Modifier.dropOne Modifier.isSeparator modifierText).head?,
      Text.isDecimalDigit c = false) :
    read? (major ++ (dotted further ++ modifierText)) =
      some (⟨major, further, (Modifier.read modifierText).1⟩, (Modifier.read modifierText).2) := by
  apply read?_append_dotted isNumber areNumbers short
  · intro c first
    obtain ⟨rest, rfl⟩ := List.head?_eq_some_iff.mp first
    by_cases separator : Modifier.isSeparator c = true
    · exact Modifier.isDecimalDigit_of_isSeparator separator
    · rw [Modifier.dropOne, if_neg separator] at start
      exact start c rfl
  · exact readFurther_eq_nil start _

namespace Version

open Modifier (IsTail dropOne isJoint labels readDev readLabel? readTail)

/-! ## Development marks -/

/-- A development mark as it may be written: in letters of either case, with a joint or none. -/
structure WrittenDev where
  joint : Option Char
  spelling : Text
  joins : ∀ c ∈ joint, isJoint c = true
  spells : spelling.map Char.toLower = "dev".toList

namespace WrittenDev

/-- The text of a development mark. -/
def text (dev : WrittenDev) : Text := dev.joint.toList ++ dev.spelling

/-- A development mark without its joint. -/
def unjoined (dev : WrittenDev) : WrittenDev := { dev with joint := none, joins := by simp }

variable (dev : WrittenDev)

theorem map_foldCase_spelling : dev.spelling.map foldCase = "dev".toList :=
  Text.map_foldCase_of_map_toLower dev.spells rfl

theorem exists_spelling_cons : ∃ c rest, dev.spelling = c :: rest ∧ foldCase c = 'd' := by
  obtain ⟨c, rest, spelled, letter, -⟩ := List.map_eq_cons_iff.mp dev.map_foldCase_spelling
  exact ⟨c, rest, spelled, letter⟩

/-- A development mark begins with a joint in front of its letters, or with the first of them. -/
theorem text_cases :
    (∃ c, dev.text = c :: dev.spelling ∧ isJoint c = true) ∨ dev.text = dev.spelling := by
  cases joined : dev.joint with
  | none => exact .inr (by rw [text, joined]; rfl)
  | some c => exact .inl ⟨c, by rw [text, joined]; rfl, dev.joins c joined⟩

/-- Behind a separator a development mark has its joint, and without one the joint is read as a
separator. -/
theorem dropOne_isSeparator_text : dropOne Modifier.isSeparator dev.text = dev.spelling := by
  obtain ⟨d, rest, spelled, letter⟩ := dev.exists_spelling_cons
  rcases dev.text_cases with ⟨c, joined, joint⟩ | unjoined
  · rw [joined, dropOne, if_pos (Modifier.isSeparator_of_isJoint joint)]
  · have kept := Modifier.isSeparator_of_foldCase letter
    rw [unjoined, spelled, Modifier.dropOne_cons_of_neg kept]

theorem dropOne_isJoint_text : dropOne isJoint dev.text = dev.spelling := by
  obtain ⟨d, rest, spelled, letter⟩ := dev.exists_spelling_cons
  rcases dev.text_cases with ⟨c, joined, joint⟩ | unjoined
  · rw [joined, dropOne, if_pos joint]
  · have kept := Modifier.isJoint_eq_false (Modifier.isSeparator_of_foldCase letter)
    rw [unjoined, spelled, Modifier.dropOne_cons_of_neg kept]

end WrittenDev

/-- A development mark that may be missing. -/
def devText (dev : Option WrittenDev) : Text := dev.elim [] WrittenDev.text

section

variable (dev : Option WrittenDev)

theorem devText_cases :
    devText dev = [] ∨ ∃ c rest, devText dev = c :: rest ∧ (foldCase c = 'd' ∨
      isJoint c = true ∧ ∃ d rest', rest = d :: rest' ∧ foldCase d = 'd') := by
  cases dev with
  | none => exact .inl rfl
  | some dev =>
      obtain ⟨d, rest, spelled, letter⟩ := dev.exists_spelling_cons
      rcases dev.text_cases with ⟨c, joined, joint⟩ | unjoined
      · exact .inr ⟨c, dev.spelling, joined, .inr ⟨joint, d, rest, spelled, letter⟩⟩
      · exact .inr ⟨d, rest, unjoined.trans spelled, .inl letter⟩

/-- No label is read from a development mark. -/
theorem readLabel?_devText : readLabel? (devText dev) = none := by
  rcases devText_cases dev with empty | ⟨c, rest, begins, first⟩
  · rw [empty]
    rfl
  · rw [begins]
    apply Modifier.readLabel?_eq_none
    rcases first with letter | ⟨joint, -⟩
    · rw [letter]
      decide
    · simp only [isJoint, Bool.or_eq_true, beq_iff_eq] at joint
      rcases joint with rfl | rfl <;> decide

/-- No tail of numbers is read from a development mark. -/
theorem readTail_devText : readTail (devText dev) = ([], devText dev) := by
  rcases devText_cases dev with empty | ⟨c, rest, begins, first⟩
  · rw [empty]
    rfl
  · have stops : Modifier.goesOn c rest = false := by
      rcases first with letter | ⟨joint, d, rest', rfl, letter⟩
      · have apart := Modifier.isJoint_eq_false (Modifier.isSeparator_of_foldCase letter)
        simp [Modifier.goesOn, Modifier.isDecimalDigit_of_foldCase letter, apart]
      · have other :=
          Modifier.isDecimalDigit_of_isSeparator (Modifier.isSeparator_of_isJoint joint)
        simp [Modifier.goesOn, Modifier.isDecimalDigit_of_foldCase letter, other]
    rw [begins, Modifier.readTail_cons, stops, if_neg Bool.false_ne_true]

theorem readDev_devText : readDev (devText dev) = (dev.isSome, []) := by
  cases dev with
  | none => rfl
  | some dev =>
      have marked := Text.keyword?_spelling dev.spelling []
      rw [dev.map_foldCase_spelling, List.append_nil] at marked
      rw [devText, Option.elim_some, readDev, dev.dropOne_isJoint_text, marked]
      rfl

end

/-! ## Labels -/

/-- A number behind a label as it may be written: in the digits of any script, with a joint or none
in front. -/
structure WrittenNumber where
  joint : Option Char
  digits : Text
  joins : ∀ c ∈ joint, isJoint c = true
  isNumber : IsNumber digits

/-- The text of a number behind a label. -/
def WrittenNumber.text (number : WrittenNumber) : Text := number.joint.toList ++ number.digits

/-- The names of a label: those of the labels that are kept in normal forms, and that of the label
that is dropped. -/
def keywords : Option Label → List Text
  | none => ["stable".toList]
  | some .alpha => ["alpha".toList, "a".toList]
  | some .beta => ["beta".toList, "b".toList]
  | some .candidate => ["rc".toList]
  | some .patch => ["patch".toList, "pl".toList, "p".toList]

/-- A label as it may be written: under one of its names, in letters of either case, with any
numbers behind it. -/
structure WrittenLabel where
  kind : Option Label
  spelling : Text
  numbers : List WrittenNumber
  spells : spelling.map Char.toLower ∈ keywords kind

/-- The stability that a label states. -/
def Label.stability : Label → Stability
  | alpha => .alpha
  | beta => .beta
  | candidate => .rc
  | patch => .stable

/-- The names of a label are names that readers know, and state the stability of the label. -/
theorem forall_mem_keywords (kind : Option Label) : ∀ keyword ∈ keywords kind,
    keyword ∈ labels ∧ keyword.map foldCase = keyword ∧
      (keyword = "stable".toList ↔ kind = none) ∧
      (⟨keyword, [], false⟩ : Modifier).stability = kind.elim .stable Label.stability := by
  cases kind with
  | none => decide
  | some kind => cases kind <;> decide

/-- The numbers behind a label are a tail. -/
theorem isTail_numbers (numbers : List WrittenNumber) :
    IsTail (numbers.flatMap WrittenNumber.text) := by
  induction numbers with
  | nil => rfl
  | cons number numbers ih =>
      have isTail := Modifier.isTail_append number.isNumber.digits ih
      rw [List.flatMap_cons, WrittenNumber.text]
      cases joined : number.joint with
      | none => exact isTail
      | some c =>
          obtain ⟨d, rest, spelled, digit⟩ := number.isNumber.exists_cons
          refine Modifier.isTail_cons_iff.mpr ⟨?_, isTail⟩
          simp [Modifier.goesOn, number.joins c joined, spelled, digit]

namespace WrittenLabel

variable (label : WrittenLabel)

/-- The numbers behind a label. -/
def tail : Text := label.numbers.flatMap WrittenNumber.text

/-- The text of a label with its numbers. -/
def text : Text := label.spelling ++ label.tail

/-- The numbers behind a label, without the joint in front of the first. -/
def closedTail : Text :=
  match label.numbers with
  | [] => []
  | number :: numbers => number.digits ++ numbers.flatMap WrittenNumber.text

theorem listed : label.spelling.map foldCase ∈ labels := by
  obtain ⟨listed, same, -⟩ := forall_mem_keywords label.kind _ label.spells
  rwa [Text.map_foldCase_of_map_toLower rfl same]

theorem spelling_ne_nil : label.spelling ≠ [] := by
  intro empty
  have listed := label.listed
  rw [empty] at listed
  exact absurd listed (by decide)

theorem dropped_iff : label.spelling.map Char.toLower = "stable".toList ↔ label.kind = none :=
  (forall_mem_keywords label.kind _ label.spells).2.2.1

theorem named_of_kept {kind : Label} (kept : label.kind = some kind) :
    label.spelling.map Char.toLower ≠ "stable".toList := by
  rw [ne_eq, label.dropped_iff, kept]
  exact Option.some_ne_none kind

theorem expandLabel_spelling {kind : Label} (kept : label.kind = some kind) :
    Modifier.expandLabel label.spelling = kind.text := by
  have expands : ∀ keyword ∈ keywords (some kind), Modifier.expandLabel keyword = kind.text := by
    cases kind <;> decide
  have spells := label.spells
  rw [kept] at spells
  exact (Modifier.expandLabel_map_toLower label.listed).symm.trans (expands _ spells)

theorem dropWhile_tail : label.tail.dropWhile isJoint = label.closedTail := by
  rw [tail, closedTail]
  cases label.numbers with
  | nil => rfl
  | cons number numbers =>
      obtain ⟨d, rest, spelled, digit⟩ := number.isNumber.exists_cons
      have apart := Modifier.isJoint_of_isDecimalDigit digit
      cases joined : number.joint with
      | none => simp [WrittenNumber.text, joined, spelled, apart]
      | some c => simp [WrittenNumber.text, joined, spelled, apart, number.joins c joined]

/-- Without a development mark a label states the stability of its kind. -/
theorem stability_modifier (tail : Text) :
    (⟨label.spelling, tail, false⟩ : Modifier).stability =
      label.kind.elim .stable Label.stability := by
  obtain ⟨-, -, -, states⟩ := forall_mem_keywords label.kind _ label.spells
  rw [← states]
  exact Modifier.stability_congr rfl (by simp [Text.foldCase_toLower])

/-- A label is read whole, and its numbers and a development mark are left. -/
theorem readLabel?_text (dev : Option WrittenDev) :
    readLabel? (label.text ++ devText dev) = some (label.spelling, label.tail ++ devText dev) := by
  rw [text, List.append_assoc]
  apply Modifier.readLabel?_spelling label.listed
  intro c first
  apply Modifier.foldCase_not_mem_continuations
  have isTail : IsTail label.tail := isTail_numbers label.numbers
  cases behind : label.tail with
  | nil =>
      rw [behind, List.nil_append] at first
      rcases devText_cases dev with empty | ⟨d, rest, begins, letter | ⟨joint, -⟩⟩
      · rw [empty] at first
        cases first
      · rw [begins] at first
        obtain rfl := Option.some.inj first
        exact .inr (.inr letter)
      · rw [begins] at first
        obtain rfl := Option.some.inj first
        exact .inr (.inl joint)
  | cons d tail =>
      rw [behind] at first isTail
      obtain rfl := Option.some.inj first
      have goesOn := (Modifier.isTail_cons_iff.mp isTail).1
      simp only [Modifier.goesOn, Bool.or_eq_true, Bool.and_eq_true] at goesOn
      rcases goesOn with digit | ⟨joint, -⟩
      · exact .inl digit
      · exact .inr (.inl joint)

/-- A label begins with a letter. -/
theorem exists_text_cons (rest : Text) :
    ∃ c rest', label.text ++ rest = c :: rest' ∧ Text.isDecimalDigit c = false ∧
      Modifier.isSeparator c = false := by
  obtain ⟨c, spelling, spelled⟩ := List.exists_cons_of_ne_nil label.spelling_ne_nil
  have letter := Modifier.letter_of_listed label.listed c (spelled ▸ List.mem_cons_self)
  exact ⟨c, spelling ++ (label.tail ++ rest), by simp [text, spelled], letter⟩

end WrittenLabel

/-! ## Versions -/

/-- A version as it may be written with numbers: a mark or none, one to four numbers of which the
first has at most five digits, and behind them a separator, a label and a development mark, each of
which may be missing. -/
structure WrittenVersion where
  mark : Text
  major : Text
  further : List Text
  separator : Option Char
  label : Option WrittenLabel
  dev : Option WrittenDev
  isMark : IsMark mark
  isNumber : IsNumber major
  areNumbers : ∀ part ∈ further, IsNumber part
  isShort : major.length ≤ 5
  areFew : further.length ≤ 3
  separates : ∀ c ∈ separator, Modifier.isSeparator c = true

namespace WrittenVersion

variable (version : WrittenVersion)

/-- The numbers of a version. -/
def components : List Text := version.major :: version.further

/-- What stands behind the numbers of a version. -/
def modifierText : Text :=
  version.separator.toList ++ (version.label.elim [] WrittenLabel.text ++ devText version.dev)

/-- The text of a version. -/
def text : Text :=
  version.mark ++ (List.intercalate ['.'] version.components ++ version.modifierText)

/-- The development mark in normal form. -/
def devSuffix : Text := if version.dev.isSome then "-dev".toList else []

/-- What stands behind the numbers in normal form: the full name of a label with its numbers, and
the development mark. Nothing stands there if the label is that of a stable version. -/
def normalSuffix : Text :=
  match version.label with
  | none => version.devSuffix
  | some label =>
    label.kind.elim [] fun kind => '-' :: kind.text ++ label.closedTail ++ version.devSuffix

/-- The normal form that is put together from the parts of a version: its numbers with zeros up to
four, and its label and development mark. -/
def normalText : Text :=
  List.intercalate ['.']
      (version.components ++ List.replicate (4 - version.components.length) ['0']) ++
    version.normalSuffix

/-- The stability that the label of a version states. -/
def labelStability : Stability :=
  (version.label.bind WrittenLabel.kind).elim .stable Label.stability

/-- The modifier that a version has by its parts. -/
def modifier : Modifier :=
  match version.label with
  | none => ⟨[], [], version.dev.isSome⟩
  | some label => ⟨label.spelling, label.tail, version.dev.isSome⟩

/-- The literal that a version is by its parts. -/
def literal : Literal := ⟨version.major, version.further, version.modifier⟩

/-! ### The parts that are read -/

/-- Behind the separator stands the label, and a development mark. Where a label and a separator are
missing, the joint of the development mark is read as a separator. -/
theorem exists_dropOne_modifierText :
    ∃ dev : Option WrittenDev, dev.isSome = version.dev.isSome ∧
      dropOne Modifier.isSeparator version.modifierText =
        version.label.elim [] WrittenLabel.text ++ devText dev := by
  rw [modifierText]
  cases separated : version.separator with
  | some c =>
      have separates := version.separates c separated
      exact ⟨version.dev, rfl, if_pos separates⟩
  | none =>
      cases version.label with
      | some label =>
          obtain ⟨c, rest, begins, -, letter⟩ := label.exists_text_cons (devText version.dev)
          refine ⟨version.dev, rfl, ?_⟩
          rw [Option.toList_none, List.nil_append, Option.elim_some, begins,
            Modifier.dropOne_cons_of_neg letter]
      | none =>
          cases version.dev with
          | none => exact ⟨none, rfl, rfl⟩
          | some dev => exact ⟨some dev.unjoined, rfl, dev.dropOne_isSeparator_text⟩

/-- A modifier is read by its parts. -/
theorem read_modifierText : Modifier.read version.modifierText = (version.modifier, []) := by
  obtain ⟨dev, same, start⟩ := version.exists_dropOne_modifierText
  rw [modifier, ← same]
  cases labelled : version.label with
  | none =>
      rw [labelled, Option.elim_none, List.nil_append] at start
      simp only [Modifier.read, start, readLabel?_devText, readDev_devText]
  | some label =>
      rw [labelled, Option.elim_some] at start
      have tail := Modifier.readTail_append (isTail_numbers label.numbers) (readTail_devText dev)
      simp only [Modifier.read, start, label.readLabel?_text, WrittenLabel.tail, tail,
        readDev_devText]

/-- No further number is read from a modifier. -/
theorem head?_modifierText :
    ∀ c ∈ (dropOne Modifier.isSeparator version.modifierText).head?,
      Text.isDecimalDigit c = false := by
  obtain ⟨dev, -, start⟩ := version.exists_dropOne_modifierText
  rw [start]
  cases version.label with
  | some label =>
      obtain ⟨c, rest, begins, letter, -⟩ := label.exists_text_cons (devText dev)
      rw [Option.elim_some, begins]
      rintro d ⟨⟩
      exact letter
  | none =>
      rw [Option.elim_none, List.nil_append]
      rcases devText_cases dev with empty | ⟨c, rest, begins, first⟩
      · rw [empty]
        rintro d ⟨⟩
      · rw [begins]
        rintro d ⟨⟩
        rcases first with letter | ⟨joint, -⟩
        · exact Modifier.isDecimalDigit_of_foldCase letter
        · exact Modifier.isDecimalDigit_of_isSeparator (Modifier.isSeparator_of_isJoint joint)

/-- A version is read by its parts. -/
theorem ofVersion?_text : Literal.ofVersion? version.text = some version.literal := by
  have numbers := Literal.read?_append_modifier version.isNumber version.areNumbers version.areFew
    version.head?_modifierText
  rw [version.read_modifierText] at numbers
  have reads : Literal.read? version.text = some (version.literal, []) := by
    rw [text, components, Literal.intercalate_cons, List.append_assoc]
    refine (Literal.read?_mark_append version.isMark ?_).trans numbers
    obtain ⟨c, digits, spelled, digit⟩ := version.isNumber.exists_cons
    exact ⟨c, _, congrArg (· ++ _) spelled, digit⟩
  rw [Literal.ofVersion?, reads]
  exact if_pos version.isShort

/-! ### The normal form -/

/-- The label `stable` is dropped, and every other one is written under its full name. -/
theorem suffix_modifier : version.modifier.suffix = version.normalSuffix := by
  rw [modifier, normalSuffix]
  cases version.label with
  | none => rfl
  | some label =>
      dsimp only
      cases kept : label.kind with
      | none => exact if_pos (label.dropped_iff.mpr kept)
      | some kind =>
          have named := label.named_of_kept kept
          have labelled : (!label.spelling.isEmpty) = true := by simpa using label.spelling_ne_nil
          rw [Modifier.suffix, if_neg named, Modifier.labelSuffix, Modifier.hasLabel,
            if_pos labelled, label.expandLabel_spelling kept, label.dropWhile_tail]
          rfl

theorem normalForm_literal : version.literal.normalForm = version.normalText := by
  have missing : 4 - version.components.length = 3 - version.further.length :=
    Nat.succ_sub_succ 3 version.further.length
  rw [Literal.normalForm_eq, normalText, missing, components, List.cons_append,
    Literal.intercalate_cons, List.append_assoc, ← version.suffix_modifier]
  rfl

/-- A development mark stands at the end of the normal form unless the label is dropped. -/
theorem devSuffix_suffix (kept : ∀ label ∈ version.label, label.kind ≠ none) :
    version.devSuffix <:+ version.normalText := by
  refine List.IsSuffix.trans ?_ (List.suffix_append _ version.normalSuffix)
  rw [normalSuffix]
  cases labelled : version.label with
  | none => exact List.suffix_refl version.devSuffix
  | some label =>
      obtain ⟨kind, same⟩ := Option.ne_none_iff_exists'.mp (kept label labelled)
      dsimp only
      rw [same]
      exact List.suffix_append _ version.devSuffix

/-- Where the normal form does not end in a development mark, the label states the stability. -/
theorem stability_of_unmarked (unmarked : ¬ "-dev".toList <:+ version.normalText) :
    (if version.modifier.label.map Char.toLower = "stable".toList then .stable
      else version.modifier.stability) = version.labelStability := by
  have undeveloped (kept : ∀ label ∈ version.label, label.kind ≠ none) :
      version.dev.isSome = false := by
    rw [Bool.eq_false_iff]
    intro marked
    have ends := version.devSuffix_suffix kept
    rw [devSuffix, if_pos marked] at ends
    exact unmarked ends
  rw [modifier, labelStability]
  cases labelled : version.label with
  | none =>
      rw [undeveloped (by simp [labelled])]
      decide
  | some label =>
      dsimp only
      rw [Option.bind_some]
      cases kept : label.kind with
      | none => exact if_pos (label.dropped_iff.mpr kept)
      | some kind =>
          rw [if_neg (label.named_of_kept kept), undeveloped (by simp [labelled, kept]),
            label.stability_modifier, kept]

/-- A version is read by its parts, and its normal form and its stability are told by them: the
numbers with zeros up to four, and then, unless the label is that of a stable version, the full name
of the label with its numbers and the development mark. -/
theorem normalize_text :
    normalize version.text = .ok version.normalText ∧
      Stability.ofVersion version.normalText =
        if "-dev".toList <:+ version.normalText then .dev else version.labelStability := by
  have reads := version.ofVersion?_text
  have wellFormed := Literal.isWellFormed_of_ofVersion? reads
  have stated := Stability.ofVersion_normalForm reads
  have found := wellFormed.read?_normalForm
  rw [version.normalForm_literal] at stated found
  constructor
  · rw [← version.normalForm_literal]
    exact normalize_of_literal reads
  · split
    · next ends =>
      have isDev := Stability.isDev_of_suffix found ends
      rw [stated, ← (Modifier.stability_eq_dev_iff _).mpr isDev]
      exact wellFormed.modifier.stability_canonical.symm
    · next unmarked =>
      rw [stated]
      exact version.stability_of_unmarked unmarked

/-- A version with all of its parts. -/
example :
    let version : WrittenVersion :=
      { mark := ['v'], major := ['1'], further := [['2']], separator := some '_',
        label := some
          { kind := some .beta, spelling := ['B'], spells := by decide,
            numbers :=
              [⟨some '.', ['3'], by simp [isJoint], by decide, List.all_eq_true.mp (by decide)⟩] },
        dev := some ⟨some '-', "Dev".toList, by simp [isJoint], by decide⟩,
        isMark := by simp [IsMark], isNumber := ⟨by decide, List.all_eq_true.mp (by decide)⟩,
        areNumbers := by simpa using ⟨by decide, List.all_eq_true.mp (by decide)⟩,
        isShort := by decide, areFew := by decide, separates := by simp [Modifier.isSeparator] }
    version.text = "v1.2_B.3-Dev".toList ∧ version.normalText = "1.2.0.0-beta3-dev".toList :=
  ⟨rfl, rfl⟩

end WrittenVersion

end Version

end VersionRanges

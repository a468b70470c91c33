/-
# Dates that are read back

A date is told by where its digits and its dividers stand, whichever digits and dividers they are.
Its normal form has a dot for every divider, and as long as all digits are ASCII digits, this is a
date again, with the same normal form.
-/
import VersionRanges.Proofs.Normal.Literal
import VersionRanges.Version.Timestamp

namespace VersionRanges.Timestamp

/-! ## The shape of a date -/

section

/-- A change of characters that keeps digits and dividers apart. -/
def KeepsShape (change : Char → Char) (figures : Text) : Prop :=
  ∀ c ∈ figures, Text.isDecimalDigit (change c) = Text.isDecimalDigit c ∧
    isDivider (change c) = isDivider c

variable {change : Char → Char} {text : Text}

theorem KeepsShape.of_subset {part : Text} (keeps : KeepsShape change text)
    (within : part ⊆ text) : KeepsShape change part :=
  fun c inside => keeps c (within inside)

theorem KeepsShape.of_suffix {part : Text} (keeps : KeepsShape change text)
    (ending : part <:+ text) : KeepsShape change part :=
  keeps.of_subset ending.subset

theorem dropOne_suffix (property : Char → Bool) (text : Text) :
    Modifier.dropOne property text <:+ text := by
  cases text with
  | nil => exact List.suffix_refl []
  | cons c rest =>
      rw [Modifier.dropOne]
      split
      · exact List.suffix_cons c rest
      · exact List.suffix_refl _

theorem dropOne_map (keeps : KeepsShape change text) :
    Modifier.dropOne isDivider (text.map change) =
      (Modifier.dropOne isDivider text).map change := by
  cases text with
  | nil => rfl
  | cons c rest =>
      rw [List.map_cons, Modifier.dropOne, Modifier.dropOne, (keeps c List.mem_cons_self).2]
      split <;> rfl

theorem dropPair?_map (keeps : KeepsShape change text) :
    dropPair? (text.map change) = (dropPair? text).map (List.map change) := by
  have keeps' := keeps.of_suffix (dropOne_suffix isDivider text)
  rw [dropPair?, dropPair?, dropOne_map keeps]
  match Modifier.dropOne isDivider text, keeps' with
  | [], _ => rfl
  | [_], _ => rfl
  | first :: second :: rest, keeps' =>
      simp only [List.map_cons, (keeps' first (by simp)).1, (keeps' second (by simp)).1]
      split <;> rfl

theorem dropPair?_suffix {rest : Text} (pair : dropPair? text = some rest) : rest <:+ text := by
  have ending := dropOne_suffix isDivider text
  rw [dropPair?] at pair
  split at pair
  · next first second behind left =>
    rw [left] at ending
    split at pair
    · obtain rfl := Option.some.inj pair
      exact ((List.suffix_cons second _).trans (List.suffix_cons first _)).trans ending
    · cases pair
  · cases pair

theorem all_isDecimalDigit_map (keeps : KeepsShape change text) :
    (text.map change).all Text.isDecimalDigit = text.all Text.isDecimalDigit := by
  induction text with
  | nil => rfl
  | cons c rest ih =>
      rw [List.map_cons, List.all_cons, List.all_cons, (keeps c List.mem_cons_self).1,
        ih (keeps.of_suffix (List.suffix_cons c rest))]

theorem isLastGroup_map (keeps : KeepsShape change text) :
    isLastGroup (text.map change) = isLastGroup text := by
  have digits := all_isDecimalDigit_map (keeps.of_suffix (dropOne_suffix isDivider text))
  simp only [isLastGroup, dropOne_map keeps, digits, List.isEmpty_map, List.length_map]

theorem isClock_map (limit : Nat) (keeps : KeepsShape change text) :
    isClock limit (text.map change) = isClock limit text := by
  induction limit generalizing text with
  | zero => exact isLastGroup_map keeps
  | succ limit ih =>
      rw [isClock, isClock, isLastGroup_map keeps, dropPair?_map keeps]
      cases pair : dropPair? text with
      | none => rfl
      | some rest => simp [ih (keeps.of_suffix (dropPair?_suffix pair))]

/-- Whether a text is a date is told by where its digits and dividers stand. -/
theorem isDate_map (keeps : KeepsShape change text) : isDate (text.map change) = isDate text := by
  have year : ((text.map change).take 4).all Text.isDecimalDigit =
      (text.take 4).all Text.isDecimalDigit := by
    rw [← List.map_take]
    exact all_isDecimalDigit_map (keeps.of_subset (List.take_subset 4 text))
  have keeps' := keeps.of_suffix (List.drop_suffix 4 text)
  rw [isDate, isDate, year, ← List.map_drop, dropPair?_map keeps']
  cases pair : dropPair? (text.drop 4) with
  | none => simp
  | some rest => simp [isClock_map 5 (keeps'.of_suffix (dropPair?_suffix pair))]

/-- A date begins with a digit. -/
theorem exists_cons_of_isDate (date : isDate text = true) :
    ∃ c rest, text = c :: rest ∧ Text.isDecimalDigit c = true := by
  cases text with
  | nil => simp [isDate] at date
  | cons c rest =>
      simp only [isDate, List.take_succ_cons, List.all_cons, Bool.and_eq_true] at date
      exact ⟨c, rest, rfl, date.1.2.1⟩

end

/-! ## Reading and writing -/

/-- Whether a character can stand in the figures of a date. -/
def isFigure (c : Char) : Bool := Text.isDecimalDigit c || isDivider c

theorem isDivider_of_isDecimalDigit {c : Char} (digit : Text.isDecimalDigit c = true) :
    isDivider c = false := by
  rw [Bool.eq_false_iff]
  intro divider
  simp only [isDivider, Bool.or_eq_true, beq_iff_eq] at divider
  rcases divider with (rfl | rfl) | rfl <;> exact absurd digit (by decide)

/-- A text of digits and dividers that ends with a digit. -/
structure AreFigures (figures : Text) : Prop where
  signs : ∀ c ∈ figures, isFigure c = true
  ends : ∀ c, figures.getLast? = some c → isDivider c = false

theorem areFigures_readFigures (text : Text) :
    AreFigures (readFigures text).1 ∧ (readFigures text).1 ⊆ text := by
  have part := (isPrefix_readFigures text).subset
  refine ⟨⟨fun c inside => List.all_eq_true.mp List.all_takeWhile c (part inside), ?_⟩,
    List.Subset.trans part (List.takeWhile_prefix isFigure).subset⟩
  intro c ending
  change ((text.takeWhile isFigure).reverse.dropWhile isDivider).reverse.getLast? = some c at ending
  rw [List.getLast?_reverse] at ending
  have stops := List.head?_dropWhile_not isDivider (text.takeWhile isFigure).reverse
  rw [ending] at stops
  simpa using stops

/-- The figures of a text end before its last dividers. -/
theorem readFigures_append {figures rest : Text} (areFigures : AreFigures figures)
    (behind : ∀ c ∈ rest.takeWhile isFigure, isDivider c = true) :
    readFigures (figures ++ rest) = (figures, rest) := by
  have kept : figures.reverse.dropWhile isDivider = figures.reverse := by
    cases reversed : figures.reverse with
    | nil => rfl
    | cons c before =>
        have last : figures.getLast? = some c := by
          rw [← List.head?_reverse, reversed]
          rfl
        exact List.dropWhile_cons_of_neg (by simp [areFigures.ends c last])
  have run : ((figures ++ rest).takeWhile isFigure).reverse.dropWhile isDivider =
      figures.reverse := by
    rw [List.takeWhile_append_of_pos areFigures.signs, List.reverse_append,
      List.dropWhile_append_of_pos fun c inside => behind c (List.mem_reverse.mp inside), kept]
  change (let figures' := (((figures ++ rest).takeWhile isFigure).reverse.dropWhile
    isDivider).reverse; (figures', (figures ++ rest).drop figures'.length)) = _
  rw [run, List.reverse_reverse]
  simp

/-- Only the hyphen of a canonical form could be taken for a part of the figures before it. -/
theorem isDivider_of_mem_takeWhile {modifier : Modifier} (wellFormed : modifier.IsWellFormed) :
    ∀ c ∈ modifier.suffix.takeWhile isFigure, isDivider c = true := by
  rcases wellFormed.suffix_cases with empty | ⟨d, rest, written, digit, other⟩
  · simp [empty]
  · have stops : isFigure d = false := by
      simp only [List.mem_cons, not_or] at other
      simp [isFigure, isDivider, digit, other]
    have hyphen : isFigure '-' = true := by decide
    rw [written, List.takeWhile_cons_of_pos hyphen, List.takeWhile_cons_of_neg (by simp [stops])]
    simp [isDivider]

/-- Figures with a canonical modifier behind them are read as such. -/
theorem ofVersion?_append {figures rest : Text} {c : Char} {modifier : Modifier}
    (areFigures : AreFigures figures) (begins : figures = c :: rest)
    (digit : Text.isDecimalDigit c = true) (wellFormed : modifier.IsWellFormed) :
    ofVersion? (figures ++ modifier.suffix) =
      if isDate figures then some ⟨figures, modifier.canonical⟩ else none := by
  have unmarked : Literal.dropMark (figures ++ modifier.suffix) = figures ++ modifier.suffix := by
    rw [begins]
    exact Literal.dropMark_cons digit _
  simp only [ofVersion?, unmarked,
    readFigures_append areFigures (isDivider_of_mem_takeWhile wellFormed),
    wellFormed.read_suffix]

/-- The figure that stands for a character of a date in its normal form. -/
def dot (c : Char) : Char := if c.isDigit then c else '.'

theorem dot_dot (c : Char) : dot (dot c) = dot c := by
  by_cases digit : c.isDigit = true
  · simp [dot, digit]
  · simp [dot, digit]

theorem normalForm_eq (timestamp : Timestamp) :
    timestamp.normalForm = timestamp.figures.map dot ++ timestamp.modifier.suffix :=
  rfl

/-- Figures in ASCII digits with dots between them are their own normal form. -/
theorem normalForm_of_ofVersion?_append {figures rest : Text} {c : Char} {modifier : Modifier}
    {found : Timestamp} (areFigures : AreFigures figures) (begins : figures = c :: rest)
    (digit : Text.isDecimalDigit c = true) (wellFormed : modifier.IsWellFormed)
    (plain : figures.map dot = figures)
    (reads : ofVersion? (figures ++ modifier.suffix) = some found) :
    found.normalForm = figures ++ modifier.suffix := by
  rw [ofVersion?_append areFigures begins digit wellFormed] at reads
  split at reads
  · obtain rfl := Option.some.inj reads
    rw [normalForm_eq, plain, wellFormed.suffix_canonical]
  · cases reads

/-- A date as readers find it. -/
structure IsWellFormed (timestamp : Timestamp) : Prop where
  date : isDate timestamp.figures = true
  figures : AreFigures timestamp.figures
  modifier : timestamp.modifier.IsWellFormed

theorem isWellFormed_of_ofVersion? {text : Text} {timestamp : Timestamp}
    (reads : ofVersion? text = some timestamp) :
    timestamp.IsWellFormed ∧ timestamp.figures ⊆ text := by
  obtain ⟨areFigures, within⟩ := areFigures_readFigures (Literal.dropMark text)
  have wellFormed := Modifier.isWellFormed_read (readFigures (Literal.dropMark text)).2
  simp only [ofVersion?] at reads
  split at reads
  · next modifier read =>
    rw [read] at wellFormed
    split at reads
    · next date =>
      obtain rfl := Option.some.inj reads
      exact ⟨⟨date, areFigures, wellFormed⟩,
        List.Subset.trans within (dropOne_suffix _ text).subset⟩
    · cases reads
  · cases reads

theorem AreFigures.keepsShape_dot {figures : Text} (areFigures : AreFigures figures)
    (ascii : ∀ c ∈ figures, Text.isDecimalDigit c = true → c.isDigit = true) :
    KeepsShape dot figures := by
  intro c inside
  by_cases digit : c.isDigit = true
  · simp [dot, digit]
  · have other : Text.isDecimalDigit c = false := by
      rw [Bool.eq_false_iff]
      exact fun decimal => digit (ascii c inside decimal)
    have divider : isDivider c = true := by
      have sign := areFigures.signs c inside
      rwa [isFigure, other, Bool.false_or] at sign
    rw [other, divider, dot, if_neg digit]
    decide

section

variable {timestamp : Timestamp}

/-- The normal form of a date in ASCII digits is read back as a date with this normal form. -/
theorem IsWellFormed.ofVersion?_normalForm (wellFormed : timestamp.IsWellFormed)
    (ascii : ∀ c ∈ timestamp.figures, Text.isDecimalDigit c = true → c.isDigit = true) :
    ∃ found, ofVersion? timestamp.normalForm = some found ∧
      found.normalForm = timestamp.normalForm := by
  have keeps := wellFormed.figures.keepsShape_dot ascii
  have date : isDate (timestamp.figures.map dot) = true := by
    rw [isDate_map keeps, wellFormed.date]
  have areFigures : AreFigures (timestamp.figures.map dot) := by
    constructor
    · intro c inside
      obtain ⟨d, figure, rfl⟩ := List.mem_map.mp inside
      rw [isFigure, (keeps d figure).1, (keeps d figure).2]
      exact wellFormed.figures.signs d figure
    · intro c ending
      rw [List.getLast?_map, Option.map_eq_some_iff] at ending
      obtain ⟨d, last, rfl⟩ := ending
      rw [(keeps d (List.mem_of_getLast? last)).2]
      exact wellFormed.figures.ends d last
  have plain : (timestamp.figures.map dot).map dot = timestamp.figures.map dot := by
    rw [List.map_map]
    exact List.map_congr_left fun c _ => dot_dot c
  obtain ⟨c, rest, begins, digit⟩ := exists_cons_of_isDate date
  have reads := ofVersion?_append areFigures begins digit wellFormed.modifier
  rw [if_pos date] at reads
  exact ⟨_, reads, normalForm_of_ofVersion?_append areFigures begins digit wellFormed.modifier plain
    reads⟩

theorem IsWellFormed.not_mem_normalForm {sign : Char} (wellFormed : timestamp.IsWellFormed)
    (foreign : Text.IsForeign sign) : sign ∉ timestamp.normalForm := by
  have figure : sign ∉ timestamp.figures.map dot := by
    intro inside
    obtain ⟨c, -, rfl⟩ := List.mem_map.mp inside
    by_cases digit : c.isDigit = true
    · have decimal := foreign.digit
      rw [dot, if_pos digit, Text.isDecimalDigit_of_isDigit digit] at decimal
      cases decimal
    · have other := foreign.other
      rw [dot, if_neg digit] at other
      exact other (by decide)
  rw [normalForm_eq]
  simp [figure, Modifier.not_mem_suffix foreign wellFormed.modifier]

end

end VersionRanges.Timestamp

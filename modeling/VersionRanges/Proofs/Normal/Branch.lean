/-
# Numeric branches that are read back

The normal form of a branch with a numeric name is the normal form of a literal with four components
and a development mark. It can be read by three grammars, as a literal if its first component is
short, as a date if its digits happen to stand as those of a date do, and else as a branch again. In
ASCII digits all three give it back as it is.
-/
import VersionRanges.Proofs.Normal.Timestamp
import VersionRanges.Version.Normal

namespace VersionRanges

open Literal (IsNumber dotted)

namespace Branch

/-! ## Texts that name no branch -/

section

variable {c : Char} (other : Text.foldCase c ∉ ['m', 't', 'd']) (rest : Text)

include other

/-- A text that begins with none of their first letters is no name of the default branch. -/
theorem isDefault_cons : isDefault (c :: rest) = false := by
  simp only [List.mem_cons, not_or] at other
  simp [isDefault, defaultNames, marker, Text.spells, other]

/-- A text with another letter in front has no marker before it. -/
theorem markedName?_cons : markedName? (c :: rest) = none := by
  simp only [List.mem_cons, not_or] at other
  simp [markedName?, marker, Text.keyword?, other]

end

end Branch

/-- A text with another letter in front is read by the three grammars of numbers, one after
another. -/
theorem Version.normalForm?_cons {c : Char} (other : Text.foldCase c ∉ ['m', 't', 'd'])
    (rest : Text) :
    normalForm? (c :: rest) =
      match Literal.ofVersion? (c :: rest) with
      | some literal => some literal.normalForm
      | none =>
        match Timestamp.ofVersion? (c :: rest) with
        | some timestamp => some timestamp.normalForm
        | none => ofDevName? (c :: rest) := by
  rw [normalForm?, Branch.isDefault_cons other, Branch.markedName?_cons other]
  rfl

/-- A text that begins with a digit is read by the three grammars of numbers, one after another. -/
theorem Version.normalForm?_of_isDecimalDigit {text rest : Text} {c : Char}
    (begins : text = c :: rest) (digit : Text.isDecimalDigit c = true) :
    normalForm? text =
      match Literal.ofVersion? text with
      | some literal => some literal.normalForm
      | none =>
        match Timestamp.ofVersion? text with
        | some timestamp => some timestamp.normalForm
        | none => ofDevName? text := by
  have other : ∀ letter ∈ ['m', 't', 'd'], c ≠ letter := by
    simp only [List.forall_mem_cons]
    exact ⟨Text.ne_of_isDecimalDigit digit (by decide), Text.ne_of_isDecimalDigit digit (by decide),
      Text.ne_of_isDecimalDigit digit (by decide), List.forall_mem_nil _⟩
  rw [begins, normalForm?_cons]
  rw [Text.foldCase_of_isDecimalDigit digit]
  exact fun listed => other c listed rfl

namespace Branch

/-! ## Components of a branch -/

theorem isWildcard_of_isDecimalDigit {c : Char} (digit : Text.isDecimalDigit c = true) :
    isWildcard c = false := by
  rw [Bool.eq_false_iff]
  intro wild
  simp only [isWildcard, Bool.or_eq_true, beq_iff_eq] at wild
  rcases wild with (rfl | rfl) | rfl <;> exact absurd digit (by decide)

theorem isNumber_openNumber : IsNumber openNumber :=
  ⟨by decide, List.all_eq_true.mp (by decide)⟩

theorem readComponents_spec (limit : Nat) (text : Text) :
    (readComponents limit text).1.length ≤ limit ∧
      ∀ part ∈ (readComponents limit text).1, IsNumber part ∧
        ∀ c ∈ part, c ∈ text ∨ c.isDigit = true := by
  have nines : ∀ c ∈ openNumber, c.isDigit = true := List.all_eq_true.mp (by decide)
  induction limit, text using readComponents.induct with
  | case1 text => simp [readComponents]
  | case2 limit c rest wild ih =>
      rw [readComponents, if_pos wild]
      refine ⟨Nat.succ_le_succ ih.1, List.forall_mem_cons.mpr ⟨?_, fun part inside => ?_⟩⟩
      · exact ⟨isNumber_openNumber, fun d nine => .inr (nines d nine)⟩
      · obtain ⟨isNumber, within⟩ := ih.2 part inside
        exact ⟨isNumber, fun d digit => (within d digit).imp_left fun behind => by simp [behind]⟩
  | case3 limit c rest closed after empty =>
      rw [readComponents, if_neg closed, empty]
      simp
  | case4 limit c rest closed digits after filled split ih =>
      obtain ⟨d, digits, rfl⟩ := List.exists_cons_of_ne_nil filled
      have isNumber := Literal.isNumber_of_readDigits split (List.cons_ne_nil d digits)
      rw [readComponents, if_neg closed, split, Literal.append_of_readDigits split]
      refine ⟨Nat.succ_le_succ ih.1, List.forall_mem_cons.mpr ⟨?_, fun part inside => ?_⟩⟩
      · exact ⟨isNumber, fun e digit => .inl
          (List.mem_cons_of_mem _ (List.mem_append_left after digit))⟩
      · obtain ⟨isNumber', within⟩ := ih.2 part inside
        refine ⟨isNumber', fun e digit => (within e digit).imp_left fun behind => ?_⟩
        exact List.mem_cons_of_mem _ (List.mem_append_right _ behind)
  | case5 limit text undotted =>
      rw [readComponents]
      · simp
      · exact undotted

/-- Numbers are read as they stand, and components that are asked for beyond them are looked for in
the rest. -/
theorem readComponents_append {parts : List Text} {rest : Text}
    (areNumbers : ∀ part ∈ parts, IsNumber part)
    (stops : ∀ c, rest.head? = some c → Text.isDecimalDigit c = false) (limit : ℕ) :
    readComponents (parts.length + limit) (dotted parts ++ rest) =
      Prod.map (parts ++ ·) id (readComponents limit rest) := by
  induction parts with
  | nil =>
      rw [List.length_nil, Nat.zero_add]
      rfl
  | cons part parts ih =>
      obtain ⟨isNumber, further⟩ := List.forall_mem_cons.mp areNumbers
      obtain ⟨c, digits, rfl, digit⟩ := isNumber.exists_cons
      have closed : ¬ isWildcard c = true := by simp [isWildcard_of_isDecimalDigit digit]
      have split := Literal.readDigits_append isNumber (Literal.head?_dotted_append parts stops)
      rw [List.cons_append] at split
      rw [Literal.dotted_cons, List.length_cons, Nat.succ_add, List.cons_append, readComponents,
        if_neg closed, split]
      simp only [ih further, Prod.map_map]
      rfl

/-- A name that begins with numbers is numeric if the rest leaves components open. -/
theorem numeric?_append {major rest : Text} {further opened : List Text} (isNumber : IsNumber major)
    (areNumbers : ∀ part ∈ further, IsNumber part) (short : further.length ≤ 3)
    (stops : ∀ c, rest.head? = some c → Text.isDecimalDigit c = false)
    (ends : readComponents (3 - further.length) rest = (opened, [])) :
    numeric? (major ++ (dotted further ++ rest)) =
      some (major ++ dotted (further ++ opened ++
        List.replicate (3 - (further ++ opened).length) openNumber) ++ "-dev".toList) := by
  have components := readComponents_append areNumbers stops (3 - further.length)
  rw [Nat.add_sub_cancel' short, ends] at components
  have split := Literal.readDigits_append isNumber (Literal.head?_dotted_append further stops)
  obtain ⟨c, digits, rfl, digit⟩ := isNumber.exists_cons
  have unmarked := Literal.dropMark_cons digit (digits ++ (dotted further ++ rest))
  rw [← List.cons_append] at unmarked
  rw [numeric?, unmarked, split]
  simp only [components, Prod.map_apply, id_eq]
  rfl

/-- A name that begins with a digit names no default branch. -/
theorem normalize_of_isDecimalDigit {c : Char} {rest : Text}
    (digit : Text.isDecimalDigit c = true) (solid : ∀ d ∈ c :: rest, Text.isBlank d = false) :
    normalize (c :: rest) = .ok ((numeric? (c :: rest)).getD (marker ++ c :: rest)) := by
  have named : c :: rest ∉ defaultNames := by
    intro listed
    have letters : ∀ d ∈ defaultNames.flatten, Text.isDecimalDigit d = false :=
      List.all_iff_forall_prop.mp (by decide)
    have letter := letters c (List.mem_flatten_of_mem listed List.mem_cons_self)
    exact Bool.false_ne_true (letter.symm.trans digit)
  simp [normalize, Text.trim_eq_self solid, named]

end Branch

/-- What stands on one line before a development mark is the name of a branch. -/
theorem Version.devName?_append_dev {name : Text} (unbroken : '\n' ∉ name) :
    devName? (name ++ "-dev".toList) = some name := by
  have line : name.reverse.takeWhile (· != '\n') = name.reverse :=
    List.takeWhile_eq_self_iff.mpr
      (Text.forall_bne fun inside => unbroken (List.mem_reverse.mp inside))
  have reversed : (name ++ "-dev".toList).reverse =
      'v' :: 'e' :: 'd' :: '-' :: name.reverse := by simp
  have joint : Modifier.dropOne Modifier.isJoint ('-' :: name.reverse) = name.reverse := rfl
  have spelled : Text.spells "dev".toList ['d', 'e', 'v'] = true := by decide
  rw [devName?, reversed]
  simp only [spelled, if_true, joint, line, List.reverse_reverse]

namespace Branch

/-! ## Reading and writing -/

/-- The literal that has the normal form of a numeric branch. -/
structure IsNumeric (literal : Literal) : Prop extends literal.IsWellFormed where
  full : literal.further.length = 3
  isDev : literal.modifier = ⟨[], [], true⟩

section

variable {literal : Literal}

theorem IsNumeric.padded_eq (numeric : IsNumeric literal) :
    literal.padded = literal.major ++ dotted literal.further := by
  simp [Literal.padded, numeric.full, dotted]

theorem IsNumeric.suffix_eq (numeric : IsNumeric literal) :
    literal.modifier.suffix = "-dev".toList := by
  rw [numeric.isDev]
  rfl

/-- The numbers of a branch name the branch. -/
theorem IsNumeric.numeric?_padded (numeric : IsNumeric literal) :
    numeric? literal.padded = some literal.normalForm := by
  have ends : readComponents (3 - literal.further.length) [] = ([], []) := by
    rw [numeric.full]
    rfl
  have named := numeric?_append numeric.major numeric.further numeric.full.le (by simp) ends
  rw [List.append_nil, List.append_nil, numeric.full] at named
  rw [Literal.normalForm, numeric.suffix_eq, numeric.padded_eq, named]
  simp

theorem IsNumeric.exists_padded_cons (numeric : IsNumeric literal) :
    ∃ c rest, literal.padded = c :: rest ∧ Text.isDecimalDigit c = true := by
  obtain ⟨c, rest, spelled, digit⟩ := numeric.major.exists_cons
  refine ⟨c, rest ++ dotted literal.further, ?_, digit⟩
  rw [numeric.padded_eq, spelled, List.cons_append]

/-- The numbers of a branch are digits of its components, and dots. -/
theorem IsNumeric.mem_padded (numeric : IsNumeric literal) :
    ∀ c ∈ literal.padded, (∃ part ∈ literal.components, c ∈ part) ∨ c = '.' := by
  intro c inside
  rw [numeric.padded_eq] at inside
  rcases List.mem_append.mp inside with major | further
  · exact .inl ⟨literal.major, List.mem_cons_self, major⟩
  · obtain ⟨part, listed, behind⟩ := List.mem_flatMap.mp further
    rcases List.mem_cons.mp behind with rfl | digit
    · exact .inr rfl
    · exact .inl ⟨part, List.mem_cons_of_mem _ listed, digit⟩

theorem IsNumeric.isDecimalDigit_of_mem (numeric : IsNumeric literal) :
    ∀ part ∈ literal.components, ∀ c ∈ part, Text.isDecimalDigit c = true :=
  List.forall_mem_cons.mpr
    ⟨numeric.major.digits, fun part listed => (numeric.further part listed).digits⟩

theorem IsNumeric.areFigures (numeric : IsNumeric literal) :
    Timestamp.AreFigures literal.padded := by
  constructor
  · intro c inside
    rcases numeric.mem_padded c inside with ⟨part, listed, digit⟩ | rfl
    · simp [Timestamp.isFigure, numeric.isDecimalDigit_of_mem part listed c digit]
    · decide
  · intro c ending
    have digit : Text.isDecimalDigit c = true := by
      rw [numeric.padded_eq] at ending
      exact Literal.getLast?_append_dotted numeric.major numeric.further c ending
    exact Timestamp.isDivider_of_isDecimalDigit digit

/-- The name in the normal form of a numeric branch is made of its numbers. -/
theorem IsNumeric.devName?_normalForm (numeric : IsNumeric literal) :
    Version.devName? literal.normalForm = some literal.padded := by
  have broken : '\n' ∉ literal.padded := by
    intro inside
    have figure := numeric.areFigures.signs _ inside
    revert figure
    decide
  rw [Literal.normalForm, numeric.suffix_eq]
  exact Version.devName?_append_dev broken

/-- The numbers of a branch are the name of no other branch. -/
theorem IsNumeric.normalize_padded (numeric : IsNumeric literal) :
    normalize literal.padded = .ok literal.normalForm := by
  obtain ⟨c, rest, filled, digit⟩ := numeric.exists_padded_cons
  have solid : ∀ d ∈ literal.padded, Text.isBlank d = false := by
    intro d inside
    rcases numeric.mem_padded d inside with ⟨part, listed, digit⟩ | rfl
    · rw [Bool.eq_false_iff]
      intro blank
      have decimal := numeric.isDecimalDigit_of_mem part listed d digit
      exact Bool.false_ne_true ((Text.isDecimalDigit_of_isBlank blank).symm.trans decimal)
    · decide
  have named := numeric.numeric?_padded
  rw [filled] at solid named ⊢
  rw [normalize_of_isDecimalDigit digit solid, named]
  rfl

/-- In ASCII digits the normal form of a numeric branch is its own normal form. -/
theorem IsNumeric.normalForm?_normalForm (numeric : IsNumeric literal)
    (ascii : ∀ part ∈ literal.components, ∀ c ∈ part, c.isDigit = true) :
    Version.normalForm? literal.normalForm = some literal.normalForm := by
  obtain ⟨c, rest, begins, digit⟩ := numeric.exists_normalForm_cons
  have plain : literal.padded.map Timestamp.dot = literal.padded := by
    refine (List.map_congr_left fun d inside => ?_).trans (List.map_id _)
    rcases numeric.mem_padded d inside with ⟨part, listed, within⟩ | rfl
    · exact if_pos (ascii part listed d within)
    · decide
  rw [Version.normalForm?_of_isDecimalDigit begins digit]
  cases short : Literal.ofVersion? literal.normalForm with
  | some found => exact congrArg some (numeric.normalForm_of_ofVersion? short)
  | none =>
      cases date : Timestamp.ofVersion? literal.normalForm with
      | some found =>
          obtain ⟨d, figures, filled, digit'⟩ := numeric.exists_padded_cons
          exact congrArg some (Timestamp.normalForm_of_ofVersion?_append numeric.areFigures filled
            digit' numeric.modifier plain date)
      | none =>
          rw [Version.ofDevName?, numeric.devName?_normalForm, Option.bind_some,
            numeric.normalize_padded]
          rfl

end

/-- The normal form of a numeric branch is that of a literal, whose digits are those of the name
and of the number that stands for components left open. -/
theorem exists_of_numeric? {name normal : Text} (reads : numeric? name = some normal) :
    ∃ literal, IsNumeric literal ∧ normal = literal.normalForm ∧
      ∀ part ∈ literal.components, ∀ c ∈ part, c ∈ name ∨ c.isDigit = true := by
  have nines : ∀ c ∈ openNumber, c.isDigit = true := List.all_eq_true.mp (by decide)
  rw [numeric?] at reads
  split at reads
  · cases reads
  · next major afterMajor filled split =>
    split at reads
    · next further components =>
      obtain ⟨short, spec⟩ := readComponents_spec 3 afterMajor
      simp only [components] at short spec
      have within : major ++ afterMajor ⊆ name :=
        Literal.append_of_readDigits split ▸ (Timestamp.dropOne_suffix _ name).subset
      let missing := List.replicate (3 - further.length) openNumber
      have parts : ∀ part ∈ further ++ missing, IsNumber part ∧
          ∀ c ∈ part, c ∈ name ∨ c.isDigit = true := by
        refine List.forall_mem_append.mpr ⟨fun part inside => ?_, fun part inside => ?_⟩
        · obtain ⟨isNumber, digits⟩ := spec part inside
          exact ⟨isNumber, fun c digit => (digits c digit).imp_left fun behind =>
            within (List.mem_append_right _ behind)⟩
        · rw [List.eq_of_mem_replicate inside]
          exact ⟨isNumber_openNumber, fun c nine => .inr (nines c nine)⟩
      have full : (further ++ missing).length = 3 := by
        rw [List.length_append, List.length_replicate]
        omega
      have isNumber := Literal.isNumber_of_readDigits split filled
      refine ⟨⟨major, further ++ missing, ⟨[], [], true⟩⟩,
        ⟨⟨isNumber, fun part inside => (parts part inside).1, full.le, ?_⟩, full, rfl⟩, ?_, ?_⟩
      · exact ⟨.inl rfl, rfl, fun _ => rfl⟩
      · have written : (⟨[], [], true⟩ : Modifier).suffix = "-dev".toList := rfl
        rw [Literal.normalForm, Literal.padded, written, full]
        simpa using (Option.some.inj reads).symm
      · refine List.forall_mem_cons.mpr ⟨fun c digit => ?_, ?_⟩
        · exact .inl (within (List.mem_append_left _ digit))
        · exact fun part inside => (parts part inside).2
    · cases reads

end Branch

end VersionRanges

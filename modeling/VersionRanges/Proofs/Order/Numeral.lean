/-
# Versions made of components

A version of components with dots between them has the marks of its components and, behind them, the
marks of what follows. Raising one component raises the version, whatever stands behind it, and
another spelling of a component makes no difference.
-/
import VersionRanges.Proofs.Normal.Literal
import VersionRanges.Proofs.Order.Standing

namespace VersionRanges

open Literal (IsNumber)

theorem Literal.intercalate_cons (first : Text) (parts : List Text) :
    List.intercalate ['.'] (first :: parts) = first ++ Literal.dotted parts := by
  induction parts generalizing first with
  | nil => simp [Literal.dotted]
  | cons part parts ih =>
      rw [List.intercalate_cons_cons, ih]
      simp [Literal.dotted]

/-- A number in ASCII digits is one in decimal digits. -/
theorem Literal.isNumber_of_isDecimal {digits : Text}
    (ascii : digits ≠ [] ∧ Version.Part.IsDecimal digits) : IsNumber digits where
  filled := ascii.1
  digits c inside := Text.isDecimalDigit_of_isDigit (ascii.2 c inside)

namespace Version

/-- The marks of the runs of a text. -/
def runMarks (text : Text) : List Mark := (runs text).map Mark.ofPart

theorem runMarks_append (text : Text) {rest : Text}
    (separated : ∀ c ∈ rest.head?, isSeparator c = true) :
    runMarks (text ++ rest) = runMarks text ++ runMarks rest := by
  rw [runMarks, runs_append_of_separated text separated, List.map_append]
  rfl

theorem isSeparator_of_isDigit {c : Char} (digit : c.isDigit = true) : isSeparator c = false := by
  rw [Bool.eq_false_iff]
  intro separator
  simp only [isSeparator, Bool.or_eq_true, beq_iff_eq] at separator
  rcases separator with ((rfl | rfl) | rfl) | rfl <;> exact absurd digit (by decide)

/-- ASCII digits are one number. -/
theorem runMarks_of_isDecimal {digits : Text} (decimal : Part.IsDecimal digits)
    (filled : digits ≠ []) : runMarks digits = [.number (Part.value digits)] := by
  have unseparated : ∀ c ∈ digits, isSeparator c = false :=
    fun c inside => isSeparator_of_isDigit (decimal c inside)
  have whole : runs digits = [digits] := by
    rw [← List.append_nil digits,
      runs_append filled unseparated decimal (by simp [Stops]), List.append_nil]
    rfl
  obtain ⟨c, rest, rfl⟩ := List.exists_cons_of_ne_nil filled
  have number : Part.isNumber (c :: rest) = true := by
    simpa [Part.isNumber] using decimal c List.mem_cons_self
  rw [runMarks, whole, List.map_singleton, Mark.ofPart, if_pos number]

/-- What may stand behind components: nothing, or a separator and no foreign sign. -/
structure IsSuffix (suffix : Text) : Prop where
  separated : ∀ c ∈ suffix.head?, isSeparator c = true
  plain : ∀ sign, Text.IsForeign sign → sign ∉ suffix

/-- A version made of components with dots between them, and of what stands behind them. -/
structure Numeral where
  components : List Text
  suffix : Text
  filled : components ≠ []
  areNumbers : ∀ part ∈ components, IsNumber part
  isSuffix : IsSuffix suffix

namespace Numeral

/-- The text of such a version. -/
def text (numeral : Numeral) : Text :=
  List.intercalate ['.'] numeral.components ++ numeral.suffix

theorem exists_text_eq (numeral : Numeral) :
    ∃ first further, numeral.components = first :: further ∧
      numeral.text = first ++ (Literal.dotted further ++ numeral.suffix) := by
  obtain ⟨first, further, components⟩ := List.exists_cons_of_ne_nil numeral.filled
  refine ⟨first, further, components, ?_⟩
  rw [text, components, Literal.intercalate_cons, List.append_assoc]

theorem exists_text_cons (numeral : Numeral) :
    ∃ c rest, numeral.text = c :: rest ∧ Text.isDecimalDigit c = true := by
  obtain ⟨first, further, components, whole⟩ := numeral.exists_text_eq
  obtain ⟨c, digits, rfl, digit⟩ :=
    (numeral.areNumbers first (components ▸ List.mem_cons_self)).exists_cons
  exact ⟨c, _, whole, digit⟩

theorem not_mem_text (numeral : Numeral) {sign : Char} (foreign : Text.IsForeign sign) :
    sign ∉ numeral.text := by
  obtain ⟨first, further, components, whole⟩ := numeral.exists_text_eq
  obtain ⟨isNumber, areNumbers⟩ := List.forall_mem_cons.mp (components ▸ numeral.areNumbers)
  have dot : sign ≠ '.' := fun same => foreign.other (by simp [same])
  rw [whole]
  simp [isNumber.not_mem foreign.digit, Literal.not_mem_dotted areNumbers foreign.digit dot,
    numeral.isSuffix.plain sign foreign]

theorem isBranch_text (numeral : Numeral) : Branch.isBranch numeral.text = false := by
  obtain ⟨c, rest, begins, digit⟩ := numeral.exists_text_cons
  have other : 'd' ≠ c := (Text.ne_of_isDecimalDigit digit (by decide)).symm
  simp [begins, Branch.isBranch, Branch.marker, List.isPrefixOf, other]

/-! ## Marks -/

theorem separated_dotted (parts : List Text) {rest : Text}
    (separated : ∀ c ∈ rest.head?, isSeparator c = true) :
    ∀ c ∈ (Literal.dotted parts ++ rest).head?, isSeparator c = true := by
  cases parts with
  | nil => exact separated
  | cons part parts =>
      rw [Literal.dotted_cons]
      rintro c ⟨⟩
      rfl

theorem runMarks_dotted (parts : List Text) {rest : Text}
    (separated : ∀ c ∈ rest.head?, isSeparator c = true) :
    runMarks (Literal.dotted parts ++ rest) = parts.flatMap runMarks ++ runMarks rest := by
  induction parts with
  | nil => rfl
  | cons part parts ih =>
      have dot (text : Text) : runMarks ('.' :: text) = runMarks text := by
        rw [runMarks, runs_cons_of_isSeparator rfl]
        rfl
      rw [Literal.dotted_cons, dot, runMarks_append part (separated_dotted parts separated), ih,
        List.flatMap_cons, List.append_assoc]

/-- The marks of a version are those of its components and those behind them. -/
theorem marks_standing (numeral : Numeral) :
    (standing numeral.text).marks =
      numeral.components.flatMap runMarks ++ runMarks numeral.suffix := by
  obtain ⟨c, rest, begins, digit⟩ := numeral.exists_text_cons
  have apart (sign : Char) (other : Text.isDecimalDigit sign = false) : c ≠ sign :=
    Text.ne_of_isDecimalDigit digit other
  have plain : isSeparator c = false := by
    simp [isSeparator, apart '.' (by decide), apart '-' (by decide), apart '_' (by decide),
      apart '+' (by decide)]
  have solid : ∀ d ∈ c :: rest, Text.isBlank d = false := by
    intro d inside
    rw [Bool.eq_false_iff]
    exact fun blank => numeral.not_mem_text (Text.isForeign_of_isBlank blank) (begins ▸ inside)
  have cut : (standing numeral.text).marks = runMarks numeral.text := by
    rw [begins]
    exact congrArg _ (parts_eq_runs plain (apart '#' (by decide)) solid)
  obtain ⟨first, further, components, whole⟩ := numeral.exists_text_eq
  have separated := numeral.isSuffix.separated
  rw [cut, whole, runMarks_append first (separated_dotted further separated),
    runMarks_dotted further separated, components, List.flatMap_cons, List.append_assoc]

/-! ## Order -/

section

variable {numeral numeral' : Numeral}

/-- A greater number in place of a component makes the greater version. -/
theorem standing_lt_of_raised {front rest rest' : List Mark} {n n' : Nat}
    (components : numeral.components.flatMap runMarks = front ++ .number n :: rest)
    (components' : numeral'.components.flatMap runMarks = front ++ .number n' :: rest')
    (less : n < n') : standing numeral.text < standing numeral'.text := by
  have marks : (standing numeral.text).marks =
      front ++ .number n :: (rest ++ runMarks numeral.suffix) := by
    rw [marks_standing, components, List.append_assoc, List.cons_append]
  have marks' : (standing numeral'.text).marks =
      front ++ .number n' :: (rest' ++ runMarks numeral'.suffix) := by
    rw [marks_standing, components', List.append_assoc, List.cons_append]
  refine Standing.lt_of_marks marks marks' ?_
  exact Prod.Lex.toLex_lt_toLex.mpr (.inr ⟨rfl, Nat.succ_lt_succ less⟩)

variable (components : numeral.components.flatMap runMarks = numeral'.components.flatMap runMarks)

include components

theorem standing_congr (suffix : runMarks numeral.suffix = runMarks numeral'.suffix) :
    standing numeral.text = standing numeral'.text := by
  ext1
  rw [marks_standing, marks_standing, components, suffix]

/-- A name below the end behind a version makes the lesser one. -/
theorem standing_lt_of_suffix {mark : Mark} {rest : List Mark}
    (suffix : runMarks numeral.suffix = runMarks numeral'.suffix ++ mark :: rest)
    (below : mark < .closing) : standing numeral.text < standing numeral'.text := by
  have marks : (standing numeral.text).marks = (standing numeral'.text).marks ++ mark :: rest := by
    rw [marks_standing, marks_standing, components, suffix, List.append_assoc]
  exact Standing.lt_of_goesOn marks below

end

end Numeral

/-- A version that is made of components. -/
def IsNumeral (version : Text) : Prop := ∃ numeral : Numeral, numeral.text = version

namespace IsNumeral

variable {version version' : Text}

theorem unsigned (isNumeral : IsNumeral version) : '#' ∉ version := by
  obtain ⟨numeral, rfl⟩ := isNumeral
  exact numeral.not_mem_text (by decide)

theorem release (isNumeral : IsNumeral version) : Branch.isBranch version = false := by
  obtain ⟨numeral, rfl⟩ := isNumeral
  exact numeral.isBranch_text

/-- Versions made of components are compared by their standings. -/
theorem compare_eq_cmp (isNumeral : IsNumeral version) (isNumeral' : IsNumeral version') :
    compare version version' = cmp (standing version) (standing version') :=
  Version.compare_eq_cmp isNumeral.unsigned isNumeral'.unsigned

end IsNumeral

end Version

end VersionRanges

/-
# Blanks around a text

What stands around a text in blanks is lost when the text is trimmed, and nothing else is.
-/
import Mathlib.Data.Bool.AllAny
import VersionRanges.Text.Blank
import VersionRanges.Text.DecimalDigit

namespace VersionRanges.Text

/-- A text of blanks alone. -/
def IsBlankText (text : Text) : Prop := ∀ c ∈ text, isBlank c = true

instance (text : Text) : Decidable (IsBlankText text) :=
  decidable_of_iff (text.all isBlank = true) List.all_eq_true

theorem IsBlankText.not_mem {blanks : Text} (blank : IsBlankText blanks) {c : Char}
    (solid : isBlank c = false) : c ∉ blanks :=
  fun inside => Bool.false_ne_true (solid.symm.trans (blank c inside))

theorem not_mem_of_solid {text : Text} (solid : ∀ c ∈ text, isBlank c = false) {c : Char}
    (blank : isBlank c = true) : c ∉ text :=
  fun inside => Bool.false_ne_true ((solid c inside).symm.trans blank)

/-- A text without a character, in the form in which `takeWhile` and `dropWhile` ask for it. -/
theorem forall_bne {text : Text} {c : Char} (absent : c ∉ text) : ∀ d ∈ text, (d != c) = true := by
  intro d inside
  rw [bne_iff_ne]
  rintro rfl
  exact absent inside

theorem isBlank_ranges {c : Char} (blank : isBlank c = true) :
    c.toNat ≤ 32 ∨ c.toNat = 0x85 ∨ c.toNat = 0xA0 ∨ c.toNat = 0x1680 ∨
      (0x2000 ≤ c.toNat ∧ c.toNat ≤ 0x205F) ∨ c.toNat = 0x3000 := by
  simp only [isBlank, Bool.or_eq_true, Bool.and_eq_true, decide_eq_true_eq, beq_iff_eq] at blank
  omega

/-- No script has a digit among the blanks. -/
theorem isDecimalDigit_of_isBlank {c : Char} (blank : isBlank c = true) :
    isDecimalDigit c = false := by
  have apart : ∀ start ∈ decimalZeros,
      (start + 9 < 0x80 ∨ 0xA0 < start) ∧ (start + 9 < 0x1680 ∨ 0x1680 < start) ∧
        (start + 9 < 0x2000 ∨ 0x205F < start) ∧ (start + 9 < 0x3000 ∨ 0x3000 < start) := by
    decide
  have ranges := isBlank_ranges blank
  rw [Bool.eq_false_iff]
  intro digit
  by_cases ascii : c.toNat < 0x80
  · have bounds : 48 ≤ c.toNat ∧ c.toNat ≤ 57 := by
      rw [isDecimalDigit_of_ascii ascii] at digit
      simpa [Char.isDigit, UInt32.le_iff_toNat_le] using digit
    omega
  · simp only [isDecimalDigit, if_neg ascii, List.any_eq_true, Bool.and_eq_true,
      decide_eq_true_eq] at digit
    obtain ⟨start, listed, above, below⟩ := digit
    obtain ⟨first, second, third, fourth⟩ := apart start listed
    omega

/-- Trimming takes characters away and adds none. -/
theorem mem_of_mem_trim {text : Text} {c : Char} (inside : c ∈ trim text) : c ∈ text := by
  have ended : c ∈ (trimLeft text).reverse :=
    (List.dropWhile_sublist isBlank).subset (List.mem_reverse.mp inside)
  exact (List.dropWhile_sublist isBlank).subset (List.mem_reverse.mp ended)

theorem trim_blank_append {blanks : Text} (blank : IsBlankText blanks) (text : Text) :
    trim (blanks ++ text) = trim text := by
  rw [trim, trim, trimLeft, trimLeft, List.dropWhile_append_of_pos blank]

theorem trimRight_append_blank {blanks : Text} (blank : IsBlankText blanks) (text : Text) :
    trimRight (text ++ blanks) = trimRight text := by
  have reversed : ∀ c ∈ blanks.reverse, isBlank c = true :=
    fun c inside => blank c (List.mem_reverse.mp inside)
  rw [trimRight, trimRight, List.reverse_append, List.dropWhile_append_of_pos reversed]

theorem trim_eq_nil_of_blank {blanks : Text} (blank : IsBlankText blanks) : trim blanks = [] := by
  rw [← List.append_nil blanks, trim_blank_append blank]
  rfl

theorem trim_append_blank {blanks : Text} (blank : IsBlankText blanks) (text : Text) :
    trim (text ++ blanks) = trim text := by
  rw [trim, trim, trimLeft, trimLeft, List.dropWhile_append]
  split
  · next empty =>
    rw [List.isEmpty_iff] at empty
    rw [empty]
    exact trim_eq_nil_of_blank blank
  · exact trimRight_append_blank blank _

/-- A text is its trimmed text with blanks around it. -/
theorem exists_blank_append_trim (text : Text) :
    ∃ leading trailing, IsBlankText leading ∧ IsBlankText trailing ∧
      text = leading ++ trim text ++ trailing := by
  have blank (other : Text) : IsBlankText (other.takeWhile isBlank) :=
    fun c inside => List.all_eq_true.mp (List.all_takeWhile (l := other)) c inside
  refine ⟨text.takeWhile isBlank, ((trimLeft text).reverse.takeWhile isBlank).reverse, blank text,
    fun c inside => blank _ c (List.mem_reverse.mp inside), ?_⟩
  rw [List.append_assoc, trim, trimRight, ← List.reverse_append, List.takeWhile_append_dropWhile,
    List.reverse_reverse, trimLeft, List.takeWhile_append_dropWhile]

theorem trim_eq_nil_iff {text : Text} : trim text = [] ↔ IsBlankText text := by
  constructor
  · intro empty
    obtain ⟨leading, trailing, before, after, whole⟩ := exists_blank_append_trim text
    rw [whole, empty, List.append_nil]
    exact List.forall_mem_append.mpr ⟨before, after⟩
  · exact trim_eq_nil_of_blank

theorem trim_isInfix (text : Text) : trim text <:+: text := by
  obtain ⟨leading, trailing, -, -, whole⟩ := exists_blank_append_trim text
  exact ⟨leading, trailing, whole.symm⟩

theorem trim_trim (text : Text) : trim (trim text) = trim text := by
  obtain ⟨leading, trailing, blank, blank', whole⟩ := exists_blank_append_trim text
  have trimmed := congrArg trim whole
  rw [trim_append_blank blank', trim_blank_append blank] at trimmed
  exact trimmed.symm

theorem trimLeft_eq_self {text : Text} (leading : ∀ c, text.head? = some c → isBlank c = false) :
    trimLeft text = text := by
  cases text with
  | nil => rfl
  | cons c text => exact List.dropWhile_cons_of_neg (by simp [leading c rfl])

theorem trimRight_eq_self {text : Text}
    (trailing : ∀ c, text.getLast? = some c → isBlank c = false) : trimRight text = text := by
  have reversed : text.reverse.dropWhile isBlank = text.reverse :=
    trimLeft_eq_self fun c ending => trailing c (List.head?_reverse ▸ ending)
  rw [trimRight, reversed, List.reverse_reverse]

/-- A text without blanks at its ends is left as it is. -/
theorem trim_eq_self_of_ends {text : Text} (leading : ∀ c, text.head? = some c → isBlank c = false)
    (trailing : ∀ c, text.getLast? = some c → isBlank c = false) : trim text = text := by
  rw [trim, trimLeft_eq_self leading, trimRight_eq_self trailing]

/-- A text that trimming leaves as it is has no blank in front. -/
theorem isBlank_of_head? {text : Text} (trimmed : trim text = text) {c : Char}
    (leading : text.head? = some c) : isBlank c = false := by
  obtain ⟨rest, rfl⟩ := List.head?_eq_some_iff.mp leading
  rw [Bool.eq_false_iff]
  intro blank
  have blank' : IsBlankText [c] := by simpa [IsBlankText] using blank
  have shorter : trim (c :: rest) = trim rest := trim_blank_append blank' rest
  have length := (trim_isInfix rest).length_le
  rw [← shorter, trimmed] at length
  exact absurd length (Nat.not_succ_le_self _)

/-- A text that trimming leaves as it is has no blank behind. -/
theorem isBlank_of_getLast? {text : Text} (trimmed : trim text = text) {c : Char}
    (trailing : text.getLast? = some c) : isBlank c = false := by
  obtain ⟨front, rfl⟩ := List.getLast?_eq_some_iff.mp trailing
  rw [Bool.eq_false_iff]
  intro blank
  have blank' : IsBlankText [c] := by simpa [IsBlankText] using blank
  have shorter : trim (front ++ [c]) = trim front := trim_append_blank blank' front
  have length := (trim_isInfix front).length_le
  rw [← shorter, trimmed, List.length_append] at length
  exact absurd length (Nat.not_succ_le_self _)

/-- A text without a blank is left as it is. -/
theorem trim_eq_self {text : Text} (solid : ∀ c ∈ text, isBlank c = false) : trim text = text :=
  trim_eq_self_of_ends (fun c leading => solid c (List.mem_of_head? leading))
    (fun c trailing => solid c (List.mem_of_getLast? trailing))

/-- What a text begins with stays in front if there is no blank in it. -/
theorem exists_trim_append {front : Text} (filled : front ≠ [])
    (solid : ∀ c ∈ front, isBlank c = false) (rest : Text) :
    ∃ rest', trim (front ++ rest) = front ++ rest' := by
  obtain ⟨first, behind, rfl⟩ := List.exists_cons_of_ne_nil filled
  have leading : trimLeft (first :: behind ++ rest) = first :: behind ++ rest := by
    refine trimLeft_eq_self ?_
    rintro _ ⟨⟩
    exact solid first List.mem_cons_self
  have kept : (first :: behind).reverse.dropWhile isBlank = (first :: behind).reverse :=
    trimLeft_eq_self fun c ending => solid c (List.mem_reverse.mp (List.mem_of_head? ending))
  rw [trim, leading, trimRight, List.reverse_append, List.dropWhile_append]
  split
  · exact ⟨[], by rw [kept, List.reverse_reverse, List.append_nil]⟩
  · refine ⟨(rest.reverse.dropWhile isBlank).reverse, ?_⟩
    rw [List.reverse_append, List.reverse_reverse]

end VersionRanges.Text

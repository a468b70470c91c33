/-
# Raised versions

A range ends at versions that are made from the components of a literal. Raising a component by zero
or by one carries nothing over: it spells the number anew, keeps the components before it and puts
zeros behind it. Such a version stands where the literal does if nothing was added, and above it
otherwise.
-/
import VersionRanges.Constraint.Range
import VersionRanges.Proofs.Order.Numeral
import VersionRanges.Proofs.Reading.Leaves

namespace VersionRanges

open Version (Numeral standing runMarks)
open Literal (IsNumber)

/-! ## Raised components -/

namespace Component

/-- The number that a component of decimal digits writes has no sign, and its digits are ASCII
digits. -/
theorem eq_value_of_readWord? {digits : Text} (isNumber : IsNumber digits) {n : Int}
    (reads : readWord? digits = some n) :
    Version.Part.IsDecimal digits ∧ n = Version.Part.value digits := by
  obtain ⟨c, rest, rfl, digit⟩ := isNumber.exists_cons
  have unsigned : c ≠ '-' ∧ c ≠ '+' :=
    ⟨Text.ne_of_isDecimalDigit digit (by decide), Text.ne_of_isDecimalDigit digit (by decide)⟩
  simp only [readWord?] at reads
  split at reads
  · next same => exact absurd (List.cons.inj same).1 unsigned.1
  · next same => exact absurd (List.cons.inj same).1 unsigned.2
  · obtain ⟨found, -⟩ := Option.filter_eq_some_iff.mp reads
    obtain ⟨value, read, rfl⟩ := Option.map_eq_some_iff.mp found
    rw [readNat?] at read
    split at read
    · cases read
    · next plain =>
      obtain rfl := Option.some.inj read
      have ascii : (c :: rest).all Char.isDigit = true := by simpa using plain
      exact ⟨List.all_eq_true.mp ascii, rfl⟩

/-- A text of ASCII digits is read if its number is a signed one of 64 bits. -/
theorem readWord?_of_isDecimal {digits : Text} (filled : digits ≠ [])
    (decimal : Version.Part.IsDecimal digits) :
    readWord? digits =
      if Version.Part.value digits < 2 ^ 63 then some (Version.Part.value digits : Int)
      else none := by
  have isNumber : IsNumber digits := Literal.isNumber_of_isDecimal ⟨filled, decimal⟩
  have number : readNat? digits = some (Version.Part.value digits) := by
    have ascii : digits.all Char.isDigit = true := List.all_eq_true.mpr decimal
    simp [readNat?, filled, ascii, Version.Part.value]
  have word : isWord (Version.Part.value digits : Int) = true ↔
      Version.Part.value digits < 2 ^ 63 := by
    simp only [isWord, Bool.and_eq_true, decide_eq_true_eq]
    omega
  obtain ⟨c, rest, rfl, digit⟩ := isNumber.exists_cons
  have minus : c ≠ '-' := Text.ne_of_isDecimalDigit digit (by decide)
  have plus : c ≠ '+' := Text.ne_of_isDecimalDigit digit (by decide)
  simp [readWord?, minus, plus, number, Option.filter, word]

/-- Adding a natural number to a component changes the component alone. -/
theorem eq_of_raiseLast {digits filling : Text} {before raised : List Text} {increment : Nat}
    (isNumber : IsNumber digits)
    (raises : raiseLast increment filling (digits :: before) = some raised) :
    Version.Part.IsDecimal digits ∧
      raised = Text.ofNat (Version.Part.value digits + increment) :: before := by
  rw [raiseLast] at raises
  split at raises
  · cases raises
  · next sum summed =>
    obtain ⟨n, read, rfl⟩ := Option.map_eq_some_iff.mp summed
    obtain ⟨decimal, rfl⟩ := eq_value_of_readWord? isNumber read
    have positive : ¬ (Version.Part.value digits + increment : Int) < 0 := by omega
    rw [if_neg positive] at raises
    split at raises
    · cases raises
    · obtain rfl := Option.some.inj raises
      exact ⟨decimal, rfl⟩

/-- A natural number can be added to a component exactly if the sum is a signed number of 64
bits. -/
theorem raiseLast_eq {digits : Text} (filled : digits ≠ [])
    (decimal : Version.Part.IsDecimal digits) (increment : Nat) (filling : Text)
    (before : List Text) :
    raiseLast increment filling (digits :: before) =
      if Version.Part.value digits + increment < 2 ^ 63 then
        some (Text.ofNat (Version.Part.value digits + increment) :: before)
      else none := by
  have reads := readWord?_of_isDecimal filled decimal
  have positive : ¬ ((Version.Part.value digits : Int) + increment) < 0 := by omega
  have word : isWord ((Version.Part.value digits : Int) + increment) = true ↔
      Version.Part.value digits + increment < 2 ^ 63 := by
    simp only [isWord, Bool.and_eq_true, decide_eq_true_eq]
    omega
  rw [raiseLast, reads]
  by_cases small : Version.Part.value digits < 2 ^ 63
  · rw [if_pos small, Option.map_some]
    by_cases fits : Version.Part.value digits + increment < 2 ^ 63
    · simp only [word.mpr fits, Bool.not_true, Bool.false_eq_true, if_false, if_neg positive,
        if_pos fits]
      rfl
    · have wide := Bool.eq_false_iff.mpr (mt word.mp fits)
      simp only [wide, Bool.not_false, if_true, if_neg fits]
  · rw [if_neg small, Option.map_none, if_neg (by omega)]

/-- A list has a place for each position in it. -/
theorem exists_eq_append_cons {α : Type} (items : List α) {position : Nat}
    (inside : 0 < position ∧ position ≤ items.length) :
    ∃ before item behind, items = before ++ item :: behind ∧ before.length + 1 = position := by
  have here : position - 1 < items.length := by omega
  refine ⟨items.take (position - 1), items[position - 1], items.drop (position - 1 + 1), ?_, ?_⟩
  · rw [← List.drop_eq_getElem_cons here, List.take_append_drop]
  · rw [List.length_take]
    omega

/-- Raising a component leaves those before it to the carry, and fills up those behind it. -/
theorem adjust_eq {slots : List (Option Text)} {position : Nat} {digits : Text}
    {before behind : List Text}
    (whole : slots.map (·.getD ['0']) = before ++ digits :: behind)
    (count : before.length + 1 = position) (increment : Int) (filling : Text) :
    adjust slots position increment filling =
      (raiseLast increment filling (digits :: before.reverse)).map fun raised =>
        List.intercalate ['.'] (raised.reverse ++ List.replicate behind.length filling) := by
  have taken : (before ++ digits :: behind).take position = before ++ [digits] := by
    rw [List.append_cons, List.take_left' (by simp [count])]
  have left : (before ++ digits :: behind).drop position = behind := by
    rw [List.append_cons, List.drop_left' (by simp [count])]
  have bounds : ¬ (position = 0 ∨ (before ++ digits :: behind).length < position) := by
    rw [List.length_append, List.length_cons]
    omega
  rw [adjust, whole, taken, left, List.reverse_append]
  simp only [decide_eq_true_eq, Bool.or_eq_true, if_neg bounds, Option.map_map]
  rfl

/-- Raising a component keeps those before it, and fills up those behind it. -/
theorem exists_of_adjust {slots : List (Option Text)} {position increment : Nat}
    {filling version : Text} (inside : 0 < position ∧ position ≤ slots.length)
    (areNumbers : ∀ part ∈ slots.map (·.getD ['0']), IsNumber part)
    (adjusts : adjust slots position increment filling = some version) :
    ∃ before digits behind, slots.map (·.getD ['0']) = before ++ digits :: behind ∧
      before.length + 1 = position ∧ Version.Part.IsDecimal digits ∧
      version = List.intercalate ['.'] (before ++
        Text.ofNat (Version.Part.value digits + increment) ::
          List.replicate behind.length filling) := by
  obtain ⟨before, digits, behind, whole, count⟩ :=
    exists_eq_append_cons (slots.map (·.getD ['0'])) (by rwa [List.length_map])
  rw [adjust_eq whole count] at adjusts
  obtain ⟨raised, raises, rfl⟩ := Option.map_eq_some_iff.mp adjusts
  have isNumber := areNumbers digits (by simp [whole])
  obtain ⟨decimal, rfl⟩ := eq_of_raiseLast isNumber raises
  exact ⟨before, digits, behind, whole, count, decimal, by simp⟩

end Component

/-! ## Suffixes -/

namespace Version

theorem isSuffix_nil : IsSuffix [] := ⟨by simp, by simp⟩

theorem isSuffix_lowest : IsSuffix Range.lowest where
  separated := by
    rintro c ⟨⟩
    rfl
  plain _ := Range.not_mem_lowest

theorem IsSuffix.append_lowest {suffix : Text} (isSuffix : IsSuffix suffix) :
    IsSuffix (suffix ++ Range.lowest) := by
  refine ⟨?_, fun sign foreign => ?_⟩
  · cases suffix with
    | nil => exact isSuffix_lowest.separated
    | cons c suffix => exact isSuffix.separated
  · simp [isSuffix.plain sign foreign, isSuffix_lowest.plain sign foreign]

variable {modifier : Modifier}

/-- A modifier is written behind a hyphen, if at all. -/
theorem isSuffix_of_isWellFormed (wellFormed : modifier.IsWellFormed) :
    IsSuffix (modifier.labelSuffix ++ modifier.devSuffix) := by
  refine ⟨?_, fun sign foreign => ?_⟩
  · rw [Modifier.labelSuffix, Modifier.devSuffix]
    split <;> split <;> simp [isSeparator]
  · simp [Modifier.not_mem_labelSuffix foreign wellFormed,
      Modifier.not_mem_devSuffix foreign modifier]

theorem isSuffix_suffix (wellFormed : modifier.IsWellFormed) : IsSuffix modifier.suffix := by
  rw [Modifier.suffix]
  split
  · exact isSuffix_nil
  · exact isSuffix_of_isWellFormed wellFormed

theorem isSuffix_tildeSuffix (wellFormed : modifier.IsWellFormed) :
    IsSuffix (Range.tildeSuffix modifier) := by
  rw [Range.tildeSuffix]
  split
  · exact isSuffix_lowest
  · exact isSuffix_of_isWellFormed wellFormed

end Version

/-! ## Versions at the ends of ranges -/

namespace Literal

section

variable {literal : Literal} (wellFormed : literal.IsWellFormed)

include wellFormed

theorem IsWellFormed.isNumber_of_mem_components :
    ∀ part ∈ literal.canonical.components, IsNumber part :=
  List.forall_mem_cons.mpr ⟨wellFormed.major, wellFormed.isNumber_canonical⟩

omit wellFormed in
theorem components_canonical (literal : Literal) :
    literal.canonical.components =
      literal.components ++ List.replicate (3 - literal.further.length) ['0'] :=
  rfl

omit wellFormed in
theorem padded_eq_intercalate (literal : Literal) :
    literal.padded = List.intercalate ['.'] literal.canonical.components := by
  have whole : literal.padded = literal.major ++ Literal.dotted literal.canonical.further := by
    simp [Literal.padded, Literal.canonical, Literal.dotted, List.flatMap_def]
  rw [whole]
  exact (Literal.intercalate_cons literal.major literal.canonical.further).symm

/-- The slots of a literal, filled up with zeros, are its canonical components. -/
theorem IsWellFormed.map_slots :
    literal.slots.map (·.getD ['0']) = literal.canonical.components := by
  have length : literal.canonical.components.length = 4 :=
    congrArg Nat.succ wellFormed.length_canonical
  refine List.ext_getElem (by simp [slots, length]) fun index inside inside' => ?_
  simp only [slots, List.getElem_map, List.getElem_range, components_canonical, List.getElem_append]
  split
  · next given => rw [List.getElem?_eq_getElem given, Option.getD_some]
  · next missing => rw [List.getElem?_eq_none (Nat.le_of_not_lt missing)]; simp

end

end Literal

/-- What is true of the components before a raised one, of that one and of a zero is true of all
components of a raised version. -/
theorem forall_mem_raised {property : Text → Prop} {before : List Text} {raised : Text}
    (kept : ∀ part ∈ before, property part) (changed : property raised) (zero : property ['0'])
    (count : ℕ) : ∀ part ∈ before ++ raised :: List.replicate count ['0'], property part := by
  rw [List.append_cons]
  apply Literal.forall_mem_append_zeros _ zero
  exact List.forall_mem_append.mpr ⟨kept, List.forall_mem_singleton.mpr changed⟩

/-- A version that is made of the components of a literal, in some spelling, and of a suffix. -/
def Literal.Respells (literal : Literal) (suffix version : Text) : Prop :=
  ∃ numeral : Numeral, numeral.text = version ∧ numeral.suffix = suffix ∧
    numeral.components.flatMap runMarks = literal.canonical.components.flatMap runMarks

section

variable {literal : Literal} (wellFormed : literal.IsWellFormed) {suffix : Text}

include wellFormed

theorem Literal.IsWellFormed.respells (isSuffix : Version.IsSuffix suffix) :
    literal.Respells suffix (literal.padded ++ suffix) := by
  refine ⟨⟨literal.canonical.components, suffix, List.cons_ne_nil _ _,
    wellFormed.isNumber_of_mem_components, isSuffix⟩, ?_, rfl, rfl⟩
  rw [literal.padded_eq_intercalate]
  rfl

namespace Range

variable {term version : Text} {position : Nat}

/-- A raised version is made of components, of which one is raised. -/
theorem exists_numeral_of_raise (isSuffix : Version.IsSuffix suffix) (increment : Nat)
    (inside : 0 < position ∧ position ≤ 4)
    (raises : raise term literal.slots position increment = .ok version) :
    ∃ numeral : Numeral, numeral.text = version ++ suffix ∧ numeral.suffix = suffix ∧
      ∃ before digits behind, literal.canonical.components = before ++ digits :: behind ∧
        before.length + 1 = position ∧ Version.Part.IsDecimal digits ∧ digits ≠ [] ∧
        numeral.components = before ++ Text.ofNat (Version.Part.value digits + increment) ::
          List.replicate behind.length ['0'] := by
  have adjusts : Component.adjust literal.slots position increment ['0'] = some version := by
    rw [raise] at raises
    split at raises
    · next adjusts => exact adjusts.trans (congrArg some (Except.ok.inj raises))
    · cases raises
  have areNumbers := wellFormed.isNumber_of_mem_components
  have slots := wellFormed.map_slots
  obtain ⟨before, digits, behind, components, count, decimal, rfl⟩ :=
    Component.exists_of_adjust (by simpa [Literal.slots] using inside) (slots ▸ areNumbers) adjusts
  rw [slots] at components
  have raised : ∀ part ∈ before ++ Text.ofNat (Version.Part.value digits + increment) ::
      List.replicate behind.length ['0'], IsNumber part := by
    rw [components] at areNumbers
    obtain ⟨areNumbers, -⟩ := List.forall_mem_append.mp areNumbers
    exact forall_mem_raised areNumbers
      (Literal.isNumber_of_isDecimal ⟨Nat.toDigits_ne_nil, Version.Part.isDecimal_ofNat _⟩)
      Literal.isNumber_zero _
  have filled : digits ≠ [] := (areNumbers digits (by simp [components])).filled
  exact ⟨⟨_, suffix, by simp, raised, isSuffix⟩, rfl, rfl, before, digits, behind, components,
    count, decimal, filled, rfl⟩

/-- The last component of a literal is spelled anew where it is raised by nothing. -/
theorem respells_of_raise (isSuffix : Version.IsSuffix suffix)
    (raises : raise term literal.slots literal.components.length 0 = .ok version) :
    literal.Respells suffix (version ++ suffix) := by
  have inside : 0 < literal.components.length ∧ literal.components.length ≤ 4 :=
    ⟨Nat.succ_pos _, Nat.succ_le_succ wellFormed.short⟩
  obtain ⟨numeral, text, kept, before, digits, behind, components, count, decimal, filled,
    raised⟩ := exists_numeral_of_raise wellFormed isSuffix 0 inside raises
  refine ⟨numeral, text, kept, ?_⟩
  -- Behind the last component that is written, the canonical ones are zeros already.
  have zeros : behind = List.replicate behind.length ['0'] := by
    have missing := congrArg (List.drop literal.components.length) components
    rw [Literal.components_canonical, List.drop_left, List.append_cons,
      List.drop_left' (by simp [count])] at missing
    rw [← missing, List.length_replicate]
  rw [raised, components, ← zeros]
  simp [Version.runMarks_of_isDecimal decimal filled,
    Version.runMarks_of_isDecimal (Version.Part.isDecimal_ofNat _) Nat.toDigits_ne_nil,
    Version.Part.value_ofNat]

/-- The bound above a literal is a version that stands above it, in any spelling and with any
suffix. -/
theorem exists_numeral_of_below {bound : Bound} (inside : 0 < position ∧ position ≤ 4)
    (reads : below term literal.slots position = .ok bound) :
    ∃ numeral : Numeral, bound = ⟨.lt, numeral.text⟩ ∧
      ∀ {suffix version}, literal.Respells suffix version →
        standing version < standing numeral.text := by
  obtain ⟨raised, raises, rfl⟩ := exists_of_map_eq_ok reads
  obtain ⟨numeral, text, -, before, digits, behind, components, -, decimal, filled, raised⟩ :=
    exists_numeral_of_raise wellFormed Version.isSuffix_lowest 1 inside raises
  refine ⟨numeral, by rw [text], fun respells => ?_⟩
  obtain ⟨numeral', rfl, -, same⟩ := respells
  have marks : numeral'.components.flatMap runMarks = before.flatMap runMarks ++
      .number (Version.Part.value digits) :: behind.flatMap runMarks := by
    rw [same, components, List.flatMap_append, List.flatMap_cons,
      Version.runMarks_of_isDecimal decimal filled, List.singleton_append]
  have marks' : numeral.components.flatMap runMarks = before.flatMap runMarks ++
      .number (Version.Part.value digits + 1) ::
        (List.replicate behind.length ['0']).flatMap runMarks := by
    rw [raised, List.flatMap_append, List.flatMap_cons,
      Version.runMarks_of_isDecimal (Version.Part.isDecimal_ofNat _) Nat.toDigits_ne_nil,
      Version.Part.value_ofNat, List.singleton_append]
  exact Numeral.standing_lt_of_raised marks marks' (Nat.lt_succ_self _)

end Range

end

end VersionRanges

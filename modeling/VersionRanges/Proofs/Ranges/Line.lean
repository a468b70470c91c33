/-
# The top of a line

The versions that begin with the same numbers make a line, and the development branch of the line is
named by the numbers with a component left open. It is read as those numbers and, in each place that
they leave free, the number that stands for a component left open, whether it stands for itself or
is the name of a branch. That version belongs to the line. It stands above all others whose numbers
stay below that number, and it begins like them with the numbers and a dot.
-/
import VersionRanges.Proofs.Ranges.Numbers

namespace VersionRanges

open Range (IsSpelled IsWritten openTail)
open Version (IsNumbered NumericForm Part.value)

/-! ## The greatest version of a line -/

namespace Version.NumericForm

variable {components : List Text} (spelled : IsSpelled components)

/-- The development version at the top of a line. -/
def top : NumericForm where
  components := components ++ List.replicate (4 - components.length) Branch.openNumber
  labelled := none
  isDev := true
  length_components := by
    rw [List.length_append, List.length_replicate, Nat.add_sub_cancel' spelled.short]
  areDecimal := by
    refine List.forall_mem_append.mpr ⟨spelled.areDecimal, fun part listed => ?_⟩
    rw [List.eq_of_mem_replicate listed]
    exact ⟨by decide, List.all_eq_true.mp (by decide)⟩
  isTail := by simp

theorem text_top : (top spelled).text =
    List.intercalate ['.']
      (components ++ List.replicate (4 - components.length) Branch.openNumber) ++
        "-dev".toList := rfl

theorem numbers_top : (top spelled).numbers =
    components.map Part.value ++ List.replicate (4 - components.length) 9999999 := by
  have value : Part.value Branch.openNumber = 9999999 := by decide
  simp [numbers, top, value]

section

variable (short : components.length ≤ 3)

include short

/-- The top of a line begins with the numbers of the line and a dot. -/
theorem isPrefix_text_top : List.intercalate ['.'] components ++ ['.'] <+: (top spelled).text := by
  obtain ⟨major, further, rfl⟩ := List.exists_cons_of_ne_nil spelled.filled
  obtain ⟨count, open'⟩ := Nat.exists_eq_add_of_lt (Nat.sub_pos_of_lt (Nat.lt_succ_of_le short))
  rw [text_top, open', Nat.zero_add, List.replicate_succ, List.cons_append,
    Literal.intercalate_cons, Literal.intercalate_cons]
  refine ⟨Branch.openNumber ++ Literal.dotted (List.replicate count Branch.openNumber) ++
    "-dev".toList, ?_⟩
  simp [Literal.dotted]

/-- Numbers that stay below the one for a component left open are below those of the top. -/
theorem numbers_lt_top {form : NumericForm}
    (begins : form.numbers.take components.length = components.map Part.value)
    (below : ∀ n ∈ form.numbers.drop components.length, n < 9999999) :
    form.numbers < (top spelled).numbers := by
  have open' : 0 < 4 - components.length := Nat.sub_pos_of_lt (Nat.lt_succ_of_le short)
  have length : (form.numbers.drop components.length).length = 4 - components.length := by
    rw [List.length_drop, form.length_numbers]
  obtain ⟨n, rest, free⟩ := List.exists_cons_of_length_pos (length ▸ open')
  obtain ⟨count, more⟩ := Nat.exists_eq_add_of_lt open'
  -- Both begin with the numbers of the line, and the first number behind them decides.
  rw [← List.take_append_drop components.length form.numbers, begins, free, numbers_top, more,
    Nat.zero_add, List.replicate_succ]
  apply List.append_left_lt
  exact List.Lex.rel (below n (free ▸ List.mem_cons_self))

end

end Version.NumericForm

/-! ## Names of a line -/

namespace Branch

/-- Components left open are read as such to the end. -/
theorem readComponents_openTail {signs : List Char}
    (wild : ∀ sign ∈ signs, isWildcard sign = true) {limit : ℕ} (fits : signs.length ≤ limit) :
    readComponents limit (openTail signs) = (List.replicate signs.length openNumber, []) := by
  induction signs generalizing limit with
  | nil => cases limit <;> rfl
  | cons sign signs ih =>
      obtain ⟨first, further⟩ := List.forall_mem_cons.mp wild
      obtain ⟨limit, rfl⟩ := Nat.exists_eq_add_of_le' (Nat.le_trans (Nat.le_add_left 1 _) fits)
      change readComponents (limit + 1) ('.' :: sign :: openTail signs) = _
      rw [readComponents, if_pos first, ih further (Nat.le_of_succ_le_succ fits)]
      rfl

section

variable {components : List Text} (spelled : IsSpelled components)

/-- The numbers of a line name its top, alone and with components left open behind them. -/
theorem normalize_append_openTail {signs : List Char}
    (wild : ∀ sign ∈ signs, isWildcard sign = true)
    (fits : components.length + signs.length ≤ 4) :
    normalize (List.intercalate ['.'] components ++ openTail signs) =
      .ok (NumericForm.top spelled).text := by
  have numbered := Range.isNumbered_append_openTail spelled.isNumbered wild
  have solid := numbered.solid
  rw [NumericForm.text_top]
  obtain ⟨major, further, rfl⟩ := List.exists_cons_of_ne_nil spelled.filled
  obtain ⟨isNumber, areNumbers⟩ := List.forall_mem_cons.mp spelled.areNumbers
  rw [List.length_cons] at fits
  have opened : readComponents (3 - further.length) (openTail signs) =
      (List.replicate signs.length openNumber, []) := readComponents_openTail wild (by omega)
  have named := numeric?_append isNumber areNumbers (by omega) (Range.head?_openTail signs) opened
  -- Components that a sign leaves open and components that are missing come to the same.
  have missing : List.replicate signs.length openNumber ++
      List.replicate (3 - (further ++ List.replicate signs.length openNumber).length) openNumber =
        List.replicate (4 - (major :: further).length) openNumber := by
    rw [List.replicate_append_replicate, List.length_append, List.length_replicate,
      List.length_cons]
    congr 1
    omega
  rw [List.append_assoc further, missing] at named
  rw [Literal.intercalate_cons, List.append_assoc] at solid ⊢
  rw [List.cons_append, Literal.intercalate_cons]
  obtain ⟨c, digits, rfl, digit⟩ := isNumber.exists_cons
  rw [List.cons_append] at solid named ⊢
  rw [normalize_of_isDecimalDigit digit solid, named]
  rfl

/-- As a version, the development branch of a line is read by its name. -/
theorem normalize_openTail_dev {signs : List Char} (filled : signs ≠ [])
    (wild : ∀ sign ∈ signs, isWildcard sign = true)
    (fits : components.length + signs.length ≤ 4) :
    Version.normalize (List.intercalate ['.'] components ++ openTail signs ++ "-dev".toList) =
      .ok (NumericForm.top spelled).text := by
  have named := Range.isNumbered_append_openTail spelled.isNumbered wild
  have numbered :
      IsNumbered (List.intercalate ['.'] components ++ openTail signs ++ "-dev".toList) :=
    named.append fun _ foreign => Modifier.not_mem_of_plain foreign (by decide)
  obtain ⟨sign, others, rfl⟩ := List.exists_cons_of_ne_nil filled
  have inside : sign ∈
      List.intercalate ['.'] components ++ openTail (sign :: others) ++ "-dev".toList := by
    simp [openTail]
  rw [Version.normalize_eq_ok_iff, numbered.core_eq_self,
    numbered.normalForm?_of_isWildcard (wild sign List.mem_cons_self) inside, Version.ofDevName?,
    Version.devName?_append_dev (named.plain '\n' (by decide)), Option.bind_some,
    normalize_append_openTail spelled wild fits]
  rfl

end

/-! ## The prefix of a line -/

theorem readNumbers_append {digits : Text}
    (areDigits : ∀ c ∈ digits, Text.isDecimalDigit c = true) (rest : Text) :
    readNumbers (digits ++ rest) = Prod.map (digits ++ ·) id (readNumbers rest) := by
  induction digits with
  | nil => rfl
  | cons c digits ih =>
      obtain ⟨digit, further⟩ := List.forall_mem_cons.mp areDigits
      rw [List.cons_append, readNumbers, if_pos (by simp [digit]), ih further]
      rfl

/-- Numbers with a dot before each of them are read on. -/
theorem readNumbers_dotted {parts : List Text} (areNumbers : ∀ part ∈ parts, Literal.IsNumber part)
    (rest : Text) :
    readNumbers (Literal.dotted parts ++ rest) =
      Prod.map (Literal.dotted parts ++ ·) id (readNumbers rest) := by
  induction parts with
  | nil => rfl
  | cons part parts ih =>
      obtain ⟨isNumber, further⟩ := List.forall_mem_cons.mp areNumbers
      have number := readNumbers_append isNumber.digits (Literal.dotted parts ++ rest)
      obtain ⟨c, digits, rfl, digit⟩ := isNumber.exists_cons
      rw [Literal.dotted_cons, readNumbers, if_pos (by simp [digit]), number, ih further]
      simp only [Literal.dotted_cons, Prod.map_map]
      rfl

/-- The prefix of the development branch of a line is the numbers of the line and a dot. -/
theorem numericPrefix?_line {components : List Text} (spelled : IsSpelled components) :
    numericPrefix? (List.intercalate ['.'] components ++ ".x-dev".toList) =
      some (List.intercalate ['.'] components ++ ['.']) := by
  obtain ⟨major, further, rfl⟩ := List.exists_cons_of_ne_nil spelled.filled
  obtain ⟨isNumber, areNumbers⟩ := List.forall_mem_cons.mp spelled.areNumbers
  have ends : readNumbers ".x-dev".toList = ([], ".x-dev".toList) := by decide
  have ending : Text.spells "-dev".toList
      (((Text.keyword? ".x".toList ".x-dev".toList).map Prod.snd).getD ".x-dev".toList) = true := by
    decide
  have numbers := readNumbers_append isNumber.digits (Literal.dotted further ++ ".x-dev".toList)
  rw [readNumbers_dotted areNumbers, ends] at numbers
  obtain ⟨c, digits, rfl, digit⟩ := isNumber.exists_cons
  rw [Literal.intercalate_cons, List.append_assoc, numericPrefix?, numbers]
  simp only [Prod.map_apply, List.append_nil, List.cons_append, id_eq, digit, ending, Bool.and_self,
    if_true]

/-- The development branch of a line tops the line. It belongs to it and is above every version of
it in numeric normal form whose further numbers stay below the one for a component left open. The
numbers of the line name that version, with a component left open behind them and without. They are
the prefix of the branch, and with a dot behind them they begin its normal form. -/
theorem tops_line {components : List Text} (written : IsWritten components)
    (short : components.length ≤ 3) :
    let line := List.intercalate ['.'] components
    ∃ top, Version.normalize (line ++ ".x-dev".toList) = .ok top ∧
      normalize line = .ok top ∧ normalize (line ++ ".x".toList) = .ok top ∧
      numericPrefix? (line ++ ".x-dev".toList) = some (line ++ ['.']) ∧ line ++ ['.'] <+: top ∧
      Selection.satisfies (line ++ ".x-dev".toList) (line ++ ".*".toList) = true ∧
      ∀ (version : Text) (form : NumericForm), Version.normalize version = .ok form.text →
        Selection.satisfies version (line ++ ".*".toList) = true →
        (∀ n ∈ form.numbers.drop components.length, n < 9999999) →
        Version.compare form.text top = .lt := by
  intro line
  have spelled := written.toIsSpelled
  have wild : ∀ sign ∈ ['x'], isWildcard sign = true := by simp [isWildcard]
  have wild' : ∀ sign ∈ ['*'], isWildcard sign = true := by simp [isWildcard]
  have fits : components.length + ['x'].length ≤ 4 := Nat.succ_le_succ short
  have reads :
      Version.normalize (line ++ ".x-dev".toList) = .ok (NumericForm.top spelled).text := by
    have named := normalize_openTail_dev spelled (List.cons_ne_nil 'x' []) wild fits
    rwa [List.append_assoc] at named
  have alone : normalize line = .ok (NumericForm.top spelled).text := by
    have named :=
      normalize_append_openTail spelled (List.forall_mem_nil _) (Nat.le_succ_of_le short)
    rwa [Range.openTail, List.flatMap_nil, List.append_nil] at named
  obtain ⟨lone, bounds, range, spans⟩ :=
    Range.exists_readBounds_openTail written short (List.cons_ne_nil '*' []) wild'
  have belongs {version : Text} {form : NumericForm}
      (readable : Version.normalize version = .ok form.text) :
      Selection.satisfies version (line ++ ".*".toList) = true ↔
        form.numbers.take components.length = components.map Part.value := by
    rw [← spans form, ← lone.satisfies_eq range readable]
    rfl
  have own : (NumericForm.top spelled).numbers.take components.length =
      components.map Part.value := by
    rw [NumericForm.numbers_top, List.take_left' (List.length_map _)]
  refine ⟨_, reads, alone, normalize_append_openTail spelled wild fits, numericPrefix?_line spelled,
    NumericForm.isPrefix_text_top spelled short, (belongs reads).mpr own, ?_⟩
  intro version form readable satisfied below
  have less := NumericForm.numbers_lt_top spelled short ((belongs readable).mp satisfied) below
  exact NumericForm.compare_of_numbers_lt less

/-- A patch in a line of two numbers, with zeros in front of one of them on either side. -/
theorem tops_line_patch :
    Version.normalize "02.1.x-dev".toList = .ok "02.1.9999999.9999999-dev".toList ∧
      numericPrefix? "02.1.x-dev".toList = some "02.1.".toList ∧
      Version.compare "2.01.9999998.0-patch3".toList "02.1.9999999.9999999-dev".toList = .lt := by
  let patch : NumericForm := ⟨["2".toList, "01".toList, "9999998".toList, "0".toList],
    some (.patch, "3".toList), false, rfl, by decide, by decide⟩
  have written : IsWritten ["02".toList, "1".toList] := by decide
  have named : Version.normalize "02.1.x-dev".toList = .ok "02.1.9999999.9999999-dev".toList := by
    decide
  have readable : Version.normalize "2.01.9999998pl3".toList = .ok patch.text := by decide
  have satisfied : Selection.satisfies "2.01.9999998pl3".toList "02.1.*".toList = true := by
    decide +kernel
  obtain ⟨top, reads, -, -, numbers, -, -, above⟩ := tops_line written (by decide)
  obtain rfl := Except.ok.inj (reads.symm.trans named)
  exact ⟨named, numbers, above _ patch readable satisfied (by decide)⟩

end Branch

end VersionRanges

/-
# Literals that are read back

The components of a literal that a reader finds are runs of decimal digits, at most four of them.
Its normal form has all four, and is read back as a literal with the same normal form: the numbers
as they were spelled, zeros for those that were missing, and the canonical modifier.
-/
import VersionRanges.Proofs.Normal.Modifier

namespace VersionRanges.Literal

/-! ## Numbers between dots -/

/-- The spelling of a component: decimal digits, at least one. -/
structure IsNumber (digits : Text) : Prop where
  filled : digits ≠ []
  digits : ∀ c ∈ digits, Text.isDecimalDigit c = true

theorem isNumber_zero : IsNumber ['0'] := ⟨by simp, List.all_eq_true.mp (by decide)⟩

/-- What is true of components and of a zero is true of the components with zeros behind them. -/
theorem forall_mem_append_zeros {property : Text → Prop} {parts : List Text}
    (kept : ∀ part ∈ parts, property part) (zero : property ['0']) (count : ℕ) :
    ∀ part ∈ parts ++ List.replicate count ['0'], property part := by
  refine List.forall_mem_append.mpr ⟨kept, fun part inside => ?_⟩
  rw [List.eq_of_mem_replicate inside]
  exact zero

theorem append_of_readDigits {text digits rest : Text} (split : readDigits text = (digits, rest)) :
    text = digits ++ rest := by
  obtain ⟨rfl, rfl⟩ := Prod.mk.inj split
  exact List.takeWhile_append_dropWhile.symm

theorem isNumber_of_readDigits {text digits rest : Text} (split : readDigits text = (digits, rest))
    (filled : digits ≠ []) : IsNumber digits := by
  obtain ⟨rfl, -⟩ := Prod.mk.inj split
  exact ⟨filled, fun c inside => List.all_eq_true.mp List.all_takeWhile c inside⟩

theorem IsNumber.exists_cons {digits : Text} (isNumber : IsNumber digits) :
    ∃ c rest, digits = c :: rest ∧ Text.isDecimalDigit c = true := by
  obtain ⟨c, rest, rfl⟩ := List.exists_cons_of_ne_nil isNumber.filled
  exact ⟨c, rest, rfl, isNumber.digits c List.mem_cons_self⟩

theorem IsNumber.not_mem {digits : Text} (isNumber : IsNumber digits) {sign : Char}
    (other : Text.isDecimalDigit sign = false) : sign ∉ digits :=
  fun inside => Bool.false_ne_true (other.symm.trans (isNumber.digits sign inside))

/-- No digits are read from a text that begins with none. -/
theorem readDigits_eq_nil {rest : Text}
    (stops : ∀ c, rest.head? = some c → Text.isDecimalDigit c = false) :
    readDigits rest = ([], rest) := by
  cases rest with
  | nil => rfl
  | cons c rest =>
      have stop : ¬ Text.isDecimalDigit c = true := by simp [stops c rfl]
      rw [readDigits, List.takeWhile_cons_of_neg stop, List.dropWhile_cons_of_neg stop]

/-- Digits are read up to the first character that is none. -/
theorem readDigits_append {digits rest : Text} (isNumber : IsNumber digits)
    (stops : ∀ c, rest.head? = some c → Text.isDecimalDigit c = false) :
    readDigits (digits ++ rest) = (digits, rest) := by
  obtain ⟨taken, left⟩ := Prod.mk.inj (readDigits_eq_nil stops)
  rw [readDigits, List.takeWhile_append_of_pos isNumber.digits,
    List.dropWhile_append_of_pos isNumber.digits, taken, left, List.append_nil]

/-- Components with a dot before each of them. -/
def dotted (parts : List Text) : Text := parts.flatMap ('.' :: ·)

theorem dotted_cons (part : Text) (parts : List Text) (rest : Text) :
    dotted (part :: parts) ++ rest = '.' :: (part ++ (dotted parts ++ rest)) := by
  simp [dotted]

theorem not_mem_dotted {parts : List Text} (areNumbers : ∀ part ∈ parts, IsNumber part)
    {sign : Char} (other : Text.isDecimalDigit sign = false) (dot : sign ≠ '.') :
    sign ∉ dotted parts := by
  simp only [dotted, List.mem_flatMap, List.mem_cons, not_exists, not_and, not_or]
  exact fun part inside => ⟨dot, (areNumbers part inside).not_mem other⟩

/-- No digit stands behind a component that has a dot or a modifier behind it. -/
theorem head?_dotted_append (parts : List Text) {rest : Text}
    (stops : ∀ c, rest.head? = some c → Text.isDecimalDigit c = false) :
    ∀ c, (dotted parts ++ rest).head? = some c → Text.isDecimalDigit c = false := by
  cases parts with
  | nil => exact stops
  | cons part parts =>
      rw [dotted_cons]
      rintro c ⟨⟩
      decide

/-- What stands last in numbers between dots is a digit. -/
theorem getLast?_append_dotted {first : Text} {parts : List Text} (isNumber : IsNumber first)
    (areNumbers : ∀ part ∈ parts, IsNumber part) :
    ∀ c, (first ++ dotted parts).getLast? = some c → Text.isDecimalDigit c = true := by
  induction parts generalizing first with
  | nil =>
      intro c ending
      rw [dotted, List.flatMap_nil, List.append_nil] at ending
      exact isNumber.digits c (List.mem_of_getLast? ending)
  | cons part parts ih =>
      obtain ⟨isNumber', further⟩ := List.forall_mem_cons.mp areNumbers
      have behind : part ++ dotted parts ≠ [] := by simp [isNumber'.filled]
      intro c ending
      rw [← List.append_nil (dotted (part :: parts)), dotted_cons, List.append_nil,
        List.append_cons, List.getLast?_append_of_ne_nil _ behind] at ending
      exact ih isNumber' further c ending

/-- Components are read one after the other, and those that are asked for beyond them are looked for
in the rest. -/
theorem readFurther_append {parts : List Text} {rest : Text}
    (areNumbers : ∀ part ∈ parts, IsNumber part)
    (stops : ∀ c, rest.head? = some c → Text.isDecimalDigit c = false) (limit : ℕ) :
    readFurther (parts.length + limit) (dotted parts ++ rest) =
      Prod.map (parts ++ ·) id (readFurther limit rest) := by
  induction parts with
  | nil =>
      rw [List.length_nil, Nat.zero_add]
      rfl
  | cons part parts ih =>
      obtain ⟨isNumber, further⟩ := List.forall_mem_cons.mp areNumbers
      obtain ⟨c, digits, rfl⟩ := List.exists_cons_of_ne_nil isNumber.filled
      rw [dotted_cons, List.length_cons, Nat.succ_add, readFurther,
        readDigits_append isNumber (head?_dotted_append parts stops)]
      simp only [ih further, Prod.map_map]
      rfl

theorem isNumber_of_mem_readFurther (limit : Nat) (text : Text) :
    (readFurther limit text).1.length ≤ limit ∧
      ∀ part ∈ (readFurther limit text).1, IsNumber part := by
  induction limit, text using readFurther.induct with
  | case1 text => simp [readFurther]
  | case2 limit rest after empty => simp [readFurther, empty]
  | case3 limit rest digits after filled split ih =>
      obtain ⟨d, digits, rfl⟩ := List.exists_cons_of_ne_nil filled
      have isNumber := isNumber_of_readDigits split (List.cons_ne_nil d digits)
      simp only [readFurther, split, Prod.map_fst, List.length_cons, List.forall_mem_cons]
      exact ⟨Nat.succ_le_succ ih.1, isNumber, ih.2⟩
  | case4 limit text undotted =>
      rw [readFurther]
      · simp
      · exact undotted

/-! ## Reading and writing -/

/-- A literal as readers find it. -/
structure IsWellFormed (literal : Literal) : Prop where
  major : IsNumber literal.major
  further : ∀ part ∈ literal.further, IsNumber part
  short : literal.further.length ≤ 3
  modifier : literal.modifier.IsWellFormed

theorem isWellFormed_of_read? {text rest : Text} {literal : Literal}
    (reads : read? text = some (literal, rest)) : literal.IsWellFormed := by
  rw [read?] at reads
  split at reads
  · cases reads
  · next major afterMajor filled split =>
    obtain rfl := congrArg Prod.fst (Option.some.inj reads)
    have further := isNumber_of_mem_readFurther 3 afterMajor
    exact ⟨isNumber_of_readDigits split filled, further.2, further.1,
      Modifier.isWellFormed_read _⟩

/-- A version that is a literal is read as one to its end, and its first component is short. -/
theorem read?_of_ofVersion? {text : Text} {literal : Literal}
    (reads : ofVersion? text = some literal) :
    read? text = some (literal, []) ∧ literal.major.length ≤ 5 := by
  rw [ofVersion?] at reads
  split at reads
  · next found read =>
    split at reads
    · next short =>
      obtain rfl := Option.some.inj reads
      exact ⟨read, short⟩
    · cases reads
  · cases reads

theorem isWellFormed_of_ofVersion? {text : Text} {literal : Literal}
    (reads : ofVersion? text = some literal) : literal.IsWellFormed :=
  isWellFormed_of_read? (read?_of_ofVersion? reads).1

/-- The literal that the normal form of a literal is read as. -/
def canonical (literal : Literal) : Literal where
  major := literal.major
  further := literal.further ++ List.replicate (3 - literal.further.length) ['0']
  modifier := literal.modifier.canonical

theorem normalForm_eq (literal : Literal) :
    literal.normalForm =
      literal.major ++ (dotted literal.canonical.further ++ literal.modifier.suffix) := by
  simp [normalForm, padded, canonical, dotted, List.flatMap_def]

/-- A digit is no mark of a version. -/
theorem dropMark_cons {c : Char} (digit : Text.isDecimalDigit c = true) (rest : Text) :
    dropMark (c :: rest) = c :: rest := by
  have other : ¬ (c == 'v' || c == 'V') = true := by
    intro mark
    simp only [Bool.or_eq_true, beq_iff_eq] at mark
    rcases mark with rfl | rfl <;> exact absurd digit (by decide)
  rw [dropMark, Modifier.dropOne, if_neg other]

/-- A literal is read back from its components and what stands behind them, if no further component
can be read there. -/
theorem read?_append_dotted {major rest : Text} {further : List Text} (isNumber : IsNumber major)
    (areNumbers : ∀ part ∈ further, IsNumber part) (short : further.length ≤ 3)
    (stops : ∀ c, rest.head? = some c → Text.isDecimalDigit c = false)
    (ends : readFurther (3 - further.length) rest = ([], rest)) :
    read? (major ++ (dotted further ++ rest)) =
      some (⟨major, further, (Modifier.read rest).1⟩, (Modifier.read rest).2) := by
  obtain ⟨c, digits, rfl, digit⟩ := isNumber.exists_cons
  have number := readDigits_append isNumber (head?_dotted_append further stops)
  have components := readFurther_append areNumbers stops (3 - further.length)
  rw [Nat.add_sub_cancel' short, ends] at components
  rw [read?, List.cons_append, dropMark_cons digit, ← List.cons_append, number]
  simp [components]

section

variable {literal : Literal}

theorem IsWellFormed.length_canonical (wellFormed : literal.IsWellFormed) :
    literal.canonical.further.length = 3 := by
  have short := wellFormed.short
  simp only [canonical, List.length_append, List.length_replicate]
  omega

theorem IsWellFormed.isNumber_canonical (wellFormed : literal.IsWellFormed) :
    ∀ part ∈ literal.canonical.further, IsNumber part :=
  forall_mem_append_zeros wellFormed.further isNumber_zero _

/-- A normal form begins with a digit. -/
theorem IsWellFormed.exists_normalForm_cons (wellFormed : literal.IsWellFormed) :
    ∃ c rest, literal.normalForm = c :: rest ∧ Text.isDecimalDigit c = true := by
  obtain ⟨c, digits, spelled, digit⟩ := wellFormed.major.exists_cons
  refine ⟨c, digits ++ (dotted literal.canonical.further ++ literal.modifier.suffix), ?_, digit⟩
  rw [normalForm_eq, spelled, List.cons_append]

/-- A normal form is read back to its end. -/
theorem IsWellFormed.read?_normalForm (wellFormed : literal.IsWellFormed) :
    read? literal.normalForm = some (literal.canonical, []) := by
  have full := wellFormed.length_canonical
  have reads := read?_append_dotted wellFormed.major wellFormed.isNumber_canonical full.le
    wellFormed.modifier.suffix_stops (by rw [full]; rfl)
  rw [normalForm_eq, reads, wellFormed.modifier.read_suffix]
  rfl

/-- Reading a normal form back and writing it again changes nothing. -/
theorem IsWellFormed.normalForm_canonical (wellFormed : literal.IsWellFormed) :
    literal.canonical.normalForm = literal.normalForm := by
  have full : literal.canonical.canonical.further = literal.canonical.further := by
    rw [canonical, wellFormed.length_canonical]
    exact List.append_nil _
  rw [normalForm_eq, normalForm_eq, full]
  change _ ++ (_ ++ literal.modifier.canonical.suffix) = _
  rw [wellFormed.modifier.suffix_canonical]
  rfl

/-- The normal form of a literal with a short first component is a version by itself. -/
theorem IsWellFormed.ofVersion?_normalForm (wellFormed : literal.IsWellFormed) :
    ofVersion? literal.normalForm =
      if literal.major.length ≤ 5 then some literal.canonical else none := by
  rw [ofVersion?, wellFormed.read?_normalForm]
  rfl

theorem IsWellFormed.normalForm_of_ofVersion? {found : Literal} (wellFormed : literal.IsWellFormed)
    (reads : ofVersion? literal.normalForm = some found) :
    found.normalForm = literal.normalForm := by
  rw [wellFormed.ofVersion?_normalForm] at reads
  split at reads
  · obtain rfl := Option.some.inj reads
    exact wellFormed.normalForm_canonical
  · cases reads

theorem IsWellFormed.not_mem_normalForm {sign : Char} (wellFormed : literal.IsWellFormed)
    (foreign : Text.IsForeign sign) : sign ∉ literal.normalForm := by
  have dot : sign ≠ '.' := fun same => foreign.other (by simp [same])
  have further := not_mem_dotted wellFormed.isNumber_canonical foreign.digit dot
  rw [normalForm_eq]
  simp [wellFormed.major.not_mem foreign.digit, further,
    Modifier.not_mem_suffix foreign wellFormed.modifier]

end

end VersionRanges.Literal

/-
# Ranges in two spellings

Two spellings of a range say the same unless they disagree about one of three things: the zeros that
a caret counts, the letter in front of a range with components left open, and the zeros at which
such a range has no bound below. Where they disagree, there is a version that only one of them
takes. For a caret it is the first version above the narrower range, and for a bound at the zeros it
is a date, which can stand below them.
-/
import VersionRanges.Proofs.Ranges.Pins
import VersionRanges.Proofs.Ranges.Spelling

namespace VersionRanges

open Version (IsFloor NumericForm paddedNumbers Part.value)
open Range (IsSpelled lowest below)

/-! ## Capital letters -/

/-- No version written with numbers ends in a sign for a component left open. -/
theorem Version.IsNumbered.normalize_ne_ok_of_isWildcard {text : Text}
    (numbered : Version.IsNumbered text) {c : Char} (wild : Branch.isWildcard c = true)
    (ending : text.getLast? = some c) (normal : Text) : Version.normalize text ≠ .ok normal := by
  obtain ⟨-, -, -, letter⟩ := Branch.stranger_of_isWildcard wild
  have inside := List.mem_of_getLast? ending
  have unnamed : Version.devName? text = none := by
    rw [Option.eq_none_iff_forall_ne_some]
    intro name named
    obtain ⟨v, e, d, before, reversed, spelled⟩ := Version.exists_devName?_iff.mp ⟨name, named⟩
    rw [← List.head?_reverse, reversed] at ending
    obtain rfl := Option.some.inj ending
    exact letter (spelled ▸ List.mem_map_of_mem (by simp))
  rw [ne_eq, Version.normalize_eq_ok_iff, numbered.core_eq_self,
    numbered.normalForm?_of_isWildcard wild inside, Version.ofDevName?, unnamed]
  rintro ⟨⟩

namespace Spelling

open Constraint

variable {spelling : Spelling}

section

variable {signs : List Char} (short : spelling.components.length ≤ 3) (filled : signs ≠ [])
  (wild : ∀ sign ∈ signs, Branch.isWildcard sign = true)

/-- A term with components left open ends in the sign for the last one. -/
theorem getLast?_append_openTail :
    (spelling.text ++ Range.openTail signs).getLast? = some (signs.getLast filled) := by
  have whole : Range.openTail signs =
      Range.openTail signs.dropLast ++ ['.', signs.getLast filled] := by
    nth_rewrite 1 [← List.dropLast_append_getLast filled]
    rw [Range.openTail, List.flatMap_append]
    rfl
  rw [whole]
  simp

include filled wild in
/-- With a capital letter in front, components left open make no range, and no version either. -/
theorem meaning?_open_of_capital (capital : spelling.mark = ['V']) :
    meaning? (spelling.text ++ Range.openTail signs) = none := by
  have numbered := Range.isNumbered_append_openTail spelling.isNumbered_text wild
  have closed : Range.open? (spelling.text ++ Range.openTail signs) = none := by
    rw [text, capital]
    rfl
  have single := Range.hyphen?_eq_none (numbered.plain ' ' (by decide))
  have line := numbered.plain '\n' (by decide)
  have refused := numbered.normalize_ne_ok_of_isWildcard (wild _ (List.getLast_mem filled))
    (getLast?_append_openTail filled)
  have begins : spelling.text ++ Range.openTail signs =
      'V' :: (spelling.unmarked ++ Range.openTail signs) := by
    rw [text, capital]
    rfl
  rw [begins] at closed single line refused ⊢
  rw [meaning?, Option.map_eq_none_iff]
  cases reads : readBounds ('V' :: (spelling.unmarked ++ Range.openTail signs)) none with
  | error fault => rfl
  | ok bounds =>
      obtain ⟨normal, normalizes, -⟩ :=
        (readBounds_eq_ok_iff (by decide) (by decide) line closed single).mp reads
      exact absurd normalizes (refused normal)

include short filled wild

/-- Components are left open behind a literal that no capital letter marks. -/
theorem Reads.meaning?_open {literal : Literal} (reading : spelling.Reads literal)
    (small : spelling.mark ≠ ['V']) :
    meaning? (spelling.text ++ Range.openTail signs) = Option.map₂ between
      ((Range.raise (spelling.text ++ Range.openTail signs) literal.slots
        spelling.components.length (0 : ℕ)).toOption.map
          fun version normal => (Range.floorBounds version).all (·.takes normal))
      ((Range.raise (spelling.text ++ Range.openTail signs) literal.slots
        spelling.components.length (1 : ℕ)).toOption.map
          fun version => (⟨.lt, version ++ lowest⟩ : Bound).takes) := by
  rw [meaning?, readBounds_append spelling.isNumbered_text,
    reading.open?_eq small short filled wild]
  dsimp only
  rw [Range.ofNumbers_eq_bind, toOption_map_ends, reading.components, below]
  cases Range.raise (spelling.text ++ Range.openTail signs) literal.slots
    spelling.components.length 1 <;> rfl

/-- Components are left open behind a literal between the floor of its numbers and the bound above
them. -/
theorem meaning?_open_of_isOpenable (openable : spelling.IsOpenable) :
    meaning? (spelling.text ++ Range.openTail signs) = some (between
      (fun normal => (Range.floorBounds (spelling.raised 0)).all (·.takes normal))
      (⟨.lt, spelling.raised 1 ++ lowest⟩ : Bound).takes) := by
  obtain ⟨literal, reading⟩ := spelling.exists_reads
  obtain ⟨small, fits⟩ := openable
  have low := (reading.raise_last (spelling.text ++ Range.openTail signs) 0).trans
    (if_pos (Nat.lt_of_succ_lt fits))
  have high := (reading.raise_last (spelling.text ++ Range.openTail signs) 1).trans (if_pos fits)
  rw [Reads.meaning?_open short filled wild reading small, low, high]
  rfl

theorem meaning?_open_eq_none (closed : ¬ spelling.IsOpenable) :
    meaning? (spelling.text ++ Range.openTail signs) = none := by
  by_cases capital : spelling.mark = ['V']
  · exact meaning?_open_of_capital filled wild capital
  · obtain ⟨literal, reading⟩ := spelling.exists_reads
    have large : ¬ spelling.last + 1 < 2 ^ 63 := fun fits => closed ⟨capital, fits⟩
    have high := (reading.raise_last (spelling.text ++ Range.openTail signs) 1).trans
      (if_neg large)
    rw [Reads.meaning?_open short filled wild reading capital, high]
    exact Option.map₂_none_right _ _

theorem isSome_meaning?_open_iff :
    (meaning? (spelling.text ++ Range.openTail signs)).isSome = true ↔ spelling.IsOpenable := by
  constructor
  · intro found
    by_contra closed
    rw [meaning?_open_eq_none short filled wild closed] at found
    cases found
  · intro openable
    rw [meaning?_open_of_isOpenable short filled wild openable]
    rfl

end

end Spelling

/-! ## Versions between two spellings -/

namespace Version

/-- Numbers with one of them raised, and zeros behind it. -/
def raisedAt (numbers : List ℕ) (index : ℕ) : List ℕ :=
  numbers.take index ++
    (numbers.getD index 0 + 1) :: List.replicate (numbers.length - (index + 1)) 0

theorem lt_raisedAt_iff {numbers numbers' : List ℕ} {index : ℕ} (inside : index < numbers.length)
    (length : numbers'.length = numbers.length) :
    numbers' < raisedAt numbers index ↔ numbers'.take (index + 1) ≤ numbers.take (index + 1) := by
  have front : (numbers.take index).length = index := List.length_take_of_le inside.le
  have last : numbers.take (index + 1) = numbers.take index ++ [numbers.getD index 0] := by
    rw [List.take_add_one, List.getD_eq_getElem?_getD, List.getElem?_eq_getElem inside]
    rfl
  rw [raisedAt, lt_raised_iff (by rw [front, length]; omega), front, last]

theorem length_raisedAt {numbers : List ℕ} {index : ℕ} (inside : index < numbers.length) :
    (raisedAt numbers index).length = numbers.length := by
  simp only [raisedAt, List.length_append, List.length_take, List.length_cons,
    List.length_replicate]
  omega

/-- The further behind a number is that is raised, the less is gained. -/
theorem raisedAt_lt_raisedAt {numbers : List ℕ} {index index' : ℕ} (less : index < index')
    (inside : index' < numbers.length) : raisedAt numbers index' < raisedAt numbers index := by
  rw [lt_raisedAt_iff (less.trans inside) (length_raisedAt inside), raisedAt,
    List.take_append_of_le_length (by rw [List.length_take_of_le inside.le]; exact less),
    List.take_take, min_eq_left less]

/-- Four numbers that begin with a zero are those of a release that is its own normal form. -/
theorem exists_numericForm {further : List ℕ} (three : further.length = 3) :
    ∃ form : NumericForm, form.numbers = 0 :: further ∧ normalize form.text = .ok form.text := by
  have decimal (n : ℕ) : Text.ofNat n ≠ [] ∧ Part.IsDecimal (Text.ofNat n) :=
    ⟨Nat.toDigits_ne_nil, Part.isDecimal_ofNat n⟩
  have areDecimal : ∀ part ∈ (0 :: further).map Text.ofNat, part ≠ [] ∧ Part.IsDecimal part := by
    intro part listed
    obtain ⟨n, -, rfl⟩ := List.mem_map.mp listed
    exact decimal n
  let form : NumericForm := ⟨(0 :: further).map Text.ofNat, none, false, by simp [three],
    areDecimal, nofun⟩
  have spelled : IsSpelled form.components := ⟨by simp [form], by simp [form, three], areDecimal⟩
  obtain ⟨literal, found, components, silent⟩ := spelled.exists_ofVersion? (by
    rintro _ ⟨⟩
    decide)
  have text : form.text = List.intercalate ['.'] form.components := List.append_nil _
  have full : literal.canonical.components = form.components := by
    have missing : 3 - literal.further.length = 0 := by
      have length : literal.components.length = 4 := components ▸ form.length_components
      rw [Literal.components, List.length_cons] at length
      omega
    rw [Literal.components_canonical, missing, components]
    exact List.append_nil _
  refine ⟨form, ?_, ?_⟩
  · simp [form, NumericForm.numbers, Function.comp_def, Part.value_ofNat]
  · have normal : literal.normalForm = form.text := by
      rw [Literal.normalForm, Modifier.suffix_of_isSilent silent, List.append_nil,
        literal.padded_eq_intercalate, full, text]
    rw [← text] at found
    rw [normalize_of_literal found, normal]

end Version

/-- Between the floors of numbers that are raised at two places there is a version. -/
theorem exists_between_raised {numbers : List ℕ} {index index' : ℕ} (length : numbers.length = 4)
    (less : index < index') (inside : index' < numbers.length)
    (zeros : numbers.take index' = List.replicate index' 0) {low high high' : Text}
    (floor : IsFloor numbers low) (raised : IsFloor (Version.raisedAt numbers index) high)
    (raised' : IsFloor (Version.raisedAt numbers index') high') :
    ∃ normal : NormalForm, (⟨.ge, low⟩ : Bound).takes normal = true ∧
      (⟨.lt, high⟩ : Bound).takes normal = true ∧ (⟨.lt, high'⟩ : Bound).takes normal = false := by
  have total := (Version.length_raisedAt inside).trans length
  have total' := (Version.length_raisedAt (less.trans inside)).trans length
  -- the release at the lower of the two floors begins with a zero
  obtain ⟨further, begins⟩ : ∃ further, Version.raisedAt numbers index' = 0 :: further := by
    obtain ⟨count, counted⟩ := Nat.exists_eq_add_of_lt less
    rw [Version.raisedAt, zeros, counted, List.replicate_succ]
    exact ⟨_, rfl⟩
  obtain ⟨form, reaches, reads⟩ := Version.exists_numericForm
    (Nat.succ.inj ((congrArg List.length begins).symm.trans total))
  rw [← begins] at reaches
  have least : numbers ≤ form.numbers :=
    reaches ▸ ((Version.lt_raisedAt_iff inside rfl).mpr le_rfl).le
  have within : form.numbers < Version.raisedAt numbers index :=
    reaches ▸ Version.raisedAt_lt_raisedAt less inside
  have outside : ¬ form.numbers < Version.raisedAt numbers index' := reaches ▸ lt_irrefl _
  exact ⟨⟨form.text, form.text, reads⟩, (floor.admits_ge_iff length form).mpr least,
    (raised.admits_lt_iff total' form).mpr within,
    Bool.eq_false_iff.mpr (mt (raised'.admits_lt_iff total form).mp outside)⟩

/-- A date of zeros stands below them. -/
theorem exists_below_zeros {count : ℕ} (several : count = 2 ∨ count = 3) {low high : Text}
    (floor : IsFloor (List.replicate (count - 1) 0 ++ 0 :: List.replicate (4 - count) 0) low)
    (raised : IsFloor (List.replicate (count - 1) 0 ++ 1 :: List.replicate (4 - count) 0) high) :
    ∃ date : NormalForm, (⟨.ge, low⟩ : Bound).takes date = false ∧
      (⟨.lt, high⟩ : Bound).takes date = true := by
  let date : NormalForm := ⟨"0000.00.00".toList, "0000-00-00".toList, by decide⟩
  have zeros : IsFloor [0, 0, 0, 0] "0.0.0.0-dev".toList := Range.isFloor_zeros
  refine ⟨date, ?_⟩
  rcases several with rfl | rfl
  · have second : IsFloor [0, 1, 0, 0] "0.1.0.0-dev".toList := Version.isFloor_append_lowest
      (show ["0".toList, "1".toList, "0".toList, "0".toList] ≠ [] by decide) (by decide)
    rw [floor.takes_eq zeros, raised.takes_eq second]
    decide
  · have third : IsFloor [0, 0, 1, 0] "0.0.1.0-dev".toList := Version.isFloor_append_lowest
      (show ["0".toList, "0".toList, "1".toList, "0".toList] ≠ [] by decide) (by decide)
    rw [floor.takes_eq zeros, raised.takes_eq third]
    decide

namespace Spelling

open Constraint

section

variable {spelling spelling' : Spelling}

/-- A caret range over a short literal goes from the floor of its numbers up to the floor of the
numbers that are raised behind the zeros. -/
theorem exists_meaning?_caret (short : spelling.IsShort) :
    let numbers := paddedNumbers spelling.numbers
    ∃ low high, IsFloor numbers low ∧ IsFloor (Version.raisedAt numbers spelling.zeros) high ∧
      meaning? ('^' :: spelling.text) =
        if numbers.getD spelling.zeros 0 + 1 < 2 ^ 63 then
          some (between (⟨.ge, low⟩ : Bound).takes (⟨.lt, high⟩ : Bound).takes)
        else none := by
  intro numbers
  obtain ⟨literal, reading⟩ := spelling.exists_reads
  obtain ⟨normal, reads, numeral, whole, kept, has⟩ :=
    exists_numeral_of_isShort short Version.isSuffix_lowest
  have low : Range.lowEnd spelling.text literal = .ok (normal ++ lowest) := by
    rw [Range.lowEnd, reading.silent, reads]
    rfl
  have floor : IsFloor numbers (normal ++ lowest) :=
    ⟨numeral, whole, has, kept ▸ Version.runMarks_lowest⟩
  have length : numbers.length = 4 :=
    Version.length_paddedNumbers spelling.isSpelled.length_map_value_le
  have raised : IsFloor (Version.raisedAt numbers spelling.zeros)
      (Range.raisedText (literal.canonical.components.take spelling.zeros)
        (numbers.getD spelling.zeros 0 + 1) (4 - (spelling.zeros + 1)) ++ lowest) := by
    rw [Version.raisedAt, length]
    exact reading.isFloor_raisedText _ _ _
  have raises : Range.raise ('^' :: spelling.text) literal.slots (spelling.zeros + 1) 1 =
      if numbers.getD spelling.zeros 0 + 1 < 2 ^ 63 then
        .ok (Range.raisedText (literal.canonical.components.take spelling.zeros)
          (numbers.getD spelling.zeros 0 + 1) (4 - (spelling.zeros + 1)))
      else .error (.componentOutOfRange ('^' :: spelling.text)) :=
    reading.raise_eq ('^' :: spelling.text) spelling.zeros_inside 1
  refine ⟨_, _, floor, raised, ?_⟩
  rw [reading.meaning?_caret, low, below, raises]
  split_ifs
  · rfl
  · exact Option.map₂_none_right _ _

/-- The numbers that a caret counts as zeros are zeros. -/
theorem take_zeros (spelling : Spelling) : (paddedNumbers spelling.numbers).take spelling.zeros =
    List.replicate spelling.zeros 0 := by
  have begins := (List.takeWhile_prefix (· == ['0'])).trans
    ((List.take_prefix 2 spelling.components.dropLast).trans (List.dropLast_prefix _))
  have counted : spelling.components.take spelling.zeros =
      (spelling.components.dropLast.take 2).takeWhile (· == ['0']) :=
    (List.prefix_iff_eq_take.mp begins).symm
  have given : spelling.zeros ≤ spelling.numbers.length := by
    rw [numbers, List.length_map]
    exact begins.length_le
  have zero : ∀ n ∈ spelling.numbers.take spelling.zeros, n = 0 := by
    rw [numbers, ← List.map_take, counted]
    intro n listed
    obtain ⟨part, single, rfl⟩ := List.mem_map.mp listed
    have zero := List.all_eq_true.mp List.all_takeWhile part single
    rw [eq_of_beq zero]
    rfl
  rw [Version.take_paddedNumbers given, List.eq_replicate_of_mem zero, List.length_take_of_le given]

/-- Of two caret ranges over the same numbers the one that counts more zeros ends first. -/
theorem zeros_le_of_meaning?_caret_eq (numbers : spelling.numbers = spelling'.numbers)
    (short : spelling.IsShort) (short' : spelling'.IsShort)
    (same : meaning? ('^' :: spelling.text) = meaning? ('^' :: spelling'.text)) :
    spelling'.zeros ≤ spelling.zeros := by
  by_contra fewer
  have less : spelling.zeros < spelling'.zeros := Nat.lt_of_not_le fewer
  obtain ⟨low, high, floor, raised, means⟩ := exists_meaning?_caret short
  obtain ⟨low', high', floor', raised', means'⟩ := exists_meaning?_caret short'
  have zeros := spelling'.take_zeros
  have length : (paddedNumbers spelling'.numbers).length = 4 :=
    Version.length_paddedNumbers spelling'.isSpelled.length_map_value_le
  have inside : spelling'.zeros < (paddedNumbers spelling'.numbers).length :=
    length ▸ spelling'.zeros_inside.2
  rw [numbers] at floor raised means
  obtain ⟨normal, above, below, outside⟩ :=
    exists_between_raised length less inside zeros floor raised raised'
  have first : (paddedNumbers spelling'.numbers).getD spelling.zeros 0 = 0 := by
    rw [List.getD_eq_getElem?_getD, ← List.getElem?_take_of_lt less, zeros,
      List.getElem?_replicate, if_pos less]
    rfl
  rw [means, means', first, if_pos (by decide)] at same
  split_ifs at same
  have taken := congrFun (Option.some.inj same) normal
  simp [between, above, below, outside] at taken

/-- A literal that lacks a bound at its floor comes to zeros, but for what is raised. -/
theorem LacksFloor.isFloor_raised (lacks : spelling.LacksFloor) (increment : ℕ) :
    IsFloor (List.replicate (spelling.components.length - 1) 0 ++
        increment :: List.replicate (4 - spelling.components.length) 0)
      (spelling.raised increment ++ lowest) := by
  obtain ⟨single, zero⟩ := lacks
  have front : spelling.numbers.dropLast = List.replicate (spelling.components.length - 1) 0 := by
    have zeros := List.eq_replicate_of_mem single
    rw [numbers, ← List.map_dropLast, zeros, List.map_replicate, List.length_dropLast]
    rfl
  have floor := spelling.isFloor_raised increment
  rwa [front, zero, Nat.zero_add] at floor

/-- A range that lacks a bound at its floor takes versions that the bound keeps out. -/
theorem lacksFloor_of_meaning?_open_eq (respells : spelling.Respells spelling')
    {signs : List Char} (short : spelling'.components.length ≤ 3) (filled : signs ≠ [])
    (wild : ∀ sign ∈ signs, Branch.isWildcard sign = true) (openable : spelling.IsOpenable)
    (openable' : spelling'.IsOpenable)
    (same : meaning? (spelling.text ++ Range.openTail signs) =
      meaning? (spelling'.text ++ Range.openTail signs))
    (lacks : spelling.LacksFloor) : spelling'.LacksFloor := by
  by_contra kept
  have length := respells.length_components
  have several : spelling.components.length = 2 ∨ spelling.components.length = 3 := by
    have positive := List.length_pos_of_ne_nil spelling.isSpelled.filled
    have alone : spelling'.components.length ≠ 1 := by
      intro one
      have empty : spelling'.components.dropLast = [] :=
        List.eq_nil_of_length_eq_zero (by rw [List.length_dropLast, one])
      exact kept ⟨by simp [empty], respells.last_eq ▸ lacks.2⟩
    omega
  obtain ⟨date, below, above⟩ :=
    exists_below_zeros several (lacks.isFloor_raised 0) (lacks.isFloor_raised 1)
  rw [meaning?_open_of_isOpenable (length ▸ short) filled wild openable,
    meaning?_open_of_isOpenable short filled wild openable', floorBounds_raised, if_pos lacks,
    floorBounds_raised, if_neg kept] at same
  have taken := congrFun (Option.some.inj same) date
  simp [between, ← respells.raised_takes, below, above] at taken

end

/-! ## Equal meanings -/

namespace Respells

variable {spelling spelling' : Spelling}

theorem symm (respells : spelling.Respells spelling') : spelling'.Respells spelling :=
  ⟨respells.numbers.symm, respells.digits.imp And.symm Eq.symm⟩

variable (respells : spelling.Respells spelling')

include respells

theorem meaning?_caret_iff :
    meaning? ('^' :: spelling.text) = meaning? ('^' :: spelling'.text) ↔
      spelling.zeros = spelling'.zeros := by
  refine ⟨fun same => ?_, respells.meaning?_caret⟩
  rcases respells.digits with ⟨short, short'⟩ | components
  · exact le_antisymm
      (zeros_le_of_meaning?_caret_eq respells.numbers.symm short' short same.symm)
      (zeros_le_of_meaning?_caret_eq respells.numbers short short' same)
  · rw [zeros, zeros, components]

theorem meaning?_open_iff {signs : List Char} (short : spelling'.components.length ≤ 3)
    (filled : signs ≠ []) (wild : ∀ sign ∈ signs, Branch.isWildcard sign = true) :
    meaning? (spelling.text ++ Range.openTail signs) =
        meaning? (spelling'.text ++ Range.openTail signs) ↔
      (spelling.IsOpenable ↔ spelling'.IsOpenable) ∧
        (spelling.IsOpenable → (spelling.LacksFloor ↔ spelling'.LacksFloor)) := by
  have short' : spelling.components.length ≤ 3 := respells.length_components ▸ short
  constructor
  · intro same
    have openable : spelling.IsOpenable ↔ spelling'.IsOpenable := by
      rw [← isSome_meaning?_open_iff short' filled wild, same,
        isSome_meaning?_open_iff short filled wild]
    refine ⟨openable, fun read => ⟨?_, ?_⟩⟩
    · exact lacksFloor_of_meaning?_open_eq respells short filled wild read (openable.mp read) same
    · exact lacksFloor_of_meaning?_open_eq respells.symm short' filled wild (openable.mp read) read
        same.symm
  · rintro ⟨openable, lacks⟩
    by_cases read : spelling.IsOpenable
    · rw [meaning?_open_of_isOpenable short' filled wild read,
        meaning?_open_of_isOpenable short filled wild (openable.mp read), floorBounds_raised,
        floorBounds_raised, respells.raised_takes 1 .lt]
      by_cases lacking : spelling.LacksFloor
      · rw [if_pos lacking, if_pos ((lacks read).mp lacking)]
      · rw [if_neg lacking, if_neg (mt (lacks read).mpr lacking)]
        simp only [List.all_cons, List.all_nil, respells.raised_takes 0 .ge]
    · rw [meaning?_open_eq_none short' filled wild read,
        meaning?_open_eq_none short filled wild (mt openable.mpr read)]

end Respells

end Spelling

/-! ## Ranges -/

/-- A range over literals without modifiers, as it is spelled. -/
inductive RangeSpelling where
  | caret (literal : Spelling)
  | tilde (literal : Spelling)
  | opened (literal : Spelling) (signs : List Char) (short : literal.components.length ≤ 3)
      (filled : signs ≠ []) (wild : ∀ sign ∈ signs, Branch.isWildcard sign = true)
  | hyphen (low high : Spelling)

namespace RangeSpelling

/-- The text of a range. -/
def text : RangeSpelling → Text
  | caret literal => '^' :: literal.text
  | tilde literal => '~' :: literal.text
  | opened literal signs _ _ _ => literal.text ++ Range.openTail signs
  | hyphen low high => low.text ++ ' ' :: '-' :: ' ' :: high.text

/-- Two ranges are of one kind and have the same literals up to their spelling. -/
inductive Respells : RangeSpelling → RangeSpelling → Prop where
  | caret {literal literal' : Spelling} (respells : literal.Respells literal') :
    Respells (.caret literal) (.caret literal')
  | tilde {literal literal' : Spelling} (respells : literal.Respells literal') :
    Respells (.tilde literal) (.tilde literal')
  | opened {literal literal' : Spelling} {signs : List Char} {short short' filled wild}
    (respells : literal.Respells literal') :
    Respells (.opened literal signs short filled wild) (.opened literal' signs short' filled wild)
  | hyphen {low low' high high' : Spelling} (respells : low.Respells low')
    (respells' : high.Respells high') : Respells (.hyphen low high) (.hyphen low' high')

/-- What two spellings of a range have to agree about. A caret finds its position by components that
are spelled as a single zero. With components left open, either both can be read or neither, and
where they can, either both have a bound at the floor or neither. -/
def Agrees : RangeSpelling → RangeSpelling → Prop
  | caret literal, caret literal' => literal.zeros = literal'.zeros
  | opened literal _ _ _ _, opened literal' _ _ _ _ =>
    (literal.IsOpenable ↔ literal'.IsOpenable) ∧
      (literal.IsOpenable → (literal.LacksFloor ↔ literal'.LacksFloor))
  | _, _ => True

theorem isLone_text (range : RangeSpelling) : Constraint.IsLone range.text := by
  cases range with
  | caret literal =>
      have lone : Constraint.IsLone (['^'] ++ literal.text) :=
        Constraint.isLone_append literal.isNumbered_text (by simp)
      exact lone
  | tilde literal =>
      have lone : Constraint.IsLone (['~'] ++ literal.text) :=
        Constraint.isLone_append literal.isNumbered_text (by simp)
      exact lone
  | opened literal signs short filled wild =>
      exact Constraint.isLone_of_isNumbered
        (Range.isNumbered_append_openTail literal.isNumbered_text wild)
  | hyphen low high => exact Constraint.isLone_hyphen low.isNumbered_text high.isNumbered_text

/-- Two spellings of a range mean the same if they agree where it matters. -/
theorem Respells.meaning?_eq_iff {range range' : RangeSpelling} (respells : range.Respells range') :
    Constraint.meaning? range.text = Constraint.meaning? range'.text ↔ range.Agrees range' := by
  cases respells with
  | caret respells => exact respells.meaning?_caret_iff
  | tilde respells => exact iff_of_true respells.meaning?_tilde trivial
  | @opened _ _ _ _ short filled wild respells =>
      exact respells.meaning?_open_iff short filled wild
  | hyphen respells respells' => exact iff_of_true (respells.meaning?_hyphen respells') trivial

/-- Two spellings of a range can both be read or neither, and the same versions satisfy them, if
they agree where it matters, and only then. -/
theorem satisfies_respelled_iff {range range' : RangeSpelling} (respells : range.Respells range') :
    (((∃ required, Constraint.parse range.text = .ok required) ↔
        ∃ required, Constraint.parse range'.text = .ok required) ∧
      ∀ version,
        Selection.satisfies version range.text = Selection.satisfies version range'.text) ↔
      range.Agrees range' :=
  (range.isLone_text.meaning?_eq_iff range'.isLone_text).symm.trans respells.meaning?_eq_iff

/-- A capital letter and zeros behind the component that a caret holds fixed make no difference, a
zero in front of it does. -/
theorem satisfies_respelled_iff_caret :
    (∀ version, Selection.satisfies version "^V0.003".toList =
        Selection.satisfies version "^0.3".toList) ∧
      ¬ (((∃ required, Constraint.parse "^00.3".toList = .ok required) ↔
            ∃ required, Constraint.parse "^0.3".toList = .ok required) ∧
          ∀ version, Selection.satisfies version "^00.3".toList =
            Selection.satisfies version "^0.3".toList) := by
  let plain : Spelling := ⟨[], ["0".toList, "3".toList], by simp [Literal.IsMark], by decide⟩
  let marked : Spelling :=
    ⟨"V".toList, ["0".toList, "003".toList], by simp [Literal.IsMark], by decide⟩
  let doubled : Spelling := ⟨[], ["00".toList, "3".toList], by simp [Literal.IsMark], by decide⟩
  have respells : marked.Respells plain := ⟨by decide, .inl ⟨by decide, by decide⟩⟩
  have respells' : doubled.Respells plain := ⟨by decide, .inl ⟨by decide, by decide⟩⟩
  have agrees : (caret marked).Agrees (caret plain) := show marked.zeros = plain.zeros by decide
  have differs : ¬ (caret doubled).Agrees (caret plain) :=
    show ¬ doubled.zeros = plain.zeros by decide
  exact ⟨((satisfies_respelled_iff (.caret respells)).mpr agrees).2,
    mt (satisfies_respelled_iff (.caret respells')).mp differs⟩

/-- A zero more can move the position of a caret or put a bound at a floor, and a capital letter can
keep a range from being read. -/
theorem satisfies_ne_respelled :
    Selection.satisfies "0.2.0".toList "^00.1".toList ≠
        Selection.satisfies "0.2.0".toList "^0.1".toList ∧
      Selection.satisfies "0000-00-00".toList "00.0.*".toList ≠
        Selection.satisfies "0000-00-00".toList "0.0.*".toList ∧
      Selection.satisfies "2.1".toList "V2.*".toList ≠
        Selection.satisfies "2.1".toList "v2.*".toList := by
  decide +kernel

end RangeSpelling

end VersionRanges

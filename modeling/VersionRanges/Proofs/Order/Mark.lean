/-
# Marks

What a part of a version says in the order. The marks are the known names, the names that no table
knows, the numbers, and the end of a version, and they stand in one linear order: unknown names
first, then development versions, previews, the end, the numbers by value, and patches. Comparing
two parts, or a part and the end, is comparing their marks.
-/
import Mathlib.Data.Prod.Lex
import Mathlib.Data.Int.Order.Basic
import VersionRanges.Proofs.Order.Number
import VersionRanges.Proofs.Order.Runs

namespace VersionRanges.Version

/-- What a part of a version, or its end, says in the order. -/
inductive Mark where
  /-- A name that the order does not know. -/
  | unknown
  /-- A development version, or the empty part before a separator at the front. -/
  | dev
  | alpha
  | beta
  /-- A release candidate. -/
  | candidate
  /-- The end of the version. -/
  | closing
  | number (value : Nat)
  /-- A patch of a release. -/
  | patch
deriving DecidableEq, Repr

namespace Mark

/-- The height of a mark: first its kind, and among the numbers the value. The end stands below all
numbers and above all names but the patches. -/
def height : Mark → ℤ ×ₗ ℕ
  | unknown => toLex (-1, 0)
  | dev => toLex (0, 0)
  | alpha => toLex (1, 0)
  | beta => toLex (2, 0)
  | candidate => toLex (3, 0)
  | closing => toLex (4, 0)
  | number value => toLex (4, value + 1)
  | patch => toLex (5, 0)

theorem height_injective : Function.Injective height := by
  intro first second same
  cases first <;> cases second <;> simp_all [height]

instance : LinearOrder Mark := LinearOrder.lift' height height_injective

theorem cmp_eq_cmp_height (first second : Mark) :
    cmp first second = cmp first.height second.height := rfl

/-- The names of a patch. -/
def patchNames : List Text := ["patch".toList, "pl".toList, "p".toList]

/-- The mark of a name. -/
def ofName (name : Text) : Mark :=
  if name = [] ∨ name = "dev".toList then dev
  else if name = "alpha".toList ∨ name = "a".toList then alpha
  else if name = "beta".toList ∨ name = "b".toList then beta
  else if name.map Char.toLower = "rc".toList then candidate
  else if name ∈ patchNames then patch
  else unknown

/-- The mark of a part. -/
def ofPart (part : Text) : Mark :=
  if Part.isNumber part then number (Part.value part) else ofName part

theorem ofName_ne_closing (name : Text) : ofName name ≠ closing := by
  unfold ofName
  split_ifs <;> nofun

theorem ofPart_ne_closing (part : Text) : ofPart part ≠ closing := by
  unfold ofPart
  split
  · nofun
  · exact ofName_ne_closing part

/-- Pairs are compared by their first components, and by the second ones where those are equal. -/
theorem cmp_toLex (kind kind' : ℤ) (place place' : ℕ) :
    cmp (toLex (kind, place)) (toLex (kind', place')) =
      (cmp kind kind').then (cmp place place') := by
  apply Ordering.Compares.cmp_eq
  rcases lt_trichotomy kind kind' with below | rfl | above
  · rw [below.cmp_eq_lt]
    exact Prod.Lex.toLex_lt_toLex.mpr (.inl below)
  · rw [cmp_self_eq_eq, Ordering.eq_then]
    rcases lt_trichotomy place place' with below | rfl | above
    · rw [below.cmp_eq_lt]
      exact Prod.Lex.toLex_lt_toLex.mpr (.inr ⟨rfl, below⟩)
    · rw [cmp_self_eq_eq]
      rfl
    · rw [above.cmp_eq_gt]
      exact Prod.Lex.toLex_lt_toLex.mpr (.inr ⟨rfl, above⟩)
  · rw [above.cmp_eq_gt]
    exact Prod.Lex.toLex_lt_toLex.mpr (.inl above)

/-- A name stands at its rank, except for the lone number sign. -/
theorem height_ofName {name : Text} (unsigned : name ≠ ['#']) :
    (ofName name).height = toLex (Part.rank name, 0) := by
  simp only [ofName, Part.rank, patchNames, Bool.or_eq_true, decide_eq_true_eq, unsigned, if_false,
    List.mem_cons, List.not_mem_nil, or_false, or_assoc]
  split_ifs <;> rfl

/-- No name has the rank of the numbers, because none has the mark of the end, which shares it. -/
theorem rank_ne_numberRank {name : Text} (unsigned : name ≠ ['#']) :
    Part.rank name ≠ Part.numberRank := by
  intro same
  apply ofName_ne_closing name
  apply height_injective
  rw [height_ofName unsigned, same]
  rfl

end Mark

namespace Part

/-- What the comparison of parts is defined on: runs, and the empty part, but not the lone number
sign. -/
structure IsPart (part : Text) : Prop where
  isRun : part = [] ∨ IsRun part
  unsigned : part ≠ ['#']

theorem IsPart.isDecimal {part : Text} (isPart : IsPart part) (number : isNumber part = true) :
    IsDecimal part := by
  rcases isPart.isRun with rfl | isRun
  · simp [isNumber] at number
  · obtain ⟨digit, uniform⟩ := isRun.uniform
    obtain ⟨c, rest, rfl⟩ := List.exists_cons_of_ne_nil isRun.nonempty
    have first : c.isDigit = true := by simpa [isNumber] using number
    intro d inside
    rw [uniform d inside, ← uniform c List.mem_cons_self, first]

theorem height_of_isNumber {part : Text} (number : isNumber part = true) :
    (Mark.ofPart part).height = toLex (numberRank, value part + 1) := by
  simp [Mark.ofPart, number, Mark.height, numberRank]

theorem height_of_not_isNumber {part : Text} (isPart : IsPart part)
    (name : isNumber part = false) :
    (Mark.ofPart part).height = toLex (rank part, 0) := by
  simp [Mark.ofPart, name, Mark.height_ofName isPart.unsigned]

/-- Comparing parts is comparing their marks. -/
theorem compare_eq_cmp {first second : Text} (isPart : IsPart first) (isPart' : IsPart second) :
    compare first second = cmp (Mark.ofPart first) (Mark.ofPart second) := by
  rw [Mark.cmp_eq_cmp_height]
  unfold compare
  cases kind : isNumber first <;> cases kind' : isNumber second
  · rw [height_of_not_isNumber isPart kind, height_of_not_isNumber isPart' kind', Mark.cmp_toLex,
      cmp_self_eq_eq, Ordering.then_eq, cmp_eq_compare]
  · have apart := Mark.rank_ne_numberRank isPart.unsigned
    rw [height_of_not_isNumber isPart kind, height_of_isNumber kind', Mark.cmp_toLex]
    rcases lt_or_gt_of_ne apart with below | above
    · rw [below.cmp_eq_lt, Ordering.lt_then, compare_lt_iff_lt.mpr below]
    · rw [above.cmp_eq_gt, Ordering.gt_then, compare_gt_iff_gt.mpr above]
  · have apart := Mark.rank_ne_numberRank isPart'.unsigned
    rw [height_of_isNumber kind, height_of_not_isNumber isPart' kind', Mark.cmp_toLex]
    rcases lt_or_gt_of_ne apart with below | above
    · rw [below.cmp_eq_gt, Ordering.gt_then, compare_gt_iff_gt.mpr below]
    · rw [above.cmp_eq_lt, Ordering.lt_then, compare_lt_iff_lt.mpr above]
  · rw [height_of_isNumber kind, height_of_isNumber kind', Mark.cmp_toLex, cmp_self_eq_eq,
      Ordering.eq_then, compareNumbers_eq_cmp (isPart.isDecimal kind) (isPart'.isDecimal kind')]
    have raises : StrictMono fun n : ℕ => n + 1 := fun _ _ less => Nat.succ_lt_succ less
    exact (raises.cmp_map_eq _ _).symm

/-- Comparing a part with the end of a version is comparing its mark with that of the end. -/
theorem compareToEnd_eq_cmp {part : Text} (isPart : IsPart part) :
    compareToEnd part = cmp (Mark.ofPart part) .closing := by
  rw [Mark.cmp_eq_cmp_height]
  unfold compareToEnd
  cases kind : isNumber part
  · rw [height_of_not_isNumber isPart kind]
    change _ = cmp _ (toLex (numberRank, 0))
    rw [Mark.cmp_toLex, cmp_self_eq_eq, Ordering.then_eq, cmp_eq_compare]
    rfl
  · rw [height_of_isNumber kind]
    change _ = cmp _ (toLex (numberRank, 0))
    rw [Mark.cmp_toLex]
    rfl

end Part

end VersionRanges.Version

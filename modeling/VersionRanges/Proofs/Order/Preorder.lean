/-
# The order of versions is a total preorder

Exchanging two versions always turns their comparison around. Among versions without number signs
the comparison is also reflexive and transitive, because it compares standings. Versions that
compare equal need not be the same text, so that it is no more than a preorder.
-/
import VersionRanges.Proofs.Order.Standing

namespace VersionRanges.Version

/-! ## Exchange -/

namespace Part

theorem compareNumbers_swap (first second : Text) :
    compareNumbers second first = (compareNumbers first second).swap := by
  simp only [compareNumbers, Ordering.swap_then]
  rw [Nat.compare_swap]
  congr 1
  exact Std.OrientedCmp.eq_swap

theorem compare_swap (first second : Text) :
    compare second first = (compare first second).swap := by
  unfold compare
  cases isNumber first <;> cases isNumber second
  · exact Std.OrientedOrd.eq_swap
  · exact Std.OrientedOrd.eq_swap
  · exact Std.OrientedOrd.eq_swap
  · exact compareNumbers_swap first second

end Part

theorem compareParts_swap (first second : List Text) :
    compareParts second first = (compareParts first second).swap := by
  induction first generalizing second with
  | nil =>
      cases second with
      | nil => rfl
      | cons other second => simp [compareParts]
  | cons part first ih =>
      cases second with
      | nil => simp [compareParts]
      | cons other second =>
          rw [compareParts, compareParts, Ordering.swap_then, Part.compare_swap part other,
            ih second]

/-- Exchanging two versions turns their comparison around, whatever they hold. -/
theorem compare_swap (first second : Text) :
    compare second first = (compare first second).swap :=
  compareParts_swap (parts first) (parts second)

theorem compare_self (version : Text) : compare version version = .eq := by
  have turned := compare_swap version version
  cases order : compare version version <;> simp [order] at turned ⊢

/-! ## Preorder -/

section

variable {first second third : Text}

theorem compare_ne_gt_iff (unsigned : '#' ∉ first) (unsigned' : '#' ∉ second) :
    compare first second ≠ .gt ↔ standing first ≤ standing second := by
  rw [compare_eq_cmp unsigned unsigned']
  exact (cmp_compares _ _).ne_gt

theorem compare_eq_lt_iff (unsigned : '#' ∉ first) (unsigned' : '#' ∉ second) :
    compare first second = .lt ↔ standing first < standing second := by
  rw [compare_eq_cmp unsigned unsigned', cmp_eq_lt_iff]

/-- A number and a patch stand above the end of a version, every other part below it. -/
theorem ofPart_beside_closing (part : Text) :
    if Part.isNumber part = true ∨ part ∈ Mark.patchNames then
      Mark.closing < Mark.ofPart part
    else Mark.ofPart part < Mark.closing := by
  by_cases number : Part.isNumber part = true
  · rw [if_pos (.inl number), Mark.ofPart, if_pos number]
    exact Standing.closing_lt_number _
  · rw [Mark.ofPart, if_neg number]
    by_cases patch : part ∈ Mark.patchNames
    · rw [if_pos (.inr patch)]
      simp only [Mark.patchNames, List.mem_cons, List.not_mem_nil, or_false] at patch
      rcases patch with rfl | rfl | rfl <;> decide
    · rw [if_neg (by simp [number, patch]), Mark.ofName, if_neg patch]
      split_ifs <;> decide

end

/-- Among versions without number signs the comparison is a total preorder, the lexicographic order
of the marks of their parts with the end of each version as a last mark. The marks are ordered as
the parts are, and the end stands below numbers and patches and above every other name. -/
theorem compare_total_preorder (first second third : Text) (unsigned : '#' ∉ first)
    (unsigned' : '#' ∉ second) (unsigned'' : '#' ∉ third) :
    compare first first = .eq ∧
    compare second first = (compare first second).swap ∧
    (compare first second ≠ .gt → compare second third ≠ .gt →
      compare first third ≠ .gt ∧
      (compare first second = .lt ∨ compare second third = .lt →
        compare first third = .lt)) ∧
    compare first second = List.compareLex cmp (standing first).closed (standing second).closed ∧
    (∀ part ∈ parts first, ∀ other ∈ parts second,
      Part.compare part other = cmp (Mark.ofPart part) (Mark.ofPart other)) ∧
    ∀ part ∈ parts first,
      if Part.isNumber part = true ∨ part ∈ Mark.patchNames then
        Mark.closing < Mark.ofPart part
      else Mark.ofPart part < Mark.closing := by
  refine ⟨?_, compare_swap first second, ?_, compare_eq_compareLex unsigned unsigned', ?_, ?_⟩
  · rw [compare_eq_cmp unsigned unsigned, cmp_self_eq_eq]
  · intro below below'
    rw [compare_ne_gt_iff unsigned unsigned'] at below
    rw [compare_ne_gt_iff unsigned' unsigned''] at below'
    rw [compare_ne_gt_iff unsigned unsigned'', compare_eq_lt_iff unsigned unsigned',
      compare_eq_lt_iff unsigned' unsigned'', compare_eq_lt_iff unsigned unsigned'']
    refine ⟨below.trans below', ?_⟩
    intro strictly
    rcases strictly with less | less
    · exact less.trans_le below'
    · exact below.trans_lt less
  · intro part cut other cut'
    exact Part.compare_eq_cmp (isPart_of_mem_parts unsigned cut)
      (isPart_of_mem_parts unsigned' cut')
  · intro part _
    exact ofPart_beside_closing part

/-- A release candidate, its release and a patch of the release, the names of which lie on both
sides of the end of the release. -/
theorem compare_total_preorder_candidate_release_patch :
    compare "1.0-RC1".toList "1.0".toList ≠ .gt ∧ compare "1.0".toList "1-0pl".toList ≠ .gt ∧
      compare "1.0-RC1".toList "1-0pl".toList = .lt :=
  have less : compare "1.0-RC1".toList "1.0".toList = .lt := by decide
  have laws := compare_total_preorder "1.0-RC1".toList "1.0".toList "1-0pl".toList
    (by decide) (by decide) (by decide)
  ⟨by decide, by decide, (laws.2.2.1 (by decide) (by decide)).2 (.inl less)⟩

end VersionRanges.Version

/-
# Where the decision depends on the places of its bounds

The required bound lends its operator to the comparison, so that the two places are not alike. Half
lines meet in either place, and so do excluded versions. The pin of a version within a half line
does not: where the pin is required, the two boundaries are compared for equality alone. The texts
of boundaries matter too, where the boundaries compare equal and one of them is left out.
-/
import VersionRanges.Proofs.Overlap.Decision

namespace VersionRanges

/-! ## Operators that meet at a boundary -/

namespace Operator

theorem mirror_of_not_isHalfLine {op : Operator} (point : op.isHalfLine = false) :
    op.mirror = op := by
  cases op <;> cases point <;> rfl

theorem isStrict_of_not_isHalfLine {op : Operator} (point : op.isHalfLine = false) :
    op.isStrict = false := by
  cases op <;> cases point <;> rfl

theorem isHalfLine_mirror (op : Operator) : op.mirror.isHalfLine = op.isHalfLine := by
  cases op <;> rfl

theorem ne_eq_of_isHalfLine {op : Operator} (ranged : op.isHalfLine = true) : op ≠ eq := by
  intro same
  subst same
  cases ranged

theorem ne_eq_of_opens {op : Operator} (opens : op.opensDown = true ∨ op.opensUp = true) :
    op ≠ eq := by
  intro same
  subst same
  rcases opens with down | up
  · cases down
  · cases up

theorem ne_ne_of_isHalfLine {op : Operator} (ranged : op.isHalfLine = true) : op ≠ ne := by
  intro same
  subst same
  cases ranged

theorem admits_eq_of_isHalfLine {op : Operator} (ranged : op.isHalfLine = true) :
    op.admits .eq = !op.isStrict := by
  cases op <;> cases ranged <;> rfl

theorem admits_mirror_eq (op : Operator) : op.mirror.admits .eq = op.admits .eq :=
  admits_mirror op .eq

/-- Off a shared boundary, half lines that face each other are asked for the same side of it. -/
theorem admits_mirror_of_faces {op op' : Operator} (faces : op.faces op' = true)
    {ordering : Ordering} (apart : ordering ≠ .eq) :
    op.mirror.admits ordering = op'.admits ordering := by
  cases ordering with
  | eq => exact absurd rfl apart
  | lt => cases op <;> cases op' <;> cases faces <;> rfl
  | gt => cases op <;> cases op' <;> cases faces <;> rfl

theorem direction_ne_of_faces {op op' : Operator} (faces : op.faces op' = true) :
    op.direction ≠ op'.direction := by
  cases op <;> cases op' <;> cases faces <;> decide

theorem direction_eq_ne_of_isHalfLine {op : Operator} (ranged : op.isHalfLine = true) :
    eq.direction ≠ op.direction := by
  cases op <;> cases ranged <;> decide

/-- Operators that open to one side point in one direction, unless one of them excludes a
version. -/
theorem direction_eq_of_opensDown {op op' : Operator} (down : op.opensDown = true)
    (down' : op'.opensDown = true) (included : op ≠ ne) (included' : op' ≠ ne) :
    op.direction = op'.direction := by
  cases op <;> cases down <;> cases op' <;> cases down' <;> first | rfl | contradiction

theorem direction_eq_of_opensUp {op op' : Operator} (up : op.opensUp = true)
    (up' : op'.opensUp = true) (included : op ≠ ne) (included' : op' ≠ ne) :
    op.direction = op'.direction := by
  cases op <;> cases up <;> cases op' <;> cases up' <;> first | rfl | contradiction

end Operator

namespace Comparison

/-- Two versions are both branches, or not comparable because one of them is, or compared by their
order. -/
theorem holds_cases (first second : Text) (withBranches : Bool) :
    ((Branch.isBranch first = true ∧ Branch.isBranch second = true) ∧
      ∀ op, holds first op second withBranches = (op == .eq && first == second)) ∨
    (¬ (Branch.isBranch first = true ∧ Branch.isBranch second = true) ∧
      ((∀ op, holds first op second withBranches = false) ∨
        ∀ op, holds first op second withBranches = op.admits (Version.compare first second))) := by
  by_cases both : Branch.isBranch first = true ∧ Branch.isBranch second = true
  · exact .inl ⟨both, holds_of_isBranch both.1 both.2⟩
  · refine .inr ⟨both, ?_⟩
    by_cases mixed : withBranches = true ∨ Branch.isBranch first = Branch.isBranch second
    · exact .inr (holds_of_comparable both mixed)
    · obtain ⟨plain, apart⟩ := not_or.mp mixed
      rw [Bool.not_eq_true] at plain
      subst plain
      exact .inl (holds_of_isBranch_ne apart)

theorem holds_eq_comm (first second : Text) (withBranches : Bool) :
    holds second .eq first withBranches = holds first .eq second withBranches :=
  holds_mirror first second .eq withBranches

end Comparison

namespace Bound

/-! ## What the places decide -/

/-- A pin that a half line meets in one of the two places alone. Its version lies in the half line
and off the boundary, or is a branch and the boundary that the half line includes. -/
structure PinnedWithin (pinned range : Bound) (withBranches : Bool) : Prop where
  isPin : pinned.operator = .eq
  ranged : range.operator.isHalfLine = true
  place : (Comparison.holds pinned.version range.operator range.version withBranches = true ∧
      Comparison.holds pinned.version .eq range.version withBranches = false) ∨
    (Branch.isBranch pinned.version = true ∧ pinned.version = range.version ∧
      range.operator.isStrict = false)

/-- Boundaries that compare equal under two spellings, one of which is left out by its bound and the
other is not. Neither bound excludes a version, and they do not point in the same direction. -/
structure SpelledApart (first second : Bound) (withBranches : Bool) : Prop where
  texts : first.version ≠ second.version
  equal : Comparison.holds first.version .eq second.version withBranches = true
  mixed : first.operator.isStrict ≠ second.operator.isStrict
  turned : first.operator.direction ≠ second.operator.direction
  included : first.operator ≠ .ne
  included' : second.operator ≠ .ne

variable {required provided range : Bound} {withBranches : Bool}

theorem SpelledApart.symm (apart : SpelledApart required provided withBranches) :
    SpelledApart provided required withBranches where
  texts := apart.texts.symm
  equal := (Comparison.holds_eq_comm _ _ _).trans apart.equal
  mixed := apart.mixed.symm
  turned := apart.turned.symm
  included := apart.included'
  included' := apart.included

theorem spelledApart_comm :
    SpelledApart required provided withBranches ↔ SpelledApart provided required withBranches :=
  ⟨SpelledApart.symm, SpelledApart.symm⟩

theorem spelledApart_iff (texts : required.version ≠ provided.version)
    (equal : Comparison.holds required.version .eq provided.version withBranches = true)
    (turned : required.operator.direction ≠ provided.operator.direction)
    (included : required.operator ≠ .ne) (included' : provided.operator ≠ .ne) :
    SpelledApart required provided withBranches ↔
      required.operator.isStrict ≠ provided.operator.isStrict := by
  constructor
  · exact SpelledApart.mixed
  · intro mixed
    exact ⟨texts, equal, mixed, turned, included, included'⟩

theorem not_spelledApart_of_opensDown (down : required.operator.opensDown = true)
    (down' : provided.operator.opensDown = true) :
    ¬ SpelledApart required provided withBranches := by
  intro apart
  exact apart.turned
    (Operator.direction_eq_of_opensDown down down' apart.included apart.included')

theorem not_spelledApart_of_opensUp (up : required.operator.opensUp = true)
    (up' : provided.operator.opensUp = true) :
    ¬ SpelledApart required provided withBranches := by
  intro apart
  exact apart.turned (Operator.direction_eq_of_opensUp up up' apart.included apart.included')

/-- Boundaries that the comparison tells apart are not equal under two spellings. -/
theorem not_spelledApart_of_holds
    (told : Comparison.holds required.version .eq provided.version withBranches = true →
      required.version = provided.version) :
    ¬ SpelledApart required provided withBranches := by
  intro apart
  exact apart.texts (told apart.equal)

theorem not_pinnedWithin_of_ne (unpinned : required.operator ≠ .eq) :
    ¬ PinnedWithin required provided withBranches := by
  intro within
  exact unpinned within.isPin

theorem not_pinnedWithin_of_not_isHalfLine (point : provided.operator.isHalfLine = false) :
    ¬ PinnedWithin required provided withBranches := by
  intro within
  exact Bool.false_ne_true (point.symm.trans within.ranged)

theorem pinnedWithin_iff_of_isBranch {version : Text} (ranged : range.operator.isHalfLine = true)
    (both : Branch.isBranch version = true ∧ Branch.isBranch range.version = true) :
    PinnedWithin (pin version) range withBranches ↔
      version = range.version ∧ range.operator.isStrict = false := by
  constructor
  · intro within
    rcases within.place with ⟨inside, -⟩ | ⟨-, boundary⟩
    · rw [pin, Comparison.holds_of_isBranch both.1 both.2,
        beq_false_of_ne (Operator.ne_eq_of_isHalfLine ranged)] at inside
      cases inside
    · exact boundary
  · intro boundary
    exact ⟨rfl, ranged, .inr ⟨both.1, boundary⟩⟩

theorem pinnedWithin_iff_of_not_isBranch {version : Text}
    (ranged : range.operator.isHalfLine = true)
    (both : ¬ (Branch.isBranch version = true ∧ Branch.isBranch range.version = true)) :
    PinnedWithin (pin version) range withBranches ↔
      Comparison.holds version range.operator range.version withBranches = true ∧
        Comparison.holds version .eq range.version withBranches = false := by
  constructor
  · intro within
    rcases within.place with inside | ⟨branch, same, -⟩
    · exact inside
    · exact absurd ⟨branch, by rw [← same]; exact branch⟩ both
  · intro inside
    exact ⟨rfl, ranged, .inl inside⟩

/-! ## Exchanging the places -/

/-- Half lines that face each other meet in both places or in none, unless the spelling of the
boundary decides. -/
theorem overlaps_comm_iff_of_faces (faces : required.operator.faces provided.operator = true) :
    required.overlaps provided withBranches = provided.overlaps required withBranches ↔
      ¬ SpelledApart required provided withBranches := by
  obtain ⟨ranged, ranged'⟩ := Operator.isHalfLine_of_faces faces
  rw [overlaps_of_faces withBranches faces,
    overlaps_of_faces withBranches (Operator.faces_symm faces),
    ← Comparison.holds_mirror provided.version required.version]
  rcases Comparison.holds_cases required.version provided.version withBranches with
    ⟨-, holds⟩ | ⟨-, holds | holds⟩
  · have mirrored := (Operator.isHalfLine_mirror required.operator).trans ranged
    refine iff_of_true ?_ (not_spelledApart_of_holds fun equal => ?_)
    · rw [holds, holds, beq_false_of_ne (Operator.ne_eq_of_isHalfLine mirrored),
        beq_false_of_ne (Operator.ne_eq_of_isHalfLine ranged')]
      rfl
    · simpa [holds] using equal
  · refine iff_of_true ?_ (not_spelledApart_of_holds fun equal => ?_)
    · rw [holds, holds]
      rfl
    · simp [holds] at equal
  · rw [holds, holds]
    by_cases tie : Version.compare required.version provided.version = .eq
    · -- The boundaries tie, and what is left is which of the bounds include theirs.
      rw [tie, Operator.admits_mirror_eq, Operator.admits_eq_of_isHalfLine ranged,
        Operator.admits_eq_of_isHalfLine ranged']
      by_cases texts : required.version = provided.version
      · refine iff_of_true ?_ (not_spelledApart_of_holds fun _ => texts)
        rw [texts]
        cases required.operator.isStrict <;> cases provided.operator.isStrict <;> simp
      · have equal :
            Comparison.holds required.version .eq provided.version withBranches = true := by
          rw [holds, tie]
          rfl
        rw [spelledApart_iff texts equal (Operator.direction_ne_of_faces faces)
          (Operator.ne_ne_of_isHalfLine ranged) (Operator.ne_ne_of_isHalfLine ranged'),
          beq_false_of_ne texts, beq_false_of_ne (Ne.symm texts)]
        simp
    · have texts : required.version ≠ provided.version := by
        intro same
        rw [same] at tie
        exact tie (Version.compare_self _)
      refine iff_of_true ?_ (not_spelledApart_of_holds fun equal => ?_)
      · rw [Operator.admits_mirror_of_faces faces tie, beq_false_of_ne texts,
          beq_false_of_ne texts.symm]
        rfl
      · rw [holds, Operator.admits, beq_iff_eq] at equal
        exact absurd equal tie

/-- The pin of a version and a half line meet in both places or in none, unless the pin is within
the half line or the spelling of the boundary decides. -/
theorem pin_overlaps_comm_iff_of_isHalfLine (ranged : range.operator.isHalfLine = true)
    (version : Text) :
    (pin version).overlaps range withBranches = range.overlaps (pin version) withBranches ↔
      ¬ PinnedWithin (pin version) range withBranches ∧
        ¬ SpelledApart (pin version) range withBranches := by
  have unpinned := Operator.ne_eq_of_isHalfLine ranged
  rw [pin_overlaps_of_isHalfLine withBranches ranged, overlaps_pin, Comparison.holds_eq_comm]
  rcases Comparison.holds_cases version range.version withBranches with
    ⟨both, holds⟩ | ⟨both, holds | holds⟩
  · have told : ¬ SpelledApart (pin version) range withBranches :=
      not_spelledApart_of_holds fun equal => by simpa [pin, holds] using equal
    rw [pinnedWithin_iff_of_isBranch ranged both, and_iff_left told, holds, holds,
      beq_false_of_ne unpinned]
    by_cases same : version = range.version
    · simp [same]
    · simp [same]
  · have told : ¬ SpelledApart (pin version) range withBranches :=
      not_spelledApart_of_holds fun equal => by simp [pin, holds] at equal
    simp [pinnedWithin_iff_of_not_isBranch ranged both, told, holds]
  · rw [pinnedWithin_iff_of_not_isBranch ranged both, holds, holds]
    by_cases tie : Version.compare version range.version = .eq
    · -- The version is at the boundary, and what is left is whether the half line includes it.
      rw [tie, Operator.admits_eq_of_isHalfLine ranged]
      by_cases texts : version = range.version
      · have told : ¬ SpelledApart (pin version) range withBranches :=
          not_spelledApart_of_holds fun _ => texts
        refine iff_of_true ?_ ⟨?_, told⟩
        · rw [texts]
          simp [Operator.admits]
        · simp [Operator.admits]
      · have equal : Comparison.holds version .eq range.version withBranches = true := by
          rw [holds, tie]
          rfl
        have included : (pin version).operator ≠ .ne := by simp [pin]
        have closed : (pin version).operator.isStrict = false :=
          Operator.isStrict_of_not_isHalfLine rfl
        rw [spelledApart_iff texts equal (Operator.direction_eq_ne_of_isHalfLine ranged) included
          (Operator.ne_ne_of_isHalfLine ranged), beq_false_of_ne (Ne.symm texts), closed]
        simp [Operator.admits]
    · have off : Operator.eq.admits (Version.compare version range.version) = false :=
        beq_false_of_ne tie
      have told : ¬ SpelledApart (pin version) range withBranches :=
        not_spelledApart_of_holds fun equal => by simp [pin, holds, off] at equal
      simp [off, told]

theorem pin_overlaps_comm_iff (version : Text) (bound : Bound) :
    (pin version).overlaps bound withBranches = bound.overlaps (pin version) withBranches ↔
      ¬ PinnedWithin (pin version) bound withBranches ∧
        ¬ PinnedWithin bound (pin version) withBranches ∧
        ¬ SpelledApart (pin version) bound withBranches := by
  have within : ¬ PinnedWithin bound (pin version) withBranches :=
    not_pinnedWithin_of_not_isHalfLine rfl
  cases point : bound.operator.isHalfLine with
  | true => rw [pin_overlaps_comm_iff_of_isHalfLine point version, and_iff_right within]
  | false =>
      have same : bound.operator.mirror = bound.operator := Operator.mirror_of_not_isHalfLine point
      refine iff_of_true ?_ ⟨not_pinnedWithin_of_not_isHalfLine point, within, ?_⟩
      · rw [pin_overlaps_of_not_isHalfLine withBranches point, overlaps_pin,
          ← Comparison.holds_mirror, same]
      · intro apart
        exact apart.mixed ((Operator.isStrict_of_not_isHalfLine rfl).trans
          (Operator.isStrict_of_not_isHalfLine point).symm)

/-- Whether two bounds overlap does not depend on which one is required, exactly if neither is a pin
within the other and the spelling of their boundaries does not decide. -/
theorem overlaps_comm_iff (required provided : Bound) (withBranches : Bool) :
    required.overlaps provided withBranches = provided.overlaps required withBranches ↔
      ¬ PinnedWithin required provided withBranches ∧
        ¬ PinnedWithin provided required withBranches ∧
        ¬ SpelledApart required provided withBranches := by
  obtain ⟨op, first⟩ := required
  obtain ⟨op', second⟩ := provided
  rcases op.pairing op' with ⟨down, down'⟩ | ⟨up, up'⟩ | rfl | rfl | faces
  · refine iff_of_true ?_ ⟨not_pinnedWithin_of_ne ?_, not_pinnedWithin_of_ne ?_,
      not_spelledApart_of_opensDown down down'⟩
    · rw [overlaps_of_opensDown withBranches down down',
        overlaps_of_opensDown withBranches down' down]
    · exact Operator.ne_eq_of_opens (.inl down)
    · exact Operator.ne_eq_of_opens (.inl down')
  · refine iff_of_true ?_ ⟨not_pinnedWithin_of_ne ?_, not_pinnedWithin_of_ne ?_,
      not_spelledApart_of_opensUp up up'⟩
    · rw [overlaps_of_opensUp withBranches up up', overlaps_of_opensUp withBranches up' up]
    · exact Operator.ne_eq_of_opens (.inr up)
    · exact Operator.ne_eq_of_opens (.inr up')
  · exact pin_overlaps_comm_iff first ⟨op', second⟩
  · rw [eq_comm, spelledApart_comm, and_left_comm]
    exact pin_overlaps_comm_iff second ⟨op, first⟩
  · obtain ⟨ranged, ranged'⟩ := Operator.isHalfLine_of_faces faces
    have within : ¬ PinnedWithin ⟨op, first⟩ ⟨op', second⟩ withBranches :=
      not_pinnedWithin_of_ne (Operator.ne_eq_of_isHalfLine ranged)
    have within' : ¬ PinnedWithin ⟨op', second⟩ ⟨op, first⟩ withBranches :=
      not_pinnedWithin_of_ne (Operator.ne_eq_of_isHalfLine ranged')
    rw [overlaps_comm_iff_of_faces faces, and_iff_right within, and_iff_right within']

/-- The pin of a version inside a half line is met only where it is provided, and half lines that
tie meet only where the one that includes its boundary is required. -/
theorem overlaps_not_comm :
    (pin "2".toList).overlaps ⟨.ge, "1".toList⟩ false ≠
      overlaps ⟨.ge, "1".toList⟩ (pin "2".toList) false ∧
    overlaps ⟨.le, "1.0".toList⟩ ⟨.gt, "1-0".toList⟩ false ≠
      overlaps ⟨.gt, "1-0".toList⟩ ⟨.le, "1.0".toList⟩ false := by
  decide

end Bound

end VersionRanges

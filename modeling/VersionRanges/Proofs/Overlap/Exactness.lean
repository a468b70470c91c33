/-
# The overlap of two bounds is exact

Two bounds overlap exactly if some release satisfies both. The decision builds no interval and no
witness, so that the releases have to be found here: beyond any two given ones, and between any two
that differ. Branches are left aside, because they are not ordered, and so are boundaries that
compare equal under two spellings, which the decision tells apart by their text.
-/
import Mathlib.Tactic.Order
import VersionRanges.Proofs.Order.Realization
import VersionRanges.Proofs.Overlap.Decision

namespace VersionRanges

/-! ## Operators over a linear order -/

namespace Operator

section

variable {α : Type} [LinearOrder α] {op op' : Operator}

/-- The relation of an operator in a linear order. -/
def Relates : Operator → α → α → Prop
  | eq, x, y => x = y
  | lt, x, y => x < y
  | le, x, y => x ≤ y
  | gt, x, y => y < x
  | ge, x, y => y ≤ x
  | ne, x, y => x ≠ y

theorem admits_cmp_iff (op : Operator) (x y : α) :
    op.admits (cmp x y) = true ↔ op.Relates x y := by
  rcases lt_trichotomy x y with below | rfl | above
  · rw [below.cmp_eq_lt]
    cases op <;> simp [admits, Relates, below, below.le, below.ne, below.not_gt]
  · rw [cmp_self_eq_eq]
    cases op <;> simp [admits, Relates]
  · rw [above.cmp_eq_gt]
    cases op <;> simp [admits, Relates, above, above.le, above.ne', above.not_gt]

theorem relates_of_lt (down : op.opensDown = true) {x y : α} (below : x < y) : op.Relates x y := by
  cases op with
  | lt => exact below
  | le => exact below.le
  | ne => exact below.ne
  | _ => cases down

theorem relates_of_gt (up : op.opensUp = true) {x y : α} (above : y < x) : op.Relates x y := by
  cases op with
  | gt => exact above
  | ge => exact above.le
  | ne => exact above.ne'
  | _ => cases up

theorem le_of_relates (closed : op.opensUp = false) {x y : α} (related : op.Relates x y) :
    x ≤ y := by
  cases op with
  | eq => exact le_of_eq related
  | lt => exact le_of_lt related
  | le => exact related
  | _ => cases closed

theorem ge_of_relates (closed : op.opensDown = false) {x y : α} (related : op.Relates x y) :
    y ≤ x := by
  cases op with
  | eq => exact ge_of_eq related
  | gt => exact le_of_lt related
  | ge => exact related
  | _ => cases closed

theorem relates_comm (point : op.isHalfLine = false) (x y : α) :
    op.Relates x y ↔ op.Relates y x := by
  cases op with
  | eq => exact eq_comm
  | ne => exact ne_comm
  | _ => cases point

theorem exists_relates_of_opensDown [NoMinOrder α] (down : op.opensDown = true)
    (down' : op'.opensDown = true) (x y : α) : ∃ z, op.Relates z x ∧ op'.Relates z y := by
  obtain ⟨z, below⟩ := exists_lt (min x y)
  obtain ⟨below, below'⟩ := lt_min_iff.mp below
  exact ⟨z, relates_of_lt down below, relates_of_lt down' below'⟩

theorem exists_relates_of_opensUp [NoMaxOrder α] (up : op.opensUp = true)
    (up' : op'.opensUp = true) (x y : α) : ∃ z, op.Relates z x ∧ op'.Relates z y := by
  obtain ⟨z, above⟩ := exists_gt (max x y)
  obtain ⟨above, above'⟩ := max_lt_iff.mp above
  exact ⟨z, relates_of_gt up above, relates_of_gt up' above'⟩

/-- Half lines that face each other have a point in common exactly if the boundary of the second
lies in the first, and both hold it where the boundaries fall together. -/
theorem exists_relates_of_faces [DenselyOrdered α] (faces : op.faces op' = true) (x y : α) :
    (∃ z, op.Relates z x ∧ op'.Relates z y) ↔
      op.Relates y x ∧ ¬ (y = x ∧ op'.isStrict = true ∧ op.isStrict = false) := by
  obtain ⟨up, down, turned⟩ := opens_of_faces faces
  constructor
  · intro shared
    obtain ⟨z, first, second⟩ := shared
    constructor
    · cases op <;> cases op' <;> cases faces <;> simp only [Relates] at first second ⊢ <;> order
    · intro split
      obtain ⟨rfl, strict, closed⟩ := split
      cases op <;> cases op' <;> cases faces <;> cases strict <;> cases closed <;>
        simp only [Relates] at first second <;> order
  · intro meets
    obtain ⟨reaches, shared⟩ := meets
    by_cases same : y = x
    · subst same
      -- Neither half line leaves the shared boundary out, so that it lies in both.
      refine ⟨y, reaches, ?_⟩
      cases op <;> cases op' <;> cases faces <;> simp_all [Relates, isStrict, symbol, direction]
    · cases side : op.opensDown with
      | true =>
          have below : y < x := lt_of_le_of_ne (le_of_relates (by simp [turned, side]) reaches) same
          obtain ⟨z, above, below'⟩ := exists_between below
          exact ⟨z, relates_of_lt side below', relates_of_gt (by rw [up, side]) above⟩
      | false =>
          have above : x < y := lt_of_le_of_ne (ge_of_relates side reaches) (Ne.symm same)
          obtain ⟨z, above', below⟩ := exists_between above
          have side' : op.opensUp = true := by simp [turned, side]
          exact ⟨z, relates_of_gt side' above', relates_of_lt (by rw [down, side']) below⟩

end

end Operator

/-- Versions that do not tie under two spellings stand in one place only if they are one text. -/
theorem Version.standing_eq_iff_of_spelled {first second : Text} (unsigned : '#' ∉ first)
    (unsigned' : '#' ∉ second) (spelled : first = second ∨ compare first second ≠ .eq) :
    standing second = standing first ↔ second = first := by
  constructor
  · intro shared
    rcases spelled with text | apart
    · exact text.symm
    · refine absurd ?_ apart
      rw [compare_eq_cmp unsigned unsigned', shared, cmp_self_eq_eq]
  · intro text
    rw [text]

namespace Comparison

open Version (standing)

/-- Releases are in the relation of an operator exactly if their standings are. -/
theorem holds_iff_relates {first second : Text} (op : Operator) (unsigned : '#' ∉ first)
    (unsigned' : '#' ∉ second) (release : Branch.isBranch first = false)
    (release' : Branch.isBranch second = false) :
    holds first op second false = true ↔ op.Relates (standing first) (standing second) := by
  rw [holds_of_comparable (by simp [release]) (.inr (release.trans release'.symm)),
    Version.compare_eq_cmp unsigned unsigned', Operator.admits_cmp_iff]

/-- A release in two given relations is there as soon as a standing is. -/
theorem exists_release_iff {first second : Text} (op op' : Operator) (unsigned : '#' ∉ first)
    (unsigned' : '#' ∉ second) (release : Branch.isBranch first = false)
    (release' : Branch.isBranch second = false) :
    (∃ version, '#' ∉ version ∧ Branch.isBranch version = false ∧
      holds version op first false = true ∧ holds version op' second false = true) ↔
    ∃ place, op.Relates place (standing first) ∧ op'.Relates place (standing second) := by
  constructor
  · intro inside
    obtain ⟨version, plain, single, related, related'⟩ := inside
    rw [holds_iff_relates op plain unsigned single release] at related
    rw [holds_iff_relates op' plain unsigned' single release'] at related'
    exact ⟨standing version, related, related'⟩
  · intro inside
    obtain ⟨place, related, related'⟩ := inside
    have plain := place.not_mem_text_numberSign
    have single := place.isBranch_text
    refine ⟨place.text, plain, single, ?_, ?_⟩
    · rw [holds_iff_relates op plain unsigned single release, place.standing_text]
      exact related
    · rw [holds_iff_relates op' plain unsigned' single release', place.standing_text]
      exact related'

end Comparison

namespace Bound

/-- Two bounds on releases overlap exactly if some release satisfies both of them. Left aside are a
required pin beside a half line, which is compared for equality alone, and boundaries that compare
equal under two spellings. -/
theorem overlaps_iff_exists_release {required provided : Bound} (unsigned : '#' ∉ required.version)
    (unsigned' : '#' ∉ provided.version) (release : Branch.isBranch required.version = false)
    (release' : Branch.isBranch provided.version = false)
    (spelled : required.version = provided.version ∨
      Version.compare required.version provided.version ≠ .eq)
    (ranged : ¬ (required.operator = .eq ∧ provided.operator.isHalfLine = true)) :
    required.overlaps provided false = true ↔
      ∃ version, '#' ∉ version ∧ Branch.isBranch version = false ∧
        required.admits version = true ∧ provided.admits version = true := by
  obtain ⟨op, first⟩ := required
  obtain ⟨op', second⟩ := provided
  have same := Version.standing_eq_iff_of_spelled unsigned unsigned' spelled
  simp only [admits]
  rw [Comparison.exists_release_iff op op' unsigned unsigned' release release']
  rcases op.pairing op' with ⟨down, down'⟩ | ⟨up, up'⟩ | rfl | rfl | faces
  · exact iff_of_true (overlaps_of_opensDown false down down')
      (Operator.exists_relates_of_opensDown down down' _ _)
  · exact iff_of_true (overlaps_of_opensUp false up up')
      (Operator.exists_relates_of_opensUp up up' _ _)
  · have point : op'.isHalfLine = false := by simpa using ranged
    change (pin first).overlaps ⟨op', second⟩ false = true ↔ _
    rw [pin_overlaps_of_not_isHalfLine false point,
      Comparison.holds_iff_relates op' unsigned' unsigned release' release,
      Operator.relates_comm point]
    constructor
    · intro related
      exact ⟨_, rfl, related⟩
    · intro inside
      obtain ⟨place, rfl, related⟩ := inside
      exact related
  · change overlaps ⟨op, first⟩ (pin second) false = true ↔ _
    rw [overlaps_pin, Comparison.holds_iff_relates op unsigned' unsigned release' release]
    constructor
    · intro related
      exact ⟨_, related, rfl⟩
    · intro inside
      obtain ⟨place, related, rfl⟩ := inside
      exact related
  · rw [Operator.exists_relates_of_faces faces, overlaps_of_faces false faces, same,
      Bool.and_eq_true, Comparison.holds_iff_relates op unsigned' unsigned release' release]
    refine and_congr_right fun _ => ?_
    cases op.isStrict <;> cases op'.isStrict <;> simp

/-- There are further versions between a preview and its release. -/
theorem overlaps_iff_exists_release_preview :
    ∃ version, '#' ∉ version ∧ Branch.isBranch version = false ∧
      admits ⟨.lt, "2.0".toList⟩ version = true ∧ admits ⟨.gt, "2.0-b1".toList⟩ version = true :=
  (overlaps_iff_exists_release (by decide) (by decide) (by decide) (by decide)
    (.inr (by decide)) (by decide)).mp (by decide)

end Bound

end VersionRanges

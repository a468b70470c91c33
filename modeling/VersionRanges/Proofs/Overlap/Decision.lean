/-
# The decision between two bounds

`Bound.overlaps` tries four rules in turn. Which of them decides depends on the two operators alone,
and this module states the outcome for each pairing of operators: both ranges open to one side, one
bound a pin, or half lines that face each other. Comparisons under an operator are taken apart in
the same way, by whether branches are involved.
-/
import VersionRanges.Constraint.Bound
import VersionRanges.Proofs.Order.Preorder

namespace VersionRanges

/-! ## Operators -/

namespace Operator

/-- Whether all versions far enough down stand in the relation of an operator. -/
def opensDown : Operator → Bool
  | lt | le | ne => true
  | eq | gt | ge => false

/-- Whether all versions far enough up stand in the relation of an operator. -/
def opensUp : Operator → Bool
  | gt | ge | ne => true
  | eq | lt | le => false

/-- Whether an operator admits the versions on one side of its boundary. -/
def isHalfLine : Operator → Bool
  | lt | le | gt | ge => true
  | eq | ne => false

/-- Whether two operators admit the versions on different sides of their boundaries. -/
def faces (op op' : Operator) : Bool :=
  op.isHalfLine && op'.isHalfLine && op.opensDown == op'.opensUp

theorem opens_of_faces {op op' : Operator} (faces : op.faces op' = true) :
    op'.opensUp = op.opensDown ∧ op'.opensDown = op.opensUp ∧ op.opensUp = !op.opensDown := by
  cases op <;> cases op' <;> cases faces <;> decide

theorem isHalfLine_of_faces {op op' : Operator} (faces : op.faces op' = true) :
    op.isHalfLine = true ∧ op'.isHalfLine = true := by
  cases op <;> cases op' <;> cases faces <;> decide

theorem faces_symm {op op' : Operator} (faces : op.faces op' = true) : op'.faces op = true := by
  cases op <;> cases op' <;> cases faces <;> rfl

/-- Two ranges are open to one side, or one of them is a point, or they face each other. -/
theorem pairing (op op' : Operator) :
    (op.opensDown = true ∧ op'.opensDown = true) ∨ (op.opensUp = true ∧ op'.opensUp = true) ∨
      op = eq ∨ op' = eq ∨ op.faces op' = true := by
  cases op <;> cases op' <;> decide

end Operator

/-! ## Comparisons -/

namespace Comparison

theorem order_swap (first second : Option Text) :
    order second first = (order first second).swap := by
  cases first <;> cases second
  · rfl
  · rfl
  · rfl
  · exact Version.compare_swap _ _

/-- Exchanging two optional versions exchanges the operator with its mirror. -/
theorem holdsBetween_mirror (first second : Option Text) (op : Operator) (withBranches : Bool) :
    holdsBetween second first op.mirror withBranches =
      holdsBetween first second op withBranches := by
  have point : (op.mirror == .eq) = (op == .eq) := by cases op <;> rfl
  have texts : (second == first) = (first == second) := Bool.beq_comm
  simp only [holdsBetween, point, texts, order_swap first second, Operator.admits_mirror]
  cases isBranch first <;> cases isBranch second <;> rfl

theorem holds_mirror (first second : Text) (op : Operator) (withBranches : Bool) :
    holds second op.mirror first withBranches = holds first op second withBranches :=
  holdsBetween_mirror (some first) (some second) op withBranches

section

variable {first second : Text} {withBranches : Bool}

/-- Two branches are in no relation but that of being the same. -/
theorem holds_of_isBranch (branch : Branch.isBranch first = true)
    (branch' : Branch.isBranch second = true) (op : Operator) :
    holds first op second withBranches = (op == .eq && first == second) := by
  simp [holds, holdsBetween, isBranch, branch, branch']

/-- A branch and a release are in no relation at all, unless branches are compared. -/
theorem holds_of_isBranch_ne (apart : Branch.isBranch first ≠ Branch.isBranch second)
    (op : Operator) : holds first op second false = false := by
  cases branch : Branch.isBranch first <;> cases branch' : Branch.isBranch second <;>
    simp_all [holds, holdsBetween, isBranch]

/-- All other versions are in the relation in which their comparison is. -/
theorem holds_of_comparable
    (comparable : ¬ (Branch.isBranch first = true ∧ Branch.isBranch second = true))
    (mixed : withBranches = true ∨ Branch.isBranch first = Branch.isBranch second)
    (op : Operator) :
    holds first op second withBranches = op.admits (Version.compare first second) := by
  cases branch : Branch.isBranch first <;> cases branch' : Branch.isBranch second <;>
    simp_all [holds, holdsBetween, isBranch, order]

end

end Comparison

/-! ## Bounds -/

namespace Bound

variable {required provided : Bound} (withBranches : Bool)

/-- Ranges that are open downward meet far enough down. -/
theorem overlaps_of_opensDown (down : required.operator.opensDown = true)
    (down' : provided.operator.opensDown = true) :
    required.overlaps provided withBranches = true := by
  obtain ⟨op, boundary⟩ := required
  obtain ⟨op', boundary'⟩ := provided
  cases op <;> cases down <;> cases op' <;> cases down' <;>
    simp [overlaps, Operator.direction, Operator.symbol]

/-- Ranges that are open upward meet far enough up. -/
theorem overlaps_of_opensUp (up : required.operator.opensUp = true)
    (up' : provided.operator.opensUp = true) :
    required.overlaps provided withBranches = true := by
  obtain ⟨op, boundary⟩ := required
  obtain ⟨op', boundary'⟩ := provided
  cases op <;> cases up <;> cases op' <;> cases up' <;>
    simp [overlaps, Operator.direction, Operator.symbol]

/-- A bound overlaps the pin of a version exactly if the version stands in the relation of the
bound. -/
theorem overlaps_pin (bound : Bound) (version : Text) :
    bound.overlaps (pin version) withBranches =
      Comparison.holds version bound.operator bound.version withBranches := by
  obtain ⟨op, boundary⟩ := bound
  cases op <;> simp [overlaps, pin, Operator.direction, Operator.symbol, Operator.isStrict]

/-- The pin of a version overlaps a bound that is no half line in the same case. -/
theorem pin_overlaps_of_not_isHalfLine {bound : Bound}
    (point : bound.operator.isHalfLine = false) (version : Text) :
    (pin version).overlaps bound withBranches =
      Comparison.holds bound.version bound.operator version withBranches := by
  obtain ⟨op, boundary⟩ := bound
  cases op <;> cases point <;>
    simp [overlaps, pin, Operator.direction, Operator.symbol, Operator.isStrict]

/-- The pin of a version overlaps a half line only if its boundary is that version. -/
theorem pin_overlaps_of_isHalfLine {bound : Bound} (range : bound.operator.isHalfLine = true)
    (version : Text) :
    (pin version).overlaps bound withBranches =
      (Comparison.holds bound.version .eq version withBranches &&
        !(bound.version == version && bound.operator.isStrict)) := by
  obtain ⟨op, boundary⟩ := bound
  cases op <;> cases range <;>
    simp [overlaps, pin, Operator.direction, Operator.symbol, Operator.isStrict]

/-- Half lines that face each other overlap if the boundary of the provided one stands in the
relation of the required one, and is not left out by the provided one alone. -/
theorem overlaps_of_faces (faces : required.operator.faces provided.operator = true) :
    required.overlaps provided withBranches =
      (Comparison.holds provided.version required.operator required.version withBranches &&
        !(provided.version == required.version && provided.operator.isStrict &&
          !required.operator.isStrict)) := by
  obtain ⟨op, boundary⟩ := required
  obtain ⟨op', boundary'⟩ := provided
  cases op <;> cases op' <;> cases faces <;>
    simp [overlaps, Operator.direction, Operator.symbol, Operator.isStrict]

end Bound

end VersionRanges

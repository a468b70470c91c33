/-
# Branches keep to themselves

The name of a branch may look like any other part of a constraint. Behind the marker it is a name
all the same: a branch satisfies another one only if the two are the same, or if both names stand
for the default branch. No release meets a constraint on branches and no branch one on releases,
whatever the operators are and however deep the bounds stand.
-/
import VersionRanges.Proofs.Normal.Core
import VersionRanges.Proofs.Overlap.Built
import VersionRanges.Proofs.Ranges.Lone

namespace VersionRanges

/-! ## Marked names -/

namespace Branch

/-- The name of a branch that can stand in a constraint as it is: no blank divides it, and neither
does a sign that constraints have a use for. -/
def IsPlainName (name : Text) : Prop :=
  ∀ c ∈ name, Text.isBlank c = false ∧ c ∉ [',', '|', '@', '#', '+']

/-- The names that stand for the default branch, in any case. Letters beyond ASCII that fold to the
letters of a name may stand in their place. -/
def IsDefaultName (name : Text) : Prop := name.map Text.foldCase ∈ defaultNames

instance (name : Text) : Decidable (IsDefaultName name) :=
  inferInstanceAs (Decidable (_ ∈ _))

/-- A marked name is the default branch if the name is one of that. -/
theorem isDefault_marker_append (name : Text) :
    isDefault (marker ++ name) = true ↔ IsDefaultName name := by
  have folded : (marker ++ name).map Text.foldCase = marker ++ name.map Text.foldCase :=
    List.map_append
  have apart : ∀ default ∈ defaultNames, marker ++ name.map Text.foldCase ≠ default := by
    simp [defaultNames, marker]
  simp only [isDefault, List.any_eq_true, Bool.or_eq_true, Text.spells, beq_iff_eq, folded,
    List.append_cancel_left_eq]
  constructor
  · rintro ⟨default, listed, whole | named⟩
    · exact absurd whole (apart default listed)
    · rwa [IsDefaultName, named]
  · intro listed
    exact ⟨_, listed, .inr rfl⟩

theorem IsPlainName.not_mem {name : Text} (plain : IsPlainName name) {sign : Char}
    (other : sign ∈ [',', '|', '@', '#', '+']) : sign ∉ name :=
  fun inside => (plain sign inside).2 other

theorem IsPlainName.isPartChar {name : Text} (plain : IsPlainName name) :
    ∀ c ∈ name, Alias.isPartChar c = true := by
  intro c inside
  obtain ⟨solid, other⟩ := plain c inside
  have comma : c ≠ ',' := by
    rintro rfl
    exact other (by simp)
  simp [Alias.isPartChar, solid, comma]

end Branch

open Branch (IsPlainName IsDefaultName)

namespace Version

/-- A marked name is a normal form itself, unless it stands for the default branch. -/
theorem normalize_marker_append {name : Text} (plain : IsPlainName name) :
    normalize ("dev-".toList ++ name) =
      .ok (if IsDefaultName name then Branch.defaultVersion else "dev-".toList ++ name) := by
  have whole : ∀ c ∈ "dev-".toList ++ name, Alias.isPartChar c = true :=
    List.forall_mem_append.mpr ⟨List.all_eq_true.mp (by decide), plain.isPartChar⟩
  have unextended : '+' ∉ "dev-".toList ++ name := by
    simpa using plain.not_mem (by decide)
  rw [normalize_eq_ok_iff, core_eq_self whole unextended, normalForm?]
  by_cases default : IsDefaultName name
  · rw [if_pos default]
    exact if_pos ((Branch.isDefault_marker_append name).mpr default)
  · rw [if_neg default]
    exact if_neg (mt (Branch.isDefault_marker_append name).mp default)

end Version

namespace Constraint

/-- A marked name is one term. -/
theorem isLone_marker_append {name : Text} (plain : IsPlainName name) :
    IsLone ("dev-".toList ++ name) := by
  refine isLone_of_absent (by simp) ?_ ?_ rfl
  · exact List.forall_mem_append.mpr
      ⟨List.all_iff_forall_prop.mp (by decide), fun c inside => (plain c inside).1⟩
  · intro sign listed inside
    rcases List.mem_append.mp inside with marked | named
    · revert marked
      simp only [List.mem_cons, List.not_mem_nil, or_false] at listed
      rcases listed with rfl | rfl | rfl | rfl <;> decide
    · exact plain.not_mem (List.mem_append_left ['+'] listed) named

end Constraint

/-! ## Isolation -/

namespace Selection

open Constraint

/-- A branch satisfies another one if the two are the same or both are the default branch. -/
theorem satisfies_marker_append_iff {name name' : Text} (plain : IsPlainName name)
    (plain' : IsPlainName name') :
    satisfies ("dev-".toList ++ name) ("dev-".toList ++ name') = true ↔
      name = name' ∨ IsDefaultName name ∧ IsDefaultName name' := by
  have readable := Version.normalize_marker_append plain
  have range := readBounds_marked plain'.isPartChar (Version.normalize_marker_append plain')
  rw [(isLone_marker_append plain').satisfies_eq range readable, List.all_cons, List.all_nil,
    Bool.and_true]
  change Comparison.holds _ .eq _ false = true ↔ _
  have branch (name : Text) : Branch.isBranch ("dev-".toList ++ name) = true :=
    Branch.isBranch_marker_append name
  have apart (name : Text) :
      Branch.isBranch Branch.defaultVersion ≠ Branch.isBranch ("dev-".toList ++ name) := by
    rw [branch]
    decide
  by_cases default : IsDefaultName name <;> by_cases default' : IsDefaultName name'
  · rw [if_pos default, if_pos default']
    exact iff_of_true (by decide) (.inr ⟨default, default'⟩)
  · rw [if_pos default, if_neg default', Comparison.holds_of_isBranch_ne (apart name')]
    refine iff_of_false Bool.false_ne_true ?_
    rintro (rfl | both)
    · exact default' default
    · exact default' both.2
  · rw [if_neg default, if_pos default', Comparison.holds_of_isBranch_ne (apart name).symm]
    refine iff_of_false Bool.false_ne_true ?_
    rintro (rfl | both)
    · exact default default'
    · exact default both.1
  · rw [if_neg default, if_neg default', Comparison.holds_of_isBranch (branch name) (branch name')]
    simp [default]

end Selection

namespace Constraint

/-- Branches and releases do not meet. A branch satisfies another one if the two are the same or
both are the default branch; and if the leaves of a constraint are bounds on releases alone, no
branch meets it, as no release meets one whose leaves are bounds on branches alone. -/
theorem isolates_branches :
    (∀ name name' : Text, IsPlainName name → IsPlainName name' →
      (Selection.satisfies ("dev-".toList ++ name) ("dev-".toList ++ name') = true ↔
        name = name' ∨ IsDefaultName name ∧ IsDefaultName name')) ∧
    ∀ (required : Constraint) (version : Text) (label : Option Text), IsBuilt required →
      LeavesAre (fun bound => Branch.isBranch bound.version ≠ Branch.isBranch version) required →
        required.overlaps (atom (Bound.pin version) label) = false := by
  refine ⟨fun name name' plain plain' => Selection.satisfies_marker_append_iff plain plain', ?_⟩
  intro required version label built leaves
  apply ((isBuilt_iff_isPopulated required).mp built).evaluate_eq_false
  refine leaves.imp fun bound apart => ?_
  change bound.overlaps (Bound.pin version) false = false
  rw [Bound.overlaps_pin]
  exact Comparison.holds_of_isBranch_ne apart.symm bound.operator

/-- Two spellings of the default branch, with letters that are not in ASCII, and a branch beside
bounds that exclude releases. -/
theorem isolates_branches_nested :
    Selection.satisfies "dev-ma\u017Fter".toList "dev-TRUN\u212A".toList = true ∧
      ∃ required, parse "!=1.0,>0.9 || !=2.0".toList = .ok required ∧
        required.overlaps (atom (Bound.pin "dev-main".toList) none) = false := by
  have plain : IsPlainName "ma\u017Fter".toList := List.all_iff_forall_prop.mp (by decide)
  have plain' : IsPlainName "TRUN\u212A".toList := List.all_iff_forall_prop.mp (by decide)
  have same := (isolates_branches.1 _ _ plain plain').mpr (.inr ⟨by decide, by decide⟩)
  have reads : parse "!=1.0,>0.9 || !=2.0".toList =
      .ok (group .or
        [group .and
          [atom ⟨.ne, "1.0.0.0".toList⟩ none, atom ⟨.gt, "0.9.0.0".toList⟩ none] none,
          atom ⟨.ne, "2.0.0.0".toList⟩ none]
        (some "!=1.0,>0.9 || !=2.0".toList)) := rfl
  refine ⟨same, _, reads, isolates_branches.2 _ _ none (.of_parse reads) ?_⟩
  have excluded : LeavesAre (fun bound => Branch.isBranch bound.version ≠
      Branch.isBranch "dev-main".toList) (atom ⟨.ne, "2.0.0.0".toList⟩ none) :=
    .atom none (by decide)
  refine .group .or _ (List.forall_mem_cons.mpr ⟨.group .and none ?_, by simpa using excluded⟩)
  simp only [List.forall_mem_cons]
  exact ⟨.atom none (by decide), .atom none (by decide), List.forall_mem_nil _⟩

end Constraint

end VersionRanges

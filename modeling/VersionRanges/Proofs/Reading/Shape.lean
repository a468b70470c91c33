/-
# The shape of constraints that are read

A text is divided into alternatives and those into terms, and each term stands for leaves. So the
constraint of a text has at most two levels above its leaves: alternatives joined by *or*, and
leaves joined by *and*. Joining leaves no group with a single member, and no node has a label but
the root, which gets the text.
-/
import VersionRanges.Proofs.Reading.Outcome

namespace VersionRanges.Constraint

/-! ## Shapes -/

/-- A bound, or the constraint that admits everything, without a label. -/
inductive IsLeaf : Constraint → Prop
  | anything : IsLeaf (anything none)
  | atom (bound : Bound) : IsLeaf (atom bound none)

/-- A constraint with a property, or an unlabelled group of at least two of them. -/
inductive IsJoined (connective : Connective) (property : Constraint → Prop) : Constraint → Prop
  | single {member : Constraint} (has : property member) : IsJoined connective property member
  | several {members : List Constraint} (two : 2 ≤ members.length)
      (each : ∀ member ∈ members, property member) :
      IsJoined connective property (group connective members none)

/-- A leaf, or at least two leaves that have to hold together. -/
abbrev IsConjunction : Constraint → Prop := IsJoined .and IsLeaf

/-- Disjunctive normal form without trivial groups: a leaf, or at least two leaves that have to hold
together, or at least two alternatives, each of which is a leaf or at least two leaves. -/
abbrev IsDisjunction : Constraint → Prop := IsJoined .or IsConjunction

/-- Joining makes no trivial group. Nothing to join makes a leaf. -/
theorem isJoined_join (connective : Connective) {property : Constraint → Prop}
    {members : List Constraint} (universal : property (anything none))
    (each : ∀ member ∈ members, property member) :
    IsJoined connective property (join connective members) := by
  match members with
  | [] => exact .single universal
  | [member] => exact .single (each member List.mem_cons_self)
  | first :: second :: members => exact .several (by simp) each

theorem label_withLabel (text : Text) (constraint : Constraint) :
    (constraint.withLabel text).label = some text := by
  cases constraint <;> rfl

/-! ## Reading -/

/-- A term stands for leaves. -/
theorem isLeaf_of_readTerm {term : Text} {members : List Constraint}
    (reads : readTerm term = .ok members) : ∀ member ∈ members, IsLeaf member := by
  rcases eq_anything_or_exists_of_readTerm reads with rfl | ⟨bounds, -, rfl⟩
  · exact List.forall_mem_singleton.mpr .anything
  · exact List.forall_mem_map.mpr fun bound _ => .atom bound

/-- An alternative stands for one leaf or for several that have to hold together. -/
theorem ReadsAs.isConjunction {alternative : Text} {member : Constraint}
    (reads : ReadsAs alternative member) : IsConjunction member := by
  obtain ⟨-, terms, readTerms, rfl⟩ := reads
  apply isJoined_join .and .anything
  intro leaf flattened
  obtain ⟨leaves, listed, inside⟩ := List.mem_flatten.mp flattened
  obtain ⟨term, -, readTerm⟩ := exists_of_mem_right (mapM_eq_ok_iff.mp readTerms) listed
  exact isLeaf_of_readTerm readTerm leaf inside

/-- The constraint of a text is in disjunctive normal form without trivial groups. Its root carries
the text as it was given, and no other node carries a label. -/
theorem isDisjunction_of_parse {text : Text} {required : Constraint}
    (reads : parse text = .ok required) :
    required.label = some text ∧
      ∃ unlabelled, IsDisjunction unlabelled ∧ unlabelled.withLabel text = required := by
  obtain ⟨members, read, rfl⟩ := parse_eq_ok_iff.mp reads
  refine ⟨label_withLabel text _, _, ?_, rfl⟩
  apply isJoined_join .or (.single .anything)
  intro member listed
  obtain ⟨alternative, -, readsAs⟩ := exists_of_mem_right read listed
  exact readsAs.isConjunction

/-- A caret range is a group of two bounds, the wildcard is a leaf, and the two make one group. -/
theorem isDisjunction_of_parse_mixed :
    (group .or [group .and [atom ⟨.ge, "1.2.0.0-dev".toList⟩ none,
        atom ⟨.lt, "2.0.0.0-dev".toList⟩ none] none, anything none]
      (some "  ^1.2 || *".toList)).label = some "  ^1.2 || *".toList ∧
    ∃ unlabelled, IsDisjunction unlabelled ∧ unlabelled.withLabel "  ^1.2 || *".toList =
      group .or [group .and [atom ⟨.ge, "1.2.0.0-dev".toList⟩ none,
        atom ⟨.lt, "2.0.0.0-dev".toList⟩ none] none, anything none]
      (some "  ^1.2 || *".toList) := by
  have reads : parse "  ^1.2 || *".toList = .ok (group .or [group .and
      [atom ⟨.ge, "1.2.0.0-dev".toList⟩ none, atom ⟨.lt, "2.0.0.0-dev".toList⟩ none] none,
      anything none] (some "  ^1.2 || *".toList)) := rfl
  exact isDisjunction_of_parse reads

end VersionRanges.Constraint

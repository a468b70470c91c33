/-
# What terms say about versions

A term stands for bounds, and bounds are told apart by the versions that meet them and by nothing
else: by their operators and by the standings of the versions that they are at, however these are
spelled. Terms that say the same can both be read or neither, and the same versions satisfy them.
-/
import VersionRanges.Proofs.Normal.Origin
import VersionRanges.Proofs.Ranges.Lone
import VersionRanges.Proofs.Ranges.Span

namespace VersionRanges

open Version (IsFloor IsNumeral standing)

/-! ## Bounds -/

/-- The normal forms of versions. -/
abbrev NormalForm : Type := {normal : Text // ∃ version, Version.normalize version = .ok normal}

/-- The normal forms that meet a bound. -/
def Bound.takes (bound : Bound) (normal : NormalForm) : Bool := bound.admits normal

/-- A bound at a version made of components takes the releases that its operator relates to the
standing of that version, and no branches. -/
theorem Bound.takes_eq {version : Text} (isNumeral : IsNumeral version) (op : Operator)
    (normal : NormalForm) :
    (⟨op, version⟩ : Bound).takes normal =
      (!Branch.isBranch normal && op.admits (cmp (standing normal) (standing version))) := by
  obtain ⟨normal, written, reads⟩ := normal
  have release := isNumeral.release
  change Comparison.holds normal op version false = _
  cases branch : Branch.isBranch normal with
  | true => exact Comparison.holds_of_isBranch_ne (by simp [branch, release]) op
  | false =>
      rw [Comparison.holds_of_comparable (by simp [release]) (.inr (branch.trans release.symm)),
        Version.compare_eq_cmp (Version.unsigned_of_normalize reads branch) isNumeral.unsigned]
      rfl

/-- Bounds at versions of one standing take the same versions. -/
theorem Bound.takes_congr {version version' : Text} (isNumeral : IsNumeral version)
    (isNumeral' : IsNumeral version') (same : standing version = standing version')
    (op : Operator) : (⟨op, version⟩ : Bound).takes = (⟨op, version'⟩ : Bound).takes := by
  funext normal
  rw [takes_eq isNumeral, takes_eq isNumeral', same]

/-- Bounds at floors of the same numbers take the same versions. -/
theorem Version.IsFloor.takes_eq {numbers : List ℕ} {version version' : Text}
    (floor : IsFloor numbers version) (floor' : IsFloor numbers version') (op : Operator) :
    (⟨op, version⟩ : Bound).takes = (⟨op, version'⟩ : Bound).takes := by
  obtain ⟨numeral, rfl, has, lowest⟩ := floor
  obtain ⟨numeral', rfl, has', lowest'⟩ := floor'
  have same := Numeral.standing_congr (has.trans has'.symm) (lowest.trans lowest'.symm)
  exact Bound.takes_congr ⟨numeral, rfl⟩ ⟨numeral', rfl⟩ same op

/-! ## Terms -/

namespace Constraint

/-- The normal forms that meet all bounds of a term, if it can be read. -/
def meaning? (text : Text) : Option (NormalForm → Bool) :=
  (readBounds text none).toOption.map fun bounds normal => bounds.all (·.takes normal)

/-- A version satisfies one term if it can be read, the term can be, and the version is among those
that the term means. -/
theorem IsLone.satisfies_eq_meaning? {text : Text} (lone : IsLone text) {version normal : Text}
    (reads : Version.normalize version = .ok normal) :
    Selection.satisfies version text =
      ((meaning? text).map (· ⟨normal, version, reads⟩)).getD false := by
  rw [meaning?]
  cases bounds : readBounds text none with
  | ok bounds => exact lone.satisfies_eq bounds reads
  | error fault =>
      have refused : ∀ required, parse text ≠ .ok required := by
        intro required parses
        obtain ⟨_, found⟩ := lone.exists_parse_iff.mp ⟨required, parses⟩
        rw [bounds] at found
        cases found
      rw [Selection.satisfies, Selection.trySatisfies, reads]
      cases parses : parse text with
      | ok required => exact absurd parses (refused required)
      | error _ => rfl

theorem IsLone.exists_parse_iff_meaning? {text : Text} (lone : IsLone text) :
    (∃ required, parse text = .ok required) ↔ (meaning? text).isSome = true := by
  rw [lone.exists_parse_iff, meaning?]
  cases readBounds text none <;> simp [Except.toOption]

/-- Two terms have one meaning if both can be read or neither, and the same versions satisfy
them. -/
theorem IsLone.meaning?_eq_iff {text text' : Text} (lone : IsLone text) (lone' : IsLone text') :
    meaning? text = meaning? text' ↔
      ((∃ required, parse text = .ok required) ↔ ∃ required, parse text' = .ok required) ∧
        ∀ version, Selection.satisfies version text = Selection.satisfies version text' := by
  rw [lone.exists_parse_iff_meaning?, lone'.exists_parse_iff_meaning?]
  constructor
  · intro same
    refine ⟨by rw [same], fun version => ?_⟩
    cases reads : Version.normalize version with
    | ok normal => rw [lone.satisfies_eq_meaning? reads, lone'.satisfies_eq_meaning? reads, same]
    | error fault =>
        simp only [Selection.satisfies, Selection.trySatisfies, reads]
        rfl
  · rintro ⟨readable, satisfied⟩
    -- each normal form is one of some version, and that version tells whether it is taken
    have taken (normal : NormalForm) :
        ((meaning? text).map (· normal)).getD false =
          ((meaning? text').map (· normal)).getD false := by
      obtain ⟨normal, version, reads⟩ := normal
      rw [← lone.satisfies_eq_meaning? reads, ← lone'.satisfies_eq_meaning? reads,
        satisfied version]
    cases means : meaning? text with
    | none =>
        rw [means] at readable
        have unread := Option.not_isSome_iff_eq_none.mp fun found =>
          Bool.false_ne_true (readable.mpr found)
        exact unread.symm
    | some takes =>
        rw [means] at readable taken
        obtain ⟨takes', means'⟩ := Option.isSome_iff_exists.mp (readable.mp rfl)
        rw [means'] at taken ⊢
        exact congrArg some (funext taken)

end Constraint

end VersionRanges

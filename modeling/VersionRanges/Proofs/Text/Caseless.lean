/-
# Keywords without regard to case

Folding changes letters alone: a keyword is spelled by as many characters as it has, and no sign or
blank takes the place of another.
-/
import VersionRanges.Proofs.Text.Blank
import VersionRanges.Text.Caseless

namespace VersionRanges.Text

/-- The spelling that `keyword?` takes off folds to the keyword. -/
theorem map_foldCase_of_keyword? {keyword text spelling rest : Text}
    (split : keyword? keyword text = some (spelling, rest)) : spelling.map foldCase = keyword := by
  induction keyword generalizing text spelling with
  | nil =>
      obtain ⟨rfl, -⟩ : spelling = [] ∧ rest = text := by simpa [keyword?, eq_comm] using split
      rfl
  | cons k keyword ih =>
      cases text with
      | nil => simp [keyword?] at split
      | cons c text =>
          simp only [keyword?] at split
          split at split
          · next folds =>
            simp only [Option.map_eq_some_iff, Prod.mk.injEq, Prod.exists] at split
            obtain ⟨further, left, inner, rfl, rfl⟩ := split
            rw [List.map_cons, folds, ih inner]
          · simp at split

/-- Whatever is no letter that keywords are written in is folded to itself. -/
theorem foldCase_eq_self {c : Char} (sign : c.toNat < 65 ∨ 90 < c.toNat) (long : c ≠ 'ſ')
    (kelvin : c ≠ '\u212A') : foldCase c = c := by
  have lower : ¬ (c.val ≥ 'A'.val ∧ c.val ≤ 'Z'.val) := by
    rintro ⟨above, below⟩
    have above' : 65 ≤ c.toNat := above
    have below' : c.toNat ≤ 90 := below
    omega
  rw [foldCase, if_neg long, if_neg kelvin]
  exact dif_neg lower

theorem ne_of_isDecimalDigit {c d : Char} (digit : isDecimalDigit c = true)
    (other : isDecimalDigit d = false) : c ≠ d := by
  rintro rfl
  exact Bool.false_ne_true (other.symm.trans digit)

/-- No digit is folded to another character. -/
theorem foldCase_of_isDecimalDigit {c : Char} (digit : isDecimalDigit c = true) :
    foldCase c = c := by
  refine foldCase_eq_self ?_ (ne_of_isDecimalDigit digit (by decide))
    (ne_of_isDecimalDigit digit (by decide))
  by_cases ascii : c.toNat < 0x80
  · have bounds : 48 ≤ c.toNat ∧ c.toNat ≤ 57 := by
      rw [isDecimalDigit_of_ascii ascii] at digit
      simpa [Char.isDigit, UInt32.le_iff_toNat_le] using digit
    omega
  · omega

/-- No blank is folded to another character. -/
theorem foldCase_of_isBlank {c : Char} (blank : isBlank c = true) : foldCase c = c := by
  have ranges := isBlank_ranges blank
  have apart {d : Char} (solid : isBlank d = false) : c ≠ d := by
    rintro rfl
    exact Bool.false_ne_true (solid.symm.trans blank)
  exact foldCase_eq_self (by omega) (apart (by decide)) (apart (by decide))

end VersionRanges.Text

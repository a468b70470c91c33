/-
# Texts of one term

A text that is divided nowhere and has neither a flag nor a reference is one term. It can be read if
the bounds of the term can be, and stands for the versions that meet all of them. A version written
with numbers is such a text, with or without signs in front, and so are two of them with a hyphen
between.
-/
import VersionRanges.Proofs.Normal.Numbered
import VersionRanges.Proofs.Reading.Connectives
import VersionRanges.Proofs.Reading.Gaps
import VersionRanges.Proofs.Reading.Undivided

namespace VersionRanges

/-! ## Bounds of one term -/

namespace Constraint

/-- A text that is one term, with nothing to cut off, and asks for some bound. -/
structure IsLone (text : Text) : Prop where
  alone : Alternative.split (core text) = [text]
  undivided : Term.split text = [text]
  filled : text ≠ []
  unflagged : '@' ∉ text
  closed : Range.isWildcard text = false

theorem bounds_join_and (bounds : List Bound) :
    (join .and (bounds.map ofBound)).bounds = bounds := by
  have members (bounds : List Bound) : boundsOfAll (bounds.map ofBound) = bounds := by
    induction bounds with
    | nil => rfl
    | cons bound bounds ih => exact congrArg (bound :: ·) ih
  match bounds with
  | [] => rfl
  | [bound] => rfl
  | first :: second :: bounds => exact members (first :: second :: bounds)

section

variable {text : Text} (lone : IsLone text)

include lone

theorem IsLone.readTerm_eq :
    readTerm text = (readBounds text none).map (·.map ofBound) := by
  rw [readTerm, splitFlag_eq_self lone.unflagged]
  simp only [lone.closed, Bool.false_eq_true, if_false]

/-- A text of one term is read as the bounds of the term, all of which have to hold. -/
theorem IsLone.parse_eq_ok_iff {required : Constraint} :
    parse text = .ok required ↔
      ∃ bounds, readBounds text none = .ok bounds ∧
        (join .and (bounds.map ofBound)).withLabel text = required := by
  rw [parse_eq_ok_iff_of_alone lone.alone lone.filled, lone.undivided]
  simp only [mapM_eq_ok_iff, List.forall₂_cons_left_iff, List.forall₂_nil_left_iff,
    lone.readTerm_eq]
  constructor
  · rintro ⟨_, ⟨members, _, first, rfl, rfl⟩, rfl⟩
    obtain ⟨bounds, reads, rfl⟩ := exists_of_map_eq_ok first
    exact ⟨bounds, reads, by rw [List.flatten_singleton]⟩
  · rintro ⟨bounds, reads, rfl⟩
    refine ⟨_, ⟨bounds.map ofBound, [], ?_, rfl, rfl⟩, by rw [List.flatten_singleton]⟩
    rw [reads]
    rfl

/-- A text of one term can be read if the bounds of the term can be. -/
theorem IsLone.exists_parse_iff :
    (∃ required, parse text = .ok required) ↔ ∃ bounds, readBounds text none = .ok bounds := by
  simp only [lone.parse_eq_ok_iff]
  constructor
  · rintro ⟨_, bounds, reads, _⟩
    exact ⟨bounds, reads⟩
  · rintro ⟨bounds, reads⟩
    exact ⟨_, bounds, reads, rfl⟩

/-- The constraint of one term has the bounds of the term. -/
theorem IsLone.readBounds_of_parse {required : Constraint} (reads : parse text = .ok required) :
    readBounds text none = .ok required.bounds := by
  obtain ⟨bounds, range, rfl⟩ := lone.parse_eq_ok_iff.mp reads
  rw [range, bounds_withLabel, bounds_join_and]

/-- A version satisfies one term if it meets all bounds of the term. -/
theorem IsLone.satisfies_eq {bounds : List Bound} (reads : readBounds text none = .ok bounds)
    {version normal : Text} (readable : Version.normalize version = .ok normal) :
    Selection.satisfies version text = bounds.all (·.admits normal) := by
  have terms : (Term.split text).mapM readTerm = .ok [bounds.map ofBound] := by
    rw [lone.undivided, mapM_eq_ok_iff]
    exact .cons (by rw [lone.readTerm_eq, reads]; rfl) .nil
  have meets (bound : Bound) : (ofBound bound).isMetBy normal = bound.admits normal :=
    Bound.overlaps_pin false bound normal
  rw [Constraint.satisfies_eq_all lone.alone lone.filled terms readable]
  simp [List.all_map, Function.comp_def, meets]

end

/-- A text without the signs that divide alternatives, flag a constraint or refer to a commit, which
neither begins nor ends with a blank. -/
structure IsUncut (text : Text) : Prop where
  absent : ∀ sign ∈ ['|', '@', '#'], sign ∉ text
  leading : ∀ c, text.head? = some c → Text.isBlank c = false
  trailing : ∀ c, text.getLast? = some c → Text.isBlank c = false

/-- Nothing is cut off such a text, and it is one alternative. -/
theorem IsUncut.alone {text : Text} (uncut : IsUncut text) :
    Alternative.split (core text) = [text] := by
  rw [core_eq_self (uncut.absent '@' (by decide)) (uncut.absent '#' (by decide)),
    Alternative.split_of_barless (uncut.absent '|' (by decide))
      (Text.trim_eq_self_of_ends uncut.leading uncut.trailing)]

/-- A text without blanks and without the signs that divide alternatives, flag a constraint or refer
to a commit, as it may stand at either end of a term. -/
structure IsEnd (text : Text) : Prop where
  filled : text ≠ []
  solid : ∀ c ∈ text, Text.isBlank c = false
  absent : ∀ sign ∈ ['|', '@', '#'], sign ∉ text

theorem IsEnd.of_isNumbered {text : Text} (numbered : Version.IsNumbered text) : IsEnd text := by
  obtain ⟨c, rest, begins, -⟩ := numbered.exists_cons
  refine ⟨begins ▸ List.cons_ne_nil c rest, numbered.solid, fun sign listed => ?_⟩
  have listed' : sign ∈ [',', '|', '@', '#'] := List.mem_cons_of_mem _ listed
  exact numbered.plain sign (Text.isForeign_of_mem sign (List.mem_append_left _ listed'))

/-- Between two such ends anything may stand but those signs. -/
theorem isUncut_between {front middle behind : Text} (isEnd : IsEnd front) (isEnd' : IsEnd behind)
    (absent : ∀ sign ∈ ['|', '@', '#'], sign ∉ middle) : IsUncut (front ++ (middle ++ behind)) := by
  refine ⟨fun sign listed => ?_, fun c leading => ?_, fun c trailing => ?_⟩
  · simp [isEnd.absent sign listed, absent sign listed, isEnd'.absent sign listed]
  · rw [List.head?_append_of_ne_nil _ isEnd.filled] at leading
    exact isEnd.solid c (List.mem_of_head? leading)
  · rw [← List.append_assoc, List.getLast?_append_of_ne_nil _ isEnd'.filled] at trailing
    exact isEnd'.solid c (List.mem_of_getLast? trailing)

/-- A gap makes a text no wildcard, so that it is one term where the gap does not divide it. -/
theorem IsUncut.isLone_of_gap {text : Text} (uncut : IsUncut text) (gap : ' ' ∈ text)
    (undivided : Term.split text = [text]) : IsLone text where
  alone := uncut.alone
  undivided := undivided
  filled := List.ne_nil_of_mem gap
  unflagged := uncut.absent '@' (by decide)
  closed := Range.isWildcard_eq_false (show Text.IsForeign ' ' by decide) gap

/-- A text without blanks and without the signs that divide a constraint, flag it or refer to a
commit is one term. -/
theorem isLone_of_absent {text : Text} (filled : text ≠ [])
    (solid : ∀ c ∈ text, Text.isBlank c = false)
    (absent : ∀ sign ∈ [',', '|', '@', '#'], sign ∉ text)
    (closed : Range.isWildcard text = false) : IsLone text where
  alone := IsUncut.alone
    ⟨fun sign listed => absent sign (List.mem_cons_of_mem _ listed),
      fun c leading => solid c (List.mem_of_head? leading),
      fun c trailing => solid c (List.mem_of_getLast? trailing)⟩
  undivided := by
    refine Term.split_of_undivided fun c inside => ⟨?_, ?_⟩
    · rintro rfl
      exact absent ',' (by decide) inside
    · rintro rfl
      exact Text.not_mem_of_solid solid (by decide) inside
  filled := filled
  unflagged := absent '@' (by decide)
  closed := closed

end Constraint

/-! ## Terms written with numbers -/

namespace Constraint

section

variable {text : Text} (numbered : Version.IsNumbered text)

include numbered

/-- A version written with numbers, with signs in front, is one term. -/
theorem isLone_append {front : Text} (signs : ∀ c ∈ front, c ∈ ['<', '>', '=', '!', '~', '^']) :
    IsLone (front ++ text) := by
  obtain ⟨c, rest, begins, -⟩ := numbered.exists_cons
  refine isLone_of_absent (by simp [begins]) ?_ ?_ ?_
  · have blankless : ∀ c ∈ ['<', '>', '=', '!', '~', '^'], Text.isBlank c = false :=
      List.all_iff_forall_prop.mp (by decide)
    exact List.forall_mem_append.mpr ⟨fun c inside => blankless c (signs c inside), numbered.solid⟩
  · have apart : ∀ sign ∈ [',', '|', '@', '#'], sign ∉ ['<', '>', '=', '!', '~', '^'] :=
      List.all_iff_forall_prop.mp (by decide)
    intro sign listed inside
    have foreign := Text.isForeign_of_mem sign (List.mem_append_left _ listed)
    exact (List.mem_append.mp inside).elim (fun here => apart sign listed (signs sign here))
      (numbered.plain sign foreign)
  · cases front with
    | nil =>
        obtain ⟨d, behind, unmarked, digit⟩ := numbered.digit
        rw [List.nil_append, Range.isWildcard, unmarked]
        simp [Branch.isWildcard_of_isDecimalDigit digit]
    | cons sign front =>
        have open' : ∀ sign ∈ ['<', '>', '=', '!', '~', '^'],
            (sign == 'v' || sign == 'V') = false ∧ Branch.isWildcard sign = false :=
          List.all_iff_forall_prop.mp (by decide)
        obtain ⟨unmarked, closed⟩ := open' sign (signs sign List.mem_cons_self)
        rw [List.cons_append, Range.isWildcard, Literal.dropMark, Modifier.dropOne, unmarked]
        simp [closed]

theorem isLone_of_isNumbered : IsLone text := by
  have lone : IsLone ([] ++ text) := isLone_append numbered (by simp)
  exact lone

end

section

open Term (hyphenated IsNarrow)

variable {low high : Text} (numbered : Version.IsNumbered low)
  (numbered' : Version.IsNumbered high)

include numbered numbered'

/-- Two versions written with numbers, with a hyphen between them, are one alternative. -/
theorem isUncut_hyphenated (m n : ℕ) : IsUncut (hyphenated low high m n) := by
  have whole : hyphenated low high m n =
      low ++ ((Term.spaces m ++ '-' :: Term.spaces n) ++ high) := by simp [hyphenated]
  rw [whole]
  apply isUncut_between (.of_isNumbered numbered) (.of_isNumbered numbered')
  have other : ∀ sign ∈ ['|', '@', '#'], sign ≠ ' ' ∧ sign ≠ '-' :=
    List.all_iff_forall_prop.mp (by decide)
  intro sign listed
  simp [other sign listed, List.mem_replicate]

/-- They are one term, with a narrow gap in front of the hyphen and one space behind it. -/
theorem isLone_hyphenated {m : ℕ} (narrow : IsNarrow low m) :
    IsLone (hyphenated low high m 1) :=
  (isUncut_hyphenated numbered numbered' m 1).isLone_of_gap (by simp [hyphenated])
    (Term.split_hyphenated_of_isNarrow numbered.undivided numbered'.undivided narrow)

theorem isLone_hyphen : IsLone (low ++ ' ' :: '-' :: ' ' :: high) :=
  isLone_hyphenated numbered numbered' (m := 1) (.inl le_rfl)

end

end Constraint

end VersionRanges

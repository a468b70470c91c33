/-
# Normal forms that settle

A normal form is a version itself, and it may be read by another grammar than the version that it
came from: a date with dots as a literal, a name behind the marker as an alias, as a text with
metadata, or as the default branch. What that second reading gives is read back as it is, and for
literals, the default branch and numeric branches the first one is.

Digits of other scripts are left out of this law. They stand in literals as they were spelled, but
the normal form of a date has dots for them.
-/
import VersionRanges.Proofs.Normal.Origin

namespace VersionRanges

open Version

/-! ## One grammar after another -/

/-- The normal form of a literal that stands by itself is its own normal form. -/
theorem Literal.IsWellFormed.normalize_normalForm {literal : Literal}
    (wellFormed : literal.IsWellFormed) (short : literal.major.length ≤ 5) :
    normalize literal.normalForm = .ok literal.normalForm := by
  obtain ⟨c, rest, begins, digit⟩ := wellFormed.exists_normalForm_cons
  have kept := core_eq_self_of_foreign fun _ foreign => wellFormed.not_mem_normalForm foreign
  rw [normalize_eq_ok_iff, kept, normalForm?_of_isDecimalDigit begins digit,
    wellFormed.ofVersion?_normalForm, if_pos short]
  exact congrArg some wellFormed.normalForm_canonical

theorem Version.normalize_of_ofVersion? {version : Text} {literal : Literal}
    (reads : Literal.ofVersion? version = some literal) :
    normalize literal.normalForm = .ok literal.normalForm := by
  obtain ⟨read, short⟩ := Literal.read?_of_ofVersion? reads
  exact (Literal.isWellFormed_of_read? read).normalize_normalForm short

/-- The normal form of a date in ASCII digits is a date or a literal. -/
theorem Timestamp.IsWellFormed.settles {timestamp : Timestamp} (wellFormed : timestamp.IsWellFormed)
    (ascii : ∀ c ∈ timestamp.figures, Text.isDecimalDigit c = true → c.isDigit = true) :
    ∃ settled, normalize timestamp.normalForm = .ok settled ∧ normalize settled = .ok settled := by
  obtain ⟨c, rest, spelled, digit⟩ := exists_cons_of_isDate wellFormed.date
  have begins : timestamp.normalForm = c :: (rest.map dot ++ timestamp.modifier.suffix) := by
    have first : dot c = c := if_pos (ascii c (spelled ▸ List.mem_cons_self) digit)
    rw [normalForm_eq, spelled, List.map_cons, first, List.cons_append]
  have kept := core_eq_self_of_foreign fun _ foreign => wellFormed.not_mem_normalForm foreign
  have reads := normalForm?_of_isDecimalDigit begins digit
  cases short : Literal.ofVersion? timestamp.normalForm with
  | some literal =>
      rw [short] at reads
      exact ⟨literal.normalForm, normalize_eq_ok_iff.mpr (kept.symm ▸ reads),
        normalize_of_ofVersion? short⟩
  | none =>
      obtain ⟨found, read, same⟩ := wellFormed.ofVersion?_normalForm ascii
      rw [short, read] at reads
      have stable : normalize timestamp.normalForm = .ok timestamp.normalForm :=
        normalize_eq_ok_iff.mpr (kept.symm ▸ reads.trans (congrArg some same))
      exact ⟨timestamp.normalForm, stable, stable⟩

theorem Branch.normalize_of_numeric? {name normal : Text} (reads : numeric? name = some normal)
    (ascii : ∀ c ∈ name, Text.isDecimalDigit c = true → c.isDigit = true) :
    Version.normalize normal = .ok normal := by
  obtain ⟨literal, numeric, rfl, digits⟩ := exists_of_numeric? reads
  have kept := core_eq_self_of_foreign fun _ foreign => numeric.not_mem_normalForm foreign
  rw [normalize_eq_ok_iff, kept]
  refine numeric.normalForm?_normalForm fun part listed c inside => ?_
  rcases digits part listed c inside with named | ascii'
  · exact ascii c named (numeric.isDecimalDigit_of_mem part listed c inside)
  · exact ascii'

theorem Branch.normalize_defaultVersion :
    Version.normalize defaultVersion = .ok defaultVersion := by
  decide

/-- A name behind the marker may be cut and may turn out to name the default branch. -/
theorem Branch.settles (name : Text) :
    ∃ settled, Version.normalize (marker ++ name) = .ok settled ∧
      Version.normalize settled = .ok settled := by
  have plain : ∀ c ∈ marker, (Alias.isPartChar c && c != '+') = true :=
    List.all_eq_true.mp (by decide)
  obtain ⟨name', kept⟩ := exists_core_append (by decide) plain name
  have marked : markedName? (marker ++ name') = some name' := rfl
  by_cases default : isDefault (marker ++ name') = true
  · refine ⟨defaultVersion, normalize_eq_ok_iff.mpr ?_, normalize_defaultVersion⟩
    rw [kept, normalForm?, if_pos default]
  · have reads : normalForm? (marker ++ name') = some (marker ++ name') := by
      rw [normalForm?, if_neg default, marked]
    have again : core (marker ++ name') = marker ++ name' := kept ▸ core_core (marker ++ name)
    exact ⟨marker ++ name', normalize_eq_ok_iff.mpr (kept.symm ▸ reads),
      normalize_eq_ok_iff.mpr (again.symm ▸ reads)⟩

/-! ## All of them -/

/-- A version whose digits are ASCII digits comes to a normal form that has one itself, after which
nothing changes any more. Nothing changes after the first step if this gives the normal form of a
literal, of the default branch, or of a numeric branch. -/
theorem Version.normalize_settles {version normal : Text}
    (ascii : ∀ c ∈ version, Text.isDecimalDigit c = true → c.isDigit = true)
    (reads : normalize version = .ok normal) :
    (∃ settled, normalize normal = .ok settled ∧ normalize settled = .ok settled) ∧
      ((∃ literal, Literal.ofVersion? (core version) = some literal ∧
            normal = literal.normalForm) ∨
          normal = Branch.defaultVersion ∨
          (∃ name, devName? (core version) = some name ∧
            Branch.numeric? (Text.trim name) = some normal) →
        normalize normal = .ok normal) := by
  have numbered {name : Text} (named : devName? (core version) = some name)
      (numeric : Branch.numeric? (Text.trim name) = some normal) :
      normalize normal = .ok normal := by
    have part := ((Text.trim_isInfix name).trans (devName?_isInfix named)).trans
      (core_isInfix version)
    exact Branch.normalize_of_numeric? numeric fun c inside => ascii c (part.subset inside)
  constructor
  · cases origin_of_normalForm? (normalize_eq_ok_iff.mp reads) with
    | default => exact ⟨_, Branch.normalize_defaultVersion, Branch.normalize_defaultVersion⟩
    | marked => exact Branch.settles _
    | literal found =>
        exact ⟨_, normalize_of_ofVersion? found, normalize_of_ofVersion? found⟩
    | date found =>
        obtain ⟨wellFormed, within⟩ := Timestamp.isWellFormed_of_ofVersion? found
        exact wellFormed.settles fun c inside =>
          ascii c ((core_isInfix version).subset (within inside))
    | numbered named numeric => exact ⟨normal, numbered named numeric, numbered named numeric⟩
    | named => exact Branch.settles _
  · rintro (⟨literal, found, rfl⟩ | rfl | ⟨name, named, numeric⟩)
    · exact normalize_of_ofVersion? found
    · exact Branch.normalize_defaultVersion
    · exact numbered named numeric

/-- A date that is read as a literal the second time, and a branch that is read as a literal but
does not change. -/
theorem Version.normalize_settles_date_and_branch :
    (∀ c ∈ "2010-01-02".toList, Text.isDecimalDigit c = true → c.isDigit = true) ∧
      normalize "2010-01-02".toList = .ok "2010.01.02".toList ∧
      (∃ settled, normalize "2010.01.02".toList = .ok settled ∧
        normalize settled = .ok settled) ∧
      (∀ c ∈ "1.x-dev".toList, Text.isDecimalDigit c = true → c.isDigit = true) ∧
      normalize "1.x-dev".toList = .ok "1.9999999.9999999.9999999-dev".toList ∧
      devName? (core "1.x-dev".toList) = some "1.x".toList ∧
      Branch.numeric? (Text.trim "1.x".toList) = some "1.9999999.9999999.9999999-dev".toList ∧
      normalize "1.9999999.9999999.9999999-dev".toList =
        .ok "1.9999999.9999999.9999999-dev".toList := by
  have ascii : ∀ c ∈ "2010-01-02".toList, Text.isDecimalDigit c = true → c.isDigit = true :=
    List.all_iff_forall_prop.mp (by decide)
  have ascii' : ∀ c ∈ "1.x-dev".toList, Text.isDecimalDigit c = true → c.isDigit = true :=
    List.all_iff_forall_prop.mp (by decide)
  have reads : normalize "2010-01-02".toList = .ok "2010.01.02".toList := by decide
  have reads' : normalize "1.x-dev".toList = .ok "1.9999999.9999999.9999999-dev".toList := by
    decide
  have named : devName? (core "1.x-dev".toList) = some "1.x".toList := by decide
  have numeric : Branch.numeric? (Text.trim "1.x".toList) =
      some "1.9999999.9999999.9999999-dev".toList := by decide
  exact ⟨ascii, reads, (normalize_settles ascii reads).1, ascii', reads', named, numeric,
    (normalize_settles ascii' reads').2 (.inr (.inr ⟨_, named, numeric⟩))⟩

end VersionRanges

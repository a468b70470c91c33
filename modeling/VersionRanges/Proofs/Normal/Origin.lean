/-
# Where normal forms come from

A version comes to its normal form in one of six ways: as the default branch, as a branch that is
marked in front, as a literal, as a date, or as a branch with a numeric or another name before
`dev`. Only the names of branches are kept with whatever signs stand in them.
-/
import VersionRanges.Proofs.Normal.Branch
import VersionRanges.Proofs.Normal.Core

namespace VersionRanges.Version

/-- The ways in which a version without alias and metadata comes to its normal form. -/
inductive Origin (version : Text) : Text → Prop
  | default : Origin version Branch.defaultVersion
  | marked {name : Text} (marked : Branch.markedName? version = some name) :
      Origin version (Branch.marker ++ name)
  | literal {literal : Literal} (reads : Literal.ofVersion? version = some literal) :
      Origin version literal.normalForm
  | date {timestamp : Timestamp} (reads : Timestamp.ofVersion? version = some timestamp) :
      Origin version timestamp.normalForm
  | numbered {name normal : Text} (named : devName? version = some name)
      (reads : Branch.numeric? (Text.trim name) = some normal) : Origin version normal
  | named {name : Text} (named : devName? version = some name) :
      Origin version (Branch.marker ++ Text.trim name)

theorem origin_of_ofDevName? {version normal : Text} (reads : ofDevName? version = some normal) :
    Origin version normal := by
  obtain ⟨name, named, normalized⟩ := Option.bind_eq_some_iff.mp reads
  rw [Branch.normalize] at normalized
  split at normalized
  · cases normalized
  · split at normalized
    · obtain rfl := Option.some.inj normalized
      exact .default
    · obtain rfl := Option.some.inj normalized
      cases numeric : Branch.numeric? (Text.trim name) with
      | some normal => exact .numbered named numeric
      | none => exact .named named

theorem origin_of_normalForm? {version normal : Text} (reads : normalForm? version = some normal) :
    Origin version normal := by
  rw [normalForm?] at reads
  split at reads
  · obtain rfl := Option.some.inj reads
    exact .default
  · split at reads
    · next name marked =>
      obtain rfl := Option.some.inj reads
      exact .marked marked
    · split at reads
      · next literal read =>
        obtain rfl := Option.some.inj reads
        exact .literal read
      · split at reads
        · next timestamp read =>
          obtain rfl := Option.some.inj reads
          exact .date read
        · exact origin_of_ofDevName? reads

theorem normalize_eq_ok_iff {version normal : Text} :
    normalize version = .ok normal ↔ normalForm? (core version) = some normal := by
  rw [normalize, normalizeWithin]
  cases normalForm? (core version) <;> simp

/-! ## Names of branches -/

theorem markedName?_suffix {version name : Text} (marked : Branch.markedName? version = some name) :
    name <:+ version := by
  obtain ⟨⟨spelling, rest⟩, spelled, rfl⟩ := Option.map_eq_some_iff.mp marked
  exact ⟨spelling, (Text.eq_append_of_keyword? spelled).symm⟩

theorem devName?_isInfix {version name : Text} (named : devName? version = some name) :
    name <:+: version := by
  rw [devName?] at named
  split at named
  · next v e d before reversed =>
    split at named
    · obtain rfl := Option.some.inj named
      have line := List.takeWhile_prefix (· != '\n')
        (l := Modifier.dropOne Modifier.isJoint before)
      have behind : Modifier.dropOne Modifier.isJoint before <:+ version.reverse := by
        rw [reversed]
        exact (Timestamp.dropOne_suffix _ before).trans ⟨[v, e, d], rfl⟩
      rw [← List.reverse_infix, List.reverse_reverse]
      exact line.isInfix.trans behind.isInfix
    · cases named
  · cases named

/-- A version has a name before `dev` if its last letters spell that. -/
theorem exists_devName?_iff {version : Text} :
    (∃ name, devName? version = some name) ↔
      ∃ v e d before, version.reverse = v :: e :: d :: before ∧
        [d, e, v].map Text.foldCase = "dev".toList := by
  constructor
  · rintro ⟨name, named⟩
    rw [devName?] at named
    split at named
    · next v e d before reversed =>
      split at named
      · next spelled => exact ⟨v, e, d, before, reversed, eq_of_beq spelled⟩
      · cases named
    · cases named
  · rintro ⟨v, e, d, before, reversed, spelled⟩
    rw [devName?, reversed]
    exact ⟨_, if_pos (beq_iff_eq.mpr spelled)⟩

/-- A sign that no literal holds stands in a normal form as part of a name only, which is a part of
the version. -/
theorem exists_name_of_foreign {version normal : Text} {sign : Char}
    (reads : normalize version = .ok normal) (foreign : Text.IsForeign sign)
    (inside : sign ∈ normal) :
    ∃ name, name <:+: version ∧ sign ∈ name ∧ normal = Branch.marker ++ name := by
  have read := core_isInfix version
  have marker : sign ∉ Branch.marker := Modifier.not_mem_of_plain foreign (by decide)
  have named {name : Text} (part : name <:+: version) (inside : sign ∈ Branch.marker ++ name) :
      ∃ name', name' <:+: version ∧ sign ∈ name' ∧
        Branch.marker ++ name = Branch.marker ++ name' := by
    exact ⟨name, part, (List.mem_append.mp inside).resolve_left marker, rfl⟩
  cases origin_of_normalForm? (normalize_eq_ok_iff.mp reads) with
  | default => exact absurd inside (Modifier.not_mem_of_plain foreign (by decide))
  | marked marked => exact named ((markedName?_suffix marked).isInfix.trans read) inside
  | literal found =>
      have wellFormed := Literal.isWellFormed_of_ofVersion? found
      exact absurd inside (wellFormed.not_mem_normalForm foreign)
  | date found =>
      obtain ⟨wellFormed, -⟩ := Timestamp.isWellFormed_of_ofVersion? found
      exact absurd inside (wellFormed.not_mem_normalForm foreign)
  | numbered _ found =>
      obtain ⟨literal, numeric, rfl, -⟩ := Branch.exists_of_numeric? found
      exact absurd inside (numeric.not_mem_normalForm foreign)
  | named found =>
      exact named ((Text.trim_isInfix _).trans ((devName?_isInfix found).trans read)) inside

/-- A normal form with a number sign is a branch. -/
theorem unsigned_of_normalize {version normal : Text} (reads : normalize version = .ok normal)
    (release : Branch.isBranch normal = false) : '#' ∉ normal := by
  intro inside
  obtain ⟨name, -, -, rfl⟩ := exists_name_of_foreign reads Text.isForeign_numberSign inside
  exact Bool.false_ne_true (release.symm.trans (Branch.isBranch_marker_append name))

end VersionRanges.Version

/-
# Versions with a number sign

No literal holds a number sign, and so a version with such a sign is read as a branch, or not at
all. The sign stays in the name of the branch, unless it belongs to the metadata.
-/
import Mathlib.Data.List.TakeWhile
import VersionRanges.Proofs.Reading.Literal
import VersionRanges.Proofs.Text.Blank
import VersionRanges.Version.Normal

namespace VersionRanges

/-! ## Aliases and metadata -/

theorem Alias.isBlank_eq_false {c : Char} (part : isPartChar c = true) :
    Text.isBlank c = false := by
  simp only [isPartChar, Bool.and_eq_true, Bool.not_eq_true'] at part
  exact part.2

theorem Alias.dropSpaces?_eq_none {text : Text} (plain : text.head? ≠ some ' ') :
    dropSpaces? text = none := by
  unfold dropSpaces?
  split
  · exact absurd rfl plain
  · rfl

theorem Alias.dropSpaces?_replicate_append (count : ℕ) {rest : Text}
    (solid : rest.head? ≠ some ' ') :
    dropSpaces? (List.replicate (count + 1) ' ' ++ rest) = some rest := by
  have unspaced : rest.dropWhile (· == ' ') = rest := by
    cases rest with
    | nil => rfl
    | cons c rest => exact List.dropWhile_cons_of_neg (by simpa using solid)
  change some ((List.replicate count ' ' ++ rest).dropWhile (· == ' ')) = _
  rw [List.dropWhile_append_of_pos (by simp [List.mem_replicate]), unspaced]

theorem Alias.dropWord?_replicate_append (count : ℕ) {rest : Text} (solid : rest.head? ≠ some ' ')
    (other : rest.head? ≠ some 'a') :
    dropWord? (List.replicate (count + 1) ' ' ++ rest) = none := by
  rw [dropWord?, dropSpaces?_replicate_append count solid]
  split
  · next _ _ word =>
    rw [Option.some.inj word] at other
    exact absurd rfl other
  · rfl

/-- Build metadata begin no earlier than at the first plus sign. -/
theorem Alias.exists_withoutMetadata_append {front : Text}
    (plain : ∀ c ∈ front, (isPartChar c && c != '+') = true) (rest : Text) :
    ∃ rest', withoutMetadata (front ++ rest) = front ++ rest' := by
  dsimp only [withoutMetadata]
  rw [List.takeWhile_append_of_pos plain, List.dropWhile_append_of_pos plain]
  split
  · split
    · exact ⟨_, rfl⟩
    · exact ⟨rest, rfl⟩
  · exact ⟨rest, rfl⟩

theorem Alias.mem_of_mem_withoutMetadata {version : Text} {c : Char}
    (inside : c ∈ withoutMetadata version) : c ∈ version := by
  dsimp only [withoutMetadata] at inside
  split at inside
  · split at inside
    · exact (List.takeWhile_prefix _).subset inside
    · exact inside
  · exact inside

/-- A version without blanks has no alias. -/
theorem Version.core_eq_withoutMetadata_of_solid {version : Text}
    (solid : ∀ c ∈ version, Text.isBlank c = false) :
    core version = Alias.withoutMetadata version := by
  have unspaced : (version.dropWhile Alias.isPartChar).head? ≠ some ' ' := fun spaced =>
    Text.not_mem_of_solid solid (by decide)
      ((List.dropWhile_suffix _).subset (List.mem_of_head? spaced))
  have unnamed : Alias.dropWord? (version.dropWhile Alias.isPartChar) = none := by
    rw [Alias.dropWord?, Alias.dropSpaces?_eq_none unspaced]
  rw [core, Text.trim_eq_self solid, Alias.source, unnamed]

theorem Version.core_eq_withoutMetadata {version : Text}
    (plain : ∀ c ∈ version, Alias.isPartChar c = true) :
    core version = Alias.withoutMetadata version :=
  core_eq_withoutMetadata_of_solid fun c inside => Alias.isBlank_eq_false (plain c inside)

/-! ## Names of branches -/

theorem Branch.not_mem_of_mem_defaultNames : ∀ name ∈ defaultNames, '#' ∉ name := by
  decide

/-- A version with a number sign is no name of the default branch. -/
theorem Branch.isDefault_eq_false {version : Text} (signed : '#' ∈ version) :
    isDefault version = false := by
  have folded : '#' ∈ version.map Text.foldCase := List.mem_map.mpr ⟨'#', signed, by decide⟩
  have other {name : Text} (unsigned : '#' ∉ name) : Text.spells name version = false := by
    rw [Text.spells, beq_eq_false_iff_ne]
    rintro rfl
    exact unsigned folded
  simp only [isDefault, List.any_eq_false]
  intro name listed
  have unsigned := not_mem_of_mem_defaultNames name listed
  have unsigned' : '#' ∉ marker ++ name :=
    fun inside => (List.mem_append.mp inside).elim (by decide) unsigned
  simp [other unsigned, other unsigned']

theorem Branch.isBranch_marker_append (name : Text) : isBranch (marker ++ name) = true :=
  List.isPrefixOf_iff_prefix.mpr (List.prefix_append marker name)

/-- A name with a number sign is kept as it is. -/
theorem Branch.normalize_of_signed {name : Text} (signed : '#' ∈ name)
    (solid : ∀ c ∈ name, Text.isBlank c = false) : normalize name = .ok (marker ++ name) := by
  have filled : name ≠ [] := List.ne_nil_of_mem signed
  have named : name ∉ defaultNames := fun listed => not_mem_of_mem_defaultNames name listed signed
  simp [normalize, Text.trim_eq_self solid, filled, named,
    numeric?_eq_none Text.isForeign_numberSign signed]

/-! ## Normal forms -/

/-- The ending in `dev` and a joint before it are no part of the name, and nothing else is lost. -/
theorem Version.mem_of_devName? {version name : Text} {sign : Char}
    (letter : Text.foldCase sign ∉ "dev".toList) (joint : Modifier.isJoint sign = false)
    (signed : sign ∈ version) (unbroken : '\n' ∉ version) (reads : devName? version = some name) :
    sign ∈ name ∧ ∀ c ∈ name, c ∈ version := by
  rw [devName?] at reads
  split at reads
  · next v e d before reversed =>
    split at reads
    · next spelled =>
      obtain rfl := Option.some.inj reads
      have ending : sign ∉ [d, e, v] := fun inside =>
        letter (beq_iff_eq.mp spelled ▸ List.mem_map_of_mem inside)
      have kept : sign ∈ before := by
        have whole : sign ∈ v :: e :: d :: before := reversed ▸ List.mem_reverse.mpr signed
        simp only [List.mem_cons, not_or, List.not_mem_nil] at whole ending
        tauto
      have leaves := Modifier.leaves_dropOne joint before
      have within : ∀ c ∈ Modifier.dropOne Modifier.isJoint before, c ∈ version := by
        obtain ⟨taken, split, -⟩ := leaves
        intro c inside
        refine List.mem_reverse.mp (reversed ▸ ?_)
        rw [split]
        simp [inside]
      have line : (Modifier.dropOne Modifier.isJoint before).takeWhile (· != '\n') =
          Modifier.dropOne Modifier.isJoint before :=
        List.takeWhile_eq_self_iff.mpr (Text.forall_bne fun inside => unbroken (within _ inside))
      rw [line]
      exact ⟨List.mem_reverse.mpr (leaves.mem kept),
        fun c inside => within c (List.mem_reverse.mp inside)⟩
    · cases reads
  · cases reads

/-- A version with a number sign is read as a branch, whose name has the sign in it. -/
theorem Version.isBranch_of_normalForm? {version normal : Text} (signed : '#' ∈ version)
    (solid : ∀ c ∈ version, Text.isBlank c = false) (reads : normalForm? version = some normal) :
    Branch.isBranch normal = true ∧ '#' ∈ normal := by
  rw [normalForm?, Branch.isDefault_eq_false signed,
    Literal.ofVersion?_eq_none Text.isForeign_numberSign signed,
    Timestamp.ofVersion?_eq_none Text.isForeign_numberSign signed] at reads
  cases marked : Branch.markedName? version with
  | some name =>
      obtain rfl : Branch.marker ++ name = normal := by simpa [marked] using reads
      obtain ⟨⟨spelling, rest⟩, spelled, rfl⟩ := Option.map_eq_some_iff.mp marked
      have unmarked : Text.foldCase '#' ∉ Branch.marker := by decide
      have left := Text.leaves_of_keyword? unmarked spelled
      exact ⟨Branch.isBranch_marker_append _, List.mem_append_right _ (left.mem signed)⟩
  | none =>
      obtain ⟨name, named, normalized⟩ : ∃ name, devName? version = some name ∧
          (Branch.normalize name).toOption = some normal := by
        simpa [marked, ofDevName?, Option.bind_eq_some_iff] using reads
      have unbroken : '\n' ∉ version := Text.not_mem_of_solid solid (by decide)
      obtain ⟨kept, within⟩ := mem_of_devName? (by decide) rfl signed unbroken named
      rw [Branch.normalize_of_signed kept fun c inside => solid c (within c inside)] at normalized
      obtain rfl := Option.some.inj normalized
      exact ⟨Branch.isBranch_marker_append _, List.mem_append_right _ kept⟩

/-- A version whose first number sign stands before all metadata is read as a branch with the sign
in its name, if it is read at all. -/
theorem Version.isBranch_of_normalize {front commit normal : Text}
    (plain : ∀ c ∈ front ++ '#' :: commit, Alias.isPartChar c = true) (unextended : '+' ∉ front)
    (reads : normalize (front ++ '#' :: commit) = .ok normal) :
    Branch.isBranch normal = true ∧ '#' ∈ normal := by
  have kept : ∀ c ∈ front ++ ['#'], (Alias.isPartChar c && c != '+') = true := by
    refine List.forall_mem_append.mpr ⟨?_, List.forall_mem_singleton.mpr (by decide)⟩
    intro c inside
    have other : c ≠ '+' := by
      rintro rfl
      exact unextended inside
    simp [plain c (List.mem_append_left _ inside), other]
  obtain ⟨commit', left⟩ := Alias.exists_withoutMetadata_append kept commit
  have signed : '#' ∈ core (front ++ '#' :: commit) := by
    rw [core_eq_withoutMetadata plain, List.append_cons front '#' commit, left]
    simp
  have solid : ∀ c ∈ core (front ++ '#' :: commit), Text.isBlank c = false := by
    rw [core_eq_withoutMetadata plain]
    exact fun c inside =>
      Alias.isBlank_eq_false (plain c (Alias.mem_of_mem_withoutMetadata inside))
  refine isBranch_of_normalForm? signed solid ?_
  rw [normalize, normalizeWithin] at reads
  split at reads
  · next normal' read =>
    rw [read, Except.ok.inj reads]
  · cases reads

/-- A version with the marker in front is always read. -/
theorem Version.exists_normalize_marked {name : Text}
    (plain : ∀ c ∈ name, Alias.isPartChar c = true) :
    ∃ normal, normalize ("dev-".toList ++ name) = .ok normal := by
  have whole : ∀ c ∈ "dev-".toList ++ name, Alias.isPartChar c = true :=
    List.forall_mem_append.mpr ⟨List.all_eq_true.mp (by decide), plain⟩
  have marker : ∀ c ∈ "dev-".toList, (Alias.isPartChar c && c != '+') = true :=
    List.all_eq_true.mp (by decide)
  obtain ⟨name', kept⟩ := Alias.exists_withoutMetadata_append marker name
  have marked : Branch.markedName? ("dev-".toList ++ name') = some name' := rfl
  rw [normalize, normalizeWithin, core_eq_withoutMetadata whole, kept, normalForm?, marked]
  split
  · exact ⟨_, rfl⟩
  · next unread => split at unread <;> cases unread

end VersionRanges

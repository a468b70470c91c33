/-
# What is added to a version

Another name behind the word of an alias, and metadata behind a plus sign, are cut off before a
version is read. What is left is the version in front of them, whichever of the two were added, and
so none of the readers behind sees anything of what was cut off.
-/
import VersionRanges.Proofs.Normal.Origin
import VersionRanges.Proofs.Reading.Gaps

namespace VersionRanges

open Term (spaces aliased)

/-! ## Parts -/

/-- A text that can stand on either side of an alias: it is not empty and holds no blank and no
comma. -/
structure Alias.IsPart (text : Text) : Prop where
  filled : text ≠ []
  part : ∀ c ∈ text, isPartChar c = true

namespace Alias.IsPart

instance (text : Text) : Decidable (IsPart text) :=
  decidable_of_iff (text ≠ [] ∧ text.all isPartChar = true)
    ⟨fun ⟨filled, part⟩ => ⟨filled, List.all_eq_true.mp part⟩,
      fun ⟨filled, part⟩ => ⟨filled, List.all_eq_true.mpr part⟩⟩

variable {text : Text} (isPart : IsPart text)

include isPart

theorem solid : ∀ c ∈ text, Text.isBlank c = false :=
  fun c inside => isBlank_eq_false (isPart.part c inside)

theorem not_mem {sign : Char} (apart : isPartChar sign = false) : sign ∉ text :=
  fun inside => Bool.false_ne_true (apart.symm.trans (isPart.part sign inside))

theorem undivided : ∀ c ∈ text, c ≠ ',' ∧ c ≠ ' ' := by
  intro c inside
  constructor
  · rintro rfl
    exact isPart.not_mem (by decide) inside
  · rintro rfl
    exact isPart.not_mem (by decide) inside

theorem head?_ne_space : text.head? ≠ some ' ' :=
  fun space => isPart.not_mem (by decide) (List.mem_of_head? space)

/-- A part with metadata behind it is a part as well. -/
theorem append_metadata {metadata : Text} (isPart' : IsPart metadata) :
    IsPart (text ++ '+' :: metadata) where
  filled := by simp
  part := List.forall_mem_append.mpr
    ⟨isPart.part, List.forall_mem_cons.mpr ⟨by decide, isPart'.part⟩⟩

/-- Metadata are cut off at the first plus sign. -/
theorem withoutMetadata_append (unextended : '+' ∉ text) {metadata : Text}
    (isPart' : IsPart metadata) : withoutMetadata (text ++ '+' :: metadata) = text := by
  have plain : ∀ c ∈ text, (isPartChar c && c != '+') = true :=
    fun c inside => Bool.and_eq_true_iff.mpr
      ⟨isPart.part c inside, Text.forall_bne unextended c inside⟩
  have stop : ('+' :: metadata).takeWhile (fun c => isPartChar c && c != '+') = [] :=
    List.takeWhile_cons_of_neg (by decide)
  have rest : ('+' :: metadata).dropWhile (fun c => isPartChar c && c != '+') = '+' :: metadata :=
    List.dropWhile_cons_of_neg (by decide)
  have solid' : metadata.all (!Text.isBlank ·) = true :=
    List.all_eq_true.mpr fun c inside => by simp [isPart'.solid c inside]
  rw [withoutMetadata, List.takeWhile_append_of_pos plain, List.dropWhile_append_of_pos plain, stop,
    rest]
  simp [isPart.filled, isPart'.filled, solid']

end Alias.IsPart

/-! ## Other names -/

section

variable {source target : Text} (isPart : Alias.IsPart source) (isPart' : Alias.IsPart target)
  (m n : ℕ)

include isPart isPart'

theorem Alias.source_aliased :
    Alias.source (aliased source target (m + 1) (n + 1)) = source := by
  have stop : (spaces (m + 1) ++ 'a' :: 's' :: (spaces (n + 1) ++ target)).takeWhile isPartChar =
      [] := List.takeWhile_cons_of_neg (by decide)
  have rest : (spaces (m + 1) ++ 'a' :: 's' :: (spaces (n + 1) ++ target)).dropWhile isPartChar =
      spaces (m + 1) ++ 'a' :: 's' :: (spaces (n + 1) ++ target) :=
    List.dropWhile_cons_of_neg (by decide)
  have word : dropWord? (spaces (m + 1) ++ 'a' :: 's' :: (spaces (n + 1) ++ target)) =
      some target := by
    rw [dropWord?, dropSpaces?_replicate_append m (by simp)]
    exact dropSpaces?_replicate_append n isPart'.head?_ne_space
  have named : target.all isPartChar = true := List.all_eq_true.mpr isPart'.part
  rw [Alias.source, aliased, List.takeWhile_append_of_pos isPart.part,
    List.dropWhile_append_of_pos isPart.part, stop, rest, word]
  simp [isPart.filled, isPart'.filled, named]

/-- An alias has no blanks around it. -/
theorem Alias.trim_aliased : Text.trim (aliased source target m n) = aliased source target m n := by
  apply Text.trim_eq_self_of_ends
  · intro c leading
    rw [aliased, List.head?_append_of_ne_nil _ isPart.filled] at leading
    exact isPart.solid c (List.mem_of_head? leading)
  · intro c trailing
    have whole : aliased source target m n =
        (source ++ (spaces m ++ 'a' :: 's' :: spaces n)) ++ target := by simp [aliased]
    rw [whole, List.getLast?_append_of_ne_nil _ isPart'.filled] at trailing
    exact isPart'.solid c (List.mem_of_getLast? trailing)

/-- What is read of an alias is what is read of its source. -/
theorem Version.core_aliased :
    core (aliased source target (m + 1) (n + 1)) = core source := by
  rw [core_eq_withoutMetadata isPart.part, core, Alias.trim_aliased isPart isPart',
    Alias.source_aliased isPart isPart']

end

/-! ## Versions with additions -/

namespace Version

/-- A version by itself and with metadata, and each of the two with another name. -/
def additions (version metadata target : Text) (m n : ℕ) : List Text :=
  [version, version ++ '+' :: metadata, aliased version target m n,
    aliased (version ++ '+' :: metadata) target m n]

section

variable {version metadata target : Text} {m n : ℕ} (isPart : Alias.IsPart version)
  (unextended : '+' ∉ version) (isPart' : Alias.IsPart metadata) (isPart'' : Alias.IsPart target)

include isPart unextended isPart' isPart''

/-- The version is what is read of it, whatever is added. -/
theorem core_of_mem_additions :
    ∀ text ∈ additions version metadata target (m + 1) (n + 1), core text = version := by
  have bare : core version = version := core_eq_self isPart.part unextended
  have extended := isPart.append_metadata isPart'
  have cut : core (version ++ '+' :: metadata) = version := by
    rw [core_eq_withoutMetadata extended.part]
    exact isPart.withoutMetadata_append unextended isPart'
  have named := (core_aliased isPart isPart'' m n).trans bare
  have named' := (core_aliased extended isPart'' m n).trans cut
  simp [additions, bare, cut, named, named']

/-- Neither metadata nor another name makes a difference: with and without them, a version has the
same normal form, or none and is refused as the version that it is. -/
theorem normalize_additions (before : 0 < m) (behind : 0 < n) :
    (∃ normal, ∀ text ∈ additions version metadata target m n, normalize text = .ok normal) ∨
      ∀ text ∈ additions version metadata target m n,
        ∃ fault, normalize text = .error (.unreadableVersion version fault) := by
  obtain ⟨m, rfl⟩ := Nat.exists_eq_add_of_lt before
  obtain ⟨n, rfl⟩ := Nat.exists_eq_add_of_lt behind
  rw [Nat.zero_add, Nat.zero_add]
  have read := core_of_mem_additions isPart unextended isPart' isPart'' (m := m) (n := n)
  cases reads : normalForm? version with
  | some normal =>
      refine .inl ⟨normal, fun text listed => ?_⟩
      rw [normalize_eq_ok_iff, read text listed, reads]
  | none =>
      refine .inr fun text listed => ⟨Alias.fault? (Text.trim text) version, ?_⟩
      rw [normalize, normalizeWithin, read text listed, reads]

end

/-- A branch that is read, and a version that is refused. -/
theorem normalize_additions_feature :
    (∀ text ∈ additions "feature-x-dev".toList "build+5".toList "1.0.x".toList 2 1,
        normalize text = .ok "dev-feature-x".toList) ∧
      ∀ text ∈ additions "1.0-meh".toList "build+5".toList "1.0.x".toList 1 3,
        ∃ fault, normalize text = .error (.unreadableVersion "1.0-meh".toList fault) := by
  have isPart : Alias.IsPart "feature-x-dev".toList := by decide
  have isPart' : Alias.IsPart "1.0-meh".toList := by decide
  have build : Alias.IsPart "build+5".toList := by decide
  have target : Alias.IsPart "1.0.x".toList := by decide
  constructor
  · have reads : normalize "feature-x-dev".toList = .ok "dev-feature-x".toList := by decide
    rcases normalize_additions isPart (by decide) build target Nat.two_pos Nat.one_pos with
      ⟨normal, same⟩ | fails
    · obtain rfl := Except.ok.inj (reads.symm.trans (same _ List.mem_cons_self))
      exact same
    · obtain ⟨fault, refused⟩ := fails _ List.mem_cons_self
      cases reads.symm.trans refused
  · have refused : ∀ normal, normalize "1.0-meh".toList ≠ .ok normal := by rintro _ ⟨⟩
    have same := normalize_additions isPart' (by decide) build target Nat.one_pos
      (Nat.zero_lt_succ 2)
    exact same.resolve_left fun ⟨normal, reads⟩ => refused normal (reads _ List.mem_cons_self)

end Version

end VersionRanges

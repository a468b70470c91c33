/-
# What of a version is read

Blanks, aliases and metadata are cut off once and for all: what is left of a version is left of
itself. A version that begins with letters keeps them whatever is cut off behind them.
-/
import VersionRanges.Proofs.Reading.Branch

namespace VersionRanges

/-! ## Aliases and metadata -/

namespace Alias

theorem source_cases (text : Text) :
    source text = text ∨ source text = text.takeWhile isPartChar := by
  dsimp only [source]
  split
  · split
    · exact .inr rfl
    · exact .inl rfl
  · exact .inl rfl

theorem withoutMetadata_cases (text : Text) :
    withoutMetadata text = text ∨
      withoutMetadata text = text.takeWhile fun c => isPartChar c && c != '+' := by
  dsimp only [withoutMetadata]
  split
  · split
    · exact .inr rfl
    · exact .inl rfl
  · exact .inl rfl

theorem isPrefix_of_cut {text left : Text} {property : Char → Bool}
    (cut : left = text ∨ left = text.takeWhile property) : left <+: text := by
  rcases cut with rfl | rfl
  · exact List.prefix_refl left
  · exact List.takeWhile_prefix property

/-- A text without a plus sign has no metadata. -/
theorem withoutMetadata_eq_self {text : Text} (plain : '+' ∉ text) :
    withoutMetadata text = text := by
  dsimp only [withoutMetadata]
  split
  · next metadata rest =>
    have inside : '+' ∈ text.dropWhile fun c => isPartChar c && c != '+' := by
      rw [rest]
      exact List.mem_cons_self
    exact absurd ((List.dropWhile_suffix _).subset inside) plain
  · rfl

theorem withoutMetadata_withoutMetadata (text : Text) :
    withoutMetadata (withoutMetadata text) = withoutMetadata text := by
  rcases withoutMetadata_cases text with same | cut
  · rw [same, same]
  · refine withoutMetadata_eq_self fun inside => ?_
    rw [cut] at inside
    have taken := List.all_eq_true.mp List.all_takeWhile '+' inside
    exact absurd taken (by decide)

/-- What a text begins with is kept if it is part of every source. -/
theorem exists_source_append {front : Text} (plain : ∀ c ∈ front, isPartChar c = true)
    (rest : Text) : ∃ rest', source (front ++ rest) = front ++ rest' := by
  rcases source_cases (front ++ rest) with same | part
  · exact ⟨rest, same⟩
  · rw [List.takeWhile_append_of_pos plain] at part
    exact ⟨_, part⟩

end Alias

/-! ## The part that is read -/

namespace Version

open Alias (isPartChar)

theorem core_eq_self {version : Text} (plain : ∀ c ∈ version, isPartChar c = true)
    (unextended : '+' ∉ version) : core version = version := by
  rw [core_eq_withoutMetadata plain, Alias.withoutMetadata_eq_self unextended]

theorem core_isInfix (version : Text) : core version <:+: version := by
  have kept : core version <+: Text.trim version :=
    (Alias.isPrefix_of_cut (Alias.withoutMetadata_cases _)).trans
      (Alias.isPrefix_of_cut (Alias.source_cases _))
  exact kept.isInfix.trans (Text.trim_isInfix version)

/-- A version with none of the signs that no literal holds is read whole. -/
theorem core_eq_self_of_foreign {version : Text}
    (absent : ∀ sign, Text.IsForeign sign → sign ∉ version) : core version = version := by
  refine core_eq_self (fun c inside => ?_) (absent '+' (by decide))
  have comma : c ≠ ',' := by
    rintro rfl
    exact absent ',' (by decide) inside
  have solid : Text.isBlank c = false := by
    rw [Bool.eq_false_iff]
    exact fun blank => absent c (Text.isForeign_of_isBlank blank) inside
  simp [isPartChar, comma, solid]

/-- Nothing more is cut off from what is left. -/
theorem core_core (version : Text) : core (core version) = core version := by
  have again (text : Text) (plain : ∀ c ∈ Alias.withoutMetadata text, isPartChar c = true) :
      core (Alias.withoutMetadata text) = Alias.withoutMetadata text := by
    rw [core_eq_withoutMetadata plain, Alias.withoutMetadata_withoutMetadata]
  rcases Alias.withoutMetadata_cases (Alias.source (Text.trim version)) with whole | cut
  · rcases Alias.source_cases (Text.trim version) with same | part
    · have kept : core version = Text.trim version := whole.trans same
      rw [kept, core, Text.trim_trim]
      exact kept
    · refine again _ fun c inside => ?_
      rw [whole, part] at inside
      exact List.all_eq_true.mp List.all_takeWhile c inside
  · refine again _ fun c inside => ?_
    rw [cut] at inside
    have taken := List.all_eq_true.mp List.all_takeWhile c inside
    exact (Bool.and_eq_true_iff.mp taken).1

/-- Letters in front of a version are kept. -/
theorem exists_core_append {front : Text} (filled : front ≠ [])
    (plain : ∀ c ∈ front, (isPartChar c && c != '+') = true) (rest : Text) :
    ∃ rest', core (front ++ rest) = front ++ rest' := by
  have part : ∀ c ∈ front, isPartChar c = true :=
    fun c inside => (Bool.and_eq_true_iff.mp (plain c inside)).1
  have solid : ∀ c ∈ front, Text.isBlank c = false :=
    fun c inside => Alias.isBlank_eq_false (part c inside)
  obtain ⟨trimmed, trims⟩ := Text.exists_trim_append filled solid rest
  obtain ⟨named, names⟩ := Alias.exists_source_append part trimmed
  rw [core, trims, names]
  exact Alias.exists_withoutMetadata_append plain named

end Version

end VersionRanges

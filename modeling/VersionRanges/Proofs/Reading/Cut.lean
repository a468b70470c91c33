/-
# What is cut off a constraint

A flag is cut off behind its sign, and a reference behind its own: everything from the number sign
to the end of the text, as long as that is one line, if nothing but characters of a version stands
before the sign. A text without the two signs is left as it is.
-/
import Mathlib.Data.List.TakeWhile
import VersionRanges.Constraint.Parser
import VersionRanges.Proofs.Text.Blank
import VersionRanges.Proofs.Text.Caseless

namespace VersionRanges

namespace Flag

theorem split?_eq_none {text : Text} (unflagged : '@' ∉ text) : split? text = none := by
  have absent : text.reverse.dropWhile (· != '@') = [] := by
    rw [List.dropWhile_eq_nil_iff]
    exact fun c inside => Text.forall_bne unflagged c (List.mem_reverse.mp inside)
  simp [split?, absent]

theorem cut_eq_self {text : Text} (unflagged : '@' ∉ text) : cut text = text := by
  rw [cut, split?_eq_none unflagged]

end Flag

namespace Reference

/-- Where a reading succeeds, the text before it is made of characters of a version. -/
theorem eq_append_of_splitBefore? {α : Type} {reading : Text → Option α} {text front : Text}
    {value : α} (split : splitBefore? reading text = some (front, value)) :
    ∃ rest, text = front ++ rest ∧ reading rest = some value ∧
      ∀ c ∈ front, isVersionChar c = true := by
  induction text generalizing front with
  | nil => simp [splitBefore?] at split
  | cons c rest ih =>
      cases here : reading (c :: rest) with
      | some value' =>
          obtain ⟨rfl, rfl⟩ : front = [] ∧ value' = value := by
            simpa [splitBefore?, here, eq_comm] using split
          exact ⟨c :: rest, rfl, here, by simp⟩
      | none =>
          simp only [splitBefore?, here] at split
          split at split
          · next plain =>
            simp only [Option.map_eq_some_iff, Prod.map_apply, id_eq, Prod.mk.injEq,
              Prod.exists] at split
            obtain ⟨front, value', inner, rfl, rfl⟩ := split
            obtain ⟨rest', rfl, succeeds, chars⟩ := ih inner
            exact ⟨rest', rfl, succeeds, List.forall_mem_cons.mpr ⟨plain, chars⟩⟩
          · simp at split

theorem eq_of_readHash? {text : Text} {found : Unit} (reads : readHash? text = some found) :
    ∃ commit, text = '#' :: commit ∧ isCommit commit = true := by
  unfold readHash? at reads
  split at reads
  · next commit =>
    split at reads
    · next line => exact ⟨commit, rfl, line⟩
    · cases reads
  · cases reads

/-- A character that keywords are written in is a character of a version. -/
theorem isVersionChar_of_foldCase {c : Char} (sign : isVersionChar (Text.foldCase c) = true) :
    isVersionChar c = true := by
  by_cases blank : Text.isBlank c = true
  · rw [Text.foldCase_of_isBlank blank] at sign
    exact sign
  · by_cases comma : c = ','
    · subst comma
      exact sign
    · by_cases flag : c = '@'
      · subst flag
        exact sign
      · simp [isVersionChar, Alias.isPartChar, blank, comma, flag]

theorem isVersionChar_of_keyword? {keyword text spelling rest : Text}
    (signs : ∀ k ∈ keyword, isVersionChar k = true)
    (split : Text.keyword? keyword text = some (spelling, rest)) :
    ∀ c ∈ spelling, isVersionChar c = true := by
  intro c inside
  apply isVersionChar_of_foldCase
  apply signs
  rw [← Text.map_foldCase_of_keyword? split]
  exact List.mem_map_of_mem inside

theorem eq_of_readOpenEnding? {text ending : Text} (reads : readOpenEnding? text = some ending) :
    ∃ commit, text = ending ++ '#' :: commit ∧ isCommit commit = true ∧
      Text.keyword? ".x-dev".toList text = some (ending, '#' :: commit) := by
  unfold readOpenEnding? at reads
  split at reads
  · next ending' rest spelled =>
    obtain ⟨found, hash, rfl⟩ := Option.map_eq_some_iff.mp reads
    obtain ⟨commit, rfl, line⟩ := eq_of_readHash? hash
    exact ⟨commit, Text.eq_append_of_keyword? spelled, line, spelled⟩
  · cases reads

/-- The version that a reference stands behind, with the number sign and the commit, is the whole
text. -/
structure IsCutAt (text version commit : Text) : Prop where
  whole : text = version ++ '#' :: commit
  line : isCommit commit = true
  plain : ∀ c ∈ version, isVersionChar c = true

theorem exists_of_cutBranch? {text version : Text} (split : cutBranch? text = some version) :
    ∃ commit, IsCutAt text version commit := by
  unfold cutBranch? at split
  split at split
  · next marker c rest spelled =>
    split at split
    · next plain =>
      obtain ⟨⟨name, found⟩, inner, rfl⟩ := Option.map_eq_some_iff.mp split
      obtain ⟨rest', rfl, hash, chars⟩ := eq_append_of_splitBefore? inner
      obtain ⟨commit, rfl, line⟩ := eq_of_readHash? hash
      refine ⟨commit, ?_, line, ?_⟩
      · rw [Text.eq_append_of_keyword? spelled]
        simp
      · have chars' : ∀ d ∈ c :: name, isVersionChar d = true :=
          List.forall_mem_cons.mpr ⟨plain, chars⟩
        intro d inside
        rcases List.mem_append.mp inside with marked | named
        · exact isVersionChar_of_keyword? (List.all_eq_true.mp (by decide)) spelled d marked
        · exact chars' d named
    · cases split
  · cases split

theorem exists_of_cutNumeric? {text version : Text} (split : cutNumeric? text = some version) :
    ∃ commit, IsCutAt text version commit := by
  unfold cutNumeric? at split
  split at split
  · next c rest =>
    split at split
    · next plain =>
      obtain ⟨⟨numbers, ending⟩, inner, rfl⟩ := Option.map_eq_some_iff.mp split
      obtain ⟨rest', rfl, opened, chars⟩ := eq_append_of_splitBefore? inner
      obtain ⟨commit, rfl, line, spelled⟩ := eq_of_readOpenEnding? opened
      have chars' : ∀ d ∈ c :: numbers, isVersionChar d = true :=
        List.forall_mem_cons.mpr ⟨plain, chars⟩
      refine ⟨commit, by simp, line, ?_⟩
      intro d inside
      rcases List.mem_append.mp inside with numbered | ended
      · exact chars' d numbered
      · exact isVersionChar_of_keyword? (List.all_eq_true.mp (by decide)) spelled d ended
    · cases split
  · cases split

/-- Cutting leaves a text as it is or takes off a reference that the text ends in. -/
theorem cut_cases (text : Text) :
    cut text = text ∨ ∃ commit, IsCutAt text (cut text) commit := by
  unfold cut
  cases branch : cutBranch? text with
  | some version => exact .inr (exists_of_cutBranch? branch)
  | none =>
      cases numeric : cutNumeric? text with
      | some version => exact .inr (exists_of_cutNumeric? numeric)
      | none => exact .inl rfl

theorem cut_eq_self {text : Text} (unsigned : '#' ∉ text) : cut text = text := by
  rcases cut_cases text with same | ⟨commit, whole, -, -⟩
  · exact same
  · rw [whole] at unsigned
    simp at unsigned

end Reference

/-- A text without the signs of flags and references is read as it stands. -/
theorem Constraint.core_eq_self {text : Text} (unflagged : '@' ∉ text) (unsigned : '#' ∉ text) :
    core text = text := by
  rw [core, Flag.cut_eq_self unflagged, Reference.cut_eq_self unsigned]

end VersionRanges

/-
# Releases with a given standing

Every standing is that of a version: the names of its marks, with a dot behind each of them. Such a
version is no branch and holds no number sign, so that what the order of standings offers, a
standing between or beyond others, is there among the releases too.
-/
import VersionRanges.Proofs.Order.Standing

namespace VersionRanges.Version

namespace Mark

/-- A name with a given mark, or the digits of a number. The end has no name. -/
def word : Mark → Text
  | unknown => "x".toList
  | dev => "dev".toList
  | alpha => "alpha".toList
  | beta => "beta".toList
  | candidate => "rc".toList
  | closing => []
  | number value => Text.ofNat value
  | patch => "patch".toList

theorem isAlphanum_of_mem_word {mark : Mark} {c : Char} (inside : c ∈ mark.word) :
    c.isAlphanum = true := by
  cases mark with
  | number value => simp [Char.isAlphanum, Part.isDecimal_ofNat value c inside]
  | _ => exact List.all_eq_true.mp rfl c inside

/-- Letters and digits neither separate parts nor are blank, and a branch marker has more to it. -/
theorem ne_sign_of_isAlphanum {c : Char} (plain : c.isAlphanum = true) :
    isSeparator c = false ∧ Text.isBlank c = false ∧ c ≠ '#' ∧ c ≠ '-' := by
  have apart {d : Char} (sign : d.isAlphanum = false) : c ≠ d := by
    intro same
    subst same
    rw [plain] at sign
    cases sign
  have codes : (48 ≤ c.toNat ∧ c.toNat ≤ 57) ∨ (65 ≤ c.toNat ∧ c.toNat ≤ 90) ∨
      (97 ≤ c.toNat ∧ c.toNat ≤ 122) := by
    change ((decide (65 ≤ c.val ∧ c.val ≤ 90) ||
      decide (97 ≤ c.val) && decide (c.val ≤ 122)) ||
      decide (48 ≤ c.val) && decide (c.val ≤ 57)) = true at plain
    simp only [Bool.or_eq_true, Bool.and_eq_true, decide_eq_true_eq, UInt32.le_iff_toNat_le]
      at plain
    change (65 ≤ c.toNat ∧ c.toNat ≤ 90 ∨ 97 ≤ c.toNat ∧ c.toNat ≤ 122) ∨
      48 ≤ c.toNat ∧ c.toNat ≤ 57 at plain
    omega
  have solid : Text.isBlank c = false := by
    simp only [Text.isBlank, Bool.or_eq_false_iff, Bool.and_eq_false_iff, decide_eq_false_iff_not,
      beq_eq_false_iff_ne]
    omega
  have plain : isSeparator c = false := by
    simp [isSeparator, apart (d := '.') rfl, apart (d := '-') rfl, apart (d := '_') rfl,
      apart (d := '+') rfl]
  exact ⟨plain, solid, apart rfl, apart rfl⟩

theorem isRun_word {mark : Mark} (inner : mark ≠ closing) : IsRun mark.word := by
  have unseparated : ∀ c ∈ mark.word, isSeparator c = false :=
    fun c inside => (ne_sign_of_isAlphanum (isAlphanum_of_mem_word inside)).1
  cases mark with
  | number value =>
      exact ⟨Nat.toDigits_ne_nil, unseparated, true, Part.isDecimal_ofNat value⟩
  | closing => exact absurd rfl inner
  | _ =>
      refine ⟨by decide, unseparated, false, ?_⟩
      simp only [← Bool.not_eq_true', ← List.all_eq_true]
      rfl

theorem ofPart_word {mark : Mark} (inner : mark ≠ closing) : ofPart mark.word = mark := by
  cases mark with
  | number value =>
      have isNumber : Part.isNumber (Text.ofNat value) = true := by
        obtain ⟨c, rest, eq⟩ :=
          List.exists_cons_of_ne_nil (Nat.toDigits_ne_nil (n := value) (b := 10))
        have digit : c.isDigit = true := Part.isDecimal_ofNat value c (by rw [Text.ofNat, eq]; simp)
        simp [Part.isNumber, Text.ofNat, eq, digit]
      rw [word, ofPart, if_pos isNumber, Part.value_ofNat]
  | closing => exact absurd rfl inner
  | _ => decide

end Mark

namespace Standing

/-- A version with a given standing. -/
def text (standing : Standing) : Text := dotted (standing.marks.map Mark.word)

theorem mem_text {standing : Standing} {c : Char} (inside : c ∈ standing.text) :
    c = '.' ∨ c.isAlphanum = true := by
  simp only [text, dotted, List.mem_flatMap, List.mem_map, List.mem_append,
    List.mem_singleton] at inside
  obtain ⟨word, ⟨mark, -, rfl⟩, named | dot⟩ := inside
  · exact .inr (Mark.isAlphanum_of_mem_word named)
  · exact .inl dot

theorem not_mem_text_numberSign (standing : Standing) : '#' ∉ standing.text := by
  intro inside
  rcases mem_text inside with dot | plain
  · cases dot
  · exact (Mark.ne_sign_of_isAlphanum plain).2.2.1 rfl

theorem isBranch_text (standing : Standing) : Branch.isBranch standing.text = false := by
  rw [Bool.eq_false_iff]
  intro branch
  have marker : '-' ∈ standing.text :=
    (List.isPrefixOf_iff_prefix.mp branch).subset (by decide)
  rcases mem_text marker with dot | plain
  · cases dot
  · exact (Mark.ne_sign_of_isAlphanum plain).2.2.2 rfl

theorem standing_text (standing : Standing) : Version.standing standing.text = standing := by
  have isRun : ∀ word ∈ standing.marks.map Mark.word, IsRun word := by
    intro word written
    obtain ⟨mark, inside, rfl⟩ := List.mem_map.mp written
    exact Mark.isRun_word fun closing => standing.unclosed (closing ▸ inside)
  have solid : ∀ c ∈ standing.text, Text.isBlank c = false := by
    intro c inside
    rcases mem_text inside with rfl | plain
    · rfl
    · exact (Mark.ne_sign_of_isAlphanum plain).2.1
  have cut : parts standing.text = standing.marks.map Mark.word :=
    parts_dotted isRun solid standing.not_mem_text_numberSign
  have named : ∀ mark ∈ standing.marks, (Mark.ofPart ∘ Mark.word) mark = mark :=
    fun mark inside => Mark.ofPart_word fun closing => standing.unclosed (closing ▸ inside)
  ext1
  change (parts standing.text).map Mark.ofPart = standing.marks
  rw [cut, List.map_map, List.map_congr_left named, List.map_id']

end Standing

end VersionRanges.Version

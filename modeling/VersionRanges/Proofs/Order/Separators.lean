/-
# Separators between parts

How the parts of a version are kept apart does not matter to its order: any separators in a row are
as good as any others, and between a digit and another character a separator may as well be missing.
This holds at the ends of a version too. A separator in front makes an empty part, but more of them
make no more; and since none of them is a blank, trimming does not see the difference.

Versions that begin with a number sign are cut at dots alone and are left aside.
-/
import Mathlib.Logic.Relation
import VersionRanges.Proofs.Order.Runs
import VersionRanges.Version.Order

namespace VersionRanges.Version

/-- Separators in a row. -/
structure AreSeparators (row : Text) : Prop where
  nonempty : row ≠ []
  separators : ∀ c ∈ row, isSeparator c = true

/-- One change in how the parts of a text are kept apart: separators in a row are exchanged for
others, or a separator is put between a digit and another character, in either order. -/
inductive Reseparates : Text → Text → Prop
  | exchange (before after : Text) {row row' : Text} :
      AreSeparators row → AreSeparators row' →
      Reseparates (before ++ (row ++ after)) (before ++ (row' ++ after))
  | insert (before after : Text) {c d separator : Char} :
      c.isDigit ≠ d.isDigit → isSeparator separator = true →
      Reseparates (before ++ [c] ++ d :: after) (before ++ [c] ++ separator :: d :: after)

/-! ## The ends of a text -/

/-- What stands at an end of two texts is the same, or a separator in both. -/
def EndsAlike (first second : Option Char) : Prop :=
  first = second ∨ first.any isSeparator = true ∧ second.any isSeparator = true

namespace EndsAlike

variable {first second : Option Char}

theorem any_eq (alike : EndsAlike first second) :
    first.any isSeparator = second.any isSeparator := by
  rcases alike with rfl | ⟨separator, separator'⟩
  · rfl
  · rw [separator, separator']

/-- What holds of all separators is kept at an end. -/
theorem forall_of_forall (alike : EndsAlike first second) {property : Char → Prop}
    (separators : ∀ c, isSeparator c = true → property c) (ends : ∀ c ∈ first, property c) :
    ∀ c ∈ second, property c := by
  rcases alike with rfl | ⟨-, separator⟩
  · exact ends
  · rintro c rfl
    exact separators c separator

end EndsAlike

namespace AreSeparators

variable {row row' : Text}

theorem head?_append (areSeparators : AreSeparators row) (rest : Text) :
    (row ++ rest).head?.any isSeparator = true := by
  obtain ⟨c, row, rfl⟩ := List.exists_cons_of_ne_nil areSeparators.nonempty
  exact areSeparators.separators c List.mem_cons_self

theorem getLast? (areSeparators : AreSeparators row) : row.getLast?.any isSeparator = true := by
  rw [List.getLast?_eq_some_getLast areSeparators.nonempty]
  exact areSeparators.separators _ (List.getLast_mem areSeparators.nonempty)

/-- Separators in a row belong to no run. -/
theorem runs_append (areSeparators : AreSeparators row) (rest : Text) :
    runs (row ++ rest) = runs rest := by
  have separators := areSeparators.separators
  clear areSeparators
  induction row with
  | nil => rfl
  | cons c row ih =>
      obtain ⟨separator, separators⟩ := List.forall_mem_cons.mp separators
      rw [List.cons_append, runs_cons_of_isSeparator separator, ih separators]

end AreSeparators

theorem isBlank_of_isSeparator {c : Char} (separator : isSeparator c = true) :
    Text.isBlank c = false := by
  have signs : ((c = '.' ∨ c = '-') ∨ c = '_') ∨ c = '+' := by simpa [isSeparator] using separator
  rcases signs with ((rfl | rfl) | rfl) | rfl <;> decide

namespace Reseparates

variable {text text' : Text}

theorem head? (change : Reseparates text text') : EndsAlike text.head? text'.head? := by
  cases change with
  | exchange before after areSeparators areSeparators' =>
      cases before with
      | nil => exact .inr ⟨areSeparators.head?_append after, areSeparators'.head?_append after⟩
      | cons c before => exact .inl rfl
  | insert before after _ _ =>
      rw [List.append_assoc, List.append_assoc]
      cases before with
      | nil => exact .inl rfl
      | cons c before => exact .inl rfl

theorem getLast? (change : Reseparates text text') :
    EndsAlike text.getLast? text'.getLast? := by
  cases change with
  | @exchange before after row row' areSeparators areSeparators' =>
      rcases List.eq_nil_or_concat' after with rfl | ⟨after, last, rfl⟩
      · refine .inr ⟨?_, ?_⟩
        · rw [List.append_nil, List.getLast?_append_of_ne_nil _ areSeparators.nonempty]
          exact areSeparators.getLast?
        · rw [List.append_nil, List.getLast?_append_of_ne_nil _ areSeparators'.nonempty]
          exact areSeparators'.getLast?
      · refine .inl ?_
        simp [← List.append_assoc]
  | insert before after _ _ =>
      refine .inl ?_
      rw [List.getLast?_append_of_ne_nil _ (by simp), List.getLast?_append_of_ne_nil _ (by simp),
        List.getLast?_cons_cons]

/-- Nothing but separators changes, and these make no runs. -/
theorem runs_eq (change : Reseparates text text') : runs text' = runs text := by
  cases change with
  | @exchange before after row row' areSeparators areSeparators' =>
      have cut {row : Text} (areSeparators : AreSeparators row) :
          runs (before ++ (row ++ after)) = runs before ++ runs after := by
        rw [runs_append_of_separated before fun c first => ?_, areSeparators.runs_append]
        have separator := areSeparators.head?_append after
        rwa [Option.mem_def.mp first] at separator
      rw [cut areSeparators, cut areSeparators']
  | @insert before after c d separator apart isSeparator' =>
      have apart' : ∀ e ∈ (before ++ [c]).getLast?, ∀ e' ∈ (d :: after).head?,
          isSeparator e = true ∨ isSeparator e' = true ∨ e.isDigit ≠ e'.isDigit := by
        simpa using .inr (.inr apart)
      rw [runs_append_of_separated _ (by simpa using isSeparator'),
        runs_cons_of_isSeparator isSeparator', ← runs_append_of_apart _ apart']

/-- A trimmed text stays trimmed, because separators are no blanks. -/
theorem trim_eq (change : Reseparates text text') (trimmed : Text.trim text = text) :
    Text.trim text' = text' := by
  refine Text.trim_eq_self_of_ends ?_ ?_
  · exact change.head?.forall_of_forall (fun c => isBlank_of_isSeparator)
      fun c => Text.isBlank_of_head? trimmed
  · exact change.getLast?.forall_of_forall (fun c => isBlank_of_isSeparator)
      fun c => Text.isBlank_of_getLast? trimmed

/-- No number sign comes to the front. -/
theorem head?_ne_numberSign (change : Reseparates text text') (unsigned : text.head? ≠ some '#') :
    text'.head? ≠ some '#' := by
  have separators : ∀ c, isSeparator c = true → c ≠ '#' := by
    rintro c separator rfl
    exact absurd separator (by decide)
  have unsigned' : ∀ c ∈ text.head?, c ≠ '#' := by
    rintro c first rfl
    exact unsigned first
  intro sign
  exact change.head?.forall_of_forall separators unsigned' '#' sign rfl

theorem frontPart_eq (change : Reseparates text text') : frontPart text' = frontPart text := by
  rw [frontPart, frontPart, change.head?.any_eq]

end Reseparates

/-! ## Versions -/

/-- What a change keeps goes on being so however many changes are made. -/
theorem parts_of_reseparated {text text' : Text}
    (changes : Relation.ReflTransGen Reseparates text text') (trimmed : Text.trim text = text)
    (unsigned : text.head? ≠ some '#') :
    Text.trim text' = text' ∧ text'.head? ≠ some '#' ∧ parts text' = parts text := by
  induction changes with
  | refl => exact ⟨trimmed, unsigned, rfl⟩
  | tail _ change ih =>
      obtain ⟨trimmed', unsigned', same⟩ := ih
      have trimmed'' := change.trim_eq trimmed'
      have unsigned'' := change.head?_ne_numberSign unsigned'
      refine ⟨trimmed'', unsigned'', ?_⟩
      rw [← same, parts_eq_frontPart_append (by rwa [trimmed'']),
        parts_eq_frontPart_append (by rwa [trimmed']), trimmed', trimmed'', change.frontPart_eq,
        change.runs_eq]

/-- However the parts of a version are kept apart, they are the same parts, and the version has the
same place among all others. -/
theorem compare_reseparated {version version' : Text}
    (unsigned : (Text.trim version).head? ≠ some '#')
    (changes : Relation.ReflTransGen Reseparates (Text.trim version) version') :
    parts version' = parts version ∧
      ∀ other, compare version' other = compare version other ∧
        compare other version' = compare other version := by
  obtain ⟨-, -, same⟩ := parts_of_reseparated changes (Text.trim_trim version) unsigned
  have same' : parts version' = parts version := by
    rw [same, parts, parts, Text.trim_trim]
  refine ⟨same', fun other => ⟨?_, ?_⟩⟩
  · rw [compare, compare, same']
  · rw [compare, compare, same']

/-- Other separators in front, and one more between a letter outside ASCII and a digit. -/
theorem compare_reseparated_beside_letter :
    (Text.trim " -1.0é2.".toList).head? ≠ some '#' ∧
      Relation.ReflTransGen Reseparates (Text.trim " -1.0é2.".toList) "._1.0é+2.".toList ∧
      parts "._1.0é+2.".toList = parts " -1.0é2.".toList ∧
      ∀ other, compare "._1.0é+2.".toList other = compare " -1.0é2.".toList other ∧
        compare other "._1.0é+2.".toList = compare other " -1.0é2.".toList := by
  have unsigned : (Text.trim " -1.0é2.".toList).head? ≠ some '#' := by decide
  have row : AreSeparators ['-'] := ⟨by decide, List.all_eq_true.mp rfl⟩
  have row' : AreSeparators ['.', '_'] := ⟨by decide, List.all_eq_true.mp rfl⟩
  have exchanged : Reseparates "-1.0é2.".toList "._1.0é2.".toList :=
    .exchange [] "1.0é2.".toList row row'
  have inserted : Reseparates "._1.0é2.".toList "._1.0é+2.".toList :=
    .insert "._1.0".toList ['.'] (by decide) (by decide)
  have trimmed : Text.trim " -1.0é2.".toList = "-1.0é2.".toList := by decide
  have changes :
      Relation.ReflTransGen Reseparates (Text.trim " -1.0é2.".toList) "._1.0é+2.".toList :=
    trimmed ▸ .tail (.single exchanged) inserted
  exact ⟨unsigned, changes, compare_reseparated unsigned changes⟩

/-- Behind a number sign a separator counts. -/
example : parts "#1".toList ≠ parts "#.1".toList := by decide

end VersionRanges.Version

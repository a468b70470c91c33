/-
# What a text is read as

Reading a constraint is reading its alternatives one by one, and the text of the whole has a part in
the refusals and in the label alone. A version satisfies the text if it meets the constraint of one
alternative, and it meets that if it meets all constraints of all terms.
-/
import Mathlib.Data.List.Forall2
import VersionRanges.Proofs.Overlap.Tree
import VersionRanges.Proofs.Reading.Alternatives
import VersionRanges.Proofs.Reading.Cut
import VersionRanges.Selection

namespace VersionRanges

/-! ## Outcomes -/

section

variable {α β γ ε : Type} {outcome : Except ε α}

theorem exists_of_map_eq_ok {change : α → β} {result : β}
    (done : outcome.map change = .ok result) :
    ∃ value, outcome = .ok value ∧ change value = result := by
  cases outcome with
  | error refusal => cases done
  | ok value => exact ⟨value, rfl, Except.ok.inj done⟩

theorem exists_of_bind_eq_ok {next : α → Except ε β} {result : β}
    (done : outcome >>= next = .ok result) :
    ∃ value, outcome = .ok value ∧ next value = .ok result := by
  cases outcome with
  | error refusal => cases done
  | ok value => exact ⟨value, rfl, done⟩

/-- What is made of two outcomes is made of what they come to. -/
theorem exists_of_both_eq_ok {outcome' : Except ε β} {combine : α → β → γ} {result : γ}
    (done : (do let value ← outcome; let value' ← outcome'; return combine value value') =
      .ok result) :
    ∃ value value', outcome = .ok value ∧ outcome' = .ok value' ∧
      combine value value' = result := by
  obtain ⟨value, first, done⟩ := exists_of_bind_eq_ok done
  obtain ⟨value', second, done⟩ := exists_of_bind_eq_ok done
  exact ⟨value, value', first, second, Except.ok.inj done⟩

/-- What is made of an outcome is refused exactly if the outcome is, and for the same reason. -/
theorem map_eq_error_iff {change : α → β} {refusal : ε} :
    outcome.map change = .error refusal ↔ outcome = .error refusal := by
  cases outcome <;> simp [Except.map]

/-- A step after another is refused if the first is, and else if the second is. -/
theorem bind_eq_error_iff {next : α → Except ε β} {refusal : ε} :
    outcome >>= next = .error refusal ↔
      outcome = .error refusal ∨ ∃ value, outcome = .ok value ∧ next value = .error refusal := by
  cases outcome <;> simp [bind, Except.bind]

end

/-! ## Readings one by one -/

section

variable {α β ε : Type} {reading : α → Except ε β} {texts : List α}

/-- A list is read if each of its items is, in the same order. -/
theorem mapM_eq_ok_iff {values : List β} :
    texts.mapM reading = .ok values ↔
      List.Forall₂ (fun text value => reading text = .ok value) texts values := by
  induction texts generalizing values with
  | nil => cases values <;> simp [pure, Except.pure]
  | cons text texts ih =>
      rw [List.mapM_cons]
      cases first : reading text with
      | error refusal => cases values <;> simp [first, bind, Except.bind]
      | ok value =>
          cases further : texts.mapM reading with
          | error refusal =>
              cases values <;> simp [← ih, first, further, bind, Except.bind]
          | ok others =>
              cases values <;> simp [← ih, first, further, bind, Except.bind, pure, Except.pure]

/-- A list is refused for the reason for which one of its items is. -/
theorem exists_of_mapM_eq_error {refusal : ε} (refused : texts.mapM reading = .error refusal) :
    ∃ text ∈ texts, reading text = .error refusal := by
  induction texts with
  | nil => cases refused
  | cons text texts ih =>
      rw [List.mapM_cons] at refused
      rcases bind_eq_error_iff.mp refused with here | ⟨value, -, further⟩
      · exact ⟨text, List.mem_cons_self, here⟩
      · rcases bind_eq_error_iff.mp further with behind | ⟨values, -, done⟩
        · obtain ⟨text', listed, refused'⟩ := ih behind
          exact ⟨text', List.mem_cons_of_mem text listed, refused'⟩
        · cases done

/-- A list can be read if each of its items can. -/
theorem exists_mapM_eq_ok_iff :
    (∃ values, texts.mapM reading = .ok values) ↔
      ∀ text ∈ texts, ∃ value, reading text = .ok value := by
  simp only [mapM_eq_ok_iff]
  induction texts with
  | nil => simp
  | cons text texts ih =>
      rw [List.forall_mem_cons, ← ih]
      constructor
      · rintro ⟨_, first | ⟨first, further⟩⟩
        exact ⟨⟨_, first⟩, _, further⟩
      · rintro ⟨⟨value, first⟩, values, further⟩
        exact ⟨value :: values, .cons first further⟩

end

section

variable {α β : Type} {related : α → β → Prop} {first : List α} {second : List β}

theorem exists_of_mem_left (pairs : List.Forall₂ related first second) {a : α}
    (inside : a ∈ first) : ∃ b ∈ second, related a b := by
  induction pairs with
  | nil => cases inside
  | cons here _ ih =>
      rcases List.mem_cons.mp inside with rfl | further
      · exact ⟨_, List.mem_cons_self, here⟩
      · obtain ⟨b, listed, pair⟩ := ih further
        exact ⟨b, List.mem_cons_of_mem _ listed, pair⟩

theorem exists_of_mem_right (pairs : List.Forall₂ related first second) {b : β}
    (inside : b ∈ second) : ∃ a ∈ first, related a b :=
  exists_of_mem_left (List.Forall₂.flip pairs) inside

end

namespace Constraint

/-! ## Joined constraints -/

section

variable (members : List Constraint) (version : Text)

theorem isMetBy_withLabel (text : Text) (required : Constraint) :
    (required.withLabel text).isMetBy version = required.isMetBy version := by
  cases required with
  | anything label => rfl
  | atom bound label => rfl
  | group connective members label => cases connective <;> rfl

/-- A version meets constraints joined by *and* if it meets each of them. -/
theorem isMetBy_join_and :
    (join .and members).isMetBy version = members.all (·.isMetBy version) := by
  match members with
  | [] => rfl
  | [member] => simp [join]
  | member :: member' :: members => exact evaluate_and _ none _

/-- A version meets constraints joined by *or* if it meets one of them. There has to be one, because
joining nothing admits everything. -/
theorem isMetBy_join_or {members : List Constraint} (nonempty : members ≠ []) :
    (join .or members).isMetBy version = members.any (·.isMetBy version) := by
  match members with
  | [] => exact absurd rfl nonempty
  | [member] => simp [join]
  | member :: member' :: members => exact evaluate_or _ none _

end

/-! ## Terms -/

/-- The forms of a term without its flag, with the outcome of each. -/
inductive HasForm (term : Text) (flag : Option Text) : Except Error (List Bound) → Prop
  | arrow : HasForm term flag (.error (.tildeArrow term))
  | tilde {literal : Literal} (found : Range.tilde? term = some literal) :
      HasForm term flag (Range.tilde term literal)
  | caret {literal : Literal} (found : Range.caret? term = some literal) :
      HasForm term flag (Range.caret term literal)
  | numbers {numbers : List Text} (found : Range.open? term = some numbers) :
      HasForm term flag (Range.ofNumbers term numbers)
  | hyphen {range : Range.Hyphen} (found : Range.hyphen? term = some range) :
      HasForm term flag (Range.hyphen term range)
  | comparator : HasForm term flag ((Comparator.read term flag).map ([·]))

/-- The bounds of a term are the outcome of one of its forms. -/
theorem hasForm_readBounds (term : Text) (flag : Option Text) :
    HasForm term flag (readBounds term flag) := by
  rw [readBounds]
  split
  · exact .arrow
  · split
    · next found => exact .tilde found
    · split
      · next found => exact .caret found
      · split
        · next found => exact .numbers found
        · split
          · next found => exact .hyphen found
          · exact .comparator

/-- A term that is read admits everything, or stands for the bounds of its form. -/
theorem eq_anything_or_exists_of_readTerm {term : Text} {members : List Constraint}
    (reads : readTerm term = .ok members) :
    members = [anything none] ∨
      ∃ bounds, readBounds (splitFlag term).1 (splitFlag term).2 = .ok bounds ∧
        bounds.map ofBound = members := by
  rw [readTerm] at reads
  dsimp only at reads
  split at reads
  · exact .inl (Except.ok.inj reads).symm
  · exact .inr (exists_of_map_eq_ok reads)

/-! ## Alternatives -/

/-- An alternative is read as a constraint: its terms are read, and all of them have to hold. -/
def ReadsAs (alternative : Text) (member : Constraint) : Prop :=
  alternative ≠ [] ∧ ∃ terms, (Term.split alternative).mapM readTerm = .ok terms ∧
    join .and terms.flatten = member

theorem readAlternative_eq_ok_iff {whole alternative : Text} {member : Constraint} :
    readAlternative whole alternative = .ok member ↔ ReadsAs alternative member := by
  cases alternative with
  | nil => simp [readAlternative, ReadsAs]
  | cons c rest =>
      simp only [readAlternative, ReadsAs, List.isEmpty_cons, Bool.false_eq_true, if_false]
      cases (Term.split (c :: rest)).mapM readTerm <;> simp [Except.map]

theorem mapM_readAlternative_eq_ok_iff (whole : Text) {alternatives : List Text}
    {members : List Constraint} :
    alternatives.mapM (readAlternative whole) = .ok members ↔
      List.Forall₂ ReadsAs alternatives members := by
  simp only [mapM_eq_ok_iff, readAlternative_eq_ok_iff]

/-- No alternative that is read is empty. -/
theorem nil_not_mem_of_forall₂ {alternatives : List Text} {members : List Constraint}
    (read : List.Forall₂ ReadsAs alternatives members) : [] ∉ alternatives := by
  intro inside
  obtain ⟨member, -, filled, -⟩ := exists_of_mem_left read inside
  exact filled rfl

/-! ## Whole texts -/

/-- A blank text has one alternative, which is empty. -/
theorem split_core_of_blank {text : Text} (blank : Text.trim text = []) :
    Alternative.split (core text) = [[]] := by
  have blanks : Text.IsBlankText text := Text.trim_eq_nil_iff.mp blank
  have unflagged : '@' ∉ text := blanks.not_mem (by decide)
  have unsigned : '#' ∉ text := blanks.not_mem (by decide)
  rw [core_eq_self unflagged unsigned, Alternative.split, blank]
  rfl

/-- The constraint of a text joins those of its alternatives, and carries the text. -/
theorem parse_eq_ok_iff {text : Text} {required : Constraint} :
    parse text = .ok required ↔
      ∃ members, List.Forall₂ ReadsAs (Alternative.split (core text)) members ∧
        (join .or members).withLabel text = required := by
  simp only [← mapM_readAlternative_eq_ok_iff text, parse]
  by_cases blank : Text.trim text = []
  · simp [split_core_of_blank blank, blank, readAlternative, bind, Except.bind]
  · have filled : (Text.trim text).isEmpty = false := by simpa using blank
    cases (Alternative.split (core text)).mapM (readAlternative text) <;> simp [filled, Except.map]

/-! ## Satisfaction -/

theorem satisfies_of_parse {text : Text} {required : Constraint} (reads : parse text = .ok required)
    (version : Text) :
    Selection.satisfies version text = Selection.isMetByText required version := by
  unfold Selection.satisfies Selection.trySatisfies Selection.isMetByText
  cases Version.normalize version <;> simp [reads, bind, Except.bind, pure, Except.pure]

theorem satisfies_of_unreadable {version : Text} {refusal : Error}
    (unreadable : Version.normalize version = .error refusal) (text : Text) :
    Selection.satisfies version text = false := by
  simp [Selection.satisfies, Selection.trySatisfies, unreadable, bind, Except.bind]

theorem satisfies_of_refused {text : Text} (refused : ∀ required, parse text ≠ .ok required)
    (version : Text) : Selection.satisfies version text = false := by
  unfold Selection.satisfies Selection.trySatisfies
  cases Version.normalize version with
  | error refusal => rfl
  | ok normal =>
      cases reads : parse text with
      | error refusal => rfl
      | ok required => exact absurd reads (refused required)

theorem exists_parse_of_satisfies {version text : Text}
    (satisfied : Selection.satisfies version text = true) :
    ∃ required, parse text = .ok required := by
  by_contra unread
  push Not at unread
  rw [satisfies_of_refused unread] at satisfied
  cases satisfied

/-- A version satisfies a text if it meets the constraint of one of the alternatives. -/
theorem satisfies_eq_any {text : Text} {members : List Constraint}
    (read : List.Forall₂ ReadsAs (Alternative.split (core text)) members) (version : Text) :
    Selection.satisfies version text = members.any (Selection.isMetByText · version) := by
  have nonempty : members ≠ [] := by
    rintro rfl
    exact Alternative.split_ne_nil _ (List.forall₂_nil_right_iff.mp read)
  rw [satisfies_of_parse (parse_eq_ok_iff.mpr ⟨members, read, rfl⟩)]
  unfold Selection.isMetByText
  cases Version.normalize version with
  | error refusal => simp
  | ok normal =>
      change isMetBy _ _ = _
      rw [isMetBy_withLabel, isMetBy_join_or normal nonempty]

/-- Texts that are the same once flags and references are cut off have the same versions. -/
theorem satisfies_congr {text text' : Text} (same : core text = core text') (version : Text) :
    Selection.satisfies version text = Selection.satisfies version text' := by
  by_cases reads : ∃ members, List.Forall₂ ReadsAs (Alternative.split (core text)) members
  · obtain ⟨members, read⟩ := reads
    rw [satisfies_eq_any read, satisfies_eq_any (same ▸ read)]
  · have refused : ∀ required, parse text ≠ .ok required := by
      intro required whole
      obtain ⟨members, read, -⟩ := parse_eq_ok_iff.mp whole
      exact reads ⟨members, read⟩
    have refused' : ∀ required, parse text' ≠ .ok required := by
      intro required whole
      obtain ⟨members, read, -⟩ := parse_eq_ok_iff.mp whole
      exact reads ⟨members, same ▸ read⟩
    rw [satisfies_of_refused refused, satisfies_of_refused refused']

end Constraint

end VersionRanges

/-
# Blanks around a constraint

The alternatives of a constraint are trimmed, but its flag and its reference are cut off before,
from the text as it was given. Behind a blank at the beginning nothing is cut off, and then the
blanks around a text do not matter. Without one they do not matter either, unless the text ends in a
flag or in a reference, which a blank keeps from being cut off or makes part of the commit.
-/
import VersionRanges.Proofs.Reading.Outcome

namespace VersionRanges

open Text (IsBlankText)

/-! ## Flags -/

namespace Flag

/-- A text that a flag is cut off holds no blank. -/
theorem eq_append_of_split? {text before name : Text} (split : split? text = some (before, name)) :
    text = before ++ '@' :: name ∧ (∀ c ∈ before, Text.isBlank c = false) ∧
      ∀ c ∈ name, Text.isBlank c = false := by
  have letters : ∀ k ∈ names.flatten, Text.isBlank k = false :=
    List.all_iff_forall_prop.mp (by decide)
  simp only [split?] at split
  split at split
  · next front ends =>
    split at split
    · next plain =>
      obtain ⟨rfl, rfl⟩ := Prod.mk.inj (Option.some.inj split)
      obtain ⟨named, part⟩ := Bool.and_eq_true_iff.mp plain
      refine ⟨?_, fun c inside => ?_, fun c inside => ?_⟩
      · have whole := List.takeWhile_append_dropWhile (p := (· != '@')) (l := text.reverse)
        rw [ends] at whole
        simpa using (congrArg List.reverse whole).symm
      · have chars := List.all_eq_true.mp part c (List.mem_reverse.mp inside)
        simp only [Alias.isPartChar, Bool.and_eq_true, Bool.not_eq_true'] at chars
        exact chars.2
      · obtain ⟨keyword, listed, spelled⟩ := List.any_eq_true.mp named
        rw [Bool.eq_false_iff]
        intro blank
        have folded : Text.foldCase c ∈ keyword :=
          beq_iff_eq.mp spelled ▸ List.mem_map_of_mem inside
        rw [Text.foldCase_of_isBlank blank] at folded
        have letter := letters c (List.mem_flatten_of_mem listed folded)
        exact Bool.false_ne_true (letter.symm.trans blank)
    · cases split
  · cases split

/-- No flag is cut off a text with a blank in it. -/
theorem cut_eq_self_of_blank {text : Text} {c : Char} (inside : c ∈ text)
    (blank : Text.isBlank c = true) : cut text = text := by
  have none : split? text = none := by
    rw [Option.eq_none_iff_forall_ne_some]
    rintro ⟨before, name⟩ split
    obtain ⟨rfl, solid, solid'⟩ := eq_append_of_split? split
    rcases List.mem_append.mp inside with front | behind
    · exact Text.not_mem_of_solid solid blank front
    · rcases List.mem_cons.mp behind with rfl | named
      · exact absurd blank (by decide)
      · exact Text.not_mem_of_solid solid' blank named
  rw [cut, none]

end Flag

/-! ## References -/

namespace Reference

theorem isVersionChar_of_isBlank {c : Char} (blank : Text.isBlank c = true) :
    isVersionChar c = false := by
  simp [isVersionChar, Alias.isPartChar, blank]

/-- No reference is cut off a text that begins with a blank. -/
theorem cut_eq_self_of_leading {c : Char} (blank : Text.isBlank c = true) (rest : Text) :
    cut (c :: rest) = c :: rest := by
  rcases cut_cases (c :: rest) with same | ⟨commit, whole, -, plain⟩
  · exact same
  · generalize cut (c :: rest) = version at whole plain
    cases version with
    | nil =>
        obtain ⟨rfl, -⟩ := List.cons.inj whole
        exact absurd blank (by decide)
    | cons d version =>
        obtain ⟨rfl, -⟩ := List.cons.inj whole
        have char := plain c List.mem_cons_self
        rw [isVersionChar_of_isBlank blank] at char
        cases char

theorem cut_eq_self_iff {text : Text} :
    cut text = text ↔ cutBranch? text = none ∧ cutNumeric? text = none := by
  have shorter {version commit : Text} (isCut : IsCutAt text version commit) : version ≠ text := by
    rintro rfl
    have long := congrArg List.length isCut.whole
    simp at long
  unfold cut
  cases branch : cutBranch? text with
  | some version =>
      obtain ⟨commit, isCut⟩ := exists_of_cutBranch? branch
      simp [shorter isCut]
  | none =>
      cases numeric : cutNumeric? text with
      | some version =>
          obtain ⟨commit, isCut⟩ := exists_of_cutNumeric? numeric
          simp [shorter isCut]
      | none => simp

/-! ### Blanks behind a reference -/

section

variable {blanks : Text} (blank : IsBlankText blanks)

include blank

/-- A keyword is spelled in front of the blanks behind a text, whatever these are. -/
theorem exists_keyword?_append {keyword text spelling rest : Text}
    (solid : ∀ k ∈ keyword, Text.isBlank k = false)
    (spelled : Text.keyword? keyword (text ++ blanks) = some (spelling, rest)) :
    ∃ rest', rest = rest' ++ blanks ∧
      Text.keyword? keyword (text ++ [' ']) = some (spelling, rest' ++ [' ']) := by
  induction keyword generalizing text spelling with
  | nil =>
      obtain ⟨rfl, rfl⟩ : [] = spelling ∧ text ++ blanks = rest := by
        simpa [Text.keyword?] using spelled
      exact ⟨text, rfl, rfl⟩
  | cons k keyword ih =>
      obtain ⟨first, solid⟩ := List.forall_mem_cons.mp solid
      cases text with
      | nil =>
          cases blanks with
          | nil => cases spelled
          | cons b blanks =>
              have blank := blank b List.mem_cons_self
              have other : Text.foldCase b ≠ k := by
                rw [Text.foldCase_of_isBlank blank]
                rintro rfl
                exact Bool.false_ne_true (first.symm.trans blank)
              simp [Text.keyword?, other] at spelled
      | cons c text =>
          simp only [List.cons_append, Text.keyword?] at spelled ⊢
          split at spelled
          · next folds =>
            obtain ⟨⟨further, left⟩, inner, same⟩ := Option.map_eq_some_iff.mp spelled
            obtain ⟨rfl, rfl⟩ := Prod.mk.inj same
            obtain ⟨rest', rfl, again⟩ := ih solid inner
            exact ⟨rest', rfl, by rw [if_pos folds, again]; rfl⟩
          · cases spelled

theorem readHash?_append {text : Text} {found : Unit}
    (reads : readHash? (text ++ blanks) = some found) :
    readHash? (text ++ [' ']) = some found := by
  obtain ⟨commit, whole, line⟩ := eq_of_readHash? reads
  cases text with
  | nil =>
      have sign : '#' ∈ blanks := by
        rw [← List.nil_append blanks, whole]
        exact List.mem_cons_self
      exact absurd sign (blank.not_mem (by decide))
  | cons c text =>
      obtain ⟨rfl, rfl⟩ := List.cons.inj whole
      have line' : isCommit (text ++ [' ']) = true := by
        simp only [isCommit, Bool.and_eq_true, Bool.not_eq_true', List.contains_eq_mem,
          decide_eq_false_iff_not] at line ⊢
        refine ⟨by simp, fun inside => ?_⟩
        rcases List.mem_append.mp inside with broken | space
        · exact line.2 (List.mem_append_left blanks broken)
        · exact absurd space (by decide)
      exact if_pos line'

theorem readOpenEnding?_append {text ending : Text}
    (reads : readOpenEnding? (text ++ blanks) = some ending) :
    readOpenEnding? (text ++ [' ']) = some ending := by
  unfold readOpenEnding? at reads
  split at reads
  · next ending' rest spelled =>
    obtain ⟨rest', rfl, again⟩ := exists_keyword?_append blank
      (List.all_iff_forall_prop.mp (by decide)) spelled
    obtain ⟨found, hash, rfl⟩ := Option.map_eq_some_iff.mp reads
    rw [readOpenEnding?, again]
    simp only [readHash?_append blank hash, Option.map_some]
  · cases reads

/-- If a reading succeeds somewhere in a text with blanks behind it, it does so in the text with a
space behind it. -/
theorem exists_splitBefore?_append {α : Type} {reading : Text → Option α}
    (again : ∀ text value, reading (text ++ blanks) = some value →
      reading (text ++ [' ']) = some value)
    {text : Text} {found : Text × α} (splits : splitBefore? reading (text ++ blanks) = some found) :
    ∃ found', splitBefore? reading (text ++ [' ']) = some found' := by
  induction text generalizing found with
  | nil =>
      cases blanks with
      | nil => cases splits
      | cons b blanks =>
          cases here : reading (b :: blanks) with
          | some value =>
              have read : reading [' '] = some value := again [] value here
              exact ⟨([], value), by simp [splitBefore?, read]⟩
          | none =>
              have other := isVersionChar_of_isBlank (blank b List.mem_cons_self)
              simp [splitBefore?, here, other] at splits
  | cons c text ih =>
      cases here : reading (c :: text ++ [' ']) with
      | some value => exact ⟨([], value), by simp_all [splitBefore?]⟩
      | none =>
          have failed : reading (c :: text ++ blanks) = none := by
            cases failed : reading (c :: text ++ blanks) with
            | none => rfl
            | some value => cases here.symm.trans (again (c :: text) value failed)
          simp only [List.cons_append] at here failed
          simp only [List.cons_append, splitBefore?, here, failed] at splits ⊢
          split at splits
          · next plain =>
            obtain ⟨found', inner, -⟩ := Option.map_eq_some_iff.mp splits
            obtain ⟨found'', further⟩ := ih inner
            exact ⟨_, by rw [if_pos plain, further]; rfl⟩
          · cases splits

theorem exists_cutBranch?_append {text version : Text}
    (cuts : cutBranch? (text ++ blanks) = some version) :
    ∃ version', cutBranch? (text ++ [' ']) = some version' := by
  unfold cutBranch? at cuts
  split at cuts
  · next marker c rest spelled =>
    obtain ⟨rest', same, again⟩ := exists_keyword?_append blank
      (List.all_iff_forall_prop.mp (by decide)) spelled
    split at cuts
    · next plain =>
      obtain ⟨found, inner, -⟩ := Option.map_eq_some_iff.mp cuts
      cases rest' with
      | nil =>
          obtain rfl : c :: rest = blanks := same
          have char := isVersionChar_of_isBlank (blank c List.mem_cons_self)
          exact absurd plain (by simp [char])
      | cons d rest' =>
          obtain ⟨rfl, rfl⟩ := List.cons.inj same
          obtain ⟨found', further⟩ :=
            exists_splitBefore?_append blank (fun _ _ => readHash?_append blank) inner
          refine ⟨marker ++ c :: found'.1, ?_⟩
          rw [cutBranch?, again]
          simp only [List.cons_append, if_pos plain, further]
          rfl
    · cases cuts
  · cases cuts

theorem exists_cutNumeric?_append {text version : Text}
    (cuts : cutNumeric? (text ++ blanks) = some version) :
    ∃ version', cutNumeric? (text ++ [' ']) = some version' := by
  cases text with
  | nil =>
      cases blanks with
      | nil => cases cuts
      | cons b blanks =>
          have other := isVersionChar_of_isBlank (blank b List.mem_cons_self)
          simp [cutNumeric?, other] at cuts
  | cons c text =>
      simp only [List.cons_append, cutNumeric?] at cuts ⊢
      split at cuts
      · next plain =>
        obtain ⟨found, inner, -⟩ := Option.map_eq_some_iff.mp cuts
        obtain ⟨found', further⟩ :=
          exists_splitBefore?_append blank (fun _ _ => readOpenEnding?_append blank) inner
        exact ⟨_, by rw [if_pos plain, further]; rfl⟩
      · cases cuts

/-- No reference is cut off because of the blanks behind a text, if none is cut off because of a
space. -/
theorem cut_append_eq_self {text : Text} (whole : cut (text ++ [' ']) = text ++ [' ']) :
    cut (text ++ blanks) = text ++ blanks := by
  obtain ⟨unmarked, unnumbered⟩ := cut_eq_self_iff.mp whole
  refine cut_eq_self_iff.mpr ⟨?_, ?_⟩
  · rw [Option.eq_none_iff_forall_ne_some]
    intro version cuts
    obtain ⟨version', again⟩ := exists_cutBranch?_append blank cuts
    cases unmarked.symm.trans again
  · rw [Option.eq_none_iff_forall_ne_some]
    intro version cuts
    obtain ⟨version', again⟩ := exists_cutNumeric?_append blank cuts
    cases unnumbered.symm.trans again

end

end Reference

/-! ## Constraints -/

namespace Constraint

/-- Two texts are read as one constraint, but for the label, or are both refused. -/
def ReadAlike (text text' : Text) : Prop :=
  (parse text).toOption.map (withLabel text') = (parse text').toOption

instance (text text' : Text) : Decidable (ReadAlike text text') :=
  inferInstanceAs (Decidable (_ = _))

theorem withLabel_withLabel (text text' : Text) (required : Constraint) :
    (required.withLabel text).withLabel text' = required.withLabel text' := by
  cases required <;> rfl

theorem toOption_eq_some_iff {text : Text} {required : Constraint} :
    (parse text).toOption = some required ↔ parse text = .ok required := by
  cases parse text <;> simp [Except.toOption]

/-- What a text is read as is told by its alternatives. -/
theorem readAlike_of_split {text text' : Text}
    (same : Alternative.split (core text) = Alternative.split (core text')) :
    ReadAlike text text' := by
  refine Option.ext fun required => ?_
  rw [toOption_eq_some_iff, parse_eq_ok_iff, ← same, Option.map_eq_some_iff]
  simp only [toOption_eq_some_iff, parse_eq_ok_iff]
  constructor
  · rintro ⟨_, ⟨members, read, rfl⟩, rfl⟩
    exact ⟨members, read, (withLabel_withLabel text text' _).symm⟩
  · rintro ⟨members, read, rfl⟩
    exact ⟨_, ⟨members, read, rfl⟩, withLabel_withLabel text text' _⟩

section

variable {before after : Text} (blank : IsBlankText before) (blank' : IsBlankText after)

include blank blank'

theorem split_padded (text : Text) :
    Alternative.split (before ++ text ++ after) = Alternative.split text := by
  rw [Alternative.split, Alternative.split, Text.trim_append_blank blank',
    Text.trim_blank_append blank]

omit blank' in
/-- Nothing is cut off a text that begins with a blank. -/
theorem core_of_leading (filled : before ≠ []) (text : Text) :
    core (before ++ text) = before ++ text := by
  obtain ⟨c, behind, rfl⟩ := List.exists_cons_of_ne_nil filled
  have leading := blank c List.mem_cons_self
  rw [List.cons_append, core, Flag.cut_eq_self_of_blank List.mem_cons_self leading,
    Reference.cut_eq_self_of_leading leading]

/-- Blanks around a text that nothing is cut off change nothing about that. -/
theorem core_padded {text : Text} (unflagged : Flag.cut text = text)
    (unreferenced : Reference.cut (text ++ [' ']) = text ++ [' ']) :
    core (before ++ text ++ after) = before ++ text ++ after := by
  by_cases filled : before = []
  · subst filled
    have flagless : Flag.cut (text ++ after) = text ++ after := by
      cases after with
      | nil => rwa [List.append_nil]
      | cons c after =>
          have inside : c ∈ text ++ c :: after := by simp
          exact Flag.cut_eq_self_of_blank inside (blank' c List.mem_cons_self)
    rw [List.nil_append, core, flagless, Reference.cut_append_eq_self blank' unreferenced]
  · rw [List.append_assoc]
    exact core_of_leading blank filled _

/-- Behind a blank, all other blanks around a text are irrelevant. They are irrelevant without one
too if neither a flag nor a reference is cut off the text that stands between the blanks. -/
theorem parse_padded (text : Text) :
    (before ≠ [] → ReadAlike (before ++ text ++ after) (' ' :: text)) ∧
      (Flag.cut (Text.trim text) = Text.trim text →
        Reference.cut (Text.trim text ++ [' ']) = Text.trim text ++ [' '] →
        ReadAlike (before ++ text ++ after) text) := by
  have space : IsBlankText [' '] := by decide
  have none : IsBlankText [] := by decide
  constructor
  · intro filled
    have whole : core (before ++ text ++ after) = before ++ text ++ after := by
      rw [List.append_assoc]
      exact core_of_leading blank filled _
    have whole' : core (' ' :: text) = ' ' :: text := core_of_leading space (by simp) text
    have same := split_padded space none text
    rw [List.append_nil] at same
    refine readAlike_of_split ?_
    rw [whole, whole', split_padded blank blank']
    exact same.symm
  · intro unflagged unreferenced
    obtain ⟨leading, trailing, blanks, blanks', whole⟩ := Text.exists_blank_append_trim text
    have wide : IsBlankText (before ++ leading) := List.forall_mem_append.mpr ⟨blank, blanks⟩
    have wide' : IsBlankText (trailing ++ after) := List.forall_mem_append.mpr ⟨blanks', blank'⟩
    have padded : before ++ text ++ after =
        (before ++ leading) ++ Text.trim text ++ (trailing ++ after) := by
      conv_lhs => rw [whole]
      simp
    have read := core_padded blanks blanks' unflagged unreferenced
    have read' := core_padded wide wide' unflagged unreferenced
    rw [← whole] at read
    rw [← padded] at read'
    refine readAlike_of_split ?_
    rw [read, read', split_padded blank blank']

end

/-- A term of two has a flag, which is not cut off the whole text. -/
theorem parse_padded_flagged_term :
    IsBlankText "\t ".toList ∧ IsBlankText "\n".toList ∧ "\t ".toList ≠ [] ∧
      ReadAlike ("\t ".toList ++ "1.0@dev".toList ++ "\n".toList) (' ' :: "1.0@dev".toList) ∧
      Flag.cut (Text.trim ">=1.0@beta, <2.0".toList) = Text.trim ">=1.0@beta, <2.0".toList ∧
      Reference.cut (Text.trim ">=1.0@beta, <2.0".toList ++ [' ']) =
        Text.trim ">=1.0@beta, <2.0".toList ++ [' '] ∧
      ReadAlike ("\t ".toList ++ ">=1.0@beta, <2.0".toList ++ "\n".toList)
        ">=1.0@beta, <2.0".toList := by
  have blank : IsBlankText "\t ".toList := by decide
  have blank' : IsBlankText "\n".toList := by decide
  have unflagged : Flag.cut (Text.trim ">=1.0@beta, <2.0".toList) =
      Text.trim ">=1.0@beta, <2.0".toList := by decide
  have unreferenced : Reference.cut (Text.trim ">=1.0@beta, <2.0".toList ++ [' ']) =
      Text.trim ">=1.0@beta, <2.0".toList ++ [' '] := by decide
  exact ⟨blank, blank', by decide, (parse_padded blank blank' _).1 (by decide), unflagged,
    unreferenced, (parse_padded blank blank' _).2 unflagged unreferenced⟩

/-- A blank behind a flag keeps it from being cut off, and a blank before a reference does. -/
theorem not_readAlike_padded :
    ¬ ReadAlike ("1.0@dev".toList ++ " ".toList) "1.0@dev".toList ∧
      ¬ ReadAlike (" ".toList ++ "dev-main#abc".toList) "dev-main#abc".toList := by
  decide +kernel

end Constraint

end VersionRanges

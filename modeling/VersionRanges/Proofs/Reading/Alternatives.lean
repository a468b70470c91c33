/-
# Alternatives of a joined text

A text is divided where bars stand, so that joining two texts by a bar joins the lists of their
alternatives. The one exception is a bar that meets another bar and makes one divider with it; it
leaves an empty alternative on one side. Blanks around a text or a bar make no difference.
-/
import VersionRanges.Constraint.Term
import VersionRanges.Proofs.Text.Blank

namespace VersionRanges.Alternative

open Text (IsBlankText)

/-! ## Pieces between bars -/

theorem exists_splitBars (text : Text) : ∃ first more, splitBars text = first :: more := by
  fun_cases splitBars text <;> simp_all

/-- A bar that meets no other bar is a divider of its own. -/
theorem splitBars_bar {text : Text} (apart : text.head? ≠ some '|') :
    splitBars ('|' :: text) = [] :: splitBars text := by
  cases text with
  | nil => rfl
  | cons c rest =>
      have other : c ≠ '|' := by simpa using apart
      simp [splitBars, other]

/-- A character that is no bar belongs to the first piece. -/
theorem splitBars_cons {c : Char} (other : c ≠ '|') (text : Text) :
    ∃ first more, splitBars text = first :: more ∧
      splitBars (c :: text) = (c :: first) :: more := by
  obtain ⟨first, more, pieces⟩ := exists_splitBars text
  exact ⟨first, more, pieces, by simp [splitBars, other, pieces]⟩

theorem splitBars_of_barless {text : Text} (barless : '|' ∉ text) : splitBars text = [text] := by
  induction text with
  | nil => rfl
  | cons c rest ih =>
      obtain ⟨other, barless⟩ := not_or.mp (mt List.mem_cons.mpr barless)
      obtain ⟨first, more, pieces, joined⟩ := splitBars_cons (Ne.symm other) rest
      rw [ih barless, List.cons.injEq] at pieces
      rw [joined, ← pieces.1, ← pieces.2]

theorem getLast?_ne_of_cons {c d : Char} {rest : Text} (ending : (c :: rest).getLast? ≠ some d) :
    rest.getLast? ≠ some d := by
  cases rest with
  | nil => simp
  | cons e rest => simpa [List.getLast?_cons_cons] using ending

/-- Where two texts are joined and no two bars meet, the last piece of the first text and the first
piece of the second become one, and all other pieces stay. -/
theorem splitBars_append (text text' : Text)
    (apart : text.getLast? ≠ some '|' ∨ text'.head? ≠ some '|') :
    ∃ initial last first more, splitBars text = initial ++ [last] ∧
      splitBars text' = first :: more ∧
      splitBars (text ++ text') = initial ++ (last ++ first) :: more := by
  induction text using splitBars.induct with
  | case1 =>
      obtain ⟨first, more, pieces⟩ := exists_splitBars text'
      exact ⟨[], [], first, more, rfl, pieces, pieces⟩
  | case2 rest ih =>
      obtain ⟨initial, last, first, more, ended, begun, joined⟩ :=
        ih (apart.imp_left fun ending => getLast?_ne_of_cons (getLast?_ne_of_cons ending))
      exact ⟨[] :: initial, last, first, more, congrArg ([] :: ·) ended, begun,
        congrArg ([] :: ·) joined⟩
  | case3 rest single ih =>
      obtain ⟨initial, last, first, more, ended, begun, joined⟩ :=
        ih (apart.imp_left getLast?_ne_of_cons)
      have single' : rest.head? ≠ some '|' := by
        intro bar
        obtain ⟨rest', rfl⟩ := List.head?_eq_some_iff.mp bar
        exact single rest' rfl
      have apart' : (rest ++ text').head? ≠ some '|' := by
        cases rest with
        | nil => simpa using apart
        | cons d rest => exact single'
      refine ⟨[] :: initial, last, first, more, ?_, begun, ?_⟩
      · rw [splitBars_bar single', ended]
        rfl
      · rw [List.cons_append, splitBars_bar apart', joined]
        rfl
  | case4 c rest _ other _ _ _ ih =>
      obtain ⟨initial, last, first, more, ended, begun, joined⟩ :=
        ih (apart.imp_left getLast?_ne_of_cons)
      obtain ⟨front, behind, pieces, kept⟩ := splitBars_cons other rest
      obtain ⟨front', behind', pieces', kept'⟩ := splitBars_cons other (rest ++ text')
      cases initial with
      | nil => exact ⟨[], c :: last, first, more, by simp_all, begun, by simp_all⟩
      | cons piece initial =>
          exact ⟨(c :: piece) :: initial, last, first, more, by simp_all, begun, by simp_all⟩
  | case5 c rest _ _ none =>
      obtain ⟨first, more, pieces⟩ := exists_splitBars rest
      simp [none] at pieces

/-- A bar at the end leaves an empty piece behind it. -/
theorem exists_splitBars_append_bar (text : Text) :
    ∃ first more, splitBars (text ++ ['|']) = first :: more ++ [[]] := by
  induction text using splitBars.induct with
  | case1 => exact ⟨[], [], rfl⟩
  | case2 rest ih =>
      obtain ⟨first, more, pieces⟩ := ih
      exact ⟨[], first :: more, congrArg ([] :: ·) pieces⟩
  | case3 rest single ih =>
      cases rest with
      | nil => exact ⟨[], [], rfl⟩
      | cons d rest =>
          obtain ⟨first, more, pieces⟩ := ih
          have apart : (d :: rest ++ ['|']).head? ≠ some '|' := by
            rintro ⟨⟩
            exact single rest rfl
          refine ⟨[], first :: more, ?_⟩
          rw [List.cons_append, splitBars_bar apart, pieces]
          rfl
  | case4 c rest _ other _ _ _ ih =>
      obtain ⟨first, more, pieces⟩ := ih
      obtain ⟨front, behind, pieces', kept⟩ := splitBars_cons other (rest ++ ['|'])
      exact ⟨c :: first, more, by simp_all⟩
  | case5 c rest _ _ none =>
      obtain ⟨first, more, pieces⟩ := exists_splitBars rest
      simp [none] at pieces

/-! ## Alternatives -/

theorem map_trim_splitBars_blank_append {blanks : Text} (blank : IsBlankText blanks) (text : Text) :
    (splitBars (blanks ++ text)).map Text.trim = (splitBars text).map Text.trim := by
  have barless : '|' ∉ blanks := blank.not_mem (by decide)
  obtain ⟨initial, last, first, more, ended, begun, joined⟩ :=
    splitBars_append blanks text (.inl fun bar => barless (List.mem_of_getLast? bar))
  rw [splitBars_of_barless barless] at ended
  obtain ⟨rfl, rfl⟩ : initial = [] ∧ last = blanks := by
    simpa [List.append_eq_singleton_iff] using ended.symm
  rw [joined, begun]
  simp [Text.trim_blank_append blank]

theorem map_trim_splitBars_append_blank {blanks : Text} (blank : IsBlankText blanks) (text : Text) :
    (splitBars (text ++ blanks)).map Text.trim = (splitBars text).map Text.trim := by
  have barless : '|' ∉ blanks := blank.not_mem (by decide)
  obtain ⟨initial, last, first, more, ended, begun, joined⟩ :=
    splitBars_append text blanks (.inr fun bar => barless (List.mem_of_head? bar))
  obtain ⟨rfl, rfl⟩ := List.cons.inj (begun.symm.trans (splitBars_of_barless barless))
  rw [joined, ended]
  simp [Text.trim_append_blank blank]

/-- The blanks around a whole text are blanks around its alternatives. -/
theorem split_eq_map_trim (text : Text) : split text = (splitBars text).map Text.trim := by
  obtain ⟨leading, trailing, blank, blank', whole⟩ := Text.exists_blank_append_trim text
  calc
    (splitBars (Text.trim text)).map Text.trim
        = (splitBars (leading ++ Text.trim text ++ trailing)).map Text.trim := by
      rw [map_trim_splitBars_append_blank blank', map_trim_splitBars_blank_append blank]
    _ = (splitBars text).map Text.trim := by rw [← whole]

/-- A trimmed text without bars is one alternative. -/
theorem split_of_barless {text : Text} (barless : '|' ∉ text) (trimmed : Text.trim text = text) :
    split text = [text] := by
  rw [split, trimmed, splitBars_of_barless barless, List.map_singleton, trimmed]

/-- A text that ends in a bar has an empty alternative. -/
theorem nil_mem_split_of_getLast? {text : Text} (bar : text.getLast? = some '|') :
    [] ∈ split text := by
  obtain ⟨initial, rfl⟩ := List.getLast?_eq_some_iff.mp bar
  obtain ⟨first, more, pieces⟩ := exists_splitBars_append_bar initial
  rw [split_eq_map_trim, pieces]
  exact List.mem_map.mpr ⟨[], by simp, rfl⟩

/-- A text that begins with a bar has an empty alternative. -/
theorem nil_mem_split_of_head? {text : Text} (bar : text.head? = some '|') : [] ∈ split text := by
  obtain ⟨rest, rfl⟩ := List.head?_eq_some_iff.mp bar
  rw [split_eq_map_trim]
  refine List.mem_map.mpr ⟨[], ?_, rfl⟩
  cases rest with
  | nil => simp [splitBars]
  | cons d rest => by_cases bar : d = '|' <;> simp [splitBars, bar]

theorem split_ne_nil (text : Text) : split text ≠ [] := by
  obtain ⟨first, more, pieces⟩ := exists_splitBars (Text.trim text)
  simp [split, pieces]

/-- What divides two alternatives: one bar or two, with blanks around. -/
def IsDivider (divider : Text) : Prop :=
  ∃ before bars after, IsBlankText before ∧ IsBlankText after ∧
    (bars = ['|'] ∨ bars = ['|', '|']) ∧ divider = before ++ bars ++ after

/-- A divider holds nothing but bars and blanks. -/
theorem IsDivider.not_mem {divider : Text} (isDivider : IsDivider divider) {sign : Char}
    (other : sign ≠ '|') (solid : Text.isBlank sign = false) : sign ∉ divider := by
  obtain ⟨before, bars, after, blank, blank', single, rfl⟩ := isDivider
  rcases single with rfl | rfl <;> simp [blank.not_mem solid, blank'.not_mem solid, other]

/-- A divider joins the alternatives of two texts, unless one of them has an empty one. -/
theorem split_append_divider {text divider text' : Text} (isDivider : IsDivider divider)
    (filled : [] ∉ split text) (filled' : [] ∉ split text') :
    split (text ++ divider ++ text') = split text ++ split text' := by
  obtain ⟨before, bars, after, blank, blank', single, rfl⟩ := isDivider
  have same : split (text ++ before) = split text := by
    rw [split_eq_map_trim, split_eq_map_trim, map_trim_splitBars_append_blank blank]
  have same' : split (after ++ text') = split text' := by
    rw [split_eq_map_trim, split_eq_map_trim, map_trim_splitBars_blank_append blank']
  have apart : (text ++ before).getLast? ≠ some '|' :=
    fun bar => filled (same ▸ nil_mem_split_of_getLast? bar)
  have apart' : (after ++ text').head? ≠ some '|' :=
    fun bar => filled' (same' ▸ nil_mem_split_of_head? bar)
  have divides : splitBars (bars ++ (after ++ text')) = [] :: splitBars (after ++ text') := by
    rcases single with rfl | rfl
    · exact splitBars_bar apart'
    · rfl
  obtain ⟨initial, last, first, more, ended, begun, joined⟩ :=
    splitBars_append (text ++ before) (bars ++ (after ++ text')) (.inl apart)
  obtain ⟨rfl, rfl⟩ := List.cons.inj (begun.symm.trans divides)
  have whole : text ++ (before ++ bars ++ after) ++ text' =
      (text ++ before) ++ (bars ++ (after ++ text')) := by simp
  rw [whole, ← same, ← same', split_eq_map_trim, split_eq_map_trim (text ++ before),
    split_eq_map_trim (after ++ text'), joined, ended]
  simp

end VersionRanges.Alternative

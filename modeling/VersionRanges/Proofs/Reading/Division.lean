/-
# What is divided is kept

Dividing a text into terms takes away the separators between them and nothing else: the terms and
the separators, in their order, are the text again. A separator is a row of spaces with at most one
comma among them. None stands where a term could not end before it or could not begin behind it, and
so no term is empty, neither between two separators nor at an end of the text.

What a search for one separator finds is described first. A text is then followed from separator to
separator, and what stands in front of a term tells that the term is not empty: directly behind a
separator, as at the beginning of the text, no other separator can be found.
-/
import VersionRanges.Proofs.Reading.Terms

namespace VersionRanges.Term

/-! ## One separator -/

/-- A separator with all the text before it and all the text behind it. The text before it does not
end in an operator, in another separator or in the word of an alias; the text behind it does not
begin with a comma or with the word of an alias; and neither is empty. -/
structure IsDivision (before separator after : Text) : Prop where
  isSeparator : IsSeparator separator
  begun : before ≠ []
  closed : ∀ sign ∈ ['=', '<', '>', ',', ' '], before.getLast? ≠ some sign
  unfinished : ¬ "as".toList <:+ before
  unspent : after ≠ []
  single : after.head? ≠ some ','
  unnamed : ¬ "as".toList <+: after

theorem canEnd_reverse_iff {before : Text} :
    canEnd before.reverse = true ↔
      before ≠ [] ∧ (∀ sign ∈ ['=', '<', '>', ',', ' '], before.getLast? ≠ some sign) ∧
        ¬ "as".toList <:+ before := by
  rw [← List.reverse_prefix, ← List.head?_reverse, ← List.reverse_ne_nil_iff]
  cases before.reverse with
  | nil => simp [canEnd]
  | cons last front =>
      have named : "as".toList.reverse <+: last :: front ↔ last = 's' ∧ front.head? = some 'a' := by
        cases front with
        | nil => simp
        | cons d front => simp [eq_comm]
      rw [named]
      grind [canEnd]

theorem canBegin_iff {after : Text} :
    canBegin after = true ↔
      after ≠ [] ∧ after.head? ≠ some ',' ∧ ¬ "as".toList <+: after := by
  simp [canBegin, ← List.isPrefixOf_iff_prefix, and_assoc]

theorem take_of_le_leadingSpaces {text : Text} {count : ℕ} (few : count ≤ leadingSpaces text) :
    text.take count = List.replicate count ' ' := by
  have spaces : ∀ c ∈ text.takeWhile (· == ' '), c = ' ' :=
    fun c inside => by simpa using List.all_eq_true.mp List.all_takeWhile c inside
  calc
    text.take count = (text.takeWhile (· == ' ') ++ text.dropWhile (· == ' ')).take count := by
      rw [List.takeWhile_append_dropWhile]
    _ = (List.replicate (leadingSpaces text) ' ').take count := by
      rw [List.take_append_of_le_length few, leadingSpaces, ← List.eq_replicate_of_mem spaces]
    _ = List.replicate count ' ' := by rw [List.take_replicate, Nat.min_eq_left few]

/-- One comma or one space, with spaces around it, is a separator. -/
theorem isSeparator_of_sign {sign : Char} (divides : sign = ',' ∨ sign = ' ')
    (leading trailing : ℕ) :
    IsSeparator (List.replicate leading ' ' ++ sign :: List.replicate trailing ' ') where
  nonempty := by simp
  signs := by
    intro c inside
    rcases List.mem_append.mp inside with space | inside
    · exact .inl (List.eq_of_mem_replicate space)
    · rcases List.mem_cons.mp inside with rfl | space
      · exact divides.symm
      · exact .inl (List.eq_of_mem_replicate space)
  comma := by
    have absent (count : ℕ) : (List.replicate count ' ').count ',' = 0 := by
      simp [List.count_replicate]
    rw [List.count_append, List.count_cons, absent, absent]
    split <;> omega

/-- A sign that divides makes a separator with the spaces around it, and a term can begin behind. -/
theorem exists_of_lengthAt? {before text : Text} {offset length : ℕ}
    (within : offset ≤ leadingSpaces text) (found : lengthAt? before text offset = some length) :
    ∃ separator after, text = separator ++ after ∧ length = separator.length ∧
      IsSeparator separator ∧ canBegin after = true := by
  rw [lengthAt?] at found
  split at found
  · cases found
  · next sign rest here =>
    split at found
    · next divides =>
      obtain ⟨trailing, search, rfl⟩ := Option.map_eq_some_iff.mp found
      have begins : canBegin (rest.drop trailing) = true := by
        simpa using List.find?_some search
      have few : trailing ≤ leadingSpaces rest :=
        mem_downFrom.mp (List.mem_of_find?_eq_some search)
      have divides' : sign = ',' ∨ sign = ' ' := by
        simpa using (Bool.and_eq_true_iff.mp (Bool.and_eq_true_iff.mp divides).1).1
      have whole : text =
          (List.replicate offset ' ' ++ sign :: List.replicate trailing ' ') ++
            rest.drop trailing := by
        rw [List.append_assoc, List.cons_append, ← take_of_le_leadingSpaces within,
          ← take_of_le_leadingSpaces few, List.take_append_drop, ← here, List.take_append_drop]
      refine ⟨_, _, whole, ?_, isSeparator_of_sign divides' offset trailing, begins⟩
      simp
      omega
    · cases found

/-- Whatever is found as a separator divides the text there. -/
theorem exists_isDivision {before text : Text} {length : ℕ}
    (found : separatorLength? before.reverse text = some length) :
    ∃ separator after, text = separator ++ after ∧ length = separator.length ∧
      IsDivision before separator after := by
  rw [separatorLength?] at found
  split at found
  · next ends =>
    obtain ⟨offset, listed, found⟩ := List.exists_of_findSome?_eq_some found
    obtain ⟨separator, after, whole, size, isSeparator, begins⟩ :=
      exists_of_lengthAt? (mem_downFrom.mp listed) found
    obtain ⟨begun, closed, unfinished⟩ := canEnd_reverse_iff.mp ends
    obtain ⟨unspent, single, unnamed⟩ := canBegin_iff.mp begins
    exact ⟨separator, after, whole, size, isSeparator, begun, closed, unfinished, unspent, single,
      unnamed⟩
  · cases found

/-- No term ends directly behind a separator. -/
theorem IsSeparator.not_canEnd {separator : Text} (isSeparator : IsSeparator separator)
    (before : Text) : canEnd (before ++ separator).reverse = false := by
  rw [Bool.eq_false_iff]
  intro ends
  obtain ⟨-, closed, -⟩ := canEnd_reverse_iff.mp ends
  have last := List.getLast?_eq_some_getLast isSeparator.nonempty
  rw [List.getLast?_append_of_ne_nil _ isSeparator.nonempty, last] at closed
  rcases isSeparator.signs _ (List.getLast_mem isSeparator.nonempty) with space | comma
  · exact closed ' ' (by simp) (congrArg some space)
  · exact closed ',' (by simp) (congrArg some comma)

/-! ## All separators -/

/-- The text `front` goes on with separators and terms. Each of the separators is the one that is
found where it stands and divides the whole text there, and no term is empty. -/
inductive IsDivided : Text → List (Text × Text) → Prop
  | nil (front : Text) : IsDivided front []
  | cons {front separator term : Text} {further : List (Text × Text)} :
      separatorLength? front.reverse (separator ++ joined term further) = some separator.length →
      IsDivision front separator (joined term further) → term ≠ [] →
      IsDivided (front ++ separator ++ term) further →
      IsDivided front ((separator, term) :: further)

/-- Any one of the separators and the term behind it, with all of the text around them. -/
theorem IsDivided.of_append {front separator term : Text} {left right : List (Text × Text)}
    (isDivided : IsDivided front (left ++ (separator, term) :: right)) :
    separatorLength? (joined front left).reverse (separator ++ joined term right) =
        some separator.length ∧
      IsDivision (joined front left) separator (joined term right) ∧ term ≠ [] := by
  induction left generalizing front with
  | nil =>
      cases isDivided with
      | cons found isDivision filled _ => simpa using ⟨found, isDivision, filled⟩
  | cons pair left ih =>
      cases isDivided with
      | cons _ _ _ further =>
          have next := ih further
          rw [joined_cons]
          simpa [joined] using next

/-- The terms from some place on, where `term` is what the current term has in front of that place.
Something is added to it unless the text ends there or a term may. -/
theorem exists_isDivided (before term text : Text) :
    ∃ word further,
      splitAfter (before ++ term).reverse term.reverse 0 text =
        (term ++ word) :: further.map Prod.snd ∧
      text = joined word further ∧
      (text ≠ [] → canEnd (before ++ term).reverse = false → word ≠ []) ∧
      IsDivided (before ++ term ++ word) further := by
  cases text with
  | nil => exact ⟨[], [], by simp [splitAfter], by simp, fun filled => absurd rfl filled, .nil _⟩
  | cons c rest =>
      cases found : separatorLength? (before ++ term).reverse (c :: rest) with
      | none =>
          obtain ⟨word, further, terms, whole, -, isDivided⟩ :=
            exists_isDivided before (term ++ [c]) rest
          refine ⟨c :: word, further, ?_, ?_, by simp, by simpa using isDivided⟩
          · rw [splitAfter, found]
            simpa using terms
          · rw [whole]
            rfl
      | some length =>
          obtain ⟨separator, after, whole, rfl, isDivision⟩ := exists_isDivision found
          have shorter : after.length < (c :: rest).length := by
            have positive := List.length_pos_iff.mpr isDivision.isSeparator.nonempty
            rw [whole, List.length_append]
            omega
          obtain ⟨word, further, terms, whole', filled, isDivided⟩ :=
            exists_isDivided (before ++ term ++ separator) [] after
          rw [List.append_nil] at terms filled isDivided
          -- no term ends directly behind a separator, so that the next one gets a character
          have filled' : word ≠ [] :=
            filled isDivision.unspent (isDivision.isSeparator.not_canEnd _)
          rw [whole] at found ⊢
          refine ⟨[], (separator, word) :: further, ?_, ?_, ?_, ?_⟩
          · rw [splitAfter_of_length found isDivision.isSeparator.nonempty]
            simpa using terms
          · rw [joined_cons, whole']
            rfl
          · intro _ closed
            rw [separatorLength?, closed] at found
            cases found
          · rw [List.append_nil]
            rw [whole'] at found isDivision
            exact .cons found isDivision filled' isDivided
termination_by text.length
decreasing_by
  · exact Nat.lt_succ_self _
  · exact shorter

/-- The terms of a text and what is taken away between them are the text. Everything that is taken
away is a separator that divides the text where it stands, and no term is empty. -/
theorem split_divides {alternative : Text} (filled : alternative ≠ []) :
    ∃ first further,
      alternative = joined first further ∧ split alternative = first :: further.map Prod.snd ∧
      first ≠ [] ∧
      ∀ left separator term right, further = left ++ (separator, term) :: right →
        separatorLength? (joined first left).reverse (separator ++ joined term right) =
            some separator.length ∧
          IsDivision (joined first left) separator (joined term right) ∧ term ≠ [] := by
  obtain ⟨first, further, terms, whole, begun, isDivided⟩ := exists_isDivided [] [] alternative
  refine ⟨first, further, whole, terms, begun filled rfl, ?_⟩
  rintro left separator term right rfl
  exact isDivided.of_append

/-- A separator leaves one of the spaces behind it to a comma or to the word of an alias. -/
theorem split_divides_before_comma :
    "1,  ,2  as 3".toList ≠ [] ∧
      ∃ first further,
        "1,  ,2  as 3".toList = joined first further ∧
        split "1,  ,2  as 3".toList = first :: further.map Prod.snd ∧ first ≠ [] ∧
        ∀ left separator term right, further = left ++ (separator, term) :: right →
          separatorLength? (joined first left).reverse (separator ++ joined term right) =
              some separator.length ∧
            IsDivision (joined first left) separator (joined term right) ∧ term ≠ [] := by
  have filled : "1,  ,2  as 3".toList ≠ [] := by decide
  exact ⟨filled, split_divides filled⟩

end VersionRanges.Term

/-
# Terms of a joined text

Commas and spaces divide terms only where a term can end before them and another can begin behind
them. Between terms that are open on both sides, spaces with at most one comma among them are one
divider, and so the terms that were joined are the terms that are found.
-/
import Mathlib.Data.List.Basic
import Mathlib.Tactic.MkIffOfInductiveProp
import VersionRanges.Constraint.Term
import VersionRanges.Proofs.Text.Blank

namespace VersionRanges.Term

/-! ## The length of a divider -/

theorem downFrom_succ (n : ℕ) : downFrom (n + 1) = (n + 1) :: downFrom n := by
  simp [downFrom, List.range_succ]

theorem exists_downFrom (n : ℕ) : ∃ lower, downFrom n = n :: lower := by
  cases n with
  | zero => exact ⟨[], rfl⟩
  | succ n => exact ⟨downFrom n, downFrom_succ n⟩

theorem mem_downFrom {count n : ℕ} : count ∈ downFrom n ↔ count ≤ n := by
  rw [downFrom, List.mem_reverse, List.mem_range, Nat.lt_succ_iff]

theorem leadingSpaces_replicate_append (count : Nat) {rest : Text} (solid : rest.head? ≠ some ' ') :
    leadingSpaces (List.replicate count ' ' ++ rest) = count := by
  have stops : rest.takeWhile (· == ' ') = [] := by
    cases rest with
    | nil => rfl
    | cons c rest => exact List.takeWhile_cons_of_neg (by simpa using solid)
  rw [leadingSpaces, List.takeWhile_append_of_pos (by simp [List.mem_replicate]), stops]
  simp

/-- A text behind a divider: a term begins with it, and neither a hyphen nor a space does. -/
structure Opens (text : Text) : Prop where
  canBegin : canBegin text = true
  unhyphened : text.head? ≠ some '-'
  solid : text.head? ≠ some ' '

/-- A text before a divider, backwards: a term can end with it, and it is no hyphen. -/
structure Closes (before : Text) : Prop where
  canEnd : canEnd before = true
  unhyphened : before.head? ≠ some '-'

/-- A dividing sign takes all spaces behind it up to the next term. It touches no hyphen. -/
theorem lengthAt?_of_drop {before text following : Text} {offset count : Nat} {sign : Char}
    (here : text.drop offset = sign :: (List.replicate count ' ' ++ following))
    (divides : sign = ',' ∨ sign = ' ') (apart : offset = 0 → before.head? ≠ some '-')
    (opens : Opens following) : lengthAt? before text offset = some (offset + 1 + count) := by
  have unhyphened : (List.replicate count ' ' ++ following).head? ≠ some '-' := by
    cases count with
    | zero => simpa using opens.unhyphened
    | succ count => simp [List.replicate_succ]
  obtain ⟨lower, counts⟩ := exists_downFrom count
  have signs : (sign == ',' || sign == ' ') = true := by simpa using divides
  have apart' : (offset == 0 && before.head? == some '-') = false := by simpa using apart
  simp only [lengthAt?, here, signs, apart', bne_iff_ne.mpr unhyphened, Bool.not_false,
    Bool.and_true, if_true, leadingSpaces_replicate_append count opens.solid, counts]
  rw [List.find?_cons_of_pos (by simp [opens.canBegin])]
  rfl

/-- A place at which neither a comma nor a space stands divides nothing. -/
theorem lengthAt?_of_plain {before text : Text} {offset : Nat}
    (comma : (text.drop offset).head? ≠ some ',') (space : (text.drop offset).head? ≠ some ' ') :
    lengthAt? before text offset = none := by
  rw [lengthAt?]
  split
  · rfl
  · next c after here =>
    rw [here] at comma space
    refine if_neg ?_
    simp [show c ≠ ',' by simpa using comma, show c ≠ ' ' by simpa using space]

/-- A term that begins is no dividing sign. -/
theorem lengthAt?_of_opens {before text : Text} {offset : Nat} (opens : Opens (text.drop offset)) :
    lengthAt? before text offset = none := by
  refine lengthAt?_of_plain (fun comma => ?_) opens.solid
  have canBegin := opens.canBegin
  rw [Term.canBegin, comma] at canBegin
  simp at canBegin

/-- Nothing divides at a character that is neither a comma nor a space. -/
theorem separatorLength?_of_plain {c : Char} (comma : c ≠ ',') (space : c ≠ ' ')
    (before rest : Text) : separatorLength? before (c :: rest) = none := by
  have alone : downFrom (leadingSpaces (c :: rest)) = [0] := by
    rw [leadingSpaces, List.takeWhile_cons_of_neg (by simpa using space)]
    rfl
  rw [separatorLength?, alone]
  split
  · simp [lengthAt?, comma, space]
  · rfl

/-- What stands between two terms: spaces, and at most one comma among them. -/
@[mk_iff]
structure IsSeparator (separator : Text) : Prop where
  nonempty : separator ≠ []
  signs : ∀ c ∈ separator, c = ' ' ∨ c = ','
  comma : separator.count ',' ≤ 1

instance (separator : Text) : Decidable (IsSeparator separator) :=
  decidable_of_iff (separator ≠ [] ∧ separator.all (fun c => c == ' ' || c == ',') = true ∧
    separator.count ',' ≤ 1) (by simp [isSeparator_iff])

theorem eq_replicate_of_not_mem {separator : Text} (signs : ∀ c ∈ separator, c = ' ' ∨ c = ',')
    (comma : ',' ∉ separator) : separator = List.replicate separator.length ' ' := by
  refine List.eq_replicate_of_mem fun c inside => (signs c inside).resolve_right ?_
  rintro rfl
  exact comma inside

/-- A separator is a comma with spaces around it, or spaces alone. -/
theorem IsSeparator.cases {separator : Text} (isSeparator : IsSeparator separator) :
    (∃ count, separator = List.replicate (count + 1) ' ') ∨
      ∃ leading trailing,
        separator = List.replicate leading ' ' ++ ',' :: List.replicate trailing ' ' := by
  obtain ⟨nonempty, signs, comma⟩ := isSeparator
  by_cases inside : ',' ∈ separator
  · obtain ⟨front, behind, rfl, first⟩ := List.eq_append_cons_of_mem inside
    have last : ',' ∉ behind := by
      rw [← List.count_pos_iff]
      simp only [List.count_append, List.count_cons_self] at comma
      omega
    refine .inr ⟨front.length, behind.length, ?_⟩
    rw [← eq_replicate_of_not_mem (fun c sign => signs c (by simp [sign])) first,
      ← eq_replicate_of_not_mem (fun c sign => signs c (by simp [sign])) last]
  · refine .inl ⟨separator.length - 1, ?_⟩
    have length : separator.length - 1 + 1 = separator.length :=
      Nat.sub_add_cancel (List.length_pos_iff.mpr nonempty)
    rw [length]
    exact eq_replicate_of_not_mem signs inside

/-- Spaces divide at the last of them: behind it there is no sign, but the next term. A single one
does not touch a hyphen. -/
theorem separatorLength?_of_spaces {before following : Text} {count : Nat}
    (canEnd : canEnd before = true) (apart : count = 0 → before.head? ≠ some '-')
    (opens : Opens following) :
    separatorLength? before (List.replicate (count + 1) ' ' ++ following) = some (count + 1) := by
  obtain ⟨lower, counts⟩ := exists_downFrom count
  have last : (List.replicate (count + 1) ' ' ++ following).drop count =
      ' ' :: (List.replicate 0 ' ' ++ following) := by
    simp [List.replicate_succ']
  have behind : (List.replicate (count + 1) ' ' ++ following).drop (count + 1) = following := by
    simp
  have signs : downFrom (count + 1) = (count + 1) :: count :: lower := by
    rw [downFrom_succ, counts]
  rw [separatorLength?, if_pos canEnd, leadingSpaces_replicate_append _ opens.solid, signs,
    List.findSome?_cons, lengthAt?_of_opens (behind.symm ▸ opens), List.findSome?_cons,
    lengthAt?_of_drop last (.inr rfl) apart opens]

/-- Between two terms a whole separator divides. -/
theorem separatorLength?_of_isSeparator {before separator following : Text}
    (isSeparator : IsSeparator separator) (closes : Closes before) (opens : Opens following) :
    separatorLength? before (separator ++ following) = some separator.length := by
  rcases isSeparator.cases with ⟨count, rfl⟩ | ⟨leading, trailing, rfl⟩
  · rw [separatorLength?_of_spaces closes.canEnd (fun _ => closes.unhyphened) opens,
      List.length_replicate]
  · obtain ⟨lower, counts⟩ := exists_downFrom leading
    have comma : (List.replicate leading ' ' ++ ',' :: List.replicate trailing ' ' ++
        following).drop leading = ',' :: (List.replicate trailing ' ' ++ following) := by
      simp
    rw [separatorLength?, if_pos closes.canEnd]
    rw [List.append_assoc] at comma ⊢
    rw [leadingSpaces_replicate_append leading (by simp), counts, List.findSome?_cons,
      lengthAt?_of_drop comma (.inl rfl) (fun _ => closes.unhyphened) opens]
    simp
    omega

/-! ## The terms that are found -/

/-- Characters that are neither commas nor spaces go on with the term. -/
theorem splitAfter_word {word : Text} (plain : ∀ c ∈ word, c ≠ ',' ∧ c ≠ ' ')
    (before term rest : Text) :
    splitAfter before term 0 (word ++ rest) =
      splitAfter (word.reverse ++ before) (word.reverse ++ term) 0 rest := by
  induction word generalizing before term with
  | nil => rfl
  | cons c word ih =>
      obtain ⟨⟨comma, space⟩, plain⟩ := List.forall_mem_cons.mp plain
      rw [List.cons_append, splitAfter, separatorLength?_of_plain comma space, ih plain]
      simp

/-- A text without commas and spaces is one term. -/
theorem split_of_undivided {term : Text} (plain : ∀ c ∈ term, c ≠ ',' ∧ c ≠ ' ') :
    split term = [term] := by
  rw [split, ← List.append_nil term, splitAfter_word plain]
  simp [splitAfter]

theorem splitAfter_skip (skipped before term rest : Text) :
    splitAfter before term skipped.length (skipped ++ rest) =
      splitAfter (skipped.reverse ++ before) term 0 rest := by
  induction skipped generalizing before with
  | nil => rfl
  | cons c skipped ih =>
      rw [List.length_cons, List.cons_append, splitAfter, ih]
      simp

/-- What divides ends the term before it and belongs to no term. -/
theorem splitAfter_of_length {before separator following : Text}
    (length : separatorLength? before (separator ++ following) = some separator.length)
    (filled : separator ≠ []) (term : Text) :
    splitAfter before term 0 (separator ++ following) =
      term.reverse :: splitAfter (separator.reverse ++ before) [] 0 following := by
  obtain ⟨c, separator, rfl⟩ := List.exists_cons_of_ne_nil filled
  rw [List.cons_append] at length ⊢
  simp only [splitAfter, length, List.length_cons, splitAfter_skip, List.reverse_cons,
    List.append_assoc, List.singleton_append]

theorem splitAfter_separator {before separator following : Text}
    (isSeparator : IsSeparator separator) (closes : Closes before) (opens : Opens following)
    (term : Text) :
    splitAfter before term 0 (separator ++ following) =
      term.reverse :: splitAfter (separator.reverse ++ before) [] 0 following :=
  splitAfter_of_length (separatorLength?_of_isSeparator isSeparator closes opens)
    isSeparator.nonempty term

/-! ## Joined terms -/

/-- A term that stands between any two separators: it has no blank, no dividing sign, and no sign of
a flag or a reference in it, no hyphen or word of an alias at either end, and no operator behind. -/
@[mk_iff]
structure IsTerm (term : Text) : Prop where
  nonempty : term ≠ []
  solid : ∀ c ∈ term, Text.isBlank c = false
  plain : ∀ c ∈ term, c ∉ [',', '|', '@', '#']
  unhyphened : term.head? ≠ some '-'
  unnamed : ¬ "as".toList <+: term
  closed : ∀ sign ∈ ['=', '<', '>', '-'], term.getLast? ≠ some sign
  unfinished : ¬ "as".toList <:+ term

instance (term : Text) : Decidable (IsTerm term) :=
  decidable_of_iff (term ≠ [] ∧ term.all (!Text.isBlank ·) = true ∧
    term.all (!List.contains [',', '|', '@', '#'] ·) = true ∧ term.head? ≠ some '-' ∧
    ¬ "as".toList <+: term ∧ ['=', '<', '>', '-'].all (term.getLast? != some ·) = true ∧
    ¬ "as".toList <:+ term) (by simp [isTerm_iff])

/-- Terms with separators between them. -/
def joined (first : Text) (further : List (Text × Text)) : Text :=
  first ++ further.flatMap fun (separator, term) => separator ++ term

@[simp] theorem joined_nil (first : Text) : joined first [] = first := by
  simp [joined]

theorem joined_cons (first separator term : Text) (further : List (Text × Text)) :
    joined first ((separator, term) :: further) = first ++ (separator ++ joined term further) := by
  simp [joined]

theorem IsTerm.undivided {term : Text} (isTerm : IsTerm term) : ∀ c ∈ term, c ≠ ',' ∧ c ≠ ' ' := by
  intro c inside
  constructor
  · rintro rfl
    simpa using isTerm.plain ',' inside
  · rintro rfl
    exact Text.not_mem_of_solid isTerm.solid (by decide) inside

theorem IsTerm.opens {term rest : Text} (isTerm : IsTerm term)
    (detached : rest.head? ≠ some 's') : Opens (term ++ rest) := by
  obtain ⟨c, term, rfl⟩ := List.exists_cons_of_ne_nil isTerm.nonempty
  obtain ⟨comma, space⟩ := isTerm.undivided c List.mem_cons_self
  have unnamed' : ¬ "as".toList <+: c :: term ++ rest := by
    cases term with
    | nil =>
        rintro ⟨behind, whole⟩
        obtain ⟨rfl, rest'⟩ : 'a' = c ∧ 's' :: behind = rest := by simpa using whole
        exact detached (rest' ▸ rfl)
    | cons d term => simpa using isTerm.unnamed
  have refused : "as".toList.isPrefixOf (c :: term ++ rest) = false := by
    rwa [← Bool.not_eq_true, List.isPrefixOf_iff_prefix]
  refine ⟨?_, by simpa using isTerm.unhyphened, by simpa using space⟩
  simp [canBegin, comma, ← refused]

theorem IsTerm.closes {term before : Text} (isTerm : IsTerm term)
    (detached : before.head? ≠ some 'a') : Closes (term.reverse ++ before) := by
  obtain ⟨last, front, reversed⟩ :=
    List.exists_cons_of_ne_nil (List.reverse_ne_nil_iff.mpr isTerm.nonempty)
  have inside : last ∈ term := List.mem_reverse.mp (reversed ▸ List.mem_cons_self)
  obtain ⟨comma, space⟩ := isTerm.undivided last inside
  have closed' : ∀ sign ∈ ['=', '<', '>', '-'], last ≠ sign := by
    intro sign listed
    have ending := isTerm.closed sign listed
    rw [← List.head?_reverse, reversed] at ending
    simpa using ending
  have unfinished' : ¬ (last = 's' ∧ (front ++ before).head? = some 'a') := by
    rintro ⟨rfl, named⟩
    have unfinished := isTerm.unfinished
    rw [← List.reverse_prefix, reversed] at unfinished
    cases front with
    | nil => exact detached named
    | cons d front => exact unfinished (by simpa [eq_comm] using named)
  obtain ⟨equal, less, greater, hyphen⟩ := by simpa using closed'
  have separate : (last == 's' && (front ++ before).head? == some 'a') = false :=
    Bool.eq_false_iff.mpr (by simpa using unfinished')
  rw [reversed]
  refine ⟨?_, by simpa using hyphen⟩
  rw [List.cons_append, canEnd, separate]
  simp [comma, space, equal, less, greater]

/-- No letter stands at either end of a separator. -/
theorem IsSeparator.head?_ne {separator : Text} (isSeparator : IsSeparator separator) {c : Char}
    (space : c ≠ ' ') (comma : c ≠ ',') (rest : Text) :
    (separator ++ rest).head? ≠ some c ∧ (separator.reverse ++ rest).head? ≠ some c := by
  have other {text : Text} (filled : text ≠ []) (inside : ∀ d ∈ text, d ∈ separator) :
      (text ++ rest).head? ≠ some c := by
    obtain ⟨d, text, rfl⟩ := List.exists_cons_of_ne_nil filled
    have sign := isSeparator.signs d (inside d List.mem_cons_self)
    rintro ⟨⟩
    exact sign.elim space comma
  exact ⟨other isSeparator.nonempty fun _ => id,
    other (List.reverse_ne_nil_iff.mpr isSeparator.nonempty) fun _ => List.mem_reverse.mp⟩

theorem IsTerm.opens_joined {term : Text} {further : List (Text × Text)} (isTerm : IsTerm term)
    (areSeparators : ∀ pair ∈ further, IsSeparator pair.1) : Opens (joined term further) := by
  refine isTerm.opens ?_
  cases further with
  | nil => simp
  | cons pair further =>
      rw [List.flatMap_cons, List.append_assoc]
      exact ((areSeparators pair List.mem_cons_self).head?_ne (by decide) (by decide) _).1

/-- The terms that are found behind a text that ends in no word of an alias are those that were
joined. -/
theorem splitAfter_joined {first before : Text} {further : List (Text × Text)}
    (isTerm : IsTerm first) (areTerms : ∀ pair ∈ further, IsSeparator pair.1 ∧ IsTerm pair.2)
    (detached : before.head? ≠ some 'a') :
    splitAfter before [] 0 (joined first further) = first :: further.map Prod.snd := by
  induction further generalizing first before with
  | nil =>
      rw [joined_nil, ← List.append_nil first, splitAfter_word isTerm.undivided]
      simp [splitAfter]
  | cons pair further ih =>
      obtain ⟨separator, term⟩ := pair
      obtain ⟨⟨isSeparator, isTerm'⟩, areTerms⟩ := List.forall_mem_cons.mp areTerms
      have opens := isTerm'.opens_joined fun pair inside => (areTerms pair inside).1
      have detached' : (separator.reverse ++ (first.reverse ++ before)).head? ≠ some 'a' :=
        (isSeparator.head?_ne (by decide) (by decide) _).2
      rw [joined_cons, splitAfter_word isTerm.undivided,
        splitAfter_separator isSeparator (isTerm.closes detached) opens,
        ih isTerm' areTerms detached']
      simp

/-- The terms that are found in joined terms are those that were joined. -/
theorem split_joined {first : Text} {further : List (Text × Text)} (isTerm : IsTerm first)
    (areTerms : ∀ pair ∈ further, IsSeparator pair.1 ∧ IsTerm pair.2) :
    split (joined first further) = first :: further.map Prod.snd :=
  splitAfter_joined isTerm areTerms (by simp)

/-! ## The characters of joined terms -/

section

variable {first : Text} {further : List (Text × Text)}

/-- Joined terms hold no sign that would divide alternatives or mark a flag or a reference. -/
theorem not_mem_joined (isTerm : IsTerm first)
    (areTerms : ∀ pair ∈ further, IsSeparator pair.1 ∧ IsTerm pair.2) {sign : Char}
    (listed : sign ∈ ['|', '@', '#']) : sign ∉ joined first further := by
  have special : sign ∈ [',', '|', '@', '#'] := List.mem_cons_of_mem _ listed
  have absent {term : Text} (isTerm : IsTerm term) : sign ∉ term :=
    fun inside => isTerm.plain sign inside special
  rw [joined, List.mem_append, List.mem_flatMap]
  rintro (inside | ⟨⟨separator, term⟩, among, inside⟩)
  · exact absent isTerm inside
  · obtain ⟨isSeparator, isTerm'⟩ := areTerms _ among
    rcases List.mem_append.mp inside with inside | inside
    · rcases isSeparator.signs sign inside with rfl | rfl <;> simp at listed
    · exact absent isTerm' inside

/-- Joined terms end as one of the terms does. -/
theorem exists_getLast?_joined (isTerm : IsTerm first)
    (areTerms : ∀ pair ∈ further, IsSeparator pair.1 ∧ IsTerm pair.2) :
    ∃ term, IsTerm term ∧ (joined first further).getLast? = term.getLast? := by
  induction further generalizing first with
  | nil => exact ⟨first, isTerm, by rw [joined_nil]⟩
  | cons pair further ih =>
      obtain ⟨separator, term⟩ := pair
      obtain ⟨⟨-, isTerm'⟩, areTerms⟩ := List.forall_mem_cons.mp areTerms
      have filled : joined term further ≠ [] := by simp [joined, isTerm'.nonempty]
      rw [joined_cons, List.getLast?_append_of_ne_nil _ (by simp [filled]),
        List.getLast?_append_of_ne_nil _ filled]
      exact ih isTerm' areTerms

theorem trim_joined (isTerm : IsTerm first)
    (areTerms : ∀ pair ∈ further, IsSeparator pair.1 ∧ IsTerm pair.2) :
    Text.trim (joined first further) = joined first further := by
  refine Text.trim_eq_self_of_ends (fun c leading => ?_) (fun c trailing => ?_)
  · rw [joined, List.head?_append_of_ne_nil _ isTerm.nonempty] at leading
    exact isTerm.solid c (List.mem_of_head? leading)
  · obtain ⟨term, isTerm', ending⟩ := exists_getLast?_joined isTerm areTerms
    rw [ending] at trailing
    exact isTerm'.solid c (List.mem_of_getLast? trailing)

end

end VersionRanges.Term

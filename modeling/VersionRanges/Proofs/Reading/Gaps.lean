/-
# Gaps inside a term

The hyphen of a range and the word of an alias have spaces on both sides. A space divides terms
where a term can end before it and another can begin behind it, and the places for that are looked
for space by space: a gap of several spaces has a place where a single space has none. Then the sign
or the word is torn off, with the spaces that are left to it.
-/
import VersionRanges.Proofs.Reading.Terms

namespace VersionRanges.Term

/-- A gap of spaces. -/
abbrev spaces (count : ℕ) : Text := List.replicate count ' '

theorem spaces_append (count : ℕ) (text : Text) :
    spaces (count + 1) ++ text = ' ' :: (spaces count ++ text) := rfl

theorem spaces_succ_append (count : ℕ) (text : Text) :
    spaces (count + 1) ++ text = spaces count ++ ' ' :: text := by
  rw [spaces, List.replicate_succ', List.append_assoc]
  rfl

/-- Two texts with a hyphen between them, and gaps of two sizes around it. -/
def hyphenated (low high : Text) (m n : ℕ) : Text :=
  low ++ (spaces m ++ '-' :: (spaces n ++ high))

/-- Two texts with the word of an alias between them, and gaps of two sizes around it. -/
def aliased (source target : Text) (m n : ℕ) : Text :=
  source ++ (spaces m ++ 'a' :: 's' :: (spaces n ++ target))

/-! ## Places in a gap -/

/-- A text that keeps a single space in front of it from dividing: a hyphen or a word of an alias
begins it. -/
structure Shuts (text : Text) : Prop where
  comma : text.head? ≠ some ','
  solid : text.head? ≠ some ' '
  shut : text.head? = some '-' ∨ canBegin text = false

theorem shuts_hyphen (rest : Text) : Shuts ('-' :: rest) :=
  ⟨by simp, by simp, .inl rfl⟩

theorem shuts_as (rest : Text) : Shuts ('a' :: 's' :: rest) :=
  ⟨by simp, by simp, .inr (by simp [canBegin])⟩

theorem drop_spaces_append (following : Text) (offset count : ℕ) :
    (spaces (offset + count) ++ following).drop offset = spaces count ++ following := by
  rw [List.drop_append_of_le_length (by simp), List.drop_replicate, Nat.add_sub_cancel_left]

section

variable {before following : Text} (shuts : Shuts following)

include shuts

/-- The last space of a gap does not divide. -/
theorem lengthAt?_last (offset : ℕ) :
    lengthAt? before (spaces (offset + 1) ++ following) offset = none := by
  have here : (spaces (offset + 1) ++ following).drop offset = ' ' :: following :=
    drop_spaces_append following offset 1
  have alone : leadingSpaces following = 0 := leadingSpaces_replicate_append 0 shuts.solid
  have counts : downFrom 0 = [0] := rfl
  rw [lengthAt?, here]
  dsimp only
  rcases shuts.shut with hyphen | closed
  · simp [hyphen]
  · rw [alone, counts]
    simp [closed]

/-- Any other space divides unless it touches a hyphen in front, and takes the spaces behind it,
with or without the last. -/
theorem lengthAt?_inside (offset further : ℕ) :
    lengthAt? before (spaces (offset + (further + 2)) ++ following) offset =
      if offset = 0 ∧ before.head? = some '-' then none
      else some
        (if canBegin following then offset + (further + 2) else offset + (further + 1)) := by
  have here : (spaces (offset + (further + 2)) ++ following).drop offset =
      ' ' :: (spaces (further + 1) ++ following) :=
    drop_spaces_append following offset (further + 2)
  have spaced : leadingSpaces (spaces (further + 1) ++ following) = further + 1 :=
    leadingSpaces_replicate_append (further + 1) shuts.solid
  have unhyphened : ((spaces (further + 1) ++ following).head? != some '-') = true := by
    simp [List.replicate_succ]
  obtain ⟨lower, counts⟩ := exists_downFrom further
  have whole : (spaces (further + 1) ++ following).drop (further + 1) = following := by simp
  have last : (spaces (further + 1) ++ following).drop further = ' ' :: following :=
    drop_spaces_append following further 1
  have begins : canBegin (' ' :: following) = true := rfl
  rw [lengthAt?, here]
  dsimp only
  rw [spaced, downFrom_succ, counts]
  by_cases touches : offset = 0 ∧ before.head? = some '-'
  · rw [if_pos touches]
    simp [touches]
  · have apart : (offset == 0 && before.head? == some '-') = false := by simpa using touches
    rw [if_neg touches, apart, unhyphened, if_pos (by decide)]
    by_cases opens : canBegin following = true
    · rw [List.find?_cons_of_pos (by rw [whole, opens]), if_pos opens, Option.map_some]
      exact congrArg some (by omega)
    · rw [List.find?_cons_of_neg (by rw [whole]; exact opens),
        List.find?_cons_of_pos (by rw [last, begins]), if_neg opens, Option.map_some]
      exact congrArg some (by omega)

/-- Of a gap that a hyphen or the word of an alias follows, the last space but one is the one that
divides. Two spaces behind a hyphen have none that can. -/
theorem separatorLength?_of_shuts (canEnd : canEnd before = true) (count : ℕ) :
    separatorLength? before (spaces count ++ following) =
      if count ≤ 1 ∨ count = 2 ∧ before.head? = some '-' then none
      else some (if canBegin following then count else count - 1) := by
  have behind : lengthAt? before (spaces count ++ following) count = none := by
    have rest : (spaces count ++ following).drop count = following := by simp
    exact lengthAt?_of_plain (rest.symm ▸ shuts.comma) (rest.symm ▸ shuts.solid)
  rw [separatorLength?, if_pos canEnd, leadingSpaces_replicate_append count shuts.solid]
  -- behind the gap nothing divides, and neither does its last space: the last but one decides
  rcases count with _ | _ | further
  · simpa [downFrom] using behind
  · have last : lengthAt? before (spaces 1 ++ following) 0 = none := lengthAt?_last shuts 0
    have counts : downFrom 1 = [1, 0] := rfl
    rw [counts, List.findSome?_cons, behind, List.findSome?_cons, last]
    rfl
  · have last : lengthAt? before (spaces (further + 2) ++ following) (further + 1) = none :=
      lengthAt?_last shuts (further + 1)
    have inside : lengthAt? before (spaces (further + 2) ++ following) further = _ :=
      lengthAt?_inside shuts further 0
    have sizes : (further + 2 ≤ 1 ∨ further + 2 = 2 ∧ before.head? = some '-') ↔
        further = 0 ∧ before.head? = some '-' := by
      simp only [show ¬ further + 2 ≤ 1 by omega, false_or,
        show further + 2 = 2 ↔ further = 0 by omega]
    rw [downFrom_succ, downFrom_succ, List.findSome?_cons, behind, List.findSome?_cons, last]
    simp only [sizes]
    by_cases touches : further = 0 ∧ before.head? = some '-'
    · have counts : downFrom 0 = [0] := rfl
      rw [if_pos touches] at inside ⊢
      obtain ⟨rfl, -⟩ := touches
      rw [counts, List.findSome?_cons, inside]
      rfl
    · obtain ⟨lower, counts⟩ := exists_downFrom further
      rw [if_neg touches] at inside ⊢
      rw [counts, List.findSome?_cons, inside]
      rfl

end

/-! ## Terms with a gap -/

/-- A gap behind a text that does not divide before a hyphen or the word of an alias: a single
space, or two spaces behind a hyphen. -/
def IsNarrow (before : Text) (count : ℕ) : Prop :=
  count ≤ 1 ∨ count = 2 ∧ before.getLast? = some '-'

instance (before : Text) (count : ℕ) : Decidable (IsNarrow before count) :=
  inferInstanceAs (Decidable (_ ∨ _))

theorem separatorLength?_of_not_canEnd {before : Text} (closed : canEnd before = false)
    (text : Text) : separatorLength? before text = none := by
  rw [separatorLength?, closed, if_neg Bool.false_ne_true]

theorem separatorLength?_of_isNarrow {word following : Text} (shuts : Shuts following) {count : ℕ}
    (narrow : IsNarrow word count) :
    separatorLength? word.reverse (spaces count ++ following) = none := by
  cases ends : canEnd word.reverse with
  | false => exact separatorLength?_of_not_canEnd ends _
  | true => rw [separatorLength?_of_shuts shuts ends, if_pos (by rwa [List.head?_reverse])]

/-- A gap that does not divide at its first space does not divide at all, because no term ends
behind a space. -/
theorem splitAfter_gap {before following : Text} {count : ℕ}
    (undivided : separatorLength? before (spaces count ++ following) = none) (term : Text) :
    splitAfter before term 0 (spaces count ++ following) =
      splitAfter (spaces count ++ before) (spaces count ++ term) 0 following := by
  induction count generalizing before term with
  | zero => rfl
  | succ count ih =>
      have closed : separatorLength? (' ' :: before) (spaces count ++ following) = none :=
        separatorLength?_of_not_canEnd rfl _
      have next := ih closed (' ' :: term)
      rw [spaces_append] at undivided ⊢
      rw [splitAfter, undivided, spaces_succ_append, spaces_succ_append, ← next]

section

variable {word following : Text} (plain : ∀ c ∈ word, c ≠ ',' ∧ c ≠ ' ')

include plain

/-- A gap that nothing divides belongs to the term in front. -/
theorem split_gap_of_undivided {count : ℕ}
    (undivided : separatorLength? word.reverse (spaces count ++ following) = none) :
    split (word ++ (spaces count ++ following)) =
      splitAfter (spaces count ++ word.reverse) (spaces count ++ word.reverse) 0 following := by
  rw [split, splitAfter_word plain, List.append_nil, splitAfter_gap undivided]

/-- A wider gap tears off what follows it, with the last space if no term can begin without it. -/
theorem split_gap_of_not_isNarrow (canEnd : canEnd word.reverse = true) (shuts : Shuts following)
    {count : ℕ} (wide : ¬ IsNarrow word count) :
    split (word ++ (spaces count ++ following)) =
      word :: if canBegin following then
          splitAfter (spaces count ++ word.reverse) [] 0 following
        else splitAfter (spaces (count - 1) ++ word.reverse) [] 0 (' ' :: following) := by
  have length := separatorLength?_of_shuts shuts canEnd count
  have wide' : ¬ (count ≤ 1 ∨ count = 2 ∧ word.reverse.head? = some '-') := by
    rwa [List.head?_reverse]
  have several : 2 ≤ count := by
    by_contra few
    exact wide (.inl (by omega))
  rw [if_neg wide'] at length
  rw [split, splitAfter_word plain, List.append_nil]
  by_cases opens : canBegin following = true
  · rw [if_pos opens] at length ⊢
    rw [splitAfter_of_length (by simpa using length) (by simp; omega), List.reverse_reverse,
      List.reverse_replicate]
  · obtain ⟨count, rfl⟩ := Nat.exists_eq_add_of_le' several
    rw [if_neg opens] at length ⊢
    rw [spaces_succ_append] at length ⊢
    rw [splitAfter_of_length (by simpa using length) (by simp), List.reverse_reverse,
      List.reverse_replicate]
    rfl

end

/-! ## Hyphens -/

/-- A single space behind a hyphen does not divide. -/
theorem separatorLength?_of_hyphen {rest : Text} (plain : ∀ c ∈ rest.head?, c ≠ ',' ∧ c ≠ ' ')
    (before : Text) : separatorLength? ('-' :: before) (' ' :: rest) = none := by
  have single : leadingSpaces (' ' :: rest) = 1 :=
    leadingSpaces_replicate_append 1 fun space => (plain ' ' space).2 rfl
  have here : lengthAt? ('-' :: before) (' ' :: rest) 0 = none := by simp [lengthAt?]
  have behind : lengthAt? ('-' :: before) (' ' :: rest) 1 = none :=
    lengthAt?_of_plain (fun comma => (plain ',' comma).1 rfl) fun space => (plain ' ' space).2 rfl
  have counts : downFrom 1 = [1, 0] := rfl
  rw [separatorLength?, single, counts]
  simp [here, behind]

section

variable {low high : Text} (plain : ∀ c ∈ low, c ≠ ',' ∧ c ≠ ' ')
  (plain' : ∀ c ∈ high, c ≠ ',' ∧ c ≠ ' ') {m n : ℕ}

include plain'

theorem splitAfter_last (before term : Text) :
    splitAfter before term 0 high = [term.reverse ++ high] := by
  rw [← List.append_nil high, splitAfter_word plain', splitAfter]
  simp

theorem splitAfter_hyphen (before term : Text) :
    splitAfter before term 0 ('-' :: (spaces 1 ++ high)) =
      [term.reverse ++ '-' :: ' ' :: high] := by
  have undivided : separatorLength? ('-' :: before) (spaces 1 ++ high) = none :=
    separatorLength?_of_hyphen (fun c here => plain' c (List.mem_of_head? here)) before
  rw [splitAfter, separatorLength?_of_plain (by decide) (by decide)]
  dsimp only
  rw [splitAfter_gap undivided, splitAfter_last plain']
  simp

/-- Several spaces behind a hyphen divide. -/
theorem splitAfter_hyphen_of_opens (opens : Opens high) (several : 2 ≤ n) (before term : Text) :
    splitAfter before term 0 ('-' :: (spaces n ++ high)) = [term.reverse ++ ['-'], high] := by
  obtain ⟨n, rfl⟩ := Nat.exists_eq_add_of_le' several
  have length : separatorLength? ('-' :: before) (spaces (n + 2) ++ high) = some (n + 2) :=
    separatorLength?_of_spaces rfl (fun zero => absurd zero (Nat.succ_ne_zero n)) opens
  rw [splitAfter, separatorLength?_of_plain (by decide) (by decide)]
  dsimp only
  rw [splitAfter_of_length (by simpa using length) (by simp), splitAfter_last plain']
  simp

include plain

/-- Two texts with a hyphen between them are one term, with a narrow gap before the hyphen and one
space behind it. -/
theorem split_hyphenated_of_isNarrow (narrow : IsNarrow low m) :
    split (hyphenated low high m 1) = [hyphenated low high m 1] := by
  have shuts := shuts_hyphen (spaces 1 ++ high)
  rw [hyphenated, split_gap_of_undivided plain (separatorLength?_of_isNarrow shuts narrow),
    splitAfter_hyphen plain']
  simp

/-- With other gaps they are torn apart, and the hyphen goes with the text from which it has the
narrow gap or the single space, or stays alone. -/
theorem split_hyphenated (canEnd : canEnd low.reverse = true) (opens : Opens high)
    (positive : 0 < n) (torn : ¬ (IsNarrow low m ∧ n = 1)) :
    split (hyphenated low high m n) =
      if IsNarrow low m then [low ++ (spaces m ++ ['-']), high]
      else if n = 1 then [low, '-' :: ' ' :: high] else [low, ['-'], high] := by
  have shuts := shuts_hyphen (spaces n ++ high)
  have begins : Term.canBegin ('-' :: (spaces n ++ high)) = true := rfl
  by_cases narrow : IsNarrow low m
  · have several : 2 ≤ n := by
      have other : n ≠ 1 := fun single => torn ⟨narrow, single⟩
      omega
    rw [if_pos narrow, hyphenated,
      split_gap_of_undivided plain (separatorLength?_of_isNarrow shuts narrow),
      splitAfter_hyphen_of_opens plain' opens several]
    simp
  · rw [if_neg narrow, hyphenated, split_gap_of_not_isNarrow plain canEnd shuts narrow,
      if_pos begins]
    by_cases single : n = 1
    · rw [if_pos single, single, splitAfter_hyphen plain']
      rfl
    · rw [if_neg single, splitAfter_hyphen_of_opens plain' opens (by omega)]
      rfl

end

/-! ## Aliases -/

section

variable {source target : Text} (plain : ∀ c ∈ source, c ≠ ',' ∧ c ≠ ' ')
  (plain' : ∀ c ∈ target, c ≠ ',' ∧ c ≠ ' ') {m n : ℕ}

include plain'

/-- Behind the word of an alias no gap divides. -/
theorem splitAfter_as (before term : Text) :
    splitAfter before term 0 ('a' :: 's' :: (spaces n ++ target)) =
      [term.reverse ++ 'a' :: 's' :: (spaces n ++ target)] := by
  have undivided : separatorLength? ('s' :: 'a' :: before) (spaces n ++ target) = none :=
    separatorLength?_of_not_canEnd rfl _
  rw [splitAfter, separatorLength?_of_plain (by decide) (by decide), splitAfter,
    separatorLength?_of_plain (by decide) (by decide)]
  dsimp only
  rw [splitAfter_gap undivided, splitAfter_last plain']
  simp

include plain

/-- Two texts with the word of an alias between them are one term, if the gap before the word is
narrow or no term can end with the first text. -/
theorem split_aliased_of_kept (kept : IsNarrow source m ∨ canEnd source.reverse = false) :
    split (aliased source target m n) = [aliased source target m n] := by
  have shuts := shuts_as (spaces n ++ target)
  have undivided : separatorLength? source.reverse
      (spaces m ++ 'a' :: 's' :: (spaces n ++ target)) = none :=
    kept.elim (separatorLength?_of_isNarrow shuts) fun closed =>
      separatorLength?_of_not_canEnd closed _
  rw [aliased, split_gap_of_undivided plain undivided, splitAfter_as plain']
  simp

/-- Otherwise the first text is torn off, and the word keeps one of the spaces in front. -/
theorem split_aliased (wide : ¬ IsNarrow source m) (canEnd : canEnd source.reverse = true) :
    split (aliased source target m n) =
      [source, ' ' :: 'a' :: 's' :: (spaces n ++ target)] := by
  have shuts := shuts_as (spaces n ++ target)
  have shut : canBegin ('a' :: 's' :: (spaces n ++ target)) = false := by simp [canBegin]
  obtain ⟨count, rfl⟩ : ∃ count, m = count + 2 :=
    Nat.exists_eq_add_of_le' (by by_contra few; exact wide (.inl (by omega)))
  have closed : Term.canEnd (spaces (count + 2 - 1) ++ source.reverse) = false := rfl
  rw [aliased, split_gap_of_not_isNarrow plain canEnd shuts wide, shut, if_neg Bool.false_ne_true,
    splitAfter, separatorLength?_of_not_canEnd closed]
  dsimp only
  rw [splitAfter_as plain']
  rfl

end

end VersionRanges.Term

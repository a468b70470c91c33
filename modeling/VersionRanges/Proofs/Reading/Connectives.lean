/-
# Bars join versions, commas and spaces restrict them

The versions of a text are told from the versions of its parts: a bar between two texts stands for
their union, and commas and spaces between terms stand for their intersection.
-/
import VersionRanges.Proofs.Reading.Outcome
import VersionRanges.Proofs.Reading.Terms

namespace VersionRanges.Constraint

/-! ## Bars -/

/-- A bar between two texts that can be read stands for the union of their versions. -/
theorem satisfies_alternatives {first divider second : Text}
    (unflagged : '@' ∉ first) (unsigned : '#' ∉ first) (unflagged' : '@' ∉ second)
    (unsigned' : '#' ∉ second) (isDivider : Alternative.IsDivider divider)
    (reads : ∃ required, parse first = .ok required)
    (reads' : ∃ required, parse second = .ok required) :
    (∃ required, parse (first ++ divider ++ second) = .ok required) ∧
      ∀ version, Selection.satisfies version (first ++ divider ++ second) =
        (Selection.satisfies version first || Selection.satisfies version second) := by
  obtain ⟨required, reads⟩ := reads
  obtain ⟨required', reads'⟩ := reads'
  obtain ⟨members, read, -⟩ := parse_eq_ok_iff.mp reads
  obtain ⟨members', read', -⟩ := parse_eq_ok_iff.mp reads'
  have unflagged'' : '@' ∉ divider := isDivider.not_mem (by decide) (by decide)
  have unsigned'' : '#' ∉ divider := isDivider.not_mem (by decide) (by decide)
  have uncut : core (first ++ divider ++ second) = first ++ divider ++ second :=
    core_eq_self (by simp [unflagged, unflagged', unflagged''])
      (by simp [unsigned, unsigned', unsigned''])
  have joined : List.Forall₂ ReadsAs (Alternative.split (core (first ++ divider ++ second)))
      (members ++ members') := by
    have whole := List.rel_append read read'
    rw [core_eq_self unflagged unsigned] at read whole
    rw [core_eq_self unflagged' unsigned'] at read' whole
    rwa [uncut, Alternative.split_append_divider isDivider (nil_not_mem_of_forall₂ read)
      (nil_not_mem_of_forall₂ read')]
  refine ⟨⟨_, parse_eq_ok_iff.mpr ⟨_, joined, rfl⟩⟩, fun version => ?_⟩
  rw [satisfies_eq_any joined, satisfies_eq_any read, satisfies_eq_any read', List.any_append]

/-- A bar binds looser than the restrictions before it: `3.2` is no version between 1.0 and 2.0. -/
theorem satisfies_alternatives_restricted :
    (∃ required, parse (">1.0 <2.0 || dev-main".toList ++ " | ".toList ++ "^3.1".toList) =
        .ok required) ∧
      Selection.satisfies "3.2".toList
        (">1.0 <2.0 || dev-main".toList ++ " | ".toList ++ "^3.1".toList) = true := by
  have isDivider : Alternative.IsDivider " | ".toList :=
    ⟨[' '], ['|'], [' '], by decide, by decide, .inl rfl, rfl⟩
  have first : ∃ required, parse ">1.0 <2.0 || dev-main".toList = .ok required := ⟨_, rfl⟩
  have second : ∃ required, parse "^3.1".toList = .ok required := ⟨_, rfl⟩
  obtain ⟨reads, union⟩ := satisfies_alternatives (by decide) (by decide) (by decide) (by decide)
    isDivider first second
  refine ⟨reads, ?_⟩
  rw [union]
  decide +kernel

/-! ## Commas and spaces -/

section

variable {text : Text}

/-- A text with one alternative is read as all constraints of all its terms, which have to hold. -/
theorem parse_eq_ok_iff_of_alone (alone : Alternative.split (core text) = [text])
    (filled : text ≠ []) {required : Constraint} :
    parse text = .ok required ↔ ∃ terms, (Term.split text).mapM readTerm = .ok terms ∧
      (join .and terms.flatten).withLabel text = required := by
  rw [parse_eq_ok_iff, alone]
  constructor
  · rintro ⟨_, reads, rfl⟩
    obtain ⟨_, _, ⟨-, terms, read, rfl⟩, further, rfl⟩ := List.forall₂_cons_left_iff.mp reads
    obtain rfl := List.forall₂_nil_left_iff.mp further
    exact ⟨terms, read, rfl⟩
  · rintro ⟨terms, read, rfl⟩
    exact ⟨_, .cons ⟨filled, terms, read, rfl⟩ .nil, rfl⟩

/-- A text with one alternative can be read if each of its terms can. -/
theorem exists_parse_iff_forall_readTerm (alone : Alternative.split (core text) = [text])
    (filled : text ≠ []) :
    (∃ required, parse text = .ok required) ↔
      ∀ term ∈ Term.split text, ∃ members, readTerm term = .ok members := by
  rw [← exists_mapM_eq_ok_iff]
  simp only [parse_eq_ok_iff_of_alone alone filled]
  exact ⟨fun ⟨_, terms, read, _⟩ => ⟨terms, read⟩, fun ⟨terms, read⟩ => ⟨_, terms, read, rfl⟩⟩

/-- A version satisfies a text with one alternative if it meets all constraints of all terms. -/
theorem satisfies_eq_all (alone : Alternative.split (core text) = [text]) (filled : text ≠ [])
    {terms : List (List Constraint)} (read : (Term.split text).mapM readTerm = .ok terms)
    {version normal : Text} (readable : Version.normalize version = .ok normal) :
    Selection.satisfies version text = terms.all fun members => members.all (·.isMetBy normal) := by
  have reads : List.Forall₂ ReadsAs (Alternative.split (core text)) [join .and terms.flatten] := by
    rw [alone]
    exact .cons ⟨filled, terms, read, rfl⟩ .nil
  rw [satisfies_eq_any reads, List.any_cons, List.any_nil, Bool.or_false, ← List.all_flatten,
    ← isMetBy_join_and]
  simp [Selection.isMetByText, readable]

end

/-- Joined terms are one alternative. -/
theorem split_core_joined {first : Text} {further : List (Text × Text)}
    (isTerm : Term.IsTerm first)
    (areTerms : ∀ pair ∈ further, Term.IsSeparator pair.1 ∧ Term.IsTerm pair.2) :
    Alternative.split (core (Term.joined first further)) = [Term.joined first further] := by
  have absent {sign : Char} (listed : sign ∈ ['|', '@', '#']) :
      sign ∉ Term.joined first further := Term.not_mem_joined isTerm areTerms listed
  rw [core_eq_self (absent (by simp)) (absent (by simp)),
    Alternative.split_of_barless (absent (by simp)) (Term.trim_joined isTerm areTerms)]

theorem split_core_of_isTerm {term : Text} (isTerm : Term.IsTerm term) :
    Alternative.split (core term) = [term] := by
  simpa using split_core_joined isTerm (List.forall_mem_nil _)

/-- A term by itself can be read as a text if it can be read as a term. -/
theorem exists_parse_iff_of_isTerm {term : Text} (isTerm : Term.IsTerm term) :
    (∃ required, parse term = .ok required) ↔ ∃ members, readTerm term = .ok members := by
  rw [exists_parse_iff_forall_readTerm (split_core_of_isTerm isTerm) isTerm.nonempty,
    Term.split_of_undivided isTerm.undivided]
  simp

/-- A version satisfies several terms if it meets all constraints of all of them. -/
theorem all_satisfies_eq {terms : List Text} {lists : List (List Constraint)}
    (areTerms : ∀ term ∈ terms, Term.IsTerm term)
    (read : List.Forall₂ (fun term members => readTerm term = .ok members) terms lists)
    {version normal : Text} (readable : Version.normalize version = .ok normal) :
    terms.all (Selection.satisfies version) =
      lists.all fun members => members.all (·.isMetBy normal) := by
  induction read with
  | nil => rfl
  | @cons term members terms lists first _ ih =>
      obtain ⟨isTerm, areTerms⟩ := List.forall_mem_cons.mp areTerms
      have read : (Term.split term).mapM readTerm = .ok [members] := by
        rw [Term.split_of_undivided isTerm.undivided, mapM_eq_ok_iff]
        exact .cons first .nil
      rw [List.all_cons, List.all_cons, ih areTerms,
        satisfies_eq_all (split_core_of_isTerm isTerm) isTerm.nonempty read readable]
      simp

/-- Terms with commas or spaces between them are found again, can be read if each of them can, and
stand for the versions that satisfy all of them. -/
theorem satisfies_joined {first : Text} {further : List (Text × Text)}
    (isTerm : Term.IsTerm first)
    (areTerms : ∀ pair ∈ further, Term.IsSeparator pair.1 ∧ Term.IsTerm pair.2) :
    Term.split (Term.joined first further) = first :: further.map Prod.snd ∧
      ((∃ required, parse (Term.joined first further) = .ok required) ↔
        ∀ term ∈ first :: further.map Prod.snd, ∃ required, parse term = .ok required) ∧
      ∀ version, Selection.satisfies version (Term.joined first further) =
        (first :: further.map Prod.snd).all (Selection.satisfies version) := by
  have split := Term.split_joined isTerm areTerms
  have alone := split_core_joined isTerm areTerms
  have filled : Term.joined first further ≠ [] := by simp [Term.joined, isTerm.nonempty]
  have each : ∀ term ∈ first :: further.map Prod.snd, Term.IsTerm term := by
    simpa using ⟨isTerm, fun separator term inside => (areTerms _ inside).2⟩
  have readable : (∃ required, parse (Term.joined first further) = .ok required) ↔
      ∀ term ∈ first :: further.map Prod.snd, ∃ required, parse term = .ok required := by
    rw [exists_parse_iff_forall_readTerm alone filled, split]
    exact forall₂_congr fun term inside => (exists_parse_iff_of_isTerm (each term inside)).symm
  refine ⟨split, readable, fun version => ?_⟩
  cases normal : Version.normalize version with
  | error refusal => simp [satisfies_of_unreadable normal]
  | ok normalForm =>
      by_cases reads :
          ∀ term ∈ first :: further.map Prod.snd, ∃ required, parse term = .ok required
      · obtain ⟨lists, read⟩ := exists_mapM_eq_ok_iff.mpr fun term inside =>
          (exists_parse_iff_of_isTerm (each term inside)).mp (reads term inside)
        rw [satisfies_eq_all alone filled (split ▸ read) normal,
          all_satisfies_eq each (mapM_eq_ok_iff.mp read) normal]
      · have refused : ∀ required, parse (Term.joined first further) ≠ .ok required :=
          fun required whole => reads (readable.mp ⟨required, whole⟩)
        push Not at reads
        obtain ⟨term, inside, refused'⟩ := reads
        rw [satisfies_of_refused refused, eq_comm, List.all_eq_false]
        exact ⟨term, inside, by simp [satisfies_of_refused refused']⟩

/-- A comma with spaces around and spaces alone restrict alike. -/
theorem satisfies_joined_excluded :
    Selection.satisfies "1.3".toList (Term.joined ">=1.0".toList
        [(" , ".toList, "!=1.3".toList), ("  ".toList, "<2.0".toList)]) = false ∧
      Selection.satisfies "1.4".toList (Term.joined ">=1.0".toList
        [(" , ".toList, "!=1.3".toList), ("  ".toList, "<2.0".toList)]) = true := by
  have isTerm : Term.IsTerm ">=1.0".toList := by decide
  have areTerms : ∀ pair ∈ [(" , ".toList, "!=1.3".toList), ("  ".toList, "<2.0".toList)],
      Term.IsSeparator pair.1 ∧ Term.IsTerm pair.2 := by decide
  obtain ⟨-, -, intersection⟩ := satisfies_joined isTerm areTerms
  rw [intersection, intersection]
  decide +kernel

end VersionRanges.Constraint

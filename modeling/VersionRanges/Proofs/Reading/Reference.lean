/-
# References

A development version may carry a reference. It is cut off a whole text, with everything that stands
behind it on its line, and so a development version with a reference hides the alternatives behind
it. Behind another alternative nothing is cut, and the reference stays a part of the branch that is
asked for.
-/
import VersionRanges.Proofs.Reading.Connectives
import VersionRanges.Proofs.Reading.Signed

namespace VersionRanges

namespace Reference

/-! ## Development versions -/

/-- What stands behind the number sign of a reference: something without blanks and without signs
that divide a text or mark a flag. -/
@[mk_iff]
structure IsReference (commit : Text) : Prop where
  nonempty : commit ≠ []
  solid : ∀ c ∈ commit, Text.isBlank c = false
  plain : ∀ sign ∈ [',', '|', '@'], sign ∉ commit

instance (commit : Text) : Decidable (IsReference commit) :=
  decidable_of_iff (commit ≠ [] ∧ commit.all (!Text.isBlank ·) = true ∧
    [',', '|', '@'].all (!commit.contains ·) = true) (by simp [isReference_iff])

/-- The name of a branch or the numbers of one, without the signs of references and metadata. -/
@[mk_iff]
structure IsName (name : Text) : Prop extends IsReference name where
  unsigned : '#' ∉ name
  unextended : '+' ∉ name

instance (name : Text) : Decidable (IsName name) := decidable_of_iff' _ (isName_iff name)

/-- A branch with the marker before it, or a numeric branch with its last component left open. -/
def IsDevVersion (version : Text) : Prop :=
  ∃ name, IsName name ∧ (version = "dev-".toList ++ name ∨ version = name ++ ".x-dev".toList)

section

variable {commit : Text}

theorem IsReference.isPartChar (isReference : IsReference commit) :
    ∀ c ∈ commit, Alias.isPartChar c = true := by
  intro c inside
  have comma : c ≠ ',' := by
    rintro rfl
    exact isReference.plain ',' (by decide) inside
  simp [Alias.isPartChar, isReference.solid c inside, comma]

theorem IsReference.isVersionChar (isReference : IsReference commit) :
    ∀ c ∈ commit, isVersionChar c = true := by
  intro c inside
  have flag : c ≠ '@' := by
    rintro rfl
    exact isReference.plain '@' (by decide) inside
  simp [Reference.isVersionChar, isReference.isPartChar c inside, flag]

end

section

variable {version : Text}

theorem IsDevVersion.plain (isDev : IsDevVersion version) :
    ∀ sign ∈ [',', '|', '@', '#', '+'], sign ∉ version := by
  obtain ⟨name, isName, spelled⟩ := isDev
  have absent : ∀ sign ∈ [',', '|', '@', '#', '+'], sign ∉ name := by
    simpa [isName.unsigned, isName.unextended] using isName.plain
  rcases spelled with rfl | rfl <;> simpa using absent

theorem IsDevVersion.isVersionChar (isDev : IsDevVersion version) :
    ∀ c ∈ version, isVersionChar c = true := by
  obtain ⟨name, isName, rfl | rfl⟩ := isDev
  · exact List.forall_mem_append.mpr ⟨List.all_eq_true.mp (by decide), isName.isVersionChar⟩
  · exact List.forall_mem_append.mpr ⟨isName.isVersionChar, List.all_eq_true.mp (by decide)⟩

theorem IsDevVersion.unsigned (isDev : IsDevVersion version) : '#' ∉ version :=
  isDev.plain '#' (by decide)

theorem IsDevVersion.isPartChar_append {commit : Text} (isDev : IsDevVersion version)
    (isReference : IsReference commit) :
    ∀ c ∈ version ++ '#' :: commit, Alias.isPartChar c = true :=
  List.forall_mem_append.mpr
    ⟨fun c inside => (Bool.and_eq_true_iff.mp (isDev.isVersionChar c inside)).1,
      List.forall_mem_cons.mpr ⟨by decide, isReference.isPartChar⟩⟩

theorem IsDevVersion.plain_append {commit : Text} (isDev : IsDevVersion version)
    (isReference : IsReference commit) :
    ∀ sign ∈ ['|', '@'], sign ∉ version ++ '#' :: commit := by
  have plain := isDev.plain
  have plain' := isReference.plain
  simp only [List.forall_mem_cons] at plain plain'
  simp [plain, plain']

theorem IsDevVersion.long (isDev : IsDevVersion version) : 4 < version.length := by
  obtain ⟨name, isName, rfl | rfl⟩ := isDev
  · simpa using List.length_pos_iff.mpr isName.nonempty
  · simp only [List.length_append]
    exact Nat.lt_add_left _ (by decide)

end

/-! ## What is cut off -/

/-- A text without the number sign is what stands before the first one. -/
theorem takeWhile_append_sign {front : Text} (unsigned : '#' ∉ front) (behind : Text) :
    (front ++ '#' :: behind).takeWhile (· != '#') = front := by
  rw [List.takeWhile_append_of_pos (Text.forall_bne unsigned),
    List.takeWhile_cons_of_neg (by simp), List.append_nil]

/-- A reading that fails at all places of a front succeeds first behind it. -/
theorem splitBefore?_append {α : Type} {reading : Text → Option α} {front rest : Text} {value : α}
    (plain : ∀ c ∈ front, isVersionChar c = true)
    (fails : ∀ behind, behind ≠ [] → behind <:+ front → reading (behind ++ rest) = none)
    (filled : rest ≠ []) (reads : reading rest = some value) :
    splitBefore? reading (front ++ rest) = some (front, value) := by
  induction front with
  | nil =>
      obtain ⟨c, rest, rfl⟩ := List.exists_cons_of_ne_nil filled
      simp [splitBefore?, reads]
  | cons c front ih =>
      obtain ⟨plain', plain⟩ := List.forall_mem_cons.mp plain
      have fails' := fails (c :: front) (by simp) (List.suffix_refl _)
      have further := ih plain fun behind filled' ending =>
        fails behind filled' (ending.trans (List.suffix_cons c front))
      rw [List.cons_append] at fails' ⊢
      simp [splitBefore?, fails', plain', further]

theorem splitBefore?_readHash? {front commit : Text} (unsigned : '#' ∉ front)
    (plain : ∀ c ∈ front, isVersionChar c = true) (line : isCommit commit = true) :
    splitBefore? readHash? (front ++ '#' :: commit) = some (front, ()) := by
  have reads : readHash? ('#' :: commit) = some () := by simp [readHash?, line]
  refine splitBefore?_append plain (fun behind filled ending => ?_) (by simp) reads
  obtain ⟨c, behind, rfl⟩ := List.exists_cons_of_ne_nil filled
  have other : c ≠ '#' := by
    rintro rfl
    exact unsigned (ending.subset List.mem_cons_self)
  simp [readHash?, other]

/-- The ending of a numeric branch has six characters, and no number sign is among them. -/
theorem length_and_not_mem_of_openEnding {text ending rest : Text}
    (spelled : Text.keyword? ".x-dev".toList text = some (ending, rest)) :
    ending.length = 6 ∧ '#' ∉ ending := by
  have folded := Text.map_foldCase_of_keyword? spelled
  refine ⟨by simpa using congrArg List.length folded, fun inside => ?_⟩
  have sign : Text.foldCase '#' ∈ ".x-dev".toList := folded ▸ List.mem_map_of_mem inside
  exact absurd sign (by decide)

theorem splitBefore?_readOpenEnding? {front commit : Text} (unsigned : '#' ∉ front)
    (plain : ∀ c ∈ front, isVersionChar c = true) (line : isCommit commit = true) :
    splitBefore? readOpenEnding? (front ++ (".x-dev".toList ++ '#' :: commit)) =
      some (front, ".x-dev".toList) := by
  have reads : readOpenEnding? (".x-dev".toList ++ '#' :: commit) = some ".x-dev".toList := by
    change (readHash? ('#' :: commit)).map _ = _
    rw [readHash?, if_pos line]
    rfl
  refine splitBefore?_append plain (fun behind filled ending => ?_) (by simp) reads
  -- An earlier ending would have more than its six characters before the number sign.
  by_contra succeeds
  obtain ⟨early, reads'⟩ := Option.ne_none_iff_exists'.mp succeeds
  obtain ⟨commit', whole, -, spelled⟩ := eq_of_readOpenEnding? reads'
  obtain ⟨length, unsigned'⟩ := length_and_not_mem_of_openEnding spelled
  have unsigned'' : '#' ∉ behind ++ ".x-dev".toList := by
    intro inside
    rcases List.mem_append.mp inside with inside | inside
    · exact unsigned (ending.subset inside)
    · exact absurd inside (by decide)
  have same : behind ++ ".x-dev".toList = early := by
    rw [← takeWhile_append_sign unsigned'' commit, ← takeWhile_append_sign unsigned' commit',
      List.append_assoc, whole]
  have empty : behind.length = 0 := by
    rw [← same, List.length_append] at length
    exact Nat.add_right_cancel (m := 6) (by simpa using length)
  exact filled (List.length_eq_zero_iff.mp empty)

/-- If a text is read as a marked branch, then everything up to the first number sign is its
name. -/
theorem cutBranch?_append {version commit : Text} (unsigned : '#' ∉ version)
    (plain : ∀ c ∈ version, isVersionChar c = true) (long : 4 < version.length)
    (line : isCommit commit = true) :
    cutBranch? (version ++ '#' :: commit) = none ∨
      cutBranch? (version ++ '#' :: commit) = some version := by
  cases spelled : Text.keyword? "dev-".toList (version ++ '#' :: commit) with
  | none => exact .inl (by simp only [cutBranch?, spelled])
  | some pair =>
      obtain ⟨marker, rest⟩ := pair
      have whole := Text.eq_append_of_keyword? spelled
      have length : marker.length = 4 := by
        simpa using congrArg List.length (Text.map_foldCase_of_keyword? spelled)
      have parts : version.take 4 ++ (version.drop 4 ++ '#' :: commit) = marker ++ rest := by
        rw [← List.append_assoc, List.take_append_drop, whole]
      obtain ⟨rfl, rfl⟩ := List.append_inj parts (by simp [length]; omega)
      obtain ⟨c, name, named⟩ : ∃ c name, version.drop 4 = c :: name :=
        List.exists_cons_of_ne_nil (by simpa using long)
      have unsigned' : '#' ∉ c :: name := fun inside =>
        unsigned (List.mem_of_mem_drop (named ▸ inside))
      have plain' : ∀ d ∈ c :: name, isVersionChar d = true := fun d inside =>
        plain d (List.mem_of_mem_drop (named ▸ inside))
      obtain ⟨first, plain'⟩ := List.forall_mem_cons.mp plain'
      have cut := splitBefore?_readHash? (not_or.mp (mt List.mem_cons.mpr unsigned')).2 plain' line
      rw [named, List.cons_append] at spelled
      refine .inr ?_
      simp only [cutBranch?, spelled, first, if_true, cut, Option.map_some]
      rw [← named, List.take_append_drop]

/-- From a development version with a number sign behind it, everything from the sign on is cut
off. -/
theorem cut_append {version commit : Text} (isDev : IsDevVersion version)
    (line : isCommit commit = true) : cut (version ++ '#' :: commit) = version := by
  rcases cutBranch?_append isDev.unsigned isDev.isVersionChar isDev.long line with unmarked | branch
  · obtain ⟨name, isName, rfl | rfl⟩ := isDev
    · -- A text with the marker in front is read as a marked branch.
      obtain ⟨c, name, rfl⟩ := List.exists_cons_of_ne_nil isName.nonempty
      obtain ⟨first, plain⟩ := List.forall_mem_cons.mp isName.isVersionChar
      obtain ⟨-, unsigned⟩ := not_or.mp (mt List.mem_cons.mpr isName.unsigned)
      change (if isVersionChar c = true then
        (splitBefore? readHash? (name ++ '#' :: commit)).map _ else none) = none at unmarked
      simp [first, splitBefore?_readHash? unsigned plain line] at unmarked
    · obtain ⟨c, name, rfl⟩ := List.exists_cons_of_ne_nil isName.nonempty
      obtain ⟨first, plain⟩ := List.forall_mem_cons.mp isName.isVersionChar
      obtain ⟨-, unsigned⟩ := not_or.mp (mt List.mem_cons.mpr isName.unsigned)
      rw [cut, unmarked, Option.none_or, List.append_assoc, List.cons_append, cutNumeric?,
        if_pos first, splitBefore?_readOpenEnding? unsigned plain line]
      rfl
  · rw [cut, branch]
    rfl

/-- Nothing is cut off behind a number sign with a blank before it. -/
theorem cut_eq_self_of_blank {front commit : Text} (unsigned : '#' ∉ front) {c : Char}
    (inside : c ∈ front) (blank : Text.isBlank c = true) :
    cut (front ++ '#' :: commit) = front ++ '#' :: commit := by
  rcases cut_cases (front ++ '#' :: commit) with same | ⟨commit', whole, -, plain⟩
  · exact same
  · -- What is cut off begins with a number sign, and so the blank would be in what is left.
    generalize cut (front ++ '#' :: commit) = version at whole plain
    have part : c ∈ version := by
      rcases List.append_eq_append_iff.mp whole with ⟨between, longer, -⟩ | ⟨between, whole', rest⟩
      · exact longer ▸ List.mem_append_left _ inside
      · cases between with
        | nil => rwa [whole', List.append_nil] at inside
        | cons d between =>
            obtain ⟨rfl, -⟩ := List.cons.inj rest
            exact absurd (whole' ▸ by simp) unsigned
    have solid := plain c part
    simp [isVersionChar, Alias.isPartChar, blank] at solid

end Reference

namespace Constraint

open Reference (IsName IsDevVersion IsReference)

/-! ## A reference in front -/

/-- A development version hides all that stands behind a number sign on its line. -/
theorem satisfies_append_sign {dev rest : Text} (isDev : IsDevVersion dev) (filled : rest ≠ [])
    (unflagged : '@' ∉ rest) (line : '\n' ∉ rest) (version : Text) :
    Selection.satisfies version (dev ++ '#' :: rest) = Selection.satisfies version dev := by
  have isCommit : Reference.isCommit rest = true := by
    simp [Reference.isCommit, filled, line]
  have unflagged' : '@' ∉ dev := isDev.plain '@' (by decide)
  refine satisfies_congr ?_ version
  rw [core_eq_self unflagged' isDev.unsigned, core,
    Flag.cut_eq_self (by simp [unflagged, unflagged']), Reference.cut_append isDev isCommit]

/-! ## A reference behind -/

section

variable {dev commit other : Text}

/-- A development version with a reference is one alternative of one term. -/
theorem split_reference (isDev : IsDevVersion dev) (isReference : IsReference commit) :
    Alternative.split (dev ++ '#' :: commit) = [dev ++ '#' :: commit] ∧
      Term.split (dev ++ '#' :: commit) = [dev ++ '#' :: commit] := by
  have plain := isDev.isPartChar_append isReference
  have barless := isDev.plain_append isReference '|' (by decide)
  have trimmed : Text.trim (dev ++ '#' :: commit) = dev ++ '#' :: commit :=
    Text.trim_eq_self fun c inside => Alias.isBlank_eq_false (plain c inside)
  refine ⟨Alternative.split_of_barless barless trimmed, Term.split_of_undivided fun c inside => ?_⟩
  have part := plain c inside
  constructor <;> (rintro rfl; exact absurd part (by decide))

/-- The term with the reference compares to a branch, which keeps the number sign in its name. -/
theorem exists_bound_of_readsAs (isDev : IsDevVersion dev) (isReference : IsReference commit)
    {member : Constraint} (reads : ReadsAs (dev ++ '#' :: commit) member) :
    ∃ bound, member = ofBound bound ∧ Branch.isBranch bound.version = true ∧
      '#' ∈ bound.version := by
  obtain ⟨-, terms, read, rfl⟩ := reads
  rw [(split_reference isDev isReference).2, mapM_eq_ok_iff] at read
  obtain ⟨members, _, first, further, rfl⟩ := List.forall₂_cons_left_iff.mp read
  obtain rfl := List.forall₂_nil_left_iff.mp further
  obtain ⟨bound, rfl, branch, signed⟩ := exists_bound_of_readTerm
    (isDev.isPartChar_append isReference) (isDev.plain '+' (by decide))
    (isDev.plain_append isReference '@' (by decide)) first
  exact ⟨bound, rfl, branch, signed⟩

/-- A marked branch with a reference is always read, and pins the branch of that name. -/
theorem exists_readsAs_marked {name : Text} (isName : IsName name)
    (isReference : IsReference commit) :
    ∃ branch, Version.normalize ("dev-".toList ++ name ++ '#' :: commit) = .ok branch ∧
      Branch.isBranch branch = true ∧ '#' ∈ branch ∧
      ReadsAs ("dev-".toList ++ name ++ '#' :: commit) (ofBound ⟨.eq, branch⟩) := by
  have isDev : IsDevVersion ("dev-".toList ++ name) := ⟨name, isName, .inl rfl⟩
  have whole := isDev.isPartChar_append isReference
  have unflagged := isDev.plain_append isReference '@' (by decide)
  rw [List.append_assoc] at whole unflagged ⊢
  have plain : ∀ c ∈ name ++ '#' :: commit, Alias.isPartChar c = true :=
    fun c inside => whole c (List.mem_append_right _ inside)
  obtain ⟨branch, reads⟩ := Version.exists_normalize_marked plain
  have read :=
    readTerm_marked plain (fun inside => unflagged (List.mem_append_right _ inside)) reads
  rw [← List.append_assoc] at whole reads read ⊢
  obtain ⟨isBranch, signed⟩ :=
    Version.isBranch_of_normalize whole (isDev.plain '+' (by decide)) reads
  refine ⟨branch, reads, isBranch, signed, by simp, [[_]], ?_, rfl⟩
  rw [(split_reference isDev isReference).2, mapM_eq_ok_iff]
  exact .cons read .nil

section

variable (isDev : IsDevVersion dev) (isReference : IsReference commit) (unflagged : '@' ∉ other)
  (unsigned : '#' ∉ other) (readable : ∃ required, parse other = .ok required)

include isDev isReference unflagged unsigned readable

/-- Behind another alternative nothing is cut off a development version. -/
theorem split_core_append_reference :
    Alternative.split (core (other ++ " || ".toList ++ (dev ++ '#' :: commit))) =
      Alternative.split (core other) ++ [dev ++ '#' :: commit] := by
  obtain ⟨required, reads⟩ := readable
  obtain ⟨members, read, -⟩ := parse_eq_ok_iff.mp reads
  have isDivider : Alternative.IsDivider " || ".toList :=
    ⟨[' '], ['|', '|'], [' '], by decide, by decide, .inr rfl, rfl⟩
  have blank : ' ' ∈ other ++ " || ".toList ++ dev := by simp
  have unflagged' : '@' ∉ other ++ " || ".toList ++ dev ++ '#' :: commit := by
    have behind := isDev.plain_append isReference '@' (by decide)
    rw [List.append_assoc (other ++ _)]
    simpa [unflagged] using behind
  have uncut : core (other ++ " || ".toList ++ dev ++ '#' :: commit) =
      other ++ " || ".toList ++ dev ++ '#' :: commit := by
    rw [core, Flag.cut_eq_self unflagged',
      Reference.cut_eq_self_of_blank (by simp [unsigned, isDev.unsigned]) blank (by decide)]
  have alone := (split_reference isDev isReference).1
  rw [core_eq_self unflagged unsigned] at read ⊢
  rw [← List.append_assoc, uncut, List.append_assoc (other ++ _),
    Alternative.split_append_divider isDivider (nil_not_mem_of_forall₂ read) (by simp [alone]),
    alone]

/-- The reading of the term with the reference joins the reading before it. -/
theorem satisfies_append_reference {member : Constraint}
    (reads : ReadsAs (dev ++ '#' :: commit) member) (version : Text) :
    Selection.satisfies version (other ++ " || ".toList ++ (dev ++ '#' :: commit)) =
      (Selection.satisfies version other || Selection.isMetByText member version) := by
  have pieces := split_core_append_reference isDev isReference unflagged unsigned readable
  obtain ⟨required, read⟩ := readable
  obtain ⟨members, read, -⟩ := parse_eq_ok_iff.mp read
  have joined : List.Forall₂ ReadsAs
      (Alternative.split (core (other ++ " || ".toList ++ (dev ++ '#' :: commit))))
      (members ++ [member]) :=
    pieces ▸ List.rel_append read (.cons reads .nil)
  rw [satisfies_eq_any joined, satisfies_eq_any read, List.any_append, List.any_cons, List.any_nil,
    Bool.or_false]

/-- No version gains by the alternative with the reference, except a branch with a number sign in
its name. -/
theorem satisfies_of_append_reference {version normal : Text}
    (normalized : Version.normalize version = .ok normal) (plain : '#' ∉ normal)
    (satisfied : Selection.satisfies version
      (other ++ " || ".toList ++ (dev ++ '#' :: commit)) = true) :
    Selection.satisfies version other = true := by
  have pieces := split_core_append_reference isDev isReference unflagged unsigned readable
  obtain ⟨required, whole⟩ := exists_parse_of_satisfies satisfied
  obtain ⟨members, read, -⟩ := parse_eq_ok_iff.mp whole
  obtain ⟨member, -, reads⟩ := exists_of_mem_left (pieces ▸ read)
    (List.mem_append_right _ List.mem_cons_self)
  obtain ⟨bound, rfl, branch, signed⟩ := exists_bound_of_readsAs isDev isReference reads
  rw [satisfies_append_reference isDev isReference unflagged unsigned readable reads,
    Bool.or_eq_true, isMetByText_ofBound_iff branch, normalized] at satisfied
  refine satisfied.resolve_right fun ⟨_, same⟩ => plain ?_
  rwa [Except.ok.inj same]

end

end

/-- A reference hides the alternatives behind it. Behind another alternative it is a part of the
branch that is asked for, so that a development version without it gains nothing. -/
theorem satisfies_reference {name commit other : Text} (isName : IsName name)
    (isReference : IsReference commit) (unflagged : '@' ∉ other) (unsigned : '#' ∉ other)
    (line : '\n' ∉ other) (readable : ∃ required, parse other = .ok required) :
    (∀ dev, dev = "dev-".toList ++ name ∨ dev = name ++ ".x-dev".toList →
      (∀ version, Selection.satisfies version (dev ++ '#' :: commit ++ " || ".toList ++ other) =
        Selection.satisfies version dev) ∧
      ∀ version normal, Version.normalize version = .ok normal → '#' ∉ normal →
        Selection.satisfies version (other ++ " || ".toList ++ (dev ++ '#' :: commit)) = true →
          Selection.satisfies version other = true) ∧
    ∃ branch, Version.normalize ("dev-".toList ++ name ++ '#' :: commit) = .ok branch ∧
      '#' ∈ branch ∧ ∀ version,
        Selection.satisfies version
            (other ++ " || ".toList ++ ("dev-".toList ++ name ++ '#' :: commit)) = true ↔
          Selection.satisfies version other = true ∨ Version.normalize version = .ok branch := by
  constructor
  · intro dev spelled
    have isDev : IsDevVersion dev := ⟨name, isName, spelled⟩
    refine ⟨fun version => ?_, fun version normal normalized plain satisfied =>
      satisfies_of_append_reference isDev isReference unflagged unsigned readable normalized plain
        satisfied⟩
    have whole : dev ++ '#' :: commit ++ " || ".toList ++ other =
        dev ++ '#' :: (commit ++ (" || ".toList ++ other)) := by simp
    have unflagged' : '@' ∉ commit ++ (" || ".toList ++ other) := by
      simp [isReference.plain '@' (by decide), unflagged]
    have unbroken : '\n' ∉ commit := Text.not_mem_of_solid isReference.solid (by decide)
    have line' : '\n' ∉ commit ++ (" || ".toList ++ other) := by
      simp [unbroken, line]
    rw [whole]
    exact satisfies_append_sign isDev (by simp) unflagged' line' version
  · obtain ⟨branch, normalized, isBranch, signed, reads⟩ := exists_readsAs_marked isName isReference
    refine ⟨branch, normalized, signed, fun version => ?_⟩
    rw [satisfies_append_reference ⟨name, isName, .inl rfl⟩ isReference unflagged unsigned readable
      reads, Bool.or_eq_true, isMetByText_ofBound_iff isBranch]
    simp

/-- In one order of `dev-main#abc` and `1.0.0` the release is lost, and in the other the branch. -/
theorem satisfies_reference_main :
    Selection.satisfies "1.0.0".toList
        ("dev-main".toList ++ '#' :: "abc".toList ++ " || ".toList ++ "1.0.0".toList) = false ∧
      Selection.satisfies "dev-main".toList
        ("1.0.0".toList ++ " || ".toList ++ ("dev-main".toList ++ '#' :: "abc".toList)) =
          false := by
  have isName : IsName "main".toList := by decide
  have isReference : IsReference "abc".toList := by decide
  have unflagged : '@' ∉ "1.0.0".toList := by decide
  obtain ⟨front, behind⟩ := (satisfies_reference isName isReference unflagged (by decide)
    (by decide) ⟨_, rfl⟩).1 "dev-main".toList (.inl rfl)
  constructor
  · rw [front]
    decide +kernel
  · rw [Bool.eq_false_iff]
    intro satisfied
    exact absurd (behind "dev-main".toList "dev-main".toList rfl (by decide) satisfied)
      (by decide +kernel)

/-- A version that satisfies one of the two parts does not satisfy the whole, in either order. -/
theorem satisfies_reference_swallowed :
    Selection.satisfies "1.0.0".toList "dev-main#abc || 1.0.0".toList = false ∧
      Selection.satisfies "1.0.0".toList "1.0.0".toList = true ∧
      Selection.satisfies "dev-main".toList "1.0.0 || dev-main#abc".toList = false ∧
      Selection.satisfies "dev-main".toList "dev-main".toList = true := by
  decide +kernel

end Constraint

end VersionRanges

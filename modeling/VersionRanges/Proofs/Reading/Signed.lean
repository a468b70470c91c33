/-
# Terms with a number sign

A term with a number sign has none of the forms of a range. It compares to a branch with the sign in
its name, and only this branch meets it. Where the term begins with the marker of branches, it is
always read and pins the branch.
-/
import VersionRanges.Proofs.Overlap.Pin
import VersionRanges.Proofs.Reading.Branch
import VersionRanges.Proofs.Reading.Cut

namespace VersionRanges

/-! ## No range -/

namespace Range

section

variable {sign : Char} (foreign : Text.IsForeign sign)

include foreign

theorem isOpenTail_eq_false {text : Text} (inside : sign ∈ text) : isOpenTail text = false := by
  induction text using isOpenTail.induct with
  | case1 => simp at inside
  | case2 c rest ih =>
      rw [isOpenTail]
      have dot : sign ≠ '.' := fun same => foreign.other (by simp [same])
      rcases List.mem_cons.mp ((List.mem_cons.mp inside).resolve_left dot) with rfl | behind
      · rw [Branch.isWildcard_eq_false foreign, Bool.false_and]
      · rw [ih behind, Bool.and_false]
  | case3 text filled undotted =>
      rw [isOpenTail]
      · exact filled
      · exact undotted

theorem isWildcard_eq_false {term : Text} (inside : sign ∈ term) : isWildcard term = false := by
  have left := (Literal.leaves_dropMark foreign term).mem inside
  rw [isWildcard]
  split
  · next c rest unmarked =>
    rw [unmarked] at left
    rcases List.mem_cons.mp left with rfl | behind
    · rw [Branch.isWildcard_eq_false foreign, Bool.false_and]
    · rw [isOpenTail_eq_false foreign behind, Bool.and_false]
  · rfl

/-- Behind its numbers a term with components left open is nothing else. -/
theorem exists_leaves_of_open? {term : Text} {numbers : List Text}
    (reads : open? term = some numbers) :
    ∃ rest, Text.Leaves sign term rest ∧ rest ≠ [] ∧ isOpenTail rest = true := by
  have other := foreign.other
  simp only [List.mem_cons, not_or] at other
  have start : Text.Leaves sign term (Modifier.dropOne (· == 'v') term) :=
    Modifier.leaves_dropOne (by simp [other]) term
  rw [open?] at reads
  split at reads
  · cases reads
  · next major afterMajor _ split =>
    have number := Literal.leaves_readDigits foreign.digit (Modifier.dropOne (· == 'v') term)
    rw [split] at number
    have behind :=
      Literal.leaves_readFurther (Modifier.isStranger_of_isForeign foreign) 2 afterMajor
    split at reads
    · cases reads
    · next further rest more split' =>
      rw [split'] at behind
      split at reads
      · next isOpen => exact ⟨rest, (start.trans number).trans behind, more, isOpen⟩
      · cases reads

theorem open?_eq_none {term : Text} (inside : sign ∈ term) : open? term = none := by
  rw [Option.eq_none_iff_forall_ne_some]
  intro numbers reads
  obtain ⟨rest, left, -, isOpen⟩ := exists_leaves_of_open? foreign reads
  exact Bool.false_ne_true ((isOpenTail_eq_false foreign (left.mem inside)).symm.trans isOpen)

end

section

variable {front commit : Text}

/-- A literal with its metadata ends before the number sign, because no plus sign stands there. -/
theorem exists_of_readWithMetadata? {literal : Literal} {rest : Text} (unextended : '+' ∉ front)
    (reads : Literal.readWithMetadata? (front ++ '#' :: commit) = some (literal, rest)) :
    ∃ front', front' <:+ front ∧ rest = front' ++ '#' :: commit := by
  obtain ⟨⟨literal', left⟩, read, same⟩ := Option.map_eq_some_iff.mp reads
  obtain ⟨front', ending, rfl⟩ :=
    (Literal.leaves_of_read? Text.isForeign_numberSign read).exists_suffix
  have plain := Text.head?_append_ne (fun inside => unextended (ending.subset inside))
    (show '+' ≠ '#' by decide) commit
  have kept : Literal.dropMetadata (front' ++ '#' :: commit) = rest := congrArg Prod.snd same
  exact ⟨front', ending, by rw [← kept, Literal.dropMetadata_eq_self plain]⟩

theorem signed?_eq_none {sign : Char} (other : sign ≠ '#') (unextended : '+' ∉ front) :
    signed? sign (front ++ '#' :: commit) = none := by
  cases front with
  | nil => rw [List.nil_append, signed?, if_neg other.symm]
  | cons c front =>
      have unextended' : '+' ∉ front := fun inside => unextended (List.mem_cons_of_mem c inside)
      rw [List.cons_append, signed?]
      split
      · split
        · next literal reads =>
          obtain ⟨front', -, whole⟩ := exists_of_readWithMetadata? unextended' reads
          simp at whole
        · rfl
      · rfl

/-- Without a space there is no hyphen range. -/
theorem hyphen?_eq_none {text : Text} (unspaced : ' ' ∉ text) : hyphen? text = none := by
  rw [hyphen?]
  split
  · rfl
  · next low rest reads =>
    have behind := (Literal.suffix_of_readWithMetadata? reads).subset
    rw [Alias.dropSpaces?_eq_none fun space => unspaced (behind (List.mem_of_head? space))]

end

end Range

/-! ## The term -/

namespace Comparator

theorem leaves_splitOperator (text : Text) : Text.Leaves '#' text (splitOperator text).2 := by
  refine ⟨(splitOperator text).1, ?_, ?_⟩
  · fun_cases splitOperator text <;> rfl
  · fun_cases splitOperator text <;> simp

theorem operand_eq_self {text : Text} (plain : ∀ c ∈ text, Alias.isPartChar c = true) :
    operand text = text := by
  have unblank : Text.trimLeft text = text := by
    cases text with
    | nil => rfl
    | cons c text =>
        have solid := Alias.isBlank_eq_false (plain c List.mem_cons_self)
        exact List.dropWhile_cons_of_neg (by simp [solid])
  have unbroken : '\n' ∉ text := fun inside => absurd (plain '\n' inside) (by decide)
  rw [operand, unblank, List.takeWhile_eq_self_iff.mpr (Text.forall_bne unbroken)]

/-- Without a flag, a bound is at the normal form of its version or at the previews of that. -/
theorem exists_bounded_eq_append (token written normal : Text) :
    ∃ previews, bounded token written normal none = normal ++ previews ∧
      (previews = [] ∨ previews = "-dev".toList) := by
  rw [bounded, Option.filter_none]
  dsimp only
  split
  · exact ⟨_, rfl, .inr rfl⟩
  · exact ⟨[], (List.append_nil normal).symm, .inl rfl⟩

/-- A comparator is read if its version is, and compares to what that version is raised to. -/
theorem exists_of_read {term : Text} {flag : Option Text} {bound : Bound}
    (reads : read term flag = .ok bound) :
    ∃ normal, Version.normalize (operand (splitOperator term).2) = .ok normal ∧
      bound.version =
        bounded (splitOperator term).1 (operand (splitOperator term).2) normal flag := by
  dsimp only [read] at reads
  cases normalized : Version.normalize (operand (splitOperator term).2) with
  | error refusal =>
      rw [normalized] at reads
      cases reads
  | ok normal =>
      rw [normalized] at reads
      cases token : Operator.ofToken
        (if (splitOperator term).1.isEmpty then ['='] else (splitOperator term).1) with
      | error refusal =>
          dsimp only [Except.mapError, bind, Except.bind] at reads
          rw [token] at reads
          cases reads
      | ok operator =>
          dsimp only [Except.mapError, bind, Except.bind] at reads
          rw [token] at reads
          exact ⟨normal, rfl, congrArg Bound.version (Except.ok.inj reads).symm⟩

/-- A comparator with a number sign compares to a branch with the sign in its name. -/
theorem isBranch_of_read {front commit : Text} {bound : Bound}
    (plain : ∀ c ∈ front ++ '#' :: commit, Alias.isPartChar c = true) (unextended : '+' ∉ front)
    (reads : read (front ++ '#' :: commit) none = .ok bound) :
    Branch.isBranch bound.version = true ∧ '#' ∈ bound.version := by
  obtain ⟨front', ending, rest⟩ := (leaves_splitOperator (front ++ '#' :: commit)).exists_suffix
  have plain' : ∀ c ∈ front' ++ '#' :: commit, Alias.isPartChar c = true := by
    refine fun c inside => plain c ?_
    rcases List.mem_append.mp inside with named | behind
    · exact List.mem_append_left _ (ending.subset named)
    · exact List.mem_append_right _ behind
  obtain ⟨normal, normalized, same⟩ := exists_of_read reads
  rw [rest, operand_eq_self plain'] at normalized
  obtain ⟨branch, signed⟩ := Version.isBranch_of_normalize plain'
    (fun inside => unextended (ending.subset inside)) normalized
  obtain ⟨previews, raised, -⟩ := exists_bounded_eq_append
    (splitOperator (front ++ '#' :: commit)).1
    (operand (splitOperator (front ++ '#' :: commit)).2) normal
  rw [same, raised]
  refine ⟨List.isPrefixOf_iff_prefix.mpr ?_, List.mem_append_left _ signed⟩
  exact (List.isPrefixOf_iff_prefix.mp branch).trans (List.prefix_append normal previews)

end Comparator

namespace Constraint

theorem splitFlag_eq_self {term : Text} (unflagged : '@' ∉ term) :
    splitFlag term = (term, none) := by
  rw [splitFlag, Flag.split?_eq_none unflagged]

/-- A term with a number sign is a comparator to a branch, if it is read at all. -/
theorem exists_bound_of_readTerm {front commit : Text} {members : List Constraint}
    (plain : ∀ c ∈ front ++ '#' :: commit, Alias.isPartChar c = true) (unextended : '+' ∉ front)
    (unflagged : '@' ∉ front ++ '#' :: commit)
    (reads : readTerm (front ++ '#' :: commit) = .ok members) :
    ∃ bound, members = [ofBound bound] ∧ Branch.isBranch bound.version = true ∧
      '#' ∈ bound.version := by
  have signed : '#' ∈ front ++ '#' :: commit := by simp
  have solid : ∀ c ∈ front ++ '#' :: commit, Text.isBlank c = false :=
    fun c inside => Alias.isBlank_eq_false (plain c inside)
  rw [readTerm, splitFlag_eq_self unflagged] at reads
  dsimp only at reads
  rw [Range.isWildcard_eq_false Text.isForeign_numberSign signed, if_neg Bool.false_ne_true,
    readBounds, Range.tilde?, Range.signed?_eq_none (by decide) unextended, Range.caret?,
    Range.signed?_eq_none (by decide) unextended,
    Range.open?_eq_none Text.isForeign_numberSign signed,
    Range.hyphen?_eq_none (Text.not_mem_of_solid solid (by decide))] at reads
  split at reads
  · cases reads
  · cases compares : Comparator.read (front ++ '#' :: commit) none with
    | error refusal =>
        rw [compares] at reads
        cases reads
    | ok bound =>
        rw [compares] at reads
        exact ⟨bound, (Except.ok.inj reads).symm,
          Comparator.isBranch_of_read plain unextended compares⟩

/-- A marked term has one bound, the branch that it names. -/
theorem readBounds_marked {name normal : Text} (plain : ∀ c ∈ name, Alias.isPartChar c = true)
    (reads : Version.normalize ("dev-".toList ++ name) = .ok normal) :
    readBounds ("dev-".toList ++ name) none = .ok [⟨.eq, normal⟩] := by
  have whole : ∀ c ∈ "dev-".toList ++ name, Alias.isPartChar c = true :=
    List.forall_mem_append.mpr ⟨List.all_eq_true.mp (by decide), plain⟩
  have compares : Comparator.read ("dev-".toList ++ name) none = .ok ⟨.eq, normal⟩ := by
    change (Version.normalize (Comparator.operand ("dev-".toList ++ name))).mapError _ >>= _ = _
    rw [Comparator.operand_eq_self whole, reads]
    rfl
  exact congrArg (Except.map ([·])) compares

/-- A marked term pins the branch that it names. -/
theorem readTerm_marked {name normal : Text} (plain : ∀ c ∈ name, Alias.isPartChar c = true)
    (unflagged : '@' ∉ name) (reads : Version.normalize ("dev-".toList ++ name) = .ok normal) :
    readTerm ("dev-".toList ++ name) = .ok [ofBound ⟨.eq, normal⟩] := by
  rw [readTerm, splitFlag_eq_self (by simpa using unflagged)]
  change (readBounds ("dev-".toList ++ name) none).map _ = _
  rw [readBounds_marked plain reads]
  rfl

/-- Only the branch itself meets a comparator to a branch, and only if the two have to be equal. -/
theorem isMetByText_ofBound_iff {bound : Bound} (branch : Branch.isBranch bound.version = true)
    (version : Text) :
    Selection.isMetByText (ofBound bound) version = true ↔
      bound.operator = .eq ∧ Version.normalize version = .ok bound.version := by
  unfold Selection.isMetByText
  cases Version.normalize version with
  | error refusal => simp
  | ok normal =>
      change (atom bound none).overlaps (atom (Bound.pin normal) none) = true ↔ _
      rw [overlaps_atom_pin, decide_eq_true_eq, Except.ok.injEq]
      change Comparison.holds normal bound.operator bound.version false = true ↔ _
      cases single : Branch.isBranch normal with
      | true => simp [Comparison.holds_of_isBranch single branch]
      | false =>
          rw [Comparison.holds_of_isBranch_ne (by simp [single, branch])]
          have apart : normal ≠ bound.version := by
            rintro rfl
            exact Bool.false_ne_true (single.symm.trans branch)
          simp [apart]

end Constraint

end VersionRanges

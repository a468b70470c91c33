/-
# Bounds that are read back

A bound is rendered as its operator and its version, with a space between them. The space does not
divide the text, since no term ends in an operator, and behind an operator a text is read as a
comparator only. What is read is the same operator with the normal form of the version, so that a
version in normal form is found again. Two of the operators lower their version to its previews,
unless it ends in a label or in a development mark. Their bounds are read back only if it does.
-/
import VersionRanges.Proofs.Normal.Written
import VersionRanges.Proofs.Ranges.Ends

namespace VersionRanges

/-! ## Modifiers of normal forms -/

/-- A comparator takes a normal form to have a modifier exactly if it has one. -/
theorem Literal.IsWellFormed.hasExplicitModifier_normalForm {literal : Literal}
    (wellFormed : literal.IsWellFormed) :
    Comparator.hasExplicitModifier literal.normalForm = true ↔ literal.modifier.suffix ≠ [] := by
  have digit : Text.isDecimalDigit '-' = false := by decide
  rw [Comparator.hasExplicitModifier_iff_isHyphenated wellFormed.read?_normalForm, normalForm_eq]
  constructor
  · rintro ⟨front, behind, same, -⟩ bare
    have inside : '-' ∈ literal.major ++ dotted literal.canonical.further := by
      rw [← List.append_nil (dotted _), ← bare, same]
      simp
    rcases List.mem_append.mp inside with first | further
    · exact wellFormed.major.not_mem digit first
    · exact not_mem_dotted wellFormed.isNumber_canonical digit (by decide) further
  · intro said
    obtain ⟨c, rest, begins, letter, -⟩ := wellFormed.modifier.suffix_cases.resolve_left said
    refine ⟨literal.major ++ dotted literal.canonical.further, c :: rest, ?_, ?_⟩
    · rw [begins, List.append_assoc]
    · rintro d ⟨⟩
      exact letter

/-! ## An operator and a version -/

/-- A gap behind a text that no term ends in belongs to the term. -/
theorem Term.split_gap_of_closed {word following : Text} (plain : ∀ c ∈ word, c ≠ ',' ∧ c ≠ ' ')
    (plain' : ∀ c ∈ following, c ≠ ',' ∧ c ≠ ' ') (closed : canEnd word.reverse = false)
    (count : ℕ) :
    split (word ++ (spaces count ++ following)) = [word ++ (spaces count ++ following)] := by
  rw [split_gap_of_undivided plain (separatorLength?_of_not_canEnd closed _),
    splitAfter_last plain']
  simp

namespace Operator

theorem signs (op : Operator) : ∀ c ∈ op.symbol, c ∈ ['<', '>', '=', '!'] := by
  cases op <;> simp [symbol]

theorem exists_symbol_cons (op : Operator) : ∃ sign rest, op.symbol = sign :: rest := by
  cases op <;> exact ⟨_, _, rfl⟩

end Operator

namespace Constraint

variable {written normal : Text} (numbered : Version.IsNumbered written) (op : Operator)

include numbered

/-- A bound at a version written with numbers is rendered as one term. -/
theorem isLone_render : IsLone (Bound.render ⟨op, written⟩) := by
  have plain : ∀ c ∈ ['<', '>', '=', '!'], Text.isBlank c = false ∧ c ≠ ',' ∧ c ≠ ' ' :=
    List.all_iff_forall_prop.mp (by decide)
  have apart : ∀ sign ∈ ['|', '@', '#'], sign ∉ ['<', '>', '=', '!'] ∧ sign ≠ ' ' :=
    List.all_iff_forall_prop.mp (by decide)
  have isEnd : IsEnd op.symbol := by
    obtain ⟨first, further, symbol⟩ := op.exists_symbol_cons
    exact ⟨symbol ▸ List.cons_ne_nil first further, fun c inside => (plain c (op.signs c inside)).1,
      fun sign listed inside => (apart sign listed).1 (op.signs sign inside)⟩
  have uncut : IsUncut (op.symbol ++ (Term.spaces 1 ++ written)) := by
    apply isUncut_between isEnd (.of_isNumbered numbered)
    intro sign listed
    simp [(apart sign listed).2]
  have undivided : Term.split (op.symbol ++ (Term.spaces 1 ++ written)) =
      [op.symbol ++ (Term.spaces 1 ++ written)] :=
    Term.split_gap_of_closed (fun c inside => (plain c (op.signs c inside)).2) numbered.undivided
      (by cases op <;> rfl) 1
  exact uncut.isLone_of_gap (by simp) undivided

variable (reads : Version.normalize written = .ok normal)

include reads

/-- A rendered bound is read as a comparator. -/
theorem readBounds_render :
    readBounds (Bound.render ⟨op, written⟩) none =
      .ok [⟨op, Comparator.bounded op.symbol written normal none⟩] := by
  have split : Comparator.splitOperator (Bound.render ⟨op, written⟩) =
      (op.symbol, ' ' :: written) := by cases op <;> rfl
  have operand : Comparator.operand (' ' :: written) = written :=
    Comparator.operand_eq_self numbered.isPartChar
  have filled : (if op.symbol.isEmpty then ['='] else op.symbol) = op.symbol := by cases op <;> rfl
  have compares : Comparator.read (Bound.render ⟨op, written⟩) none =
      .ok ⟨op, Comparator.bounded op.symbol written normal none⟩ := by
    simp only [Comparator.read, split, operand, reads, filled, Operator.ofToken_symbol]
    rfl
  obtain ⟨sign, further, symbol⟩ := op.exists_symbol_cons
  have listed := op.signs sign (symbol ▸ List.mem_cons_self)
  rw [Bound.render, symbol, List.cons_append] at compares ⊢
  rw [readBounds_of_operator listed, compares]
  rfl

/-- A rendered bound at a version written with numbers is read as the bound at the normal form of
the version, or at the previews of that. -/
theorem parse_render :
    parse (Bound.render ⟨op, written⟩) =
      .ok (atom ⟨op, Comparator.bounded op.symbol written normal none⟩
        (some (Bound.render ⟨op, written⟩))) :=
  (isLone_render numbered op).parse_eq_ok_iff.mpr ⟨_, readBounds_render numbered op reads, rfl⟩

end Constraint

/-- A bound at a normal form of four numbers, with or without a label, its tail and a development
mark, is rendered as a text that is read as the same bound. The two operators that lower a version
to its previews need a label or a mark for that, and the others do not. -/
theorem Version.WrittenVersion.parse_render_iff (version : WrittenVersion) (op : Operator) :
    Constraint.parse (Bound.render ⟨op, version.normalText⟩) =
        .ok (.atom ⟨op, version.normalText⟩ (some (Bound.render ⟨op, version.normalText⟩))) ↔
      (op = .lt ∨ op = .ge → version.normalSuffix ≠ []) := by
  have wellFormed := Literal.isWellFormed_of_ofVersion? version.ofVersion?_text
  have explicit := wellFormed.hasExplicitModifier_normalForm
  have found : Literal.ofVersion? version.literal.normalForm = some version.literal.canonical :=
    wellFormed.ofVersion?_normalForm.trans (if_pos version.isShort)
  have reads := normalize_of_literal found
  rw [wellFormed.normalForm_canonical] at reads
  rw [version.normalForm_literal] at explicit found reads
  have suffix : version.literal.modifier.suffix = version.normalSuffix := version.suffix_modifier
  have operators : (op.symbol = ['<'] || op.symbol = ['>', '=']) = true ↔ op = .lt ∨ op = .ge := by
    cases op <;> decide
  have lowers : ((op.symbol = ['<'] || op.symbol = ['>', '=']) &&
      !Comparator.hasExplicitModifier version.normalText) = true ↔
      (op = .lt ∨ op = .ge) ∧ version.normalSuffix = [] := by
    rw [Bool.and_eq_true, operators, Bool.not_eq_true', ← Bool.not_eq_true, explicit, suffix,
      not_not]
  rw [Constraint.parse_render (isNumbered_of_literal found) op reads,
    Comparator.bounded_of_literal found]
  simp only [lowers]
  split
  · next lowered => exact iff_of_false (by simp [Range.lowest]) fun kept => kept lowered.1 lowered.2
  · next kept => exact iff_of_true rfl fun lowered bare => kept ⟨lowered, bare⟩

end VersionRanges

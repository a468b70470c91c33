/-
# Opposite comparators

A comparator before a version written with numbers is always read. An operator and its opposite
raise the version behind them in the same way, so that they divide the releases between them: each
release satisfies exactly one of the two.
-/
import VersionRanges.Proofs.Ranges.Lone

namespace VersionRanges

/-! ## Opposite operators -/

/-- The operator that holds exactly where the given one does not. -/
def Operator.opposite : Operator → Operator
  | eq => ne
  | lt => ge
  | le => gt
  | gt => le
  | ge => lt
  | ne => eq

theorem Operator.admits_opposite (op : Operator) (ordering : Ordering) :
    op.opposite.admits ordering = !op.admits ordering := by
  cases op <;> cases ordering <;> rfl

/-! ## Comparators before numbers -/

namespace Comparator

/-- The token of an operator, which may be left out. -/
structure IsToken (token : Text) (op : Operator) : Prop where
  listed : token ∈ [] :: Operator.tokens
  spells : Operator.ofToken (if token.isEmpty then ['='] else token) = .ok op

section

variable {text : Text} (numbered : Version.IsNumbered text)

include numbered

/-- The token in front of a version written with numbers is split off whole. -/
theorem splitOperator_append {token : Text} (listed : token ∈ [] :: Operator.tokens) :
    splitOperator (token ++ text) = (token, text) := by
  obtain ⟨c, rest, rfl, -⟩ := numbered.exists_cons
  have equal : c ≠ '=' := numbered.ne_of_mem List.mem_cons_self (by decide)
  have less : c ≠ '<' := numbered.ne_of_mem List.mem_cons_self (by decide)
  have greater : c ≠ '>' := numbered.ne_of_mem List.mem_cons_self (by decide)
  have bang : c ≠ '!' := numbered.ne_of_mem List.mem_cons_self (by decide)
  simp only [Operator.tokens, List.mem_cons, List.not_mem_nil, or_false] at listed
  rcases listed with rfl | rfl | rfl | rfl | rfl | rfl | rfl | rfl | rfl <;>
    simp [splitOperator, equal, less, greater, bang]

theorem operand_of_isNumbered : operand text = text := operand_eq_self numbered.isPartChar

/-- A comparator compares to the normal form of its version, or to the previews of that. -/
theorem read_append {token normal : Text} {op : Operator} (isToken : IsToken token op)
    (reads : Version.normalize text = .ok normal) :
    read (token ++ text) none = .ok ⟨op, bounded token text normal none⟩ := by
  simp only [read, splitOperator_append numbered isToken.listed, operand_of_isNumbered numbered,
    reads, isToken.spells]
  rfl

end

end Comparator

namespace Constraint

/-- A term with an operator in front is a comparator. -/
theorem readBounds_of_operator {sign : Char} (listed : sign ∈ ['<', '>', '=', '!']) (rest : Text) :
    readBounds (sign :: rest) none = (Comparator.read (sign :: rest) none).map ([·]) := by
  simp only [List.mem_cons, List.not_mem_nil, or_false] at listed
  rcases listed with rfl | rfl | rfl | rfl <;> rfl

section

variable {written low : Text} (numbered : Version.IsNumbered written)
  (reads : Version.normalize written = .ok low)

include numbered reads

/-- A comparator before a version written with numbers is read. -/
theorem readBounds_comparator {token : Text} {op : Operator}
    (isToken : Comparator.IsToken token op) (filled : token ≠ []) :
    readBounds (token ++ written) none =
      .ok [⟨op, Comparator.bounded token written low none⟩] := by
  have begins : ∀ token ∈ Operator.tokens, ∃ sign rest, token = sign :: rest ∧
      sign ∈ ['<', '>', '=', '!'] := by
    simp [Operator.tokens]
  obtain ⟨sign, rest, rfl, listed⟩ :=
    begins token ((List.mem_cons.mp isToken.listed).resolve_left filled)
  rw [List.cons_append, readBounds_of_operator listed, ← List.cons_append,
    Comparator.read_append numbered isToken reads]
  rfl

omit reads in
/-- A comparator before a version written with numbers is one term. -/
theorem isLone_comparator {token : Text} {op : Operator} (isToken : Comparator.IsToken token op) :
    IsLone (token ++ written) := by
  have signs : ∀ c ∈ ([] :: Operator.tokens).flatten, c ∈ ['<', '>', '=', '!', '~', '^'] :=
    List.all_iff_forall_prop.mp (by decide)
  exact isLone_append numbered fun c inside =>
    signs c (List.mem_flatten_of_mem isToken.listed inside)

/-- A comparator before a version written with numbers can be read. -/
theorem exists_parse_comparator {token : Text} {op : Operator}
    (isToken : Comparator.IsToken token op) (filled : token ≠ []) :
    ∃ required, parse (token ++ written) = .ok required :=
  (isLone_comparator numbered isToken).exists_parse_iff.mpr
    ⟨_, readBounds_comparator numbered reads isToken filled⟩

/-- A release satisfies a comparator if it is in its relation to the version that the comparator
raises. -/
theorem satisfies_comparator {token : Text} {op : Operator}
    (isToken : Comparator.IsToken token op) (filled : token ≠ [])
    (release' : ∀ previews, Branch.isBranch (low ++ previews) = false) {version normal : Text}
    (readable : Version.normalize version = .ok normal)
    (release : Branch.isBranch normal = false) :
    Selection.satisfies version (token ++ written) =
      op.admits (Version.compare normal (Comparator.bounded token written low none)) := by
  have lone := isLone_comparator numbered isToken
  obtain ⟨previews, raised, -⟩ := Comparator.exists_bounded_eq_append token written low
  have single : Branch.isBranch (Comparator.bounded token written low none) = false := by
    rw [raised, release']
  rw [lone.satisfies_eq (readBounds_comparator numbered reads isToken filled) readable]
  simp only [List.all_cons, List.all_nil, Bool.and_true, Bound.admits]
  exact Comparison.holds_of_comparable (by simp [release]) (.inr (release.trans single.symm)) op

end

/-- Opposite comparators before a literal or a date, without build metadata, divide the releases
between them. -/
theorem satisfies_opposite {written version normal : Text}
    (number : (Literal.ofVersion? written).isSome = true ∨
      (Timestamp.ofVersion? written).isSome = true)
    (readable : Version.normalize version = .ok normal)
    (release : Branch.isBranch normal = false) :
    Selection.satisfies version (">=".toList ++ written) =
        !Selection.satisfies version ("<".toList ++ written) ∧
      Selection.satisfies version (">".toList ++ written) =
        !Selection.satisfies version ("<=".toList ++ written) ∧
      Selection.satisfies version ("!=".toList ++ written) =
        !Selection.satisfies version ("=".toList ++ written) := by
  obtain ⟨numbered, c, rest, reads, other⟩ := Version.exists_normalize_of_number number
  have holds (op : Operator) {token : Text} (isToken : Comparator.IsToken token op)
      (filled : token ≠ []) :=
    satisfies_comparator numbered reads isToken filled
      (fun previews => Branch.isBranch_cons other (rest ++ previews)) readable release
  refine ⟨?_, ?_, ?_⟩
  · rw [holds .ge ⟨by decide, rfl⟩ (by decide), holds .lt ⟨by decide, rfl⟩ (by decide)]
    exact Operator.admits_opposite .lt _
  · rw [holds .gt ⟨by decide, rfl⟩ (by decide), holds .le ⟨by decide, rfl⟩ (by decide)]
    exact Operator.admits_opposite .le _
  · rw [holds .ne ⟨by decide, rfl⟩ (by decide), holds .eq ⟨by decide, rfl⟩ (by decide)]
    exact Operator.admits_opposite .eq _

/-- A preview and a release beside the lower end of a candidate that is written without a hyphen,
and a release beside a date. -/
theorem satisfies_opposite_candidate_date :
    Selection.satisfies "1.0-RC2".toList ">=1.0RC2".toList = true ∧
      Selection.satisfies "1.0-RC2".toList "<1.0RC2".toList = false ∧
      Selection.satisfies "2.0".toList ">2010-01-02".toList = false ∧
      Selection.satisfies "2.0".toList "<=2010-01-02".toList = true := by
  have candidate : (Literal.ofVersion? "1.0RC2".toList).isSome = true := by decide
  have date : (Timestamp.ofVersion? "2010-01-02".toList).isSome = true := by decide
  have preview : Version.normalize "1.0-RC2".toList = .ok "1.0.0.0-RC2".toList := by decide
  have release : Version.normalize "2.0".toList = .ok "2.0.0.0".toList := by decide
  have opposite : Selection.satisfies "1.0-RC2".toList ">=1.0RC2".toList =
      !Selection.satisfies "1.0-RC2".toList "<1.0RC2".toList :=
    (satisfies_opposite (.inl candidate) preview (by decide)).1
  have opposite' := (satisfies_opposite (.inr date) release (by decide)).2.1
  have least : Selection.satisfies "1.0-RC2".toList ">=1.0RC2".toList = true := by decide +kernel
  have less : Selection.satisfies "2.0".toList "<=2010-01-02".toList = true := by decide +kernel
  refine ⟨least, ?_, ?_, less⟩
  · rw [least, eq_comm, Bool.not_eq_true'] at opposite
    exact opposite
  · exact opposite'.trans (congrArg not less)

end Constraint

end VersionRanges

/-
# Commas and spaces inside a term

A comma or a space that does not divide stays in a term: behind an operator, around the hyphen of a
range and around the word of an alias, where it has its use, but also behind other words that end in
`as`, before other words that begin so, and next to a second comma. The readers of numbers refuse
such a term. The name of a branch may be anything, and so the sign becomes part of the name.
-/
import VersionRanges.Proofs.Reading.Division
import VersionRanges.Proofs.Reading.Leaves
import VersionRanges.Proofs.Reading.Outcome

namespace VersionRanges

/-! ## Pieces of an alternative -/

namespace Term

/-- A separator has some length, because it is not empty. -/
theorem separatorLength?_ne_zero (before text : Text) : separatorLength? before text ≠ some 0 := by
  intro empty
  rw [← List.reverse_reverse before] at empty
  obtain ⟨separator, after, -, size, isDivision⟩ := exists_isDivision empty
  exact isDivision.isSeparator.nonempty (List.length_eq_zero_iff.mp size.symm)

/-- A piece of a text, with what stands before it and behind it, in which no separator begins. -/
structure IsPiece (whole front piece behind : Text) : Prop where
  whole : whole = front ++ piece ++ behind
  undivided : ∀ left right, piece = left ++ right → right ≠ [] →
    separatorLength? (front ++ left).reverse (right ++ behind) = none

/-- What the splitter has taken for the current term so far is no place of a separator, and stays
none. -/
theorem exists_isPiece_of_mem_splitAfter {front term text piece : Text} {skip : ℕ}
    (undivided : ∀ left right, term = left ++ right → right ≠ [] →
      separatorLength? (front ++ left).reverse (right ++ text) = none)
    (idle : skip ≠ 0 → term = [])
    (inside : piece ∈ splitAfter (front ++ term).reverse term.reverse skip text) :
    ∃ front' behind, IsPiece (front ++ term ++ text) front' piece behind := by
  induction text generalizing front term skip with
  | nil =>
      rw [splitAfter, List.reverse_reverse, List.mem_singleton] at inside
      subst inside
      exact ⟨front, [], rfl, undivided⟩
  | cons c text ih =>
      cases skip with
      | succ left =>
          obtain rfl := idle (Nat.succ_ne_zero left)
          have next := @ih (front ++ [c]) [] left (by simp) (fun _ => rfl)
            (by simpa [splitAfter] using inside)
          simpa using next
      | zero =>
          rw [splitAfter] at inside
          split at inside
          · next left _ =>
            rcases List.mem_cons.mp inside with rfl | further
            · rw [List.reverse_reverse]
              exact ⟨front, c :: text, rfl, undivided⟩
            · have next := @ih (front ++ term ++ [c]) [] left (by simp) (fun _ => rfl)
                (by simpa using further)
              simpa using next
          · next refused =>
            have here : separatorLength? (front ++ term).reverse (c :: text) = none := by
              cases length : separatorLength? (front ++ term).reverse (c :: text) with
              | none => rfl
              | some length' =>
                  cases length' with
                  | zero => exact absurd length (separatorLength?_ne_zero _ _)
                  | succ left => exact absurd length (refused left)
            have goesOn : ∀ left right, term ++ [c] = left ++ right → right ≠ [] →
                separatorLength? (front ++ left).reverse (right ++ text) = none := by
              intro left right pieces filled
              rcases List.eq_nil_or_concat' right with rfl | ⟨right, last, rfl⟩
              · exact absurd rfl filled
              · rw [← List.append_assoc] at pieces
                obtain ⟨rfl, single⟩ := List.append_inj' pieces rfl
                obtain rfl : c = last := List.singleton_inj.mp single
                cases right with
                | nil => simpa using here
                | cons d right => simpa using undivided left (d :: right) rfl (by simp)
            have next := @ih front (term ++ [c]) 0 goesOn (fun busy => absurd rfl busy)
              (by simpa using inside)
            simpa using next

theorem exists_isPiece_of_mem_split {alternative term : Text} (inside : term ∈ split alternative) :
    ∃ front behind, IsPiece alternative front term behind := by
  have nothing : ∀ left right : Text, [] = left ++ right → right ≠ [] →
      separatorLength? ([] ++ left).reverse (right ++ alternative) = none := by simp
  simpa using exists_isPiece_of_mem_splitAfter nothing (fun _ => rfl) inside

/-- A comma or a space between two texts that does not divide them: no term can end before it, or it
touches a hyphen, or no term can begin behind it. -/
def IsKept (before after : Text) : Prop :=
  canEnd before.reverse = false ∨ before.getLast? = some '-' ∨ after.head? = some '-' ∨
    ∀ spaces ≤ leadingSpaces after, canBegin (after.drop spaces) = false

theorem isKept_of_separatorLength? {before after : Text} {sign : Char}
    (divider : sign = ',' ∨ sign = ' ')
    (undivided : separatorLength? before.reverse (sign :: after) = none) :
    IsKept before after := by
  rw [separatorLength?] at undivided
  split at undivided
  · have first : 0 ∈ downFrom (leadingSpaces (sign :: after)) := mem_downFrom.mpr (Nat.zero_le _)
    have refused := List.findSome?_eq_none_iff.mp undivided 0 first
    have signs : (sign == ',' || sign == ' ') = true := by simpa using divider
    rw [lengthAt?, List.drop_zero] at refused
    dsimp only at refused
    split at refused
    · rw [Option.map_eq_none_iff, List.find?_eq_none] at refused
      refine .inr (.inr (.inr fun spaces few => ?_))
      simpa using refused spaces (mem_downFrom.mpr few)
    · next touches =>
      rw [List.head?_reverse] at touches
      by_cases hyphen : before.getLast? = some '-'
      · exact .inr (.inl hyphen)
      · exact .inr (.inr (.inl (by simpa [signs, hyphen] using touches)))
  · next closed => exact .inl (by simpa using closed)

theorem IsPiece.isKept {whole front piece behind : Text}
    (isPiece : IsPiece whole front piece behind) {left right : Text} {sign : Char}
    (here : piece = left ++ sign :: right) (divider : sign = ',' ∨ sign = ' ') :
    IsKept (front ++ left) (right ++ behind) :=
  isKept_of_separatorLength? divider (isPiece.undivided left (sign :: right) here (by simp))

end Term

/-! ## Alternatives -/

namespace Alternative

theorem subset_of_mem_splitBars {text : Text} : ∀ piece ∈ splitBars text, piece ⊆ text := by
  induction text using splitBars.induct with
  | case1 => simp [splitBars]
  | case2 rest ih =>
      refine List.forall_mem_cons.mpr ⟨List.nil_subset _, fun piece inside c sign => ?_⟩
      exact List.mem_cons_of_mem _ (List.mem_cons_of_mem _ (ih piece inside sign))
  | case3 rest single ih =>
      have apart : rest.head? ≠ some '|' := by
        intro bar
        obtain ⟨rest', rfl⟩ := List.head?_eq_some_iff.mp bar
        exact single rest' rfl
      rw [splitBars_bar apart]
      refine List.forall_mem_cons.mpr ⟨List.nil_subset _, fun piece inside c sign => ?_⟩
      exact List.mem_cons_of_mem _ (ih piece inside sign)
  | case4 c rest _ other _ _ _ ih =>
      obtain ⟨first, more, pieces, joined⟩ := splitBars_cons other rest
      rw [pieces] at ih
      obtain ⟨whole, further⟩ := List.forall_mem_cons.mp ih
      rw [joined]
      refine List.forall_mem_cons.mpr ⟨List.cons_subset_cons c whole, fun piece inside d sign => ?_⟩
      exact List.mem_cons_of_mem _ (further piece inside sign)
  | case5 c rest _ _ none =>
      obtain ⟨first, more, pieces⟩ := exists_splitBars rest
      simp [none] at pieces

theorem subset_of_mem_split {text alternative : Text} (inside : alternative ∈ split text) :
    alternative ⊆ text := by
  rw [split_eq_map_trim] at inside
  obtain ⟨piece, listed, rfl⟩ := List.mem_map.mp inside
  exact List.Subset.trans (Text.trim_isInfix piece).subset (subset_of_mem_splitBars piece listed)

end Alternative

/-! ## Leaves -/

namespace Constraint

section

variable {bound : Bound}

theorem exists_of_mem_bounds_join {connective : Connective} {members : List Constraint}
    (leaf : bound ∈ (join connective members).bounds) :
    ∃ member ∈ members, bound ∈ member.bounds := by
  match members with
  | [] => cases leaf
  | [member] => exact ⟨member, List.mem_singleton_self member, leaf⟩
  | first :: second :: members => exact mem_bounds_group.mp leaf

theorem bounds_withLabel (text : Text) (required : Constraint) :
    (required.withLabel text).bounds = required.bounds := by
  cases required <;> rfl

/-- A leaf of a constraint comes from one of the terms of one of the alternatives. -/
theorem exists_readTerm_of_mem_bounds {text : Text} {required : Constraint}
    (reads : parse text = .ok required) (leaf : bound ∈ required.bounds) :
    ∃ alternative ∈ Alternative.split (core text), ∃ term ∈ Term.split alternative,
      ∃ members, readTerm term = .ok members ∧ ∃ member ∈ members, bound ∈ member.bounds := by
  obtain ⟨alternatives, read, rfl⟩ := parse_eq_ok_iff.mp reads
  rw [bounds_withLabel] at leaf
  obtain ⟨alternative, listed, leaf⟩ := exists_of_mem_bounds_join leaf
  obtain ⟨spelled, listed', -, terms, readTerms, rfl⟩ := exists_of_mem_right read listed
  obtain ⟨member, flattened, leaf⟩ := exists_of_mem_bounds_join leaf
  obtain ⟨members, inside, inside'⟩ := List.mem_flatten.mp flattened
  obtain ⟨term, piece, readTerm⟩ := exists_of_mem_right (mapM_eq_ok_iff.mp readTerms) inside
  exact ⟨spelled, listed', term, piece, members, readTerm, member, inside', leaf⟩

end

/-- A comma or a space in a version of a constraint is part of the name of a branch. The name is a
part of a term as it was written, and no comma and no space of this term divides it. -/
theorem hasInName_of_leaf {text : Text} {required : Constraint} {bound : Bound} {sign : Char}
    (unflagged : '@' ∉ text) (unsigned : '#' ∉ text) (reads : parse text = .ok required)
    (leaf : bound ∈ required.bounds) (divider : sign = ',' ∨ sign = ' ')
    (inside : sign ∈ bound.version) :
    ∃ alternative ∈ Alternative.split text, ∃ front term behind,
      alternative = front ++ term ++ behind ∧ term ∈ Term.split alternative ∧
      HasInName sign term bound.version ∧
      ∀ left other right, term = left ++ other :: right → other = ',' ∨ other = ' ' →
        Term.IsKept (front ++ left) (right ++ behind) := by
  have foreign : Text.IsForeign sign := by
    rcases divider with rfl | rfl <;> decide
  obtain ⟨alternative, listed, term, piece, members, read, member, listed', leaf'⟩ :=
    exists_readTerm_of_mem_bounds reads leaf
  rw [core_eq_self unflagged unsigned] at listed
  obtain ⟨front, behind, isPiece⟩ := Term.exists_isPiece_of_mem_split piece
  have part : term ⊆ text := by
    refine List.Subset.trans ?_ (Alternative.subset_of_mem_split listed)
    exact List.IsInfix.subset ⟨front, behind, isPiece.whole.symm⟩
  have named := hasInName_of_readTerm foreign (fun flag => unflagged (part flag)) read member
    listed' bound leaf' inside
  exact ⟨alternative, listed, front, term, behind, isPiece.whole, piece, named,
    fun left other right here divider' => isPiece.isKept here divider'⟩

/-- A space behind a word that ends in the letters of an alias. -/
theorem hasInName_of_leaf_canvas :
    '@' ∉ "dev-canvas 1.0".toList ∧ '#' ∉ "dev-canvas 1.0".toList ∧
      parse "dev-canvas 1.0".toList =
        .ok (atom ⟨.eq, "dev-canvas 1.0".toList⟩ (some "dev-canvas 1.0".toList)) ∧
      (⟨.eq, "dev-canvas 1.0".toList⟩ : Bound) ∈
        (atom ⟨.eq, "dev-canvas 1.0".toList⟩ (some "dev-canvas 1.0".toList)).bounds ∧
      ' ' ∈ "dev-canvas 1.0".toList ∧
      ∃ alternative ∈ Alternative.split "dev-canvas 1.0".toList, ∃ front term behind,
        alternative = front ++ term ++ behind ∧ term ∈ Term.split alternative ∧
        HasInName ' ' term "dev-canvas 1.0".toList ∧
        ∀ left other right, term = left ++ other :: right → other = ',' ∨ other = ' ' →
          Term.IsKept (front ++ left) (right ++ behind) := by
  have unflagged : '@' ∉ "dev-canvas 1.0".toList := by decide
  have unsigned : '#' ∉ "dev-canvas 1.0".toList := by decide
  have reads : parse "dev-canvas 1.0".toList =
      .ok (atom ⟨.eq, "dev-canvas 1.0".toList⟩ (some "dev-canvas 1.0".toList)) := rfl
  have leaf : (⟨.eq, "dev-canvas 1.0".toList⟩ : Bound) ∈
      (atom ⟨.eq, "dev-canvas 1.0".toList⟩ (some "dev-canvas 1.0".toList)).bounds :=
    List.mem_cons_self
  have inside : ' ' ∈ "dev-canvas 1.0".toList := by decide
  exact ⟨unflagged, unsigned, reads, leaf, inside,
    hasInName_of_leaf unflagged unsigned reads leaf (.inr rfl) inside⟩

/-- A space behind the letters of an alias and a second comma, where other terms are refused, both
come into the name of a branch. -/
theorem exists_leaf_with_separator :
    (∃ required, parse "dev-canvas 1.0".toList = .ok required ∧
        ∃ bound ∈ required.bounds, ' ' ∈ bound.version) ∧
      ∃ required, parse "dev-a,,1.0".toList = .ok required ∧
        ∃ bound ∈ required.bounds, ',' ∈ bound.version := by
  have reads : parse "dev-canvas 1.0".toList =
      .ok (atom ⟨.eq, "dev-canvas 1.0".toList⟩ (some "dev-canvas 1.0".toList)) := rfl
  have reads' : parse "dev-a,,1.0".toList =
      .ok (atom ⟨.eq, "dev-a,,1.0".toList⟩ (some "dev-a,,1.0".toList)) := rfl
  exact ⟨⟨_, reads, _, List.mem_cons_self, by decide⟩, _, reads', _, List.mem_cons_self, by decide⟩

end Constraint

end VersionRanges

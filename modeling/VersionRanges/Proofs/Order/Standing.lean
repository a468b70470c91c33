/-
# The standing of a version

Comparing versions looks at their marks alone, so that the order of versions is the order of the
lists of marks that they stand for: lexicographic, with the end of each version as a last mark. This
order is linear, has no least and no greatest element, and leaves no gap. Number signs are left
aside throughout, because a part that is one compares equal to every number.
-/
import Mathlib.Data.List.Lex
import Mathlib.Data.List.Infix
import Mathlib.Order.Max
import VersionRanges.Proofs.Order.Mark
import VersionRanges.Version.Order

namespace VersionRanges.Version

/-- The marks of the parts of a version, none of which is the mark of an end. -/
@[ext]
structure Standing where
  marks : List Mark
  unclosed : Mark.closing ∉ marks
deriving DecidableEq

namespace Standing

/-- The marks of a version and, behind them, the mark of its end. -/
def closed (standing : Standing) : List Mark := standing.marks ++ [.closing]

theorem closed_injective : Function.Injective closed := by
  intro first second same
  ext1
  exact List.append_cancel_right same

instance : LinearOrder Standing := LinearOrder.lift' closed closed_injective

theorem lt_iff (first second : Standing) : first < second ↔ first.closed < second.closed :=
  Iff.rfl

end Standing

/-- The standing of a version in the order. -/
def standing (version : Text) : Standing where
  marks := (parts version).map Mark.ofPart
  unclosed := by
    intro inside
    obtain ⟨part, -, same⟩ := List.mem_map.mp inside
    exact Mark.ofPart_ne_closing part same

/-! ## Comparison by standing -/

theorem isPart_of_mem_parts {version part : Text} (unsigned : '#' ∉ version)
    (cut : part ∈ parts version) : Part.IsPart part where
  isRun := isRun_of_mem_parts unsigned cut
  unsigned := by
    rintro rfl
    exact unsigned (mem_of_mem_parts unsigned cut List.mem_cons_self)

/-- The lexicographic comparison of lists is that of their order. -/
theorem compareLex_cmp_compares {α : Type} [LinearOrder α] (first second : List α) :
    (List.compareLex cmp first second).Compares first second := by
  induction first generalizing second with
  | nil =>
      cases second with
      | nil => rfl
      | cons b second => exact List.Lex.nil
  | cons a first ih =>
      cases second with
      | nil => exact List.Lex.nil
      | cons b second =>
          rw [List.compareLex_cons_cons]
          rcases lt_trichotomy a b with below | rfl | above
          · rw [below.cmp_eq_lt]
            exact List.Lex.rel below
          · rw [cmp_self_eq_eq, Ordering.eq_then]
            have further := ih second
            cases order : List.compareLex cmp first second with
            | lt =>
                rw [order] at further
                exact List.Lex.cons further
            | eq =>
                rw [order] at further
                exact congrArg (a :: ·) further
            | gt =>
                rw [order] at further
                exact List.Lex.cons further
          · rw [above.cmp_eq_gt]
            exact List.Lex.rel above

theorem compareLex_cmp_cons_of_ne {α : Type} [LinearOrder α] {a b : α} (apart : a ≠ b)
    (first second : List α) :
    List.compareLex cmp (a :: first) (b :: second) = cmp a b := by
  rw [List.compareLex_cons_cons]
  rcases lt_or_gt_of_ne apart with below | above
  · rw [below.cmp_eq_lt, Ordering.lt_then]
  · rw [above.cmp_eq_gt, Ordering.gt_then]

theorem Standing.compareLex_closed (first second : Standing) :
    List.compareLex cmp first.closed second.closed = cmp first second := by
  have lists := compareLex_cmp_compares first.closed second.closed
  symm
  apply Ordering.Compares.cmp_eq
  cases order : List.compareLex cmp first.closed second.closed with
  | lt =>
      rw [order] at lists
      exact (lt_iff first second).mpr lists
  | eq =>
      rw [order] at lists
      exact closed_injective lists
  | gt =>
      rw [order] at lists
      exact (lt_iff second first).mpr lists

/-- Comparing lists of parts is comparing the lists of their marks with the ends behind them. -/
theorem compareParts_eq_compareLex {first second : List Text}
    (isPart : ∀ part ∈ first, Part.IsPart part) (isPart' : ∀ part ∈ second, Part.IsPart part) :
    compareParts first second =
      List.compareLex cmp (first.map Mark.ofPart ++ [.closing])
        (second.map Mark.ofPart ++ [.closing]) := by
  induction first generalizing second with
  | nil =>
      cases second with
      | nil => rfl
      | cons other second =>
          -- The end of one version meets a part of the other and never ties with it.
          have apart := (Mark.ofPart_ne_closing other).symm
          rw [compareParts, Part.compareToEnd_eq_cmp (isPart' other List.mem_cons_self), cmp_swap]
          exact (compareLex_cmp_cons_of_ne apart _ _).symm
  | cons part first ih =>
      cases second with
      | nil =>
          have apart := Mark.ofPart_ne_closing part
          rw [compareParts, Part.compareToEnd_eq_cmp (isPart part List.mem_cons_self)]
          exact (compareLex_cmp_cons_of_ne apart _ _).symm
      | cons other second =>
          have head := Part.compare_eq_cmp (isPart part List.mem_cons_self)
            (isPart' other List.mem_cons_self)
          have further := ih (fun p inside => isPart p (List.mem_cons_of_mem part inside))
            (fun p inside => isPart' p (List.mem_cons_of_mem other inside))
          rw [compareParts, head, further]
          exact List.compareLex_cons_cons.symm

/-- Versions are compared by the lists of their marks, closed by the mark of the end. -/
theorem compare_eq_compareLex {first second : Text} (unsigned : '#' ∉ first)
    (unsigned' : '#' ∉ second) :
    compare first second = List.compareLex cmp (standing first).closed (standing second).closed :=
  compareParts_eq_compareLex (fun _ cut => isPart_of_mem_parts unsigned cut)
    (fun _ cut => isPart_of_mem_parts unsigned' cut)

theorem compare_eq_cmp {first second : Text} (unsigned : '#' ∉ first) (unsigned' : '#' ∉ second) :
    compare first second = cmp (standing first) (standing second) := by
  rw [compare_eq_compareLex unsigned unsigned', Standing.compareLex_closed]

/-! ## No ends and no gaps -/

namespace Standing

/-- The standing of a version with one more part. -/
def push (standing : Standing) (mark : Mark) (inner : mark ≠ .closing) : Standing where
  marks := standing.marks ++ [mark]
  unclosed := by simp [standing.unclosed, inner.symm]

theorem closed_push (standing : Standing) {mark : Mark} (inner : mark ≠ .closing) :
    (standing.push mark inner).closed = standing.marks ++ [mark, .closing] := by
  simp [closed, push]

/-- The first marks that differ decide, whatever stands behind them. -/
theorem lt_of_marks {first second : Standing} {front rest rest' : List Mark} {mark mark' : Mark}
    (marks : first.marks = front ++ mark :: rest) (marks' : second.marks = front ++ mark' :: rest')
    (below : mark < mark') : first < second := by
  rw [lt_iff, closed, closed, marks, marks', List.append_assoc, List.append_assoc]
  exact List.Lex.append_left _ (List.Lex.rel below) front

/-- A standing that goes on from another with a mark below the end is the lesser one. -/
theorem lt_of_goesOn {first second : Standing} {mark : Mark} {rest : List Mark}
    (marks : first.marks = second.marks ++ mark :: rest) (below : mark < .closing) :
    first < second := by
  rw [lt_iff, closed, closed, marks, List.append_assoc]
  exact List.Lex.append_left _ (List.Lex.rel below) second.marks

/-- A part that stands above the end raises a version. -/
theorem lt_push {standing : Standing} {mark : Mark} (above : .closing < mark) :
    standing < standing.push mark above.ne' := by
  rw [lt_iff, closed_push, closed]
  exact List.Lex.append_left _ (List.Lex.rel above) standing.marks

/-- A part that stands below the end lowers a version. -/
theorem push_lt {standing : Standing} {mark : Mark} (below : mark < .closing) :
    standing.push mark below.ne < standing :=
  lt_of_goesOn rfl below

theorem closing_lt_number (value : ℕ) : Mark.closing < Mark.number value :=
  Prod.Lex.toLex_lt_toLex.mpr (.inr ⟨rfl, Nat.succ_pos value⟩)

theorem dev_lt_closing : Mark.dev < Mark.closing :=
  Prod.Lex.toLex_lt_toLex.mpr (.inl (by decide))

instance : NoMaxOrder Standing where
  exists_gt _ := ⟨_, lt_push (closing_lt_number 0)⟩

instance : NoMinOrder Standing where
  exists_lt _ := ⟨_, push_lt dev_lt_closing⟩

/-- What follows a list does not matter to a greater list that it is no beginning of. -/
theorem append_lt_of_not_prefix {α : Type} [LinearOrder α] {list tail other : List α}
    (less : list ++ tail < other) (apart : ¬ list <+: other) (tail' : List α) :
    list ++ tail' < other := by
  induction list generalizing other with
  | nil => exact absurd List.nil_prefix apart
  | cons a list ih =>
      cases less with
      | rel below => exact List.Lex.rel below
      | cons further =>
          refine List.Lex.cons (ih further fun early => apart ?_)
          exact List.prefix_cons_inj a |>.mpr early

/-- A standing that goes on from a lesser one does so with a mark above the end. -/
theorem closing_lt_of_lt {lesser greater : Standing} {mark : Mark} {rest : List Mark}
    (less : lesser < greater) (goesOn : lesser.marks ++ mark :: rest = greater.marks) :
    .closing < mark := by
  rcases lt_trichotomy Mark.closing mark with above | rfl | below
  · exact above
  · exact absurd (by simp [← goesOn]) greater.unclosed
  · exact absurd less (lt_of_goesOn goesOn.symm below).not_gt

/-- Between two standings there is always another: above the lesser one by a number, unless the
greater one goes on from it, and then below the greater one by a development mark. -/
instance : DenselyOrdered Standing where
  dense lesser greater less := by
    by_cases early : lesser.marks <+: greater.marks
    · refine ⟨greater.push .dev dev_lt_closing.ne, ?_, push_lt dev_lt_closing⟩
      obtain ⟨rest, goesOn⟩ := early
      cases rest with
      | nil =>
          have same : lesser = greater := Standing.ext (by simpa using goesOn)
          exact absurd less (same ▸ lt_irrefl lesser)
      | cons mark rest =>
          have above := closing_lt_of_lt less goesOn
          rw [lt_iff, closed_push, closed, ← goesOn, List.append_assoc]
          exact List.Lex.append_left _ (List.Lex.rel above) lesser.marks
    · refine ⟨lesser.push (.number 0) (closing_lt_number 0).ne', lt_push (closing_lt_number 0), ?_⟩
      have apart : ¬ lesser.marks <+: greater.closed := by
        intro early'
        rcases List.prefix_concat_iff.mp early' with whole | inner
        · exact lesser.unclosed (by simp [whole])
        · exact early inner
      rw [lt_iff, closed_push]
      exact append_lt_of_not_prefix less apart _

end Standing

end VersionRanges.Version

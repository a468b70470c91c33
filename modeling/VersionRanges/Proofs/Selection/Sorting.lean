/-
# Sorted versions

Sorting by a key is stable if the elements with one key stand in the result as they stood before,
and this leaves one result only. The normal forms of versions have such keys: the standing of a
release, and a place below all standings that the branches share. So their comparison is a total
preorder, and a list of versions is sorted in one way only in either direction.
-/
import Mathlib.Order.WithBot
import VersionRanges.Proofs.Normal.Origin
import VersionRanges.Proofs.Order.Preorder
import VersionRanges.Selection

namespace VersionRanges

/-! ## Sorting by a key -/

/-- The result of sorting a list by a key, in which elements with one key keep their order. -/
structure IsStableSort {α κ : Type} [LinearOrder κ] (key : α → κ) (input output : List α) :
    Prop where
  perm : output.Perm input
  ordered : output.Pairwise fun first second => key first ≤ key second
  ties : ∀ k, output.filter (key · = k) = input.filter (key · = k)

namespace IsStableSort

variable {α κ : Type} [LinearOrder κ] {key : α → κ} {input output output' : List α}

theorem mergeSort (key : α → κ) (input : List α) :
    IsStableSort key input (input.mergeSort fun first second => key first ≤ key second) := by
  have trans (a b c : α) (below : decide (key a ≤ key b) = true)
      (below' : decide (key b ≤ key c) = true) : decide (key a ≤ key c) = true := by
    simp only [decide_eq_true_eq] at below below' ⊢
    exact below.trans below'
  have total (a b : α) : (decide (key a ≤ key b) || decide (key b ≤ key a)) = true := by
    simp [le_total]
  have perm := List.mergeSort_perm input fun first second => key first ≤ key second
  refine ⟨perm, ?_, fun k => ?_⟩
  · exact (List.pairwise_mergeSort trans total input).imp of_decide_eq_true
  · -- Elements with one key are sorted already, and so they keep their order.
    have equal : (input.filter (key · = k)).Pairwise fun a b => decide (key a ≤ key b) = true := by
      refine List.pairwise_of_forall_mem_list fun a inside b inside' => ?_
      simp only [List.mem_filter, decide_eq_true_eq] at inside inside' ⊢
      exact (inside.2.trans inside'.2.symm).le
    have kept := List.sublist_mergeSort trans total equal List.filter_sublist
    have part := kept.filter (key · = k)
    rw [List.filter_filter] at part
    simp only [Bool.and_self] at part
    exact (part.eq_of_length (perm.filter _).length_eq.symm).symm

/-- There is one result only. -/
theorem unique (sorts : IsStableSort key input output) (sorts' : IsStableSort key input output') :
    output = output' := by
  have ties (k : κ) : output.filter (key · = k) = output'.filter (key · = k) :=
    (sorts.ties k).trans (sorts'.ties k).symm
  have ordered := sorts.ordered
  have ordered' := sorts'.ordered
  have perm := sorts.perm.trans sorts'.perm.symm
  clear sorts sorts'
  induction output generalizing output' with
  | nil => exact perm.nil_eq
  | cons a output ih =>
      cases output' with
      | nil => exact perm.eq_nil
      | cons b output' =>
          obtain ⟨least, behind⟩ := List.pairwise_cons.mp ordered
          obtain ⟨least', behind'⟩ := List.pairwise_cons.mp ordered'
          have same : key a = key b := by
            refine le_antisymm ?_ ?_
            · rcases List.mem_cons.mp (perm.mem_iff.mpr List.mem_cons_self) with rfl | inside
              · exact le_rfl
              · exact least b inside
            · rcases List.mem_cons.mp (perm.mem_iff.mp List.mem_cons_self) with rfl | inside
              · exact le_rfl
              · exact least' a inside
          have heads := ties (key a)
          rw [List.filter_cons_of_pos (by simp), List.filter_cons_of_pos (by simp [same])] at heads
          obtain rfl := (List.cons.inj heads).1
          refine congrArg (a :: ·) (ih (fun k => ?_) behind behind' perm.cons_inv)
          have tails := ties k
          simp only [List.filter_cons] at tails
          split at tails
          · exact (List.cons.inj tails).2
          · exact tails

/-- Turned around, a result is sorted the other way. -/
theorem reverse (sorts : IsStableSort key input.reverse output) :
    IsStableSort (OrderDual.toDual ∘ key) input output.reverse where
  perm := (List.reverse_perm output).trans (sorts.perm.trans (List.reverse_perm input))
  ordered := List.pairwise_reverse.mpr sorts.ordered
  ties k := by
    have ties := sorts.ties (OrderDual.ofDual k)
    rw [List.filter_reverse] at ties
    rw [List.filter_reverse]
    exact (congrArg List.reverse ties).trans (List.reverse_reverse _)

end IsStableSort

/-! ## The place of a version -/

open Version

namespace Selection

/-- The place of a normal form in a sorted list: its standing, but below all standings for
branches. -/
def place (normal : Text) : WithBot Standing :=
  if Branch.isBranch normal then ⊥ else standing normal

theorem place_of_isBranch {normal : Text} (branch : Branch.isBranch normal = true) :
    place normal = ⊥ :=
  if_pos branch

theorem place_of_isBranch_eq_false {normal : Text} (release : Branch.isBranch normal = false) :
    place normal = standing normal :=
  if_neg (Bool.eq_false_iff.mp release)

/-- The place of a version that can be read. -/
def placeOf (version : Text) : WithBot Standing :=
  match normalize version with
  | .ok normal => place normal
  | .error _ => ⊥

section

variable {first second normal normal' : Text}

theorem placeOf_eq (reads : normalize first = .ok normal) : placeOf first = place normal := by
  rw [placeOf, reads]

/-- Normal forms are compared by their places. -/
theorem compareNormal_eq_cmp_place (reads : normalize first = .ok normal)
    (reads' : normalize second = .ok normal') :
    compareNormal normal normal' = cmp (place normal) (place normal') := by
  cases branch : Branch.isBranch normal <;> cases branch' : Branch.isBranch normal'
  · rw [place_of_isBranch_eq_false branch, place_of_isBranch_eq_false branch',
      WithBot.coe_strictMono.cmp_map_eq, compareNormal, branch, branch']
    exact compare_eq_cmp (unsigned_of_normalize reads branch) (unsigned_of_normalize reads' branch')
  · rw [place_of_isBranch_eq_false branch, place_of_isBranch branch',
      (WithBot.bot_lt_coe _).cmp_eq_gt, compareNormal, branch, branch']
  · rw [place_of_isBranch branch, place_of_isBranch_eq_false branch',
      (WithBot.bot_lt_coe _).cmp_eq_lt, compareNormal, branch, branch']
  · rw [place_of_isBranch branch, place_of_isBranch branch', cmp_self_eq_eq, compareNormal, branch,
      branch']

end

/-- How the normal forms of two versions compare, if both can be read. -/
def order? (first second : Text) : Option Ordering :=
  match normalize first, normalize second with
  | .ok normal, .ok normal' => some (compareNormal normal normal')
  | _, _ => none

theorem order?_eq {first second : Text} :
    order? first second =
      if isValid first && isValid second then some (cmp (placeOf first) (placeOf second))
      else none := by
  unfold order? isValid
  cases reads : normalize first <;> cases reads' : normalize second
  · rfl
  · rfl
  · rfl
  · rw [placeOf_eq reads, placeOf_eq reads', ← compareNormal_eq_cmp_place reads reads']
    rfl

/-! ## Sorted lists of versions -/

/-- What can be read of a list of versions, as written and sorted: the normal form of a version
compares with each later one in one direction or as equal, and those that compare equal stand in
the order in which they were given. -/
structure IsSorting (direction : Ordering) (versions sorted : List Text) : Prop where
  perm : sorted.Perm (versions.filter isValid)
  ordered : sorted.Pairwise fun first second =>
    order? first second = some direction ∨ order? first second = some .eq
  ties : ∀ version, sorted.filter (order? version · == some .eq) =
    versions.filter (order? version · == some .eq)

theorem IsSorting.of_isStableSort {κ : Type} [LinearOrder κ] {key : Text → κ}
    {direction : Ordering} {versions sorted : List Text}
    (sorts : IsStableSort key (versions.filter isValid) sorted)
    (below : ∀ first second, isValid first = true → isValid second = true →
      key first ≤ key second →
        order? first second = some direction ∨ order? first second = some .eq)
    (tied : ∀ first second, isValid first = true → isValid second = true →
      (order? first second = some .eq ↔ key second = key first)) :
    IsSorting direction versions sorted := by
  have valid : ∀ version ∈ sorted, isValid version = true :=
    fun version inside => (List.mem_filter.mp (sorts.perm.mem_iff.mp inside)).2
  refine ⟨sorts.perm, ?_, fun version => ?_⟩
  · exact sorts.ordered.imp_of_mem fun inside inside' =>
      below _ _ (valid _ inside) (valid _ inside')
  · by_cases readable : isValid version = true
    · calc sorted.filter (order? version · == some .eq)
          = sorted.filter (key · = key version) := by
            refine List.filter_congr fun other inside => ?_
            rw [Bool.eq_iff_iff, beq_iff_eq, decide_eq_true_eq]
            exact tied version other readable (valid other inside)
        _ = (versions.filter isValid).filter (key · = key version) := sorts.ties (key version)
        _ = versions.filter (order? version · == some .eq) := by
            rw [List.filter_filter]
            refine List.filter_congr fun other _ => ?_
            by_cases readable' : isValid other = true
            · rw [readable', Bool.and_true, Bool.eq_iff_iff, beq_iff_eq, decide_eq_true_eq]
              exact (tied version other readable readable').symm
            · simp [order?_eq, readable']
    · have nothing : (order? version · == some .eq) = fun _ => false := by
        funext other
        simp [order?_eq, readable]
      rw [nothing, List.filter_false, List.filter_false]

theorem map_written_filterMap (versions : List Text) :
    (versions.filterMap entry?).map Entry.written = versions.filter isValid := by
  rw [List.map_filterMap, ← List.filterMap_eq_filter]
  refine List.filterMap_congr fun version _ => ?_
  rw [Option.guard, isValid, entry?]
  cases normalize version <;> rfl

theorem normalize_written {versions : List Text} :
    ∀ entry ∈ versions.filterMap entry?, normalize entry.written = .ok entry.normal := by
  intro entry inside
  obtain ⟨version, -, reads⟩ := List.mem_filterMap.mp inside
  unfold entry? at reads
  split at reads
  · next normal read =>
    obtain rfl := Option.some.inj reads
    exact read
  · cases reads

theorem Entry.le_eq {first second : Entry} (reads : normalize first.written = .ok first.normal)
    (reads' : normalize second.written = .ok second.normal) :
    first.le second = decide (placeOf first.written ≤ placeOf second.written) := by
  rw [Entry.le, compareNormal_eq_cmp_place reads reads', placeOf_eq reads, placeOf_eq reads',
    Bool.eq_iff_iff, bne_iff_ne, decide_eq_true_eq]
  exact (cmp_compares _ _).ne_gt

theorem isStableSort_sort (versions : List Text) :
    IsStableSort placeOf (versions.filter isValid) (sort versions) := by
  have sorts : sort versions =
      (versions.filter isValid).mergeSort fun first second => placeOf first ≤ placeOf second := by
    rw [← map_written_filterMap]
    exact List.map_mergeSort fun entry inside entry' inside' =>
      Entry.le_eq (normalize_written entry inside) (normalize_written entry' inside')
  rw [sorts]
  exact .mergeSort placeOf _

theorem isStableSort_sortDescending (versions : List Text) :
    IsStableSort (OrderDual.toDual ∘ placeOf) (versions.filter isValid)
      (sortDescending versions) := by
  have sorts : sortDescending versions =
      (versions.filter isValid).mergeSort fun first second =>
        (OrderDual.toDual ∘ placeOf) first ≤ (OrderDual.toDual ∘ placeOf) second := by
    rw [← map_written_filterMap]
    exact List.map_mergeSort fun entry inside entry' inside' =>
      Entry.le_eq (normalize_written entry' inside') (normalize_written entry inside)
  rw [sorts]
  exact .mergeSort _ _

/-- Both directions of sorting keep exactly the versions that can be read, put them in order by
their normal forms and leave versions that compare equal in the order given. So one direction is
the other, on the list turned around. The comparison of normal forms is a total preorder. -/
theorem sort_isSorting (versions : List Text) :
    IsSorting .lt versions (sort versions) ∧ IsSorting .gt versions (sortDescending versions) ∧
      sortDescending versions = (sort versions.reverse).reverse ∧
      ∀ first second third normal normal' normal'',
        normalize first = .ok normal → normalize second = .ok normal' →
        normalize third = .ok normal'' →
        compareNormal normal normal = .eq ∧
        compareNormal normal' normal = (compareNormal normal normal').swap ∧
        (compareNormal normal normal' ≠ .gt → compareNormal normal' normal'' ≠ .gt →
          compareNormal normal normal'' ≠ .gt) := by
  have order {first second : Text} (readable : isValid first = true)
      (readable' : isValid second = true) :
      order? first second = some (cmp (placeOf first) (placeOf second)) := by
    rw [order?_eq, readable, readable']
    rfl
  refine ⟨.of_isStableSort (isStableSort_sort versions) ?_ ?_,
    .of_isStableSort (isStableSort_sortDescending versions) ?_ ?_, ?_, ?_⟩
  · intro first second readable readable' below
    rw [order readable readable', Option.some_inj, Option.some_inj, cmp_eq_lt_iff, cmp_eq_eq_iff]
    exact below.lt_or_eq
  · intro first second readable readable'
    rw [order readable readable', Option.some_inj, cmp_eq_eq_iff, eq_comm]
  · intro first second readable readable' below
    rw [order readable readable', Option.some_inj, Option.some_inj, cmp_eq_gt_iff, cmp_eq_eq_iff]
    exact (OrderDual.toDual_le_toDual.mp below).lt_or_eq.imp_right Eq.symm
  · intro first second readable readable'
    rw [order readable readable', Option.some_inj, cmp_eq_eq_iff, eq_comm]
    exact OrderDual.toDual_inj.symm
  · have sorts := isStableSort_sort versions.reverse
    rw [List.filter_reverse] at sorts
    exact (isStableSort_sortDescending versions).unique sorts.reverse
  · intro first second third normal normal' normal'' reads reads' reads''
    rw [compareNormal_eq_cmp_place reads reads, compareNormal_eq_cmp_place reads' reads,
      compareNormal_eq_cmp_place reads reads', compareNormal_eq_cmp_place reads' reads'',
      compareNormal_eq_cmp_place reads reads'', (cmp_compares _ _).ne_gt, (cmp_compares _ _).ne_gt,
      (cmp_compares _ _).ne_gt]
    exact ⟨cmp_self_eq_eq _, (cmp_swap _ _).symm, le_trans⟩

/-- A branch, a release and a patch of the release. -/
theorem sort_isSorting_branch_release_patch :
    normalize "dev-b".toList = .ok "dev-b".toList ∧
      normalize "1.0".toList = .ok "1.0.0.0".toList ∧
      normalize "1.0p1".toList = .ok "1.0.0.0-patch1".toList ∧
      compareNormal "dev-b".toList "1.0.0.0".toList ≠ .gt ∧
      compareNormal "1.0.0.0".toList "1.0.0.0-patch1".toList ≠ .gt ∧
      compareNormal "dev-b".toList "1.0.0.0-patch1".toList ≠ .gt := by
  have reads : normalize "dev-b".toList = .ok "dev-b".toList := by decide
  have reads' : normalize "1.0".toList = .ok "1.0.0.0".toList := by decide
  have reads'' : normalize "1.0p1".toList = .ok "1.0.0.0-patch1".toList := by decide
  have below : compareNormal "dev-b".toList "1.0.0.0".toList ≠ .gt := by decide
  have below' : compareNormal "1.0.0.0".toList "1.0.0.0-patch1".toList ≠ .gt := by decide
  have laws := (sort_isSorting ["1.0p1".toList, "1.0".toList, "dev-b".toList]).2.2.2
  exact ⟨reads, reads', reads'', below, below',
    (laws _ _ _ _ _ _ reads reads' reads'').2.2 below below'⟩

end Selection

end VersionRanges

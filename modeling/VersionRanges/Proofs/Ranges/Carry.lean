/-
# Carrying over a sum below zero

A component is raised by a number with a sign. If the sum is below zero, the component gives way to
the filling, and the one before it is raised by the same number. So the change goes back component
by component until a sum is not below zero, and that sum stands in the version. There is no version
if the change goes past the first component, or comes to one that writes no number of 64 bits or
whose sum is none.
-/
import VersionRanges.Proofs.Ranges.Raising

namespace VersionRanges.Component

variable (slots : List (Option Text)) (increment : Int) (filling : Text)

/-- The number in the slot at `index`, which is counted from one. A missing component is zero. -/
def value? (index : Nat) : Option Int :=
  slots[index - 1]?.bind fun slot => slot.elim (some 0) readWord?

/-- The number in the slot at `index`, raised. There is none if the slot holds no number of 64 bits,
or if the sum is none. -/
def sum? (index : Nat) : Option Int := ((value? slots index).map (· + increment)).filter isWord

/-- All sums behind `index`, from `position` on backwards, are below zero, so that the change is
carried over to `index`. At zero it has gone past the first slot. -/
def CarriesTo (position index : Nat) : Prop :=
  ∀ i, index < i → i ≤ position → ∃ sum, sum? slots increment i = some sum ∧ sum < 0

/-- The version with a sum in the slot at `index`, the components before it as they were written,
and the filling behind it. -/
def settled (index : Nat) (sum : Int) : Text :=
  List.intercalate ['.'] ((slots.map (·.getD ['0'])).take (index - 1) ++
    Text.ofNat sum.toNat :: List.replicate (slots.length - index) filling)

/-! ## One slot -/

/-- Raising the last of some components depends on its sum. -/
theorem raiseLast_cons (component : Text) (before : List Text) :
    raiseLast increment filling (component :: before) =
      match ((readWord? component).map (· + increment)).filter isWord with
      | none => none
      | some sum =>
        if 0 ≤ sum then some (Text.ofNat sum.toNat :: before)
        else (raiseLast increment filling before).map (filling :: ·) := by
  rw [raiseLast]
  cases (readWord? component).map (· + increment) with
  | none => rfl
  | some sum =>
      cases word : isWord sum with
      | false => simp [word, Option.filter_some_neg]
      | true =>
          rw [Option.filter_some_pos word]
          by_cases below : sum < 0
          · simp [word, below, not_le.mpr below]
          · simp [word, below, not_lt.mp below]

variable {slots}

/-- The sum of a slot is that of the component in it. -/
theorem sum?_of_components {component : Text} {before behind : List Text} {index : Nat}
    (whole : slots.map (·.getD ['0']) = before ++ component :: behind)
    (count : before.length + 1 = index) :
    sum? slots increment index = ((readWord? component).map (· + increment)).filter isWord := by
  have zero : readWord? ['0'] = some 0 := by decide
  have here : (slots[index - 1]?).map (·.getD ['0']) = some component := by
    rw [← List.getElem?_map, whole, ← count, Nat.add_sub_cancel, List.getElem?_append_right le_rfl]
    simp
  obtain ⟨slot, found, rfl⟩ := Option.map_eq_some_iff.mp here
  rw [sum?, value?, found, Option.bind_some]
  cases slot with
  | none => rw [Option.elim_none, Option.getD_none, zero]
  | some component => rfl

variable (slots)

/-- Raising a slot depends on its sum: one that is not below zero is put in its place, and one below
zero leaves the change to the slot before. -/
theorem adjust_succ {index : Nat} (inside : index < slots.length) :
    adjust slots (index + 1) increment filling =
      match sum? slots increment (index + 1) with
      | none => none
      | some sum =>
        if 0 ≤ sum then some (settled slots filling (index + 1) sum)
        else if index = 0 then none
        else adjust slots index increment filling := by
  have within : 0 < index + 1 ∧ index + 1 ≤ (slots.map (·.getD ['0'])).length :=
    ⟨Nat.succ_pos index, by rwa [List.length_map]⟩
  obtain ⟨before, component, behind, whole, count⟩ := exists_eq_append_cons _ within
  have length : slots.length = index + 1 + behind.length := by
    have mapped : (slots.map (·.getD ['0'])).length = slots.length := List.length_map _
    rw [whole, List.length_append, List.length_cons] at mapped
    omega
  rw [adjust_eq whole count, sum?_of_components increment whole count, raiseLast_cons]
  cases ((readWord? component).map (· + increment)).filter isWord with
  | none => rfl
  | some sum =>
      dsimp only
      by_cases settles : 0 ≤ sum
      · have kept : (slots.map (·.getD ['0'])).take index = before := by
          rw [whole, List.take_left' (Nat.succ.inj count)]
        rw [if_pos settles, if_pos settles, Option.map_some, settled, Nat.add_sub_cancel, kept,
          length, Nat.add_sub_cancel_left]
        simp
      · -- below zero, the slot takes the filling, as all slots behind it do
        rw [if_neg settles, if_neg settles]
        rcases List.eq_nil_or_concat' before with rfl | ⟨front, last, rfl⟩
        · obtain rfl : 0 = index := Nat.succ.inj count
          rfl
        · have count' : front.length + 1 = index := by simpa using count
          have whole' : slots.map (·.getD ['0']) = front ++ last :: component :: behind := by
            rw [whole, List.append_assoc, List.singleton_append]
          rw [if_neg (by omega), adjust_eq whole' count', List.reverse_append, Option.map_map]
          simp [Function.comp_def, List.replicate_succ]

/-! ## All slots -/

section

variable {slots increment} {position index : Nat}

theorem CarriesTo.succ (carries : CarriesTo slots increment position index) {sum : Int}
    (next : sum? slots increment (position + 1) = some sum) (below : sum < 0) :
    CarriesTo slots increment (position + 1) index := by
  intro i behind within
  rcases Nat.le_succ_iff.mp within with within | rfl
  · exact carries i behind within
  · exact ⟨sum, next, below⟩

theorem CarriesTo.of_succ (carries : CarriesTo slots increment (position + 1) index) :
    CarriesTo slots increment position index :=
  fun i behind within => carries i behind (Nat.le_succ_of_le within)

/-- A change that is carried over to a slot is the change of that slot. -/
theorem adjust_of_carriesTo (inside : position ≤ slots.length) (first : 0 < index)
    (within : index ≤ position) (carries : CarriesTo slots increment position index) :
    adjust slots position increment filling = adjust slots index increment filling := by
  induction position, within using Nat.le_induction with
  | base => rfl
  | succ position within ih =>
      obtain ⟨sum, here, below⟩ := carries (position + 1) (Nat.lt_succ_of_le within) le_rfl
      have positive : position ≠ 0 := Nat.ne_of_gt (first.trans_le within)
      rw [adjust_succ slots increment filling inside, here]
      dsimp only
      rw [if_neg (not_le.mpr below), if_neg positive]
      exact ih (Nat.le_of_succ_le inside) carries.of_succ

/-- The change comes to a slot whose sum is not below zero or is none, or goes past the first. -/
theorem exists_carriesTo (slots : List (Option Text)) (increment : Int) (position : Nat) :
    CarriesTo slots increment position 0 ∨
      ∃ index, 0 < index ∧ index ≤ position ∧ CarriesTo slots increment position index ∧
        ∀ sum, sum? slots increment index = some sum → 0 ≤ sum := by
  -- the last slot stops the change, or hands it on to the slots before it
  induction position with
  | zero => exact .inl fun i behind within => absurd within (Nat.not_le_of_lt behind)
  | succ position ih =>
      by_cases stops : ∀ sum, sum? slots increment (position + 1) = some sum → 0 ≤ sum
      · refine .inr ⟨position + 1, Nat.succ_pos position, le_rfl, ?_, stops⟩
        exact fun i behind within => absurd within (Nat.not_le_of_lt behind)
      · push Not at stops
        obtain ⟨sum, here, below⟩ := stops
        rcases ih with past | ⟨index, first, within, carries, stops⟩
        · exact .inl (past.succ here below)
        · exact .inr ⟨index, first, Nat.le_succ_of_le within, carries.succ here below, stops⟩

end

section

variable {slots increment} {position index : Nat} (inside : position ≤ slots.length)
  (first : 0 < index) (within : index ≤ position)
  (carries : CarriesTo slots increment position index)

include inside first within carries

/-- A sum that is not below zero ends the change. -/
theorem adjust_of_sum? {sum : Int} (here : sum? slots increment index = some sum)
    (settles : 0 ≤ sum) :
    adjust slots position increment filling = some (settled slots filling index sum) := by
  obtain ⟨index, rfl⟩ := Nat.exists_eq_succ_of_ne_zero (Nat.ne_of_gt first)
  rw [adjust_of_carriesTo filling inside first within carries,
    adjust_succ slots increment filling (Nat.lt_of_lt_of_le within inside), here]
  exact if_pos settles

/-- A sum that is none leaves no version. -/
theorem adjust_of_sum?_eq_none (here : sum? slots increment index = none) :
    adjust slots position increment filling = none := by
  obtain ⟨index, rfl⟩ := Nat.exists_eq_succ_of_ne_zero (Nat.ne_of_gt first)
  rw [adjust_of_carriesTo filling inside first within carries,
    adjust_succ slots increment filling (Nat.lt_of_lt_of_le within inside), here]

end

section

variable {slots increment} {position : Nat} (first : 0 < position)
  (inside : position ≤ slots.length)

include first inside

/-- A change that goes past the first slot leaves no version. -/
theorem adjust_of_past (past : CarriesTo slots increment position 0) :
    adjust slots position increment filling = none := by
  obtain ⟨sum, here, below⟩ := past 1 Nat.one_pos first
  have carries : CarriesTo slots increment position 1 :=
    fun i behind within => past i (Nat.zero_lt_of_lt behind) within
  rw [adjust_of_carriesTo filling inside Nat.one_pos first carries,
    adjust_succ slots increment filling (Nat.lt_of_lt_of_le first inside), here]
  dsimp only
  rw [if_neg (not_le.mpr below), if_pos rfl]

theorem adjust_eq_some_iff {version : Text} :
    adjust slots position increment filling = some version ↔
      ∃ index sum, 0 < index ∧ index ≤ position ∧ CarriesTo slots increment position index ∧
        sum? slots increment index = some sum ∧ 0 ≤ sum ∧
        settled slots filling index sum = version := by
  constructor
  · intro raises
    rcases exists_carriesTo slots increment position with
      past | ⟨index, first', within, carries, stops⟩
    · rw [adjust_of_past filling first inside past] at raises
      cases raises
    · cases here : sum? slots increment index with
      | none =>
          rw [adjust_of_sum?_eq_none filling inside first' within carries here] at raises
          cases raises
      | some sum =>
          have settles := stops sum here
          rw [adjust_of_sum? filling inside first' within carries here settles] at raises
          exact ⟨index, sum, first', within, carries, here, settles, Option.some.inj raises⟩
  · rintro ⟨index, sum, first', within, carries, here, settles, rfl⟩
    exact adjust_of_sum? filling inside first' within carries here settles

theorem adjust_eq_none_iff :
    adjust slots position increment filling = none ↔
      CarriesTo slots increment position 0 ∨
        ∃ index, 0 < index ∧ index ≤ position ∧ CarriesTo slots increment position index ∧
          sum? slots increment index = none := by
  constructor
  · intro refused
    apply (exists_carriesTo slots increment position).imp_right
    rintro ⟨index, first', within, carries, stops⟩
    refine ⟨index, first', within, carries, ?_⟩
    cases here : sum? slots increment index with
    | none => rfl
    | some sum =>
        rw [adjust_of_sum? filling inside first' within carries here (stops sum here)] at refused
        cases refused
  · rintro (past | ⟨index, first', within, carries, here⟩)
    · exact adjust_of_past filling first inside past
    · exact adjust_of_sum?_eq_none filling inside first' within carries here

end

/-! ## Lowering by one -/

section

variable {slots}

theorem isWord_of_value? {index : Nat} {value : Int} (holds : value? slots index = some value) :
    isWord value = true := by
  obtain ⟨slot, -, reads⟩ := Option.bind_eq_some_iff.mp holds
  cases slot with
  | none =>
      obtain rfl := Option.some.inj reads
      rfl
  | some component => exact (Option.filter_eq_some_iff.mp reads).2

/-- A number that is not below zero can be lowered by one. -/
theorem sum?_lowered {index : Nat} {value : Int} (holds : value? slots index = some value)
    (positive : 0 ≤ value) : sum? slots (-1) index = some (value - 1) := by
  have word := isWord_of_value? holds
  rw [sum?, holds, Option.map_some]
  apply Option.filter_some_pos
  simp only [isWord, Bool.and_eq_true, decide_eq_true_eq] at word ⊢
  omega

/-- Numbers that are not below zero cannot be lowered if all of them are zero. -/
theorem adjust_lowered_eq_none_iff {position : Nat} (first : 0 < position)
    (inside : position ≤ slots.length)
    (positive : ∀ i, 0 < i → i ≤ position → ∃ value, value? slots i = some value ∧ 0 ≤ value) :
    adjust slots position (-1) filling = none ↔
      ∀ i, 0 < i → i ≤ position → value? slots i = some 0 := by
  rw [adjust_eq_none_iff filling first inside]
  constructor
  · rintro (past | ⟨index, first', within, -, refused⟩) i behind within'
    · obtain ⟨value, holds, positive⟩ := positive i behind within'
      obtain ⟨sum, here, below⟩ := past i behind within'
      rw [sum?_lowered holds positive] at here
      obtain rfl := Option.some.inj here
      obtain rfl : value = 0 := by omega
      exact holds
    · obtain ⟨value, holds, positive⟩ := positive index first' within
      rw [sum?_lowered holds positive] at refused
      cases refused
  · intro zeros
    exact .inl fun i behind within => ⟨_, sum?_lowered (zeros i behind within) le_rfl, by decide⟩

end

/-- Raising a component puts the sum of the last slot, from the position on backwards, whose sum is
not below zero in its place. There is no version exactly if all of these sums are below zero, or if
one that the change comes to is none. Numbers that are not below zero cannot be lowered by one
exactly if all of them are zero. -/
theorem adjust_settles {position : Nat} (first : 0 < position) (inside : position ≤ slots.length) :
    (∀ version, adjust slots position increment filling = some version ↔
      ∃ index sum, 0 < index ∧ index ≤ position ∧ CarriesTo slots increment position index ∧
        sum? slots increment index = some sum ∧ 0 ≤ sum ∧
        settled slots filling index sum = version) ∧
    (adjust slots position increment filling = none ↔
      CarriesTo slots increment position 0 ∨
        ∃ index, 0 < index ∧ index ≤ position ∧ CarriesTo slots increment position index ∧
          sum? slots increment index = none) ∧
    ((∀ i, 0 < i → i ≤ position → ∃ value, value? slots i = some value ∧ 0 ≤ value) →
      (adjust slots position (-1) filling = none ↔
        ∀ i, 0 < i → i ≤ position → value? slots i = some 0)) :=
  ⟨fun _ => adjust_eq_some_iff filling first inside, adjust_eq_none_iff filling first inside,
    adjust_lowered_eq_none_iff filling first inside⟩

/-- A change that comes to the first slot past a zero and a missing component. -/
theorem adjust_settles_past_zeros :
    ∃ slots, slots = [some ['1'], some ['0'], none, some ['7']] ∧ 0 < 3 ∧ 3 ≤ slots.length ∧
      adjust slots 3 (-1) "99".toList = some "0.99.99.99".toList ∧
      (∃ index sum, 0 < index ∧ index ≤ 3 ∧ CarriesTo slots (-1) 3 index ∧
        sum? slots (-1) index = some sum ∧ 0 ≤ sum ∧
        settled slots "99".toList index sum = "0.99.99.99".toList) ∧
      (∀ i, 0 < i → i ≤ 3 → ∃ value, value? slots i = some value ∧ 0 ≤ value) ∧
      ¬ ∀ i, 0 < i → i ≤ 3 → value? slots i = some 0 := by
  have inside : 3 ≤ [some ['1'], some ['0'], none, some ['7']].length := by decide
  have raises : adjust [some ['1'], some ['0'], none, some ['7']] 3 (-1) "99".toList =
      some "0.99.99.99".toList := by decide
  have positive : ∀ i, 0 < i → i ≤ 3 →
      ∃ value, value? [some ['1'], some ['0'], none, some ['7']] i = some value ∧ 0 ≤ value := by
    intro i behind within
    obtain rfl | rfl | rfl : i = 1 ∨ i = 2 ∨ i = 3 := by omega
    · exact ⟨1, by decide, by decide⟩
    · exact ⟨0, by decide, by decide⟩
    · exact ⟨0, by decide, by decide⟩
  obtain ⟨settles, -, lowers⟩ := adjust_settles _ (-1) "99".toList (by decide) inside
  refine ⟨_, rfl, by decide, inside, raises, (settles _).mp raises, positive, ?_⟩
  rw [← lowers positive, raises]
  exact Option.some_ne_none _

end VersionRanges.Component

/-
# The order of numeric normal forms

Among numeric normal forms the numbers decide first, then the stage: a development version, a
preview, the release or a patch of it. Forms with one label go on with their tails, number by
number, and a tail that ends stands below one that goes on, the lower if the development mark ends
it. Two such versions stand level only if they say the same in all of these.
-/
import VersionRanges.Proofs.Order.NumericForm

namespace VersionRanges.Version

/-! ## Comparison of lists -/

section

variable {α β : Type} [LinearOrder α] [LinearOrder β]

/-- The lexicographic comparison is that of the order of lists, however this order is decided. -/
theorem compareLex_cmp [inst : DecidableLT (List α)] (first second : List α) :
    List.compareLex cmp first second = cmp first second := by
  rw [← (compareLex_cmp_compares first second).cmp_eq, Subsingleton.elim inst]

theorem cmp_list_eq_iff [inst : DecidableLT (List α)] {first second : List α} :
    cmp first second = .eq ↔ first = second := by
  rw [← compareLex_cmp, ← (compareLex_cmp_compares first second).cmp_eq, cmp_eq_eq_iff]

/-- Behind lists of one length the comparison goes on only if they are equal. -/
theorem compareLex_append {first second : List α} (length : first.length = second.length)
    (rest rest' : List α) :
    List.compareLex cmp (first ++ rest) (second ++ rest') =
      (List.compareLex cmp first second).then (List.compareLex cmp rest rest') := by
  induction first generalizing second with
  | nil =>
      obtain rfl := List.eq_nil_of_length_eq_zero length.symm
      rfl
  | cons a first ih =>
      obtain ⟨b, second, rfl⟩ := List.exists_cons_of_length_eq_add_one length.symm
      rw [List.cons_append, List.cons_append, List.compareLex_cons_cons, List.compareLex_cons_cons,
        ih (Nat.succ.inj length), Ordering.then_assoc]

theorem compareLex_self (list : List α) : List.compareLex cmp list list = .eq := by
  rw [compareLex_cmp, cmp_list_eq_iff]

theorem compareLex_map {f : α → β} (raises : StrictMono f) (first second : List α) :
    List.compareLex cmp (first.map f) (second.map f) = List.compareLex cmp first second := by
  induction first generalizing second with
  | nil => cases second <;> rfl
  | cons a first ih =>
      cases second with
      | nil => rfl
      | cons b second =>
          rw [List.map_cons, List.map_cons, List.compareLex_cons_cons, List.compareLex_cons_cons,
            raises.cmp_map_eq, ih]

end

/-! ## Stages -/

/-- The stages of a version, from the lowest to the highest. -/
inductive Stage where
  | dev
  | alpha
  | beta
  | candidate
  | release
  | patch
deriving DecidableEq, Repr

namespace Stage

/-- The place of a stage among all of them. -/
def height : Stage → ℕ
  | dev => 0
  | alpha => 1
  | beta => 2
  | candidate => 3
  | release => 4
  | patch => 5

theorem height_injective : Function.Injective height := by
  intro first second same
  cases first <;> cases second <;> simp_all [height]

instance : LinearOrder Stage := LinearOrder.lift' height height_injective

/-- The mark that a stage puts behind the numbers. The release puts none, and what stands there is
the end. -/
def mark : Stage → Mark
  | dev => .dev
  | alpha => .alpha
  | beta => .beta
  | candidate => .candidate
  | release => .closing
  | patch => .patch

theorem mark_strictMono : StrictMono mark := by
  intro first second below
  cases first <;> cases second <;> revert below <;> decide

end Stage

/-- The stage that a label names. -/
def Label.stage : Label → Stage
  | alpha => .alpha
  | beta => .beta
  | candidate => .candidate
  | patch => .patch

theorem Label.mark_stage (label : Label) : label.stage.mark = label.mark := by
  cases label <;> rfl

/-! ## Entries of tails -/

/-- What a tail says at one place: it ends, with the development mark or without it, or it goes on
with a number. -/
inductive Entry where
  | devEnd
  | plainEnd
  | number (value : ℕ)
deriving DecidableEq, Repr

namespace Entry

/-- The place of an entry among all of them: the marked end, the other end, the numbers. -/
def height : Entry → ℕ
  | devEnd => 0
  | plainEnd => 1
  | number value => value + 2

theorem height_injective : Function.Injective height := by
  intro first second same
  cases first <;> cases second <;> simp_all [height]

instance : LinearOrder Entry := LinearOrder.lift' height height_injective

theorem number_strictMono : StrictMono number :=
  fun _ _ below => Nat.add_lt_add_right below 2

theorem devEnd_lt_plainEnd : devEnd < plainEnd := Nat.zero_lt_one

theorem plainEnd_lt_number (value : ℕ) : plainEnd < number value :=
  Nat.succ_lt_succ (Nat.succ_pos value)

theorem devEnd_lt_number (value : ℕ) : devEnd < number value :=
  devEnd_lt_plainEnd.trans (plainEnd_lt_number value)

end Entry

/-- The entries of a tail with some numbers. -/
def tailEntries (numbers : List ℕ) (isDev : Bool) : List Entry :=
  numbers.map .number ++ [if isDev then .devEnd else .plainEnd]

/-- The marks behind the last number of a version, its end included. -/
def endMarks (isDev : Bool) : List Mark := if isDev then [.dev, .closing] else [.closing]

theorem Mark.number_strictMono : StrictMono Mark.number :=
  fun _ _ below => Prod.Lex.toLex_lt_toLex.mpr (.inr ⟨rfl, Nat.succ_lt_succ below⟩)

/-- A tail that ends stands below one that goes on. -/
theorem exists_endMarks_cons (isDev : Bool) :
    ∃ mark rest, endMarks isDev = mark :: rest ∧ ∀ value, mark < .number value := by
  cases isDev with
  | false => exact ⟨.closing, [], rfl, Standing.closing_lt_number⟩
  | true =>
      refine ⟨.dev, [.closing], rfl, fun value => ?_⟩
      exact Standing.dev_lt_closing.trans (Standing.closing_lt_number value)

theorem exists_tailEntries_nil (isDev : Bool) :
    ∃ entry, tailEntries [] isDev = [entry] ∧ ∀ value, entry < .number value := by
  cases isDev with
  | false => exact ⟨.plainEnd, rfl, Entry.plainEnd_lt_number⟩
  | true => exact ⟨.devEnd, rfl, Entry.devEnd_lt_number⟩

theorem tailEntries_cons (value : ℕ) (numbers : List ℕ) (isDev : Bool) :
    tailEntries (value :: numbers) isDev = .number value :: tailEntries numbers isDev := rfl

/-- Comparing the marks of two tails, with their ends, is comparing their entries. -/
theorem compareLex_tail (numbers numbers' : List ℕ) (isDev isDev' : Bool) :
    List.compareLex cmp (numbers.map .number ++ endMarks isDev)
        (numbers'.map .number ++ endMarks isDev') =
      List.compareLex cmp (tailEntries numbers isDev) (tailEntries numbers' isDev') := by
  -- along both tails at once: where one ends first, what closes it stands below the next number
  induction numbers generalizing numbers' with
  | nil =>
      cases numbers' with
      | nil => cases isDev <;> cases isDev' <;> decide
      | cons value' numbers' =>
          obtain ⟨mark, rest, marks, below⟩ := exists_endMarks_cons isDev
          obtain ⟨entry, entries, below'⟩ := exists_tailEntries_nil isDev
          rw [List.map_nil, List.nil_append, marks, List.map_cons, List.cons_append, entries,
            tailEntries_cons, compareLex_cmp_cons_of_ne (below value').ne,
            compareLex_cmp_cons_of_ne (below' value').ne, (below value').cmp_eq_lt,
            (below' value').cmp_eq_lt]
  | cons value numbers ih =>
      cases numbers' with
      | nil =>
          obtain ⟨mark, rest, marks, below⟩ := exists_endMarks_cons isDev'
          obtain ⟨entry, entries, below'⟩ := exists_tailEntries_nil isDev'
          rw [List.map_nil, List.nil_append, marks, List.map_cons, List.cons_append, entries,
            tailEntries_cons, compareLex_cmp_cons_of_ne (below value).ne',
            compareLex_cmp_cons_of_ne (below' value).ne', (below value).cmp_eq_gt,
            (below' value).cmp_eq_gt]
      | cons value' numbers' =>
          rw [List.map_cons, List.map_cons, List.cons_append, List.cons_append,
            List.compareLex_cons_cons, ih, tailEntries_cons, tailEntries_cons,
            List.compareLex_cons_cons, Mark.number_strictMono.cmp_map_eq,
            Entry.number_strictMono.cmp_map_eq]

/-- Two tails have the same entries only if they have the same numbers and the same end. -/
theorem tailEntries_inj {numbers numbers' : List ℕ} {isDev isDev' : Bool} :
    tailEntries numbers isDev = tailEntries numbers' isDev' ↔
      numbers = numbers' ∧ isDev = isDev' := by
  have numbers_inj : Function.Injective (List.map Entry.number) :=
    List.map_injective_iff.mpr fun _ _ => Entry.number.inj
  have end_inj (isDev isDev' : Bool) :
      (if isDev then Entry.devEnd else .plainEnd) = (if isDev' then .devEnd else .plainEnd) ↔
        isDev = isDev' := by
    cases isDev <;> cases isDev' <;> decide
  rw [tailEntries, tailEntries, ← List.concat_eq_append, ← List.concat_eq_append, List.concat_inj,
    numbers_inj.eq_iff, end_inj]

/-! ## Numbers of a tail -/

/-- The numbers of a tail, in their order. -/
def tailNumbers (tail : Text) : List ℕ :=
  ((tail.splitOnP Modifier.isJoint).filter (· ≠ [])).map Part.value

/-- A character that joins nothing goes to the front of the first piece. -/
theorem filter_splitOnP_cons {c : Char} (plain : Modifier.isJoint c = false) (tail : Text) :
    ∃ piece pieces, tail.splitOnP Modifier.isJoint = piece :: pieces ∧
      ((c :: tail).splitOnP Modifier.isJoint).filter (· ≠ []) =
        (c :: piece) :: pieces.filter (· ≠ []) := by
  obtain ⟨piece, pieces, split⟩ :=
    List.exists_cons_of_ne_nil (List.splitOnP_ne_nil Modifier.isJoint tail)
  refine ⟨piece, pieces, split, ?_⟩
  rw [List.splitOnP_cons_eq_if_modifyHead, plain, split]
  rfl

/-- A digit in front of a tail goes to its first piece, or makes a piece by itself. -/
theorem runs_cons_of_isDigit {c : Char} {tail : Text} (digit : c.isDigit = true)
    (joint : Modifier.isJoint c = false)
    (ascii : ∀ d ∈ tail, (d.isDigit || Modifier.isJoint d) = true)
    (further : runs tail = (tail.splitOnP Modifier.isJoint).filter (· ≠ [])) :
    runs (c :: tail) = ((c :: tail).splitOnP Modifier.isJoint).filter (· ≠ []) := by
  have plain := isSeparator_of_isDigit digit
  obtain ⟨piece, pieces, split, whole⟩ := filter_splitOnP_cons joint tail
  rw [whole]
  cases tail with
  | nil =>
      obtain ⟨rfl, rfl⟩ := List.cons.inj split
      exact runs_cons_of_stops plain (by simp [Stops])
  | cons d tail =>
      obtain ⟨second, -⟩ := List.forall_mem_cons.mp ascii
      cases joint' : Modifier.isJoint d with
      | true =>
          have stops : Stops c.isDigit (d :: tail) := by
            rintro x ⟨⟩
            exact .inl (isSeparator_of_isJoint joint')
          rw [List.splitOnP_cons_eq_if_modifyHead, joint', if_pos rfl] at split
          obtain ⟨rfl, rfl⟩ := List.cons.inj split
          rw [runs_cons_of_stops plain stops, further,
            List.splitOnP_cons_eq_if_modifyHead, joint']
          rfl
      | false =>
          have digit' : d.isDigit = true := by simpa [joint'] using second
          obtain ⟨piece', pieces', split', whole'⟩ := filter_splitOnP_cons joint' tail
          rw [List.splitOnP_cons_eq_if_modifyHead, joint', split'] at split
          obtain ⟨rfl, rfl⟩ := List.cons.inj split
          rw [whole'] at further
          exact runs_cons_cons plain (isSeparator_of_isDigit digit') (digit'.trans digit.symm)
            further

/-- A tail of plain digits and joints is cut at its joints. -/
theorem runs_tail {tail : Text}
    (ascii : ∀ c ∈ tail, (c.isDigit || Modifier.isJoint c) = true) :
    runs tail = (tail.splitOnP Modifier.isJoint).filter (· ≠ []) := by
  induction tail with
  | nil => rfl
  | cons c tail ih =>
      obtain ⟨first, ascii⟩ := List.forall_mem_cons.mp ascii
      cases joint : Modifier.isJoint c with
      | true =>
          rw [runs_cons_of_isSeparator (isSeparator_of_isJoint joint), ih ascii,
            List.splitOnP_cons_eq_if_modifyHead, joint]
          rfl
      | false => exact runs_cons_of_isDigit (by simpa [joint] using first) joint ascii (ih ascii)

/-- The marks of a tail are its numbers. -/
theorem runMarks_tail {tail : Text} (isTail : IsPlainTail tail) :
    runMarks tail = (tailNumbers tail).map .number := by
  have ofPart : ∀ run ∈ runs tail, Mark.ofPart run = .number (Part.value run) := by
    intro run cut
    have isRun := isRun_of_mem_runs cut
    obtain ⟨c, rest, rfl⟩ := List.exists_cons_of_ne_nil isRun.nonempty
    have inside : c ∈ tail := by
      have among : c ∈ (runs tail).flatten := List.mem_flatten_of_mem cut List.mem_cons_self
      rw [flatten_runs] at among
      exact List.mem_of_mem_filter among
    have plain := isRun.unseparated c List.mem_cons_self
    have digit : c.isDigit = true := by
      refine (Bool.or_eq_true_iff.mp (isTail.ascii c inside)).resolve_right fun joint => ?_
      rw [isSeparator_of_isJoint joint] at plain
      cases plain
    exact if_pos digit
  rw [runMarks, List.map_congr_left ofPart, tailNumbers, ← runs_tail isTail.ascii, List.map_map]
  rfl

/-! ## Comparison -/

namespace NumericForm

variable (form form' : NumericForm)

/-- The label of a version. -/
def label : Option Label := form.labelled.map Prod.fst

/-- The stage of a version: that of its label, or that of its development mark, or the release. -/
def stage : Stage :=
  match form.label with
  | some label => label.stage
  | none => if form.isDev then .dev else .release

/-- The numbers behind the label of a version. -/
def labelNumbers : List ℕ := (form.labelled.map fun pair => tailNumbers pair.2).getD []

/-- What a version says behind its label. -/
def entries : List Entry := tailEntries form.labelNumbers form.isDev

/-- The marks behind the stage of a version, its end included. -/
def furtherMarks : List Mark :=
  match form.label with
  | some _ => form.labelNumbers.map .number ++ endMarks form.isDev
  | none => if form.isDev then [.closing] else []

theorem runMarks_devSuffix : runMarks form.devSuffix ++ [.closing] = endMarks form.isDev := by
  rw [devSuffix]
  cases form.isDev <;> decide

/-- Behind the numbers stand the stage and what goes on from it. -/
theorem runMarks_suffix :
    runMarks form.suffix ++ [.closing] = form.stage.mark :: form.furtherMarks := by
  cases labelled : form.labelled with
  | some pair =>
      obtain ⟨label, tail⟩ := pair
      have isTail := form.isTail _ labelled
      rw [form.runMarks_suffix_of_labelled labelled, runMarks_append tail form.separated_devSuffix,
        runMarks_tail isTail, List.cons_append, List.append_assoc, runMarks_devSuffix]
      simp [stage, furtherMarks, NumericForm.label, labelNumbers, labelled, label.mark_stage]
  | none =>
      rw [form.suffix_of_unlabelled labelled, runMarks_devSuffix]
      simp only [stage, furtherMarks, NumericForm.label, labelled, Option.map_none]
      cases form.isDev <;> rfl

theorem closed_standing :
    (standing form.text).closed =
      form.numbers.map .number ++ form.stage.mark :: form.furtherMarks := by
  have marks : (standing form.text).marks = form.numbers.map .number ++ runMarks form.suffix := by
    rw [← form.hasNumbers]
    exact form.toNumeral.marks_standing
  rw [Standing.closed, marks, List.append_assoc, runMarks_suffix]

/-- Versions share their stage if they share their label and, without one, the development mark. -/
theorem stage_eq_iff :
    form.stage = form'.stage ↔
      form.label = form'.label ∧ (form.label = none → form.isDev = form'.isDev) := by
  rw [stage, stage]
  generalize form.label = label
  generalize form'.label = label'
  cases label with
  | none =>
      cases label' with
      | none => cases form.isDev <;> cases form'.isDev <;> simp
      | some label' => cases form.isDev <;> cases label' <;> simp [Label.stage]
  | some label =>
      cases label' with
      | none => cases form'.isDev <;> cases label <;> simp [Label.stage]
      | some label' => cases label <;> cases label' <;> simp [Label.stage]

theorem labelNumbers_of_unlabelled (unlabelled : form.label = none) : form.labelNumbers = [] := by
  rw [labelNumbers, Option.map_eq_none_iff.mp unlabelled]
  rfl

/-- At one stage the entries decide. -/
theorem compareLex_furtherMarks (level : form.stage = form'.stage) :
    List.compareLex cmp form.furtherMarks form'.furtherMarks =
      List.compareLex cmp form.entries form'.entries := by
  obtain ⟨same, ending⟩ := (form.stage_eq_iff form').mp level
  cases labelled : form.label with
  | some label =>
      rw [furtherMarks, furtherMarks, ← same, labelled]
      exact compareLex_tail _ _ _ _
  | none =>
      have marks : form.furtherMarks = form'.furtherMarks := by
        rw [furtherMarks, furtherMarks, ← same, labelled, ending labelled]
      have entries : form.entries = form'.entries := by
        rw [NumericForm.entries, NumericForm.entries, form.labelNumbers_of_unlabelled labelled,
          form'.labelNumbers_of_unlabelled (same ▸ labelled), ending labelled]
      rw [marks, entries, compareLex_self, compareLex_self]

/-- Behind the numbers the stage decides, and then the entries. -/
theorem compareLex_stage :
    List.compareLex cmp (form.stage.mark :: form.furtherMarks)
        (form'.stage.mark :: form'.furtherMarks) =
      (cmp form.stage form'.stage).then (List.compareLex cmp form.entries form'.entries) := by
  rw [List.compareLex_cons_cons, Stage.mark_strictMono.cmp_map_eq]
  rcases lt_trichotomy form.stage form'.stage with below | level | above
  · rw [below.cmp_eq_lt, Ordering.lt_then, Ordering.lt_then]
  · rw [form.compareLex_furtherMarks form' level]
  · rw [above.cmp_eq_gt, Ordering.gt_then, Ordering.gt_then]

/-- Numeric normal forms are compared by their numbers, then by their stages, then by what they say
behind their labels. They are level exactly if they have the same numbers before and behind the
same label, and the same development mark. -/
theorem compare_text :
    compare form.text form'.text =
        (cmp form.numbers form'.numbers).then
          ((cmp form.stage form'.stage).then (cmp form.entries form'.entries)) ∧
      (compare form.text form'.text = .eq ↔
        form.numbers = form'.numbers ∧ form.label = form'.label ∧
          form.labelNumbers = form'.labelNumbers ∧ form.isDev = form'.isDev) := by
  have order : compare form.text form'.text =
      (cmp form.numbers form'.numbers).then
        ((cmp form.stage form'.stage).then (cmp form.entries form'.entries)) := by
    have length : (form.numbers.map Mark.number).length =
        (form'.numbers.map Mark.number).length := by
      rw [List.length_map, List.length_map, form.length_numbers, form'.length_numbers]
    rw [compare_eq_compareLex form.isNumeral_text.unsigned form'.isNumeral_text.unsigned,
      closed_standing, closed_standing, compareLex_append length, compareLex_stage,
      compareLex_map Mark.number_strictMono, compareLex_cmp, compareLex_cmp]
  refine ⟨order, ?_⟩
  rw [order, Ordering.then_eq_eq, Ordering.then_eq_eq, cmp_eq_eq_iff, cmp_list_eq_iff,
    cmp_list_eq_iff, stage_eq_iff, entries, entries, tailEntries_inj]
  constructor
  · rintro ⟨numbers, ⟨label, -⟩, behind⟩
    exact ⟨numbers, label, behind⟩
  · rintro ⟨numbers, label, behind⟩
    exact ⟨numbers, ⟨label, fun _ => behind.2⟩, behind⟩

end NumericForm

end VersionRanges.Version

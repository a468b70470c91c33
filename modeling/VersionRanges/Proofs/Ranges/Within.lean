/-
# Literals in their own ranges

The suffix at the low end of a range is that of its literal, or it goes on from that one with a name
that stands below the end of a version. So the low end is no greater than the literal, and the
literal lies in each range that is written from it, and in none that leaves it out.
-/
import VersionRanges.Proofs.Ranges.Pins

namespace VersionRanges

open Version (standing runMarks)

/-! ## Suffixes that lower a version -/

namespace Version

/-- A suffix goes on from another with a name that stands below the end. -/
def Lowers (suffix lower : Text) : Prop :=
  ∃ mark rest, runMarks lower = runMarks suffix ++ mark :: rest ∧ mark < .closing

/-- The development mark of a bound lowers any suffix. -/
theorem lowers_append_lowest (suffix : Text) : Lowers suffix (suffix ++ Range.lowest) :=
  ⟨.dev, [], runMarks_append suffix isSuffix_lowest.separated, Standing.dev_lt_closing⟩

/-- The order knows no name that begins like `stable`. -/
theorem Mark.ofPart_cons_s (name : Text) : Mark.ofPart ('s' :: name) = .unknown := by
  have number : ¬ Part.isNumber ('s' :: name) = true := by simp [Part.isNumber]
  rw [Mark.ofPart, if_neg number]
  simp [Mark.ofName, Mark.patchNames]

theorem lowers_stable (rest : Text) : Lowers [] ("-stable".toList ++ rest) := by
  obtain ⟨run, more, cut⟩ := exists_runs_cons (d := 's') rfl ("table".toList ++ rest)
  have hyphen : runs ("-stable".toList ++ rest) = runs ('s' :: ("table".toList ++ rest)) :=
    runs_cons_of_isSeparator rfl _
  refine ⟨.unknown, more.map Mark.ofPart, ?_, Prod.Lex.toLex_lt_toLex.mpr (.inl (by decide))⟩
  rw [runMarks, hyphen, cut, List.map_cons, Mark.ofPart_cons_s]
  rfl

end Version

namespace Range

open Version (Lowers lowers_append_lowest)

variable {modifier : Modifier}

theorem lowSuffix_cases (modifier : Modifier) :
    lowSuffix modifier = modifier.suffix ∨ Lowers modifier.suffix (lowSuffix modifier) := by
  rw [lowSuffix]
  split
  · next silent =>
    rw [Modifier.suffix_of_isSilent silent]
    exact .inr (lowers_append_lowest [])
  · exact .inl rfl

theorem tildeSuffix_eq_lowSuffix (kept : modifier.label.map Char.toLower ≠ "stable".toList) :
    tildeSuffix modifier = lowSuffix modifier := by
  rw [tildeSuffix, lowSuffix, Modifier.suffix, if_neg kept]

/-- A tilde range keeps the label `stable`, which lowers the version. -/
theorem lowers_tildeSuffix (wellFormed : modifier.IsWellFormed)
    (dropped : modifier.label.map Char.toLower = "stable".toList) :
    Lowers modifier.suffix (tildeSuffix modifier) := by
  have labelled := Modifier.hasLabel_of_dropped dropped
  have listed := wellFormed.label.resolve_left (by simpa [Modifier.hasLabel] using labelled)
  have expanded : Modifier.expandLabel modifier.label = "stable".toList := by
    rw [Modifier.expandLabel, Modifier.lowercase_eq_map_of_listed listed, dropped]
    rfl
  rw [tildeSuffix, if_neg (Modifier.not_isSilent_of_dropped dropped), Modifier.suffix,
    if_pos dropped, Modifier.labelSuffix, if_pos labelled, expanded, List.append_assoc]
  exact Version.lowers_stable _

theorem tildeSuffix_cases (wellFormed : modifier.IsWellFormed) :
    tildeSuffix modifier = modifier.suffix ∨ Lowers modifier.suffix (tildeSuffix modifier) := by
  by_cases dropped : modifier.label.map Char.toLower = "stable".toList
  · exact .inr (lowers_tildeSuffix wellFormed dropped)
  · rw [tildeSuffix_eq_lowSuffix dropped]
    exact lowSuffix_cases modifier

/-- The low end of a form has the suffix of its literal, or one that lowers it. -/
theorem Form.suffix_cases (form : Form) (text : Text) (wellFormed : modifier.IsWellFormed) :
    form.suffix text modifier = modifier.suffix ∨
      Lowers modifier.suffix (form.suffix text modifier) := by
  cases form with
  | atLeast =>
      rw [suffix]
      split
      · exact .inl (List.append_nil _)
      · exact .inr (lowers_append_lowest _)
  | caret => exact lowSuffix_cases modifier
  | tilde => exact tildeSuffix_cases wellFormed
  | hyphen => exact lowSuffix_cases modifier

end Range

/-! ## Ends around a literal -/

namespace Literal.Respells

variable {literal : Literal} {version version' suffix suffix' : Text}

theorem isNumeral (respells : literal.Respells suffix version) : Version.IsNumeral version :=
  respells.imp fun _ spelled => spelled.1

theorem standing_eq (respells : literal.Respells suffix version)
    (respells' : literal.Respells suffix version') : standing version = standing version' := by
  obtain ⟨numeral, rfl, same, components⟩ := respells
  obtain ⟨numeral', rfl, same', components'⟩ := respells'
  exact Version.Numeral.standing_congr (components.trans components'.symm)
    (by rw [same, same'])

theorem standing_lt (respells : literal.Respells suffix version)
    (respells' : literal.Respells suffix' version') (lowers : Version.Lowers suffix suffix') :
    standing version' < standing version := by
  obtain ⟨numeral, rfl, rfl, components⟩ := respells
  obtain ⟨numeral', rfl, rfl, components'⟩ := respells'
  obtain ⟨mark, rest, goesOn, below⟩ := lowers
  exact Version.Numeral.standing_lt_of_suffix (components'.trans components.symm) goesOn below

end Literal.Respells

/-- Versions made of components stand in the relation of an operator if their standings do. -/
theorem Version.IsNumeral.admits_iff {version version' : Text} (op : Operator)
    (isNumeral : IsNumeral version) (isNumeral' : IsNumeral version') :
    (⟨op, version⟩ : Bound).admits version' = true ↔
      op.Relates (standing version') (standing version) :=
  Comparison.holds_iff_relates op isNumeral'.unsigned isNumeral.unsigned isNumeral'.release
    isNumeral.release

namespace Literal

variable {literal : Literal}

theorem IsWellFormed.respells_normalForm (wellFormed : literal.IsWellFormed) :
    literal.Respells literal.modifier.suffix literal.normalForm :=
  wellFormed.respells (Version.isSuffix_suffix wellFormed.modifier)

/-- A literal meets the bound at its low end. -/
theorem IsWellFormed.admits_low {suffix low : Text} (wellFormed : literal.IsWellFormed)
    (respells : literal.Respells suffix low)
    (lowers : suffix = literal.modifier.suffix ∨ Version.Lowers literal.modifier.suffix suffix) :
    (⟨.ge, low⟩ : Bound).admits literal.normalForm = true := by
  have own := wellFormed.respells_normalForm
  refine (Version.IsNumeral.admits_iff .ge respells.isNumeral own.isNumeral).mpr ?_
  change standing low ≤ standing literal.normalForm
  rcases lowers with rfl | lowers
  · exact (respells.standing_eq own).le
  · exact (own.standing_lt respells lowers).le

/-- A literal meets a bound that it is below. -/
theorem IsUpper.admits {high : Bound} (upper : literal.IsUpper high)
    (wellFormed : literal.IsWellFormed) : high.admits literal.normalForm = true := by
  have own := wellFormed.respells_normalForm
  rcases upper with rfl | ⟨numeral, rfl, above⟩
  · exact (Version.IsNumeral.admits_iff .le own.isNumeral own.isNumeral).mpr le_rfl
  · exact (Version.IsNumeral.admits_iff .lt ⟨numeral, rfl⟩ own.isNumeral).mpr (above own)

end Literal

/-! ## Satisfaction -/

namespace Selection

open Constraint

section

variable {text : Text} {literal : Literal} (reads : Literal.ofVersion? text = some literal)

include reads

/-- A literal satisfies each form that is written from it and can be read. -/
theorem satisfies_form (form : Range.Form)
    (parses : ∃ required, parse (form.write text) = .ok required) :
    satisfies text (form.write text) = true := by
  obtain ⟨required, parses⟩ := parses
  have wellFormed := Literal.isWellFormed_of_ofVersion? reads
  have lone := isLone_form reads form
  have range := lone.readBounds_of_parse parses
  obtain ⟨low, highs, bounds, respells, upper⟩ := exists_of_readBounds_form reads range
  have lowers := form.suffix_cases text wellFormed.modifier
  rw [lone.satisfies_eq range (Version.normalize_of_literal reads), bounds, List.all_cons,
    Bool.and_eq_true, List.all_eq_true]
  exact ⟨wellFormed.admits_low respells lowers,
    fun high listed => (upper high listed).admits wellFormed⟩

/-- A literal satisfies the constraint that it is by itself. -/
theorem satisfies_literal : satisfies text text = true := by
  have wellFormed := Literal.isWellFormed_of_ofVersion? reads
  have isToken : Comparator.IsToken [] .eq := ⟨by decide, rfl⟩
  have lone := isLone_comparator (Version.isNumbered_of_literal reads) isToken
  have isNumeral := wellFormed.respells_normalForm.isNumeral
  rw [List.nil_append] at lone
  rw [lone.satisfies_eq (readBounds_literal reads) (Version.normalize_of_literal reads),
    List.all_cons, List.all_nil, Bool.and_true]
  exact (Version.IsNumeral.admits_iff .eq isNumeral isNumeral).mpr rfl

/-- A literal beside the version that a comparator makes of it. -/
theorem satisfies_token {token : Text} {op : Operator} (isToken : Comparator.IsToken token op)
    (filled : token ≠ []) :
    satisfies text (token ++ text) = op.admits (Version.compare literal.normalForm
      (Comparator.bounded token text literal.normalForm none)) := by
  have wellFormed := Literal.isWellFormed_of_ofVersion? reads
  have readable := Version.normalize_of_literal reads
  have single := wellFormed.respells_normalForm.isNumeral.release
  obtain ⟨c, rest, begins, digit⟩ := wellFormed.exists_normalForm_cons
  have release (previews : Text) : Branch.isBranch (literal.normalForm ++ previews) = false := by
    rw [begins]
    exact Branch.isBranch_cons (Text.ne_of_isDecimalDigit digit (by decide)) _
  exact satisfies_comparator (Version.isNumbered_of_literal reads) readable isToken filled release
    readable single

/-- A comparator that does not lower its version compares a literal to itself. -/
theorem satisfies_token_of_kept {token : Text} {op : Operator}
    (isToken : Comparator.IsToken token op) (filled : token ≠ [])
    (kept : (token = ['<'] || token = ['>', '=']) = false) :
    satisfies text (token ++ text) = op.admits .eq := by
  rw [satisfies_token reads isToken filled, Comparator.bounded_of_literal reads, kept,
    Bool.false_and, if_neg Bool.false_ne_true, Version.compare_self]

end

/-- A literal satisfies itself, the comparators that take it in, and each range written from it that
can be read. The comparators that leave it out can be read, and the literal satisfies none of
them. -/
theorem satisfies_own {text : Text} {literal : Literal}
    (reads : Literal.ofVersion? text = some literal) :
    (∀ token ∈ ["".toList, "=".toList, ">=".toList, "<=".toList],
        satisfies text (token ++ text) = true) ∧
      (∀ range ∈ ['^' :: text, '~' :: text, text ++ ' ' :: '-' :: ' ' :: text],
        (∃ required, parse range = .ok required) → satisfies text range = true) ∧
      ∀ token ∈ ["<".toList, ">".toList, "!=".toList],
        (∃ required, parse (token ++ text) = .ok required) ∧
          satisfies text (token ++ text) = false := by
  have numbered := Version.isNumbered_of_literal reads
  have readable := Version.normalize_of_literal reads
  have equal : Comparator.IsToken "=".toList .eq := ⟨by decide, rfl⟩
  have atLeast : Comparator.IsToken ">=".toList .ge := ⟨by decide, rfl⟩
  have atMost : Comparator.IsToken "<=".toList .le := ⟨by decide, rfl⟩
  have below : Comparator.IsToken "<".toList .lt := ⟨by decide, rfl⟩
  have above : Comparator.IsToken ">".toList .gt := ⟨by decide, rfl⟩
  have apart : Comparator.IsToken "!=".toList .ne := ⟨by decide, rfl⟩
  have least : satisfies text (">=".toList ++ text) = true :=
    satisfies_form reads .atLeast (exists_parse_comparator numbered readable atLeast (by decide))
  -- Both comparators lower the literal in the same way, and so the one excludes the other.
  have less : satisfies text ("<".toList ++ text) = false := by
    have lowered : Comparator.bounded "<".toList text literal.normalForm none =
        Comparator.bounded ">=".toList text literal.normalForm none := by
      rw [Comparator.bounded_of_literal reads, Comparator.bounded_of_literal reads]
      rfl
    rw [satisfies_token reads atLeast (by decide)] at least
    rw [satisfies_token reads below (by decide), lowered]
    exact (Operator.admits_opposite .ge _).trans (congrArg not least)
  refine ⟨?_, ?_, ?_⟩
  · simp only [List.forall_mem_cons]
    exact ⟨satisfies_literal reads, satisfies_token_of_kept reads equal (by decide) (by decide),
      least, satisfies_token_of_kept reads atMost (by decide) (by decide), List.forall_mem_nil _⟩
  · simp only [List.forall_mem_cons]
    exact ⟨satisfies_form reads .caret, satisfies_form reads .tilde, satisfies_form reads .hyphen,
      List.forall_mem_nil _⟩
  · simp only [List.forall_mem_cons]
    exact ⟨⟨exists_parse_comparator numbered readable below (by decide), less⟩,
      ⟨exists_parse_comparator numbered readable above (by decide),
        satisfies_token_of_kept reads above (by decide) (by decide)⟩,
      ⟨exists_parse_comparator numbered readable apart (by decide),
        satisfies_token_of_kept reads apart (by decide) (by decide)⟩, List.forall_mem_nil _⟩

/-- A preview of two components, written without a hyphen, in the ranges that are written from it,
and outside of the range of the versions below it. -/
theorem satisfies_own_candidate :
    satisfies "v1.2RC3".toList "^v1.2RC3".toList = true ∧
      satisfies "v1.2RC3".toList "~v1.2RC3".toList = true ∧
      satisfies "v1.2RC3".toList "v1.2RC3 - v1.2RC3".toList = true ∧
      satisfies "v1.2RC3".toList "<v1.2RC3".toList = false := by
  have reads : Literal.ofVersion? "v1.2RC3".toList =
      some ⟨"1".toList, ["2".toList], ⟨"RC".toList, "3".toList, false⟩⟩ := by decide
  obtain ⟨-, ranges, comparators⟩ := satisfies_own reads
  refine ⟨?_, ?_, ?_, (comparators "<".toList (by simp)).2⟩
  · exact ranges _ (by simp) ⟨_, rfl⟩
  · exact ranges _ (by simp) ⟨_, rfl⟩
  · exact ranges _ (by simp) ⟨_, rfl⟩

end Selection

end VersionRanges

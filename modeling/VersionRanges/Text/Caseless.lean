/-
# Spellings without regard to case

Keywords of the version and constraint grammars are written in either case. The comparison folds
ASCII letters, and the two letters beyond ASCII that fold to one of them: the long s and the Kelvin
sign.
-/
import VersionRanges.Text.Basic

namespace VersionRanges.Text

/-- The letter that a character stands for in a keyword. -/
def foldCase (c : Char) : Char :=
  if c = 'ſ' then 's' else if c = '\u212A' then 'k' else c.toLower

/-- Whether a text spells a keyword, which is given in lower case. -/
def spells (keyword text : Text) : Bool := text.map foldCase == keyword

/-- Splits a text into the spelling of a keyword, given in lower case, and the rest. -/
def keyword? : Text → Text → Option (Text × Text)
  | [], text => some ([], text)
  | _ :: _, [] => none
  | k :: keyword, c :: text =>
    if foldCase c = k then
      (keyword? keyword text).map fun (spelling, rest) => (c :: spelling, rest)
    else none

/-- The spelling that `keyword?` takes off and the rest make up the text. -/
theorem eq_append_of_keyword? {keyword text spelling rest : Text}
    (split : keyword? keyword text = some (spelling, rest)) : text = spelling ++ rest := by
  induction keyword generalizing text spelling with
  | nil =>
    simp only [keyword?, Option.some.injEq, Prod.mk.injEq] at split
    simp [← split.1, ← split.2]
  | cons k keyword ih =>
    cases text with
    | nil => simp [keyword?] at split
    | cons c text =>
      simp only [keyword?] at split
      split at split
      · simp only [Option.map_eq_some_iff, Prod.mk.injEq, Prod.exists] at split
        obtain ⟨tail, left, inner, rfl, rfl⟩ := split
        simp [← ih inner]
      · simp at split

end VersionRanges.Text

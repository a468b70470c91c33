/-
# Runs and parts

What `runs` and `parts` cut a version into, stated without their recursions. A run is a word of one
kind, digits or other characters, and cutting takes each run off whole: what follows it is cut as if
it stood alone. Versions that begin with a number sign are cut at dots and are left aside here.
-/
import Mathlib.Data.List.Basic
import VersionRanges.Proofs.Text.Blank
import VersionRanges.Version.Part

namespace VersionRanges.Version

/-! ## Runs -/

/-- A word that `runs` leaves in one piece: it holds no separator, and either digits alone or no
digit. -/
structure IsRun (run : Text) : Prop where
  nonempty : run ≠ []
  unseparated : ∀ c ∈ run, isSeparator c = false
  uniform : ∃ digit : Bool, ∀ c ∈ run, c.isDigit = digit

/-- A text does not go on with a character of the given kind, digits or others. -/
def Stops (digit : Bool) (rest : Text) : Prop :=
  ∀ d ∈ rest.head?, isSeparator d = true ∨ d.isDigit ≠ digit

theorem runs_cons_of_isSeparator {c : Char} (separator : isSeparator c = true) (rest : Text) :
    runs (c :: rest) = runs rest := by
  simp [runs, separator]

/-- A character before text of another kind is a run by itself. -/
theorem runs_cons_of_stops {c : Char} {rest : Text} (plain : isSeparator c = false)
    (stops : Stops c.isDigit rest) : runs (c :: rest) = [c] :: runs rest := by
  cases rest with
  | nil => simp [runs, plain]
  | cons d rest =>
      have apart : (!isSeparator d && d.isDigit == c.isDigit) = false := by
        rcases stops d rfl with separator | other
        · simp [separator]
        · simp [other]
      conv_lhs => unfold runs
      cases runs (d :: rest) with
      | nil => simp [plain]
      | cons run more => simp [plain, apart]

/-- A character before a character of its kind lengthens the first run. -/
theorem runs_cons_cons {c d : Char} {rest run : Text} {more : List Text}
    (plain : isSeparator c = false) (plain' : isSeparator d = false)
    (same : d.isDigit = c.isDigit) (next : runs (d :: rest) = run :: more) :
    runs (c :: d :: rest) = (c :: run) :: more := by
  conv_lhs => unfold runs
  simp [next, plain, plain', same]

/-- A whole run is cut off where the text goes on with another kind. -/
theorem runs_append {run rest : Text} {digit : Bool} (nonempty : run ≠ [])
    (unseparated : ∀ c ∈ run, isSeparator c = false) (uniform : ∀ c ∈ run, c.isDigit = digit)
    (stops : Stops digit rest) : runs (run ++ rest) = run :: runs rest := by
  induction run with
  | nil => exact absurd rfl nonempty
  | cons c run ih =>
      have plain := unseparated c List.mem_cons_self
      have kind := uniform c List.mem_cons_self
      cases run with
      | nil => exact runs_cons_of_stops plain (kind ▸ stops)
      | cons d run =>
          have plain' := unseparated d (by simp)
          have kind' := uniform d (by simp)
          apply runs_cons_cons plain plain' (kind'.trans kind.symm)
          exact ih (by simp) (fun x inside => unseparated x (List.mem_cons_of_mem c inside))
            (fun x inside => uniform x (List.mem_cons_of_mem c inside))

/-- Text that begins with a plain character begins with a run of that character. -/
theorem exists_runs_cons {d : Char} (plain : isSeparator d = false) (rest : Text) :
    ∃ run more, runs (d :: rest) = (d :: run) :: more := by
  induction rest generalizing d with
  | nil => exact ⟨[], [], by simp [runs, plain]⟩
  | cons e rest ih =>
      by_cases joins : isSeparator e = false ∧ e.isDigit = d.isDigit
      · obtain ⟨run, more, next⟩ := ih joins.1
        exact ⟨e :: run, more, runs_cons_cons plain joins.1 joins.2 next⟩
      · refine ⟨[], runs (e :: rest), runs_cons_of_stops plain ?_⟩
        rintro x ⟨⟩
        by_cases separator : isSeparator e = true
        · exact .inl separator
        · exact .inr fun same => joins ⟨by simpa using separator, same⟩

/-- All that `runs` does with one more character: it skips a separator, and makes any other
character a run by itself or the first character of the run that follows. -/
theorem runs_cons (c : Char) (rest : Text) :
    (isSeparator c = true ∧ runs (c :: rest) = runs rest) ∨
    (isSeparator c = false ∧ runs (c :: rest) = [c] :: runs rest) ∨
    (isSeparator c = false ∧ ∃ d run more, d.isDigit = c.isDigit ∧
      runs rest = (d :: run) :: more ∧ runs (c :: rest) = (c :: d :: run) :: more) := by
  by_cases separator : isSeparator c = true
  · exact .inl ⟨separator, runs_cons_of_isSeparator separator rest⟩
  · have plain : isSeparator c = false := by simpa using separator
    by_cases stops : Stops c.isDigit rest
    · exact .inr (.inl ⟨plain, runs_cons_of_stops plain stops⟩)
    · cases rest with
      | nil => exact absurd (by simp [Stops]) stops
      | cons d rest =>
          have joins : isSeparator d = false ∧ d.isDigit = c.isDigit := by
            simpa [Stops] using stops
          obtain ⟨run, more, next⟩ := exists_runs_cons joins.1 rest
          exact .inr (.inr ⟨plain, d, run, more, joins.2, next,
            runs_cons_cons plain joins.1 joins.2 next⟩)

/-- Two texts are cut each by itself where a separator or a change of kind stands between them. -/
theorem runs_append_of_apart (text : Text) {rest : Text}
    (apart : ∀ c ∈ text.getLast?, ∀ d ∈ rest.head?,
      isSeparator c = true ∨ isSeparator d = true ∨ c.isDigit ≠ d.isDigit) :
    runs (text ++ rest) = runs text ++ runs rest := by
  induction text with
  | nil => rfl
  | cons c text ih =>
      have ih := ih fun e ending => apart e (List.mem_getLast?_cons ending)
      by_cases separator : isSeparator c = true
      · rw [List.cons_append, runs_cons_of_isSeparator separator,
          runs_cons_of_isSeparator separator, ih]
      · have plain : isSeparator c = false := by simpa using separator
        by_cases stops : Stops c.isDigit text
        · have stops' : Stops c.isDigit (text ++ rest) := by
            cases text with
            | nil =>
                intro d first
                exact ((apart c rfl d first).resolve_left separator).imp_right Ne.symm
            | cons d text => exact stops
          rw [List.cons_append, runs_cons_of_stops plain stops, runs_cons_of_stops plain stops', ih,
            List.cons_append]
        · cases text with
          | nil => exact absurd (by simp [Stops]) stops
          | cons d text =>
              have joins : isSeparator d = false ∧ d.isDigit = c.isDigit := by
                simpa [Stops] using stops
              obtain ⟨run, more, next⟩ := exists_runs_cons joins.1 text
              rw [next, List.cons_append, List.cons_append] at ih
              rw [List.cons_append, List.cons_append, runs_cons_cons plain joins.1 joins.2 ih,
                runs_cons_cons plain joins.1 joins.2 next, List.cons_append]

/-- A separator cuts a text in two, each of which is cut by itself. -/
theorem runs_append_of_separated (text : Text) {rest : Text}
    (separated : ∀ c ∈ rest.head?, isSeparator c = true) :
    runs (text ++ rest) = runs text ++ runs rest :=
  runs_append_of_apart text fun _ _ d first => .inr (.inl (separated d first))

/-- Cutting yields runs and nothing else. -/
theorem isRun_of_mem_runs {text run : Text} (cut : run ∈ runs text) : IsRun run := by
  induction text generalizing run with
  | nil => simp [runs] at cut
  | cons c rest ih =>
      rcases runs_cons c rest with ⟨-, eq⟩ | ⟨plain, eq⟩ | ⟨plain, d, tail, more, same, next, eq⟩
      · exact ih (eq ▸ cut)
      · rw [eq] at cut
        rcases List.mem_cons.mp cut with rfl | later
        · exact ⟨by simp, by simpa using plain, c.isDigit, by simp⟩
        · exact ih later
      · rw [eq] at cut
        rcases List.mem_cons.mp cut with rfl | later
        · have first : IsRun (d :: tail) := ih (by simp [next])
          obtain ⟨digit, uniform⟩ := first.uniform
          have kind : c.isDigit = digit := same ▸ uniform d List.mem_cons_self
          exact ⟨by simp, List.forall_mem_cons.mpr ⟨plain, first.unseparated⟩, digit,
            List.forall_mem_cons.mpr ⟨kind, uniform⟩⟩
        · exact ih (by simp [next, later])

/-- Cutting drops the separators and keeps every other character in its place. -/
theorem flatten_runs (text : Text) :
    (runs text).flatten = text.filter (fun c => !isSeparator c) := by
  induction text with
  | nil => rfl
  | cons c rest ih =>
      rcases runs_cons c rest with ⟨sep, eq⟩ | ⟨plain, eq⟩ | ⟨plain, d, tail, more, -, next, eq⟩
      · simp [eq, sep, ih]
      · simp [eq, plain, ih]
      · rw [next] at ih
        simp [eq, plain, ← ih]

/-! ## Parts -/

/-- The empty part that a separator at the front of a text makes. -/
def frontPart (text : Text) : List Text := if text.head?.any isSeparator then [[]] else []

/-- Behind the blanks and without a number sign in front, the parts of a version are its runs, with
an empty part before them where a separator stands at the front. -/
theorem parts_eq_frontPart_append {version : Text}
    (unsigned : (Text.trim version).head? ≠ some '#') :
    parts version = frontPart (Text.trim version) ++ runs (Text.trim version) := by
  unfold parts frontPart
  cases trimmed : Text.trim version with
  | nil => rfl
  | cons c rest =>
      have other : c ≠ '#' := by simpa [trimmed] using unsigned
      by_cases separator : isSeparator c = true
      · simp [other, separator, runs_cons_of_isSeparator separator]
      · simp [other, separator]

/-- Without number signs, the parts of a version are the runs of the trimmed text, with an empty
part before them where a separator stands at the front. -/
theorem parts_cases {version : Text} (unsigned : '#' ∉ version) :
    parts version = runs (Text.trim version) ∨ parts version = [] :: runs (Text.trim version) := by
  have front : (Text.trim version).head? ≠ some '#' :=
    fun sign => unsigned (Text.mem_of_mem_trim (List.mem_of_head? sign))
  rw [parts_eq_frontPart_append front, frontPart]
  split
  · exact .inr rfl
  · exact .inl rfl

/-- The parts of a version with a plain character in front are its runs. -/
theorem parts_eq_runs {c : Char} {rest : Text} (plain : isSeparator c = false) (other : c ≠ '#')
    (solid : ∀ d ∈ c :: rest, Text.isBlank d = false) : parts (c :: rest) = runs (c :: rest) := by
  rw [parts, Text.trim_eq_self solid]
  simp [plain, other]

/-- A part is a run or empty. -/
theorem isRun_of_mem_parts {version part : Text} (unsigned : '#' ∉ version)
    (cut : part ∈ parts version) : part = [] ∨ IsRun part := by
  rcases parts_cases unsigned with eq | eq
  · exact .inr (isRun_of_mem_runs (eq ▸ cut))
  · rw [eq] at cut
    exact (List.mem_cons.mp cut).imp_right isRun_of_mem_runs

/-- Cutting a version into parts makes no character up. -/
theorem mem_of_mem_parts {version part : Text} {x : Char} (unsigned : '#' ∉ version)
    (cut : part ∈ parts version) (inside : x ∈ part) : x ∈ version := by
  have among : x ∈ (parts version).flatten := List.mem_flatten.mpr ⟨part, cut, inside⟩
  have kept : (parts version).flatten = (runs (Text.trim version)).flatten := by
    rcases parts_cases unsigned with eq | eq <;> simp [eq]
  rw [kept, flatten_runs] at among
  exact Text.mem_of_mem_trim (List.mem_filter.mp among).1

/-! ## Texts with given parts -/

/-- Words with a dot behind each of them. -/
def dotted (words : List Text) : Text := words.flatMap (· ++ ['.'])

theorem runs_dotted {words : List Text} (isRun : ∀ word ∈ words, IsRun word) :
    runs (dotted words) = words := by
  induction words with
  | nil => rfl
  | cons word words ih =>
      have first := isRun word List.mem_cons_self
      obtain ⟨digit, uniform⟩ := first.uniform
      have stops : Stops digit ('.' :: dotted words) := by
        rintro d ⟨⟩
        exact .inl rfl
      calc
        runs (dotted (word :: words)) = runs (word ++ '.' :: dotted words) := by simp [dotted]
        _ = word :: runs ('.' :: dotted words) :=
          runs_append first.nonempty first.unseparated uniform stops
        _ = word :: words := by
          rw [runs_cons_of_isSeparator rfl,
            ih fun w later => isRun w (List.mem_cons_of_mem word later)]

/-- Runs of plain letters and digits are the parts of the version that they make up. -/
theorem parts_dotted {words : List Text} (isRun : ∀ word ∈ words, IsRun word)
    (solid : ∀ c ∈ dotted words, Text.isBlank c = false) (unsigned : '#' ∉ dotted words) :
    parts (dotted words) = words := by
  cases words with
  | nil => rfl
  | cons word words =>
      have first := isRun word List.mem_cons_self
      obtain ⟨c, rest, eq⟩ := List.exists_cons_of_ne_nil first.nonempty
      have text : dotted (word :: words) = c :: (rest ++ '.' :: dotted words) := by
        simp [dotted, eq]
      have plain : isSeparator c = false := first.unseparated c (by simp [eq])
      have other : c ≠ '#' := by
        intro same
        subst same
        exact unsigned (by simp [text])
      have cut : parts (dotted (word :: words)) = runs (dotted (word :: words)) := by
        rw [text] at solid ⊢
        exact parts_eq_runs plain other solid
      rw [cut, runs_dotted isRun]

end VersionRanges.Version

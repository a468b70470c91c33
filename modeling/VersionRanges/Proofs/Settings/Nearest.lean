/-
# The nearest settings file

The search for a settings file asks at one directory after the other, from the start upwards, and
the first regular file ends it, whether its settings can be used or not. Dropping the last component
of a path takes a search that begins at an absolute path to the root, and one that begins at a
relative path to the empty path, in no more steps than there are components.

Going up is described first, step by step, where `Path.parents` lists all the paths above a path at
once. The search is then a loop that asks at a path and goes up from it, and what is said about the
whole of it follows by induction on the number of steps.
-/
import Mathlib.Data.List.DropRight
import Mathlib.Data.Nat.Find
import VersionRanges.Settings.FileTree

namespace VersionRanges

/-! ## Going up -/

namespace Path

/-- The path without its last component. Nothing can be dropped from the root and from the empty
path. -/
def parent? (path : Text) : Option Text :=
  match split path with
  | [] => none
  | first :: pieces =>
    match pieces.reverse.dropWhile isIdle with
    | [] => if first.isEmpty then none else some []
    | _ :: before => some (ofPieces first before)

/-- The path that is left when the last component is dropped a number of times. -/
def ancestor? : ℕ → Text → Option Text
  | 0, path => some path
  | height + 1, path => (parent? path).bind (ancestor? height)

/-- The components of a path: the first piece, which is empty in front of an absolute path, and the
pieces behind it that lead somewhere. The empty path has none. -/
def components (path : Text) : List Text :=
  match split path with
  | [] => []
  | first :: pieces =>
    if path.isEmpty then [] else first :: pieces.filter fun piece => !isIdle piece

/-! ### Pieces of a path -/

theorem exists_split_eq_cons (path : Text) : ∃ first pieces, split path = first :: pieces :=
  List.exists_cons_of_ne_nil (List.splitOn_ne_nil '/' path)

theorem not_mem_of_mem_split {path piece : Text} (inside : piece ∈ split path) : '/' ∉ piece := by
  induction path generalizing piece with
  | nil =>
      obtain rfl : piece = [] := by simpa [split] using inside
      exact List.not_mem_nil
  | cons c rest ih =>
      obtain ⟨first, pieces, cut⟩ := exists_split_eq_cons rest
      rw [split, List.splitOn_cons_eq_if_modifyHead, ← split, cut] at inside
      rw [cut] at ih
      split at inside
      · rcases List.mem_cons.mp inside with rfl | further
        · exact List.not_mem_nil
        · exact ih further
      · next other =>
        rcases List.mem_cons.mp inside with rfl | further
        · have apart : '/' ≠ c := fun same => other (beq_iff_eq.mpr same.symm)
          exact List.not_mem_cons_of_ne_of_not_mem apart (ih List.mem_cons_self)
        · exact ih (List.mem_cons_of_mem first further)

/-- A path that is made of pieces has these pieces, up to those at the end that lead nowhere. -/
theorem exists_split_ofPieces {first : Text} {backwards : List Text}
    (free : ∀ piece ∈ first :: backwards, '/' ∉ piece) :
    ofPieces first backwards ≠ [] ∧ ∃ pieces, split (ofPieces first backwards) = first :: pieces ∧
      pieces.reverse.dropWhile isIdle = backwards.dropWhile isIdle := by
  rw [ofPieces]
  cases kept : backwards.dropWhile isIdle with
  | nil =>
      cases first with
      | nil => exact ⟨by simp, [[]], rfl, rfl⟩
      | cons c first =>
          exact ⟨by simp, [], List.splitOn_eq_singleton (free _ List.mem_cons_self), rfl⟩
  | cons last before =>
      have free' : ∀ piece ∈ first :: (last :: before).reverse, '/' ∉ piece := by
        intro piece inside
        refine free piece (List.mem_cons.mpr ((List.mem_cons.mp inside).imp_right fun later => ?_))
        exact (List.dropWhile_sublist isIdle).subset (kept ▸ List.mem_reverse.mp later)
      refine ⟨?_, (last :: before).reverse, List.splitOn_intercalate '/' free' (by simp), ?_⟩
      · simp [List.intercalate_cons_of_ne_nil]
      · rw [List.reverse_reverse, ← kept, List.dropWhile_idempotent]

/-- What is left of a path, told by its pieces: nothing of the root and of the empty path, the empty
path of a single piece, and otherwise the pieces in front of the last that leads somewhere. -/
theorem parent?_cases {path first : Text} {pieces : List Text}
    (cut : split path = first :: pieces) :
    (pieces.reverse.dropWhile isIdle = [] ∧ first = [] ∧ parent? path = none) ∨
      (pieces.reverse.dropWhile isIdle = [] ∧ first ≠ [] ∧ parent? path = some []) ∨
      ∃ last before, pieces.reverse.dropWhile isIdle = last :: before ∧ isIdle last = false ∧
        parent? path = some (ofPieces first before) := by
  cases kept : pieces.reverse.dropWhile isIdle with
  | nil =>
      cases first with
      | nil => exact .inl ⟨rfl, rfl, by simp [parent?, cut, kept]⟩
      | cons c first => exact .inr (.inl ⟨rfl, by simp, by simp [parent?, cut, kept]⟩)
  | cons last before =>
      have leads := List.head?_dropWhile_not isIdle pieces.reverse
      rw [kept] at leads
      exact .inr (.inr ⟨last, before, rfl, leads, by simp [parent?, cut, kept]⟩)

/-- The pieces of a path in front of one of them are pieces of the path. -/
theorem free_of_dropWhile {path first last : Text} {pieces before : List Text}
    (cut : split path = first :: pieces)
    (kept : pieces.reverse.dropWhile isIdle = last :: before) :
    ∀ piece ∈ first :: before, '/' ∉ piece := by
  have earlier : before ⊆ pieces := by
    intro piece inside
    have among : piece ∈ pieces.reverse.dropWhile isIdle := kept ▸ List.mem_cons_of_mem last inside
    exact List.mem_reverse.mp ((List.dropWhile_sublist isIdle).subset among)
  intro piece inside
  have inside' : piece ∈ split path := cut ▸ List.cons_subset_cons first earlier inside
  exact not_mem_of_mem_split inside'

/-! ### Components -/

theorem filter_dropWhile_isIdle (pieces : List Text) :
    (pieces.dropWhile isIdle).filter (fun piece => !isIdle piece) =
      pieces.filter fun piece => !isIdle piece := by
  induction pieces with
  | nil => rfl
  | cons piece pieces ih => cases idle : isIdle piece <;> simp [idle, ih]

theorem components_eq {path first : Text} {pieces : List Text} (cut : split path = first :: pieces)
    (filled : path ≠ []) :
    components path =
      first :: ((pieces.reverse.dropWhile isIdle).filter fun piece => !isIdle piece).reverse := by
  rw [filter_dropWhile_isIdle, List.filter_reverse, List.reverse_reverse, components, cut]
  simp [filled]

/-- Nothing can be dropped of the empty path and of the root, and of no other path. -/
theorem parent?_eq_none_iff {path : Text} :
    parent? path = none ↔ components path = [] ∨ components path = [[]] := by
  by_cases filled : path = []
  · subst filled
    exact ⟨fun _ => .inl rfl, fun _ => rfl⟩
  · obtain ⟨first, pieces, cut⟩ := exists_split_eq_cons path
    rw [components_eq cut filled]
    rcases parent?_cases cut with
      ⟨kept, rfl, top⟩ | ⟨kept, named, above⟩ | ⟨last, before, kept, leads, above⟩
    · simp [kept, top]
    · simp [kept, above, named]
    · simp [kept, above, leads]

/-- Going up drops the last component. -/
theorem components_of_parent? {path above : Text} (step : parent? path = some above) :
    components above = (components path).dropLast := by
  have filled : path ≠ [] := by
    rintro rfl
    cases step
  obtain ⟨first, pieces, cut⟩ := exists_split_eq_cons path
  rw [components_eq cut filled]
  rcases parent?_cases cut with
    ⟨-, -, top⟩ | ⟨kept, -, step'⟩ | ⟨last, before, kept, leads, step'⟩
  · rw [step] at top
    cases top
  · obtain rfl : above = [] := Option.some.inj (step.symm.trans step')
    rw [kept]
    rfl
  · obtain rfl : above = ofPieces first before := Option.some.inj (step.symm.trans step')
    obtain ⟨filled', pieces', cut', kept'⟩ :=
      exists_split_ofPieces (free_of_dropWhile cut kept)
    rw [components_eq cut' filled', kept', kept, filter_dropWhile_isIdle,
      List.filter_cons_of_pos (by rw [leads]; rfl), List.reverse_cons, ← List.cons_append,
      List.dropLast_concat]

theorem length_components_lt {path above : Text} (step : parent? path = some above) :
    (components above).length < (components path).length := by
  have filled : components path ≠ [] := fun empty =>
    Option.some_ne_none above (step.symm.trans (parent?_eq_none_iff.mpr (.inl empty)))
  have positive := List.length_pos_iff.mpr filled
  rw [components_of_parent? step, List.length_dropLast]
  omega

/-- The way up ends: it has no more steps than the path has components. -/
theorem ancestor?_eq_none {path : Text} {height : ℕ}
    (high : (components path).length < height) : ancestor? height path = none := by
  induction height generalizing path with
  | zero => exact absurd high (Nat.not_lt_zero _)
  | succ height ih =>
      rw [ancestor?]
      cases step : parent? path with
      | none => rfl
      | some above =>
          have shorter := length_components_lt step
          exact ih (by omega)

/-- Pieces that lead nowhere are dropped along with the component behind or before them. -/
example : parent? "./a//b/./".toList = some "./a".toList := by decide

/-! ### All paths above a path -/

theorem parentsOf_dropWhile (first : Text) (backwards : List Text) :
    parentsOf first (backwards.dropWhile isIdle) = parentsOf first backwards := by
  induction backwards with
  | nil => rfl
  | cons last before ih =>
      cases idle : isIdle last with
      | true => rw [List.dropWhile_cons_of_pos idle, ih, parentsOf, if_pos idle]
      | false => rw [List.dropWhile_cons_of_neg (by simp [idle])]

theorem parents_eq_parentsOf {path first : Text} {pieces : List Text}
    (cut : split path = first :: pieces) :
    parents path = parentsOf first (pieces.reverse.dropWhile isIdle) := by
  rw [parents, cut, parentsOf_dropWhile]

/-- The paths above a path are the one that a step up leads to, and the paths above that. -/
theorem parents_eq (path : Text) :
    parents path =
      match parent? path with
      | none => []
      | some above => above :: parents above := by
  obtain ⟨first, pieces, cut⟩ := exists_split_eq_cons path
  rw [parents_eq_parentsOf cut]
  rcases parent?_cases cut with
    ⟨kept, rfl, step⟩ | ⟨kept, named, step⟩ | ⟨last, before, kept, leads, step⟩
  · rw [kept, step]
    rfl
  · rw [kept, step, parentsOf, if_neg (by simpa using named)]
    rfl
  · obtain ⟨-, pieces', cut', kept'⟩ := exists_split_ofPieces (free_of_dropWhile cut kept)
    have further : parents (ofPieces first before) = parentsOf first before := by
      rw [parents_eq_parentsOf cut', kept', parentsOf_dropWhile]
    rw [kept, step, parentsOf, if_neg (by simp [leads])]
    exact congrArg (ofPieces first before :: ·) further.symm

end Path

/-! ## The search -/

namespace Settings

/-- A directory holds a settings file. A directory of that name in it is none. -/
def HoldsFile (system : FileSystem) (directory : Text) : Prop :=
  ∃ content, system (Path.join directory fileName) = some (.file content)

/-- The directory that is reached in some number of steps from the start decides: it holds a
settings file, and no directory before it does. -/
structure IsNearest (system : FileSystem) (start : Text) (height : ℕ) (directory : Text) :
    Prop where
  reached : Path.ancestor? height start = some directory
  holds : HoldsFile system directory
  first : ∀ lower < height, ∀ nearer, Path.ancestor? lower start = some nearer →
    ¬ HoldsFile system nearer

section

variable {system : FileSystem} {start : Text}

theorem isFile_iff {path : Text} :
    system.isFile path = true ↔ ∃ content, system path = some (.file content) := by
  rw [FileSystem.isFile]
  split
  · next content here => exact iff_of_true rfl ⟨content, here⟩
  · next other => exact iff_of_false Bool.false_ne_true fun ⟨content, here⟩ => other content here

/-- The search asks at a directory, and goes on at the directory above it. -/
theorem search_eq :
    search system start =
      if system.isFile (Path.join start fileName) then
        (loadFile system (Path.join start fileName)).map some
      else
        match Path.parent? start with
        | none => .ok none
        | some above => search system above := by
  rw [search, candidates, List.map_cons]
  cases here : system.isFile (Path.join start fileName) with
  | true => rw [List.find?_cons_of_pos here, if_pos rfl]
  | false =>
      rw [List.find?_cons_of_neg (by simp [here]), if_neg Bool.false_ne_true, Path.parents_eq]
      cases Path.parent? start with
      | none => rfl
      | some above => rfl

theorem search_of_holdsFile (holds : HoldsFile system start) :
    search system start = (loadFile system (Path.join start fileName)).map some := by
  rw [search_eq, if_pos (isFile_iff.mpr holds)]

theorem search_of_not_holdsFile (absent : ¬ HoldsFile system start) :
    search system start =
      match Path.parent? start with
      | none => .ok none
      | some above => search system above := by
  rw [search_eq, if_neg fun here => absent (isFile_iff.mp here)]

/-- The file of the nearest directory is loaded, with whatever outcome. -/
theorem search_of_isNearest {height : ℕ} {directory : Text}
    (nearest : IsNearest system start height directory) :
    search system start = (loadFile system (Path.join directory fileName)).map some := by
  induction height generalizing start with
  | zero =>
      obtain rfl : start = directory := Option.some.inj nearest.reached
      exact search_of_holdsFile nearest.holds
  | succ height ih =>
      obtain ⟨above, step, further⟩ := Option.bind_eq_some_iff.mp nearest.reached
      rw [search_of_not_holdsFile (nearest.first 0 (Nat.succ_pos height) start rfl), step]
      refine ih ⟨further, nearest.holds, fun lower below nearer reached => ?_⟩
      refine nearest.first (lower + 1) (Nat.succ_lt_succ below) nearer ?_
      rw [Path.ancestor?, step]
      exact reached

/-- Where no directory holds a settings file, the search comes to the end of the way up. -/
theorem search_of_forall_not_holdsFile {start : Text}
    (absent : ∀ height directory, Path.ancestor? height start = some directory →
      ¬ HoldsFile system directory) : search system start = .ok none := by
  rw [search_of_not_holdsFile (absent 0 start rfl)]
  cases step : Path.parent? start with
  | none => rfl
  | some above =>
      change search system above = .ok none
      refine search_of_forall_not_holdsFile fun height directory reached => ?_
      refine absent (height + 1) directory ?_
      rw [Path.ancestor?, step]
      exact reached
termination_by (Path.components start).length
decreasing_by exact Path.length_components_lt step

/-- Of the directories that hold a settings file, one is the nearest. -/
theorem exists_isNearest {height : ℕ} {directory : Text}
    (reached : Path.ancestor? height start = some directory) (holds : HoldsFile system directory) :
    ∃ height directory, IsNearest system start height directory := by
  classical
  have reachable : ∃ height directory, Path.ancestor? height start = some directory ∧
      HoldsFile system directory := ⟨height, directory, reached, holds⟩
  obtain ⟨directory, reached, holds⟩ := Nat.find_spec reachable
  exact ⟨Nat.find reachable, directory, reached, holds, fun lower below nearer reached' holds' =>
    Nat.find_min reachable below ⟨nearer, reached', holds'⟩⟩

/-- A search that comes by a settings file does not find nothing. -/
theorem search_ne_ok_none {height : ℕ} {directory : Text}
    (reached : Path.ancestor? height start = some directory) (holds : HoldsFile system directory) :
    search system start ≠ .ok none := by
  obtain ⟨height', directory', nearest⟩ := exists_isNearest reached holds
  rw [search_of_isNearest nearest]
  cases loadFile system (Path.join directory' fileName) <;> simp [Except.map]

/-- Which directory is the nearest depends on the places up to it alone. -/
theorem IsNearest.of_agree {height : ℕ} {directory : Text}
    (nearest : IsNearest system start height directory) {system' : FileSystem}
    (agree : ∀ lower ≤ height, ∀ nearer, Path.ancestor? lower start = some nearer →
      system' (Path.join nearer fileName) = system (Path.join nearer fileName)) :
    IsNearest system' start height directory := by
  have same {lower : ℕ} {nearer : Text} (below : lower ≤ height)
      (reached : Path.ancestor? lower start = some nearer) :
      HoldsFile system' nearer ↔ HoldsFile system nearer := by
    rw [HoldsFile, HoldsFile, agree lower below nearer reached]
  refine ⟨nearest.reached, (same le_rfl nearest.reached).mpr nearest.holds, ?_⟩
  intro lower below nearer reached holds
  exact nearest.first lower below nearer reached ((same below.le reached).mp holds)

end

/-- The search ends, after no more steps up than the start has components, and finds nothing exactly
if no directory on the way holds a settings file. Otherwise the nearest such directory decides, and
what stands at the paths above it changes nothing. A location that is a directory is where a search
begins, and any other is the one file to be loaded. -/
theorem search_nearest (system : FileSystem) (start : Text) :
    (∀ height, (Path.components start).length < height → Path.ancestor? height start = none) ∧
      (search system start = .ok none ↔
        ∀ height directory, Path.ancestor? height start = some directory →
          ¬ HoldsFile system directory) ∧
      (search system start ≠ .ok none →
        ∃ height directory, IsNearest system start height directory) ∧
      (∀ height directory, IsNearest system start height directory →
        ∀ system' : FileSystem,
          (∀ lower ≤ height, ∀ nearer, Path.ancestor? lower start = some nearer →
            system' (Path.join nearer fileName) = system (Path.join nearer fileName)) →
          search system' start = (loadFile system (Path.join directory fileName)).map some) ∧
      (system.isDirectory start = true → loadFrom system start = search system start) ∧
      (system.isDirectory start = false →
        loadFrom system start = (loadFile system start).map some) := by
  refine ⟨fun height => Path.ancestor?_eq_none, ⟨?_, ?_⟩, ?_, ?_, ?_, ?_⟩
  · exact fun nothing height directory reached holds => search_ne_ok_none reached holds nothing
  · exact search_of_forall_not_holdsFile
  · intro something
    by_contra unreached
    refine something (search_of_forall_not_holdsFile fun height directory reached holds => ?_)
    exact unreached (exists_isNearest reached holds)
  · intro height directory nearest system' agree
    have same : system' (Path.join directory fileName) = system (Path.join directory fileName) :=
      agree height le_rfl directory nearest.reached
    rw [search_of_isNearest (nearest.of_agree agree), loadFile, loadFile, same]
  · exact fun directory => if_pos directory
  · exact fun other => if_neg (by simp [other])

/-- A tree of files with a usable settings file at the root. Below it there is one with a setting of
the wrong type, and further below a directory of the same name. -/
def mistyped : FileSystem :=
  FileTree.toFileSystem
    { files := [(["a".toList, fileName], "strict = \"yes\"".toList),
        ([fileName], "strict = true".toList)]
      directories := [["a".toList, "b".toList, fileName]] } []

/-- The directory is passed over, and the file that cannot be used decides, with or without the
usable one above it. -/
theorem search_nearest_mistyped :
    IsNearest mistyped "/a/b".toList 1 "/a".toList ∧
      (∀ lower ≤ 1, ∀ nearer, Path.ancestor? lower "/a/b".toList = some nearer →
        (fun path => if path = "/semver.toml".toList then none else mistyped path)
            (Path.join nearer fileName) = mistyped (Path.join nearer fileName)) ∧
      search (fun path => if path = "/semver.toml".toList then none else mistyped path)
          "/a/b".toList = .error (.invalid "/a/semver.toml".toList) := by
  have passed : mistyped "/a/b/semver.toml".toList = some .directory := by decide
  have file : mistyped "/a/semver.toml".toList =
      some (.file (some "strict = \"yes\"".toList)) := by decide
  have up : Path.ancestor? 1 "/a/b".toList = some "/a".toList := by decide
  have nearest : IsNearest mistyped "/a/b".toList 1 "/a".toList := by
    refine ⟨up, ⟨_, file⟩, ?_⟩
    rintro lower below nearer reached ⟨content, holds⟩
    obtain rfl : lower = 0 := Nat.lt_one_iff.mp below
    obtain rfl : "/a/b".toList = nearer := Option.some.inj reached
    cases passed.symm.trans holds
  have agree : ∀ lower ≤ 1, ∀ nearer, Path.ancestor? lower "/a/b".toList = some nearer →
      (fun path => if path = "/semver.toml".toList then none else mistyped path)
          (Path.join nearer fileName) = mistyped (Path.join nearer fileName) := by
    intro lower few nearer reached
    rcases Nat.le_one_iff_eq_zero_or_eq_one.mp few with rfl | rfl
    · obtain rfl : "/a/b".toList = nearer := Option.some.inj reached
      exact if_neg (by decide)
    · obtain rfl : "/a".toList = nearer := Option.some.inj (up.symm.trans reached)
      exact if_neg (by decide)
  have refused : loadFile mistyped "/a/semver.toml".toList =
      .error (.invalid "/a/semver.toml".toList) := rfl
  refine ⟨nearest, agree, ?_⟩
  rw [(search_nearest mistyped "/a/b".toList).2.2.2.1 1 "/a".toList nearest _ agree]
  exact congrArg (Except.map some) refused

end Settings

end VersionRanges

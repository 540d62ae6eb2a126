import SchemaLint.Cli.ConfigSource
import SchemaLint.Proofs.Ancestry

/-!
# What a lookup of the configuration comes to

A lookup goes up from its start, directory by directory, and stops at a configuration file or after
the root of a repository.  So a file is found exactly if its directory is reached before any root of
a repository was left behind and no directory on the way there has one.  Apart from the file of the
user, what lies above the root of a repository is never looked at: in another tree of files that has
the same at that root, the lookup comes to the same place.

* `ConfigSource.Holds`: the configuration file of one directory.
* `ConfigSource.Searched`, `ConfigSource.IsProjectFile`: the directories that count, and the file of
  the nearest that has one.
* `ConfigSource.projectFile?_eq_some_iff`: the search finds that file.
* `ConfigSource.AgreeUpTo`, `ConfigSource.projectFile?_congr`: where two surroundings need to agree.
* **`ConfigSource.Lookup.run_exact`**: the place that a lookup comes to, and what it depends on.
* `ConfigSource.Lookup.run_depends_above`: the file of the user may lie above the repository.
-/

namespace SchemaLint

namespace ConfigSource

open FilePath (AtOrBelow Below IsDirect)

variable {e e' : Environment} {start dir above root file : FilePath}

/-! ## One directory -/

/-- The configuration file of a directory: the plain name if there is such a file, or else the
hidden one. -/
inductive Holds (e : Environment) (dir : FilePath) : FilePath → Prop
  /-- There is a file of the preferred name. -/
  | plain (hplain : e.isFile (dir.join ⟨"provider-lint.toml"⟩)) :
      Holds e dir (dir.join ⟨"provider-lint.toml"⟩)
  /-- There is none of that name, but one of the other. -/
  | hidden (hplain : ¬ e.isFile (dir.join ⟨"provider-lint.toml"⟩))
      (hhidden : e.isFile (dir.join ⟨".provider-lint.toml"⟩)) :
      Holds e dir (dir.join ⟨".provider-lint.toml"⟩)

/-- The file that is found in a directory is the one that it holds. -/
theorem fileIn?_eq_some_iff : fileIn? e dir = some file ↔ Holds e dir file := by
  have hfile : fileIn? e dir = if e.isFile (dir.join ⟨"provider-lint.toml"⟩) then
      some (dir.join ⟨"provider-lint.toml"⟩) else
        if e.isFile (dir.join ⟨".provider-lint.toml"⟩) then
          some (dir.join ⟨".provider-lint.toml"⟩) else none := by
    simp only [fileIn?, projectNames, List.map_cons, List.map_nil, List.find?_cons, List.find?_nil]
    split_ifs with hplain hhidden <;> simp [*]
  rw [hfile]
  constructor
  · intro h
    split_ifs at h with hplain hhidden
    · rw [← Option.some.inj h]
      exact .plain hplain
    · rw [← Option.some.inj h]
      exact .hidden hplain hhidden
  · intro h
    cases h with
    | plain hplain => rw [if_pos hplain]
    | hidden hplain hhidden => rw [if_neg hplain, if_pos hhidden]

/-- No file is found in a directory that holds none. -/
theorem fileIn?_eq_none_iff : fileIn? e dir = none ↔ ∀ file, ¬ Holds e dir file := by
  simp only [← fileIn?_eq_some_iff, Option.eq_none_iff_forall_ne_some, ne_eq]

/-! ## The search -/

/-- The directory is at or above the start of a search, and no root of a repository is left behind
on the way to it. -/
def Searched (e : Environment) (start dir : FilePath) : Prop :=
  start.AtOrBelow dir ∧ ∀ root, start.AtOrBelow root → root.Below dir → ¬ isRepository e root

/-- The configuration file of the nearest directory that has one, among those that are searched. -/
def IsProjectFile (e : Environment) (start file : FilePath) : Prop :=
  ∃ dir, Searched e start dir ∧ Holds e dir file ∧
    ∀ nearer, start.AtOrBelow nearer → nearer.Below dir → ∀ other, ¬ Holds e nearer other

/-- From a path without a parent only its own file can be found. -/
theorem isProjectFile_of_parent?_eq_none (h : start.parent? = none) :
    IsProjectFile e start file ↔ Holds e start file := by
  have honly : ∀ {dir}, start.AtOrBelow dir → dir = start := by
    intro dir hdir
    rcases FilePath.atOrBelow_iff.mp hdir with rfl | ⟨above, habove, -⟩
    · rfl
    · rw [h] at habove
      cases habove
  constructor
  · rintro ⟨dir, hdir, hholds, -⟩
    rwa [honly hdir.1] at hholds
  · intro hholds
    refine ⟨start, ⟨.refl, ?_⟩, hholds, ?_⟩
    · intro root hroot hbelow
      exact absurd (honly hroot ▸ hbelow) (FilePath.not_below_self start)
    · intro nearer hnearer hbelow
      exact absurd (honly hnearer ▸ hbelow) (FilePath.not_below_self start)

/-- The search takes the file of its start, or goes on above it unless that is the root of a
repository. -/
theorem isProjectFile_of_parent? (h : start.parent? = some above) :
    IsProjectFile e start file ↔ Holds e start file ∨
      (∀ other, ¬ Holds e start other) ∧ ¬ isRepository e start ∧ IsProjectFile e above file := by
  have hhead : ∀ {dir}, start.AtOrBelow dir ↔ start = dir ∨ above.AtOrBelow dir := by
    intro dir
    rw [FilePath.atOrBelow_iff, h]
    simp
  have hnot : ∀ {dir}, start.AtOrBelow dir → ¬ dir.Below start := by
    intro dir hdir hbelow
    exact FilePath.not_below_self start (Relation.TransGen.trans_right hdir hbelow)
  constructor
  · -- The directory is the start or above it; in that case the start has no file and is no root.
    rintro ⟨dir, ⟨hdir, hroots⟩, hholds, hnearest⟩
    rcases hhead.mp hdir with rfl | habove
    · exact .inl hholds
    · have hbelow := FilePath.below_of_parent? h habove
      refine .inr ⟨hnearest start .refl hbelow, hroots start .refl hbelow, dir,
        ⟨habove, ?_⟩, hholds, ?_⟩
      · intro root hroot
        exact hroots root (hhead.mpr (.inr hroot))
      · intro nearer hnearer
        exact hnearest nearer (hhead.mpr (.inr hnearer))
  · rintro (hholds | ⟨hnone, hroot, dir, ⟨habove, hroots⟩, hholds, hnearest⟩)
    · refine ⟨start, ⟨.refl, ?_⟩, hholds, ?_⟩
      · intro root hroot hbelow
        exact absurd hbelow (hnot hroot)
      · intro nearer hnearer hbelow
        exact absurd hbelow (hnot hnearer)
    · refine ⟨dir, ⟨hhead.mpr (.inr habove), ?_⟩, hholds, ?_⟩
      · intro root hat hbelow
        rcases hhead.mp hat with rfl | hat
        · exact hroot
        · exact hroots root hat hbelow
      · intro nearer hnearer hbelow
        rcases hhead.mp hnearer with rfl | hnearer
        · exact hnone
        · exact hnearest nearer hnearer hbelow

/-- The search looks at one directory, and goes on above it unless it is a root. -/
theorem projectFile?_cons (e : Environment) (dir : FilePath) (rest : List FilePath) :
    projectFile? e (dir :: rest) =
      match fileIn? e dir with
      | some file => some file
      | none => if isRepository e dir then none else projectFile? e rest := by
  rfl

/-- In the last directory it does not matter whether it is a root. -/
theorem projectFile?_singleton (e : Environment) (dir : FilePath) :
    projectFile? e [dir] = fileIn? e dir := by
  have hnil : projectFile? e [] = none := rfl
  rw [projectFile?_cons, hnil, ite_self]
  generalize fileIn? e dir = found
  cases found with
  | none => rfl
  | some file => rfl

/-- **The search finds the file of the nearest directory that has one.** -/
theorem projectFile?_eq_some_iff :
    projectFile? e start.ancestors = some file ↔ IsProjectFile e start file := by
  induction start using FilePath.parentRec with
  | root start h =>
      rw [FilePath.ancestors_of_parent?_eq_none h, isProjectFile_of_parent?_eq_none h,
        projectFile?_singleton, fileIn?_eq_some_iff]
  | below start above h ih =>
      rw [FilePath.ancestors_of_parent? h, isProjectFile_of_parent? h, projectFile?_cons,
        ← fileIn?_eq_some_iff, ← fileIn?_eq_none_iff, ← ih]
      generalize fileIn? e start = found
      cases found with
      | some found => simp
      | none => simp

/-- The search finds nothing exactly if there is nothing to be found. -/
theorem projectFile?_eq_none_iff :
    projectFile? e start.ancestors = none ↔ ∀ file, ¬ IsProjectFile e start file := by
  simp only [← projectFile?_eq_some_iff, Option.eq_none_iff_forall_ne_some, ne_eq]

/-! ## What the search depends on -/

/-- In the directories from one path up to another the same is a configuration file or the root of a
repository. -/
def AgreeUpTo (e e' : Environment) (start root : FilePath) : Prop :=
  ∀ dir, start.AtOrBelow dir → dir.AtOrBelow root →
    (∀ name ∈ projectNames, e'.isFile (dir.join ⟨name⟩) = e.isFile (dir.join ⟨name⟩)) ∧
      isRepository e' dir = isRepository e dir

/-- Which file a directory holds depends on the two names only. -/
theorem fileIn?_congr
    (h : ∀ name ∈ projectNames, e'.isFile (dir.join ⟨name⟩) = e.isFile (dir.join ⟨name⟩)) :
    fileIn? e' dir = fileIn? e dir := by
  simp only [projectNames, List.forall_mem_cons] at h
  simp only [fileIn?, projectNames, List.map_cons, List.map_nil, List.find?_cons, List.find?_nil,
    h.1, h.2.1]

/-- **What lies above the root of a repository does not matter to a search from below it.** -/
theorem projectFile?_congr (hroot : start.AtOrBelow root) (hrepository : isRepository e root)
    (h : AgreeUpTo e e' start root) :
    projectFile? e' start.ancestors = projectFile? e start.ancestors := by
  induction hroot using Relation.ReflTransGen.head_induction_on with
  | refl =>
      obtain ⟨hfiles, hsame⟩ := h root .refl .refl
      -- here the search ends, whether or not there is anything above
      cases hparent : root.parent? with
      | none =>
          rw [FilePath.ancestors_of_parent?_eq_none hparent, projectFile?_singleton,
            projectFile?_singleton, fileIn?_congr hfiles]
      | some above =>
          rw [FilePath.ancestors_of_parent? hparent, projectFile?_cons, projectFile?_cons,
            fileIn?_congr hfiles, hsame, if_pos hrepository, if_pos hrepository]
  | @head start above hparent habove ih =>
      obtain ⟨hfiles, hsame⟩ := h start .refl (.head hparent habove)
      have hrest : AgreeUpTo e e' above root := by
        intro dir hdir
        exact h dir (.head hparent hdir)
      rw [FilePath.ancestors_of_parent? hparent, projectFile?_cons, projectFile?_cons,
        fileIn?_congr hfiles, hsame, ih hrest]

/-! ## Another tree of files -/

/-- An absolute path names a file wherever the run was started. -/
theorem isFile_of_isAbsolute (h : file.isAbsolute) :
    e.isFile file = e.files.containsFile file := by
  unfold Environment.isFile Environment.absolute FilePath.join
  rw [if_pos h]

/-- An absolute path names something wherever the run was started. -/
theorem contains_of_isAbsolute (h : file.isAbsolute) :
    e.contains file = e.files.contains file := by
  unfold Environment.contains Environment.absolute FilePath.join
  rw [if_pos h]

/-- A single name has no detours. -/
theorem isPlain_of_isName {name : String} (h : FilePath.IsName name) : FilePath.IsPlain ⟨name⟩ := by
  have hall : ∀ n ∈ [name], FilePath.IsName n := List.forall_mem_singleton.mpr h
  simpa [FilePath.ofNames] using FilePath.isPlain_ofNames (List.cons_ne_nil name []) hall

/-- Trees that have the same at a path agree on all directories up to it, from one below it. -/
theorem agreeUpTo_of_find?_eq {files : FileNode} (hstart : start.IsDirect)
    (h : files.find? root = e.files.find? root) :
    AgreeUpTo e { e with files := files } start root := by
  intro dir hdir hroot
  have hdirect := hstart.of_atOrBelow hdir
  have hsame : files.find? dir = e.files.find? dir :=
    FileNode.find?_congr_of_atOrBelow hdirect hroot h
  have hbelow : ∀ name, FilePath.IsName name →
      files.find? (dir.join ⟨name⟩) = e.files.find? (dir.join ⟨name⟩) := by
    intro name hname
    exact FileNode.find?_congr_of_join hdirect (isPlain_of_isName hname) hsame
  refine ⟨?_, ?_⟩
  · intro name hname
    have hall : ∀ name ∈ projectNames, FilePath.IsName name := by decide
    rw [isFile_of_isAbsolute (FilePath.isAbsolute_join _ hdirect.1),
      isFile_of_isAbsolute (FilePath.isAbsolute_join _ hdirect.1), FileNode.containsFile,
      FileNode.containsFile, hbelow name (hall name hname)]
  · rw [isRepository, isRepository, contains_of_isAbsolute (FilePath.isAbsolute_join _ hdirect.1),
      contains_of_isAbsolute (FilePath.isAbsolute_join _ hdirect.1), FileNode.contains,
      FileNode.contains, hbelow ".git" (by decide)]

/-! ## The lookup -/

/-- The place of a configuration, in the order of preference. -/
inductive Lookup.Finds (e : Environment) (l : Lookup) : ConfigSource → Prop
  /-- A file that the user named, whether or not there is such a file. -/
  | explicit {file : FilePath} (hgiven : l.given = some file) : Finds e l (.explicit file)
  /-- The file of the nearest directory of the project. -/
  | project {file : FilePath} (hgiven : l.given = none) (hfile : IsProjectFile e l.start file) :
      Finds e l (.project file)
  /-- The file in the directory of the user. -/
  | personal {dir : FilePath} (hgiven : l.given = none)
      (hproject : ∀ file, ¬ IsProjectFile e l.start file) (hdir : l.personal = some dir)
      (hfile : e.isFile (dir.join ⟨"config.toml"⟩)) :
      Finds e l (.personal (dir.join ⟨"config.toml"⟩))
  /-- There is no file. -/
  | defaults (hgiven : l.given = none) (hproject : ∀ file, ¬ IsProjectFile e l.start file)
      (hpersonal : ∀ dir, l.personal = some dir → ¬ e.isFile (dir.join ⟨"config.toml"⟩)) :
      Finds e l .defaults

/-- The file of the user is found if it is in the directory of the user. -/
theorem personalFile?_eq_some_iff {personal : Option FilePath} :
    personalFile? e personal = some file ↔
      ∃ dir, personal = some dir ∧ file = dir.join ⟨"config.toml"⟩ ∧ e.isFile file := by
  unfold personalFile?
  rw [Option.filter_eq_some_iff, Option.map_eq_some_iff]
  constructor
  · rintro ⟨⟨dir, hdir, hjoin⟩, hfile⟩
    exact ⟨dir, hdir, hjoin.symm, hfile⟩
  · rintro ⟨dir, hdir, hjoin, hfile⟩
    exact ⟨⟨dir, hdir, hjoin.symm⟩, hfile⟩

/-- Without it in the directory of the user no file of the user is found. -/
theorem personalFile?_eq_none_iff {personal : Option FilePath} :
    personalFile? e personal = none ↔
      ∀ dir, personal = some dir → ¬ e.isFile (dir.join ⟨"config.toml"⟩) := by
  unfold personalFile?
  rw [Option.filter_eq_none_iff]
  cases personal with
  | none => simp
  | some dir => simp [personalName]

variable {l : Lookup} {source : ConfigSource}

/-- The lookup comes to the first place in the order of preference. -/
theorem Lookup.run_eq_iff : l.run e = source ↔ l.Finds e source := by
  unfold Lookup.run
  constructor
  · rintro rfl
    cases hgiven : l.given with
    | some file => exact .explicit hgiven
    | none =>
        simp only
        split
        · rename_i file hfile
          exact .project hgiven (projectFile?_eq_some_iff.mp hfile)
        · rename_i hproject
          have hproject := projectFile?_eq_none_iff.mp hproject
          split
          · rename_i file hfile
            obtain ⟨dir, hdir, rfl, hfile⟩ := personalFile?_eq_some_iff.mp hfile
            exact .personal hgiven hproject hdir hfile
          · rename_i hpersonal
            exact .defaults hgiven hproject (personalFile?_eq_none_iff.mp hpersonal)
  · intro h
    cases h with
    | explicit hgiven => rw [hgiven]
    | project hgiven hfile => rw [hgiven, projectFile?_eq_some_iff.mpr hfile]
    | personal hgiven hproject hdir hfile =>
        rw [hgiven, projectFile?_eq_none_iff.mpr hproject,
          personalFile?_eq_some_iff.mpr ⟨_, hdir, rfl, hfile⟩]
    | defaults hgiven hproject hpersonal =>
        rw [hgiven, projectFile?_eq_none_iff.mpr hproject,
          personalFile?_eq_none_iff.mpr hpersonal]

/-- The directory of the user has the configuration file in both surroundings, or in neither. -/
def Lookup.AgreeOnPersonal (l : Lookup) (e e' : Environment) : Prop :=
  ∀ dir, l.personal = some dir →
    e'.isFile (dir.join ⟨"config.toml"⟩) = e.isFile (dir.join ⟨"config.toml"⟩)

/-- A lookup depends on what the search finds and on the file of the user. -/
theorem Lookup.run_congr
    (hproject : projectFile? e' l.start.ancestors = projectFile? e l.start.ancestors)
    (hpersonal : l.AgreeOnPersonal e e') : l.run e' = l.run e := by
  have hsame : personalFile? e' l.personal = personalFile? e l.personal := by
    unfold personalFile?
    cases hdir : l.personal with
    | none => rfl
    | some dir =>
        have hfile := hpersonal dir hdir
        unfold personalName
        simp only [Option.map_some, Option.filter_some, hfile]
  rw [Lookup.run, Lookup.run, hproject, hsame]

/-- **A lookup comes to the first place in the order of preference, and what lies above the root of
a repository has no part in it.**  Let a root of a repository be at or above the start of the
lookup.  In other surroundings the lookup comes to the same place if they agree in the directories
from the start up to that root, and on the file in the directory of the user.  For a start without
detours this is so with any other tree of files that has the same at the root. -/
theorem Lookup.run_exact (e : Environment) (l : Lookup) :
    (∀ source, l.run e = source ↔ l.Finds e source) ∧
    ∀ root, l.start.AtOrBelow root → isRepository e root →
      (∀ e', AgreeUpTo e e' l.start root → l.AgreeOnPersonal e e' → l.run e' = l.run e) ∧
      (l.start.IsDirect → ∀ files, files.find? root = e.files.find? root →
        l.AgreeOnPersonal e { e with files := files } →
          l.run { e with files := files } = l.run e) := by
  refine ⟨fun source => Lookup.run_eq_iff, ?_⟩
  intro root hroot hrepository
  have hagree : ∀ e', AgreeUpTo e e' l.start root → l.AgreeOnPersonal e e' →
      l.run e' = l.run e := by
    intro e' hproject hpersonal
    exact Lookup.run_congr (projectFile?_congr hroot hrepository hproject) hpersonal
  refine ⟨hagree, ?_⟩
  intro hstart files hfiles hpersonal
  exact hagree _ (agreeUpTo_of_find?_eq hstart hfiles) hpersonal

/-- A repository with a configuration, below a directory that has its own or none. -/
def sampleEnvironment (around : List (String × FileNode)) : Environment where
  directory := ⟨"/"⟩
  bindings := []
  files := .directory [("work", .directory (around ++ [("repo", .directory [
    (".git", .directory []), (".provider-lint.toml", .file (some "")),
    ("provider", .directory [])])])), ("config.toml", .file (some ""))]

/-- A lookup from inside the repository. -/
def sampleLookup : Lookup where
  given := none
  start := ⟨"/work/repo/provider"⟩
  personal := some ⟨"/"⟩

/-- A configuration above the repository takes no part in a lookup from inside. -/
theorem Lookup.run_exact_sample :
    let e := sampleEnvironment [("provider-lint.toml", .file (some ""))]
    let e' := sampleEnvironment []
    sampleLookup.Finds e (.project ⟨"/work/repo/.provider-lint.toml"⟩) ∧
      e' = { e with files := e'.files } ∧ sampleLookup.run e' = sampleLookup.run e := by
  intro e e'
  obtain ⟨hplace, habove⟩ := Lookup.run_exact e sampleLookup
  have hparent : FilePath.parent? ⟨"/work/repo/provider"⟩ = some ⟨"/work/repo"⟩ := by
    decide +kernel
  obtain ⟨-, hother⟩ := habove ⟨"/work/repo"⟩ (.single hparent) (by decide +kernel)
  have hpersonal : sampleLookup.AgreeOnPersonal e e' := by
    intro dir hdir
    obtain rfl : ⟨"/"⟩ = dir := Option.some.inj hdir
    decide +kernel
  refine ⟨(hplace _).mp (by decide +kernel), rfl, ?_⟩
  exact hother (by decide +kernel) e'.files rfl hpersonal

/-- A repository without a configuration, below a directory with some files. -/
def bareRepository (around : List (String × FileNode)) : Environment where
  directory := ⟨"/"⟩
  bindings := []
  files := .directory (("work", .directory [("repo", .directory [(".git", .directory [])])]) ::
    around)

/-- The file of the user takes part wherever it is: if the directory of the user lies above a
repository, a lookup from inside depends on a file above the root. -/
theorem Lookup.run_depends_above :
    ¬ ∀ (e : Environment) (l : Lookup) (root : FilePath), l.start.AtOrBelow root →
      isRepository e root → l.start.IsDirect → ∀ files, files.find? root = e.files.find? root →
        l.run { e with files := files } = l.run e := by
  intro h
  let l : Lookup := ⟨none, ⟨"/work/repo"⟩, some ⟨"/"⟩⟩
  have hsame : l.run (bareRepository []) =
      l.run (bareRepository [("config.toml", .file (some ""))]) :=
    h (bareRepository [("config.toml", .file (some ""))]) l ⟨"/work/repo"⟩ .refl (by decide +kernel)
      (by decide +kernel) (bareRepository []).files rfl
  have hwithout : l.run (bareRepository []) = .defaults := by decide +kernel
  have hwith : l.run (bareRepository [("config.toml", .file (some ""))]) =
      .personal ⟨"/config.toml"⟩ := by decide +kernel
  rw [hwithout, hwith] at hsame
  cases hsame

end ConfigSource

end SchemaLint

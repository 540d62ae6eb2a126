import SchemaLint.Proofs.Comparison
import SchemaLint.Proofs.Exclusion

/-!
# The files of an analysis and the paths that name them

An analysis walks the tree below its root and shows every file by its path below the root.  In a
tree whose directories have entries with different names, these paths tell the files apart, and
joined with the root they lead back to them.  A root that is itself a file is the exception: nothing
is left of its path below the root.

* `FileNode.WellFormed`: trees as file systems have them.
* `FileNode.Leads`: the names on the way from a node to one below it.
* `Walk.exists_leads_of_mem_filesAt`, `Walk.pairwise_filesAt`: what a walk lists.
* `FileNode.resolve_join`: a joined path is resolved from where its directory leads.
* **`Analyzer.load_names_files`**: the files of an analysis and their paths.
-/

namespace SchemaLint

open FilePath (IsName ofNames)

/-! ## Trees -/

namespace FileNode

/-- The entries of every directory have different names, and names that paths can hold. -/
inductive WellFormed : FileNode → Prop
  /-- A file has no entries. -/
  | file (content : Option String) : WellFormed (.file content)
  /-- A directory has well-formed entries under different names. -/
  | directory {entries : List (String × FileNode)} (hnodup : (entries.map Prod.fst).Nodup)
      (hnames : ∀ entry ∈ entries, IsName entry.1)
      (hnodes : ∀ entry ∈ entries, WellFormed entry.2) : WellFormed (.directory entries)

/-- Names lead from a node to one below it, from directory to entry. -/
inductive Leads : FileNode → List String → FileNode → Prop
  /-- No names lead to the node itself. -/
  | here (n : FileNode) : Leads n [] n
  /-- The first name is that of an entry, and the others lead on from there. -/
  | enter {entries : List (String × FileNode)} {name : String} {node n : FileNode}
      {names : List String} (hmem : (name, node) ∈ entries) (hleads : Leads node names n) :
      Leads (.directory entries) (name :: names) n

variable {node n : FileNode} {names : List String}

/-- The names on the way to a node of a tree are single names. -/
theorem Leads.isName (h : Leads node names n) (hnode : node.WellFormed) :
    ∀ name ∈ names, IsName name := by
  induction h with
  | here n => exact fun name hname => nomatch hname
  | enter hmem _ ih =>
      cases hnode with
      | directory _ hnames hnodes =>
          exact List.forall_mem_cons.mpr ⟨hnames _ hmem, ih (hnodes _ hmem)⟩

/-- In a list of entries with different names each entry is found under its name. -/
theorem lookup_of_mem {entries : List (String × FileNode)} (hnodup : (entries.map Prod.fst).Nodup)
    {name : String} (hmem : (name, node) ∈ entries) : entries.lookup name = some node := by
  obtain ⟨front, back, rfl⟩ := List.append_of_mem hmem
  refine List.lookup_eq_some_iff.mpr ⟨front, back, rfl, ?_⟩
  intro entry hentry
  rw [List.map_append, List.map_cons, List.nodup_middle, List.nodup_cons] at hnodup
  have hne : name ≠ entry.1 := by
    intro heq
    exact hnodup.1 (List.mem_append_left _ (List.mem_map.mpr ⟨entry, hentry, heq.symm⟩))
  simpa using hne

/-! ## Resolving -/

/-- A name leads to the entry of that name. -/
theorem Trail.step_of_mem {t : Trail} {entries : List (String × FileNode)} {name : String}
    (ht : t.node = .directory entries) (hwf : t.node.WellFormed) (hmem : (name, node) ∈ entries) :
    t.step name = .ok ⟨node, (name, t.node) :: t.above⟩ := by
  rw [ht] at hwf
  cases hwf with
  | directory hnodup hnames _ =>
      have hname : name ∉ ["", ".", ".."] := (hnames _ hmem).1
      simp only [List.mem_cons, List.not_mem_nil, or_false, not_or] at hname
      unfold Trail.step
      simp [ht, hname, lookup_of_mem hnodup hmem]

/-- Names lead, one after the other, where they lead to. -/
theorem Trail.exists_foldlM_step (h : Leads node names n) (hnode : node.WellFormed) {t : Trail}
    (ht : t.node = node) : ∃ t', names.foldlM Trail.step t = .ok t' ∧ t'.node = n := by
  induction h generalizing t with
  | here n => exact ⟨t, rfl, ht⟩
  | @enter entries name node n names hmem _ ih =>
      have hstep := Trail.step_of_mem ht (ht ▸ hnode) hmem
      cases hnode with
      | directory _ _ hnodes =>
          obtain ⟨t', ht', hn⟩ := ih (hnodes _ hmem) (t := ⟨node, (name, t.node) :: t.above⟩) rfl
          refine ⟨t', ?_, hn⟩
          rw [List.foldlM_cons, hstep]
          exact ht'

/-- An empty piece at the end of a path leads nowhere else. -/
theorem Trail.foldlM_step_of_empty {t t' : Trail} {pieces : List String}
    (h : (pieces ++ [""]).foldlM Trail.step t = .ok t') : pieces.foldlM Trail.step t = .ok t' := by
  rw [List.foldlM_append] at h
  obtain ⟨mid, hfront, hlast⟩ := exists_of_bind_eq_ok h
  have hstep : (mid.step "" >>= pure) = .ok t' := hlast
  rw [bind_pure] at hstep
  unfold Trail.step at hstep
  split at hstep
  · cases hstep
  · rw [hfront]
    exact hstep

variable {tree : FileNode} {t : Trail} {root : FilePath}

/-- **A joined path is resolved from where its directory leads.** -/
theorem resolve_join {p : FilePath} (hp : p.isAbsolute = false) (hroot : root.isAbsolute)
    (ht : tree.resolve root = .ok t) :
    tree.resolve (root.join p) = (p.pieces.map String.ofList).foldlM Trail.step t := by
  obtain ⟨front, hfront, hjoin⟩ := FilePath.exists_pieces_join hp hroot
  have hbegin : (([] :: front).map String.ofList).foldlM Trail.step ⟨tree, []⟩ = .ok t := by
    have hall : (root.pieces.map String.ofList).foldlM Trail.step ⟨tree, []⟩ = .ok t := ht
    rcases hfront with hfront | hfront
    · rwa [hfront] at hall
    · rw [hfront, List.map_append] at hall
      exact Trail.foldlM_step_of_empty hall
  show ((root.join p).pieces.map String.ofList).foldlM Trail.step ⟨tree, []⟩ = _
  rw [hjoin, List.map_append, List.foldlM_append, hbegin]
  rfl

/-- A path of names below a directory leads along these names. -/
theorem exists_resolve_join (hroot : root.isAbsolute) (ht : tree.resolve root = .ok t)
    (hwf : t.node.WellFormed) (hne : names ≠ []) (h : Leads t.node names n) :
    ∃ t', tree.resolve (root.join (ofNames names)) = .ok t' ∧ t'.node = n := by
  have hnames := h.isName hwf
  have hrest : (names.map String.toList).map String.ofList = names := by
    simp [Function.comp_def]
  rw [resolve_join (FilePath.isPlain_ofNames hne hnames).not_isAbsolute hroot ht,
    FilePath.pieces_ofNames hne hnames, hrest]
  exact Trail.exists_foldlM_step h hwf rfl

/-- A file has nothing below it, not even under an empty path. -/
theorem find?_join_empty (hroot : root.isAbsolute) (ht : tree.resolve root = .ok t)
    (hfile : t.node.isFile) : tree.find? (root.join ⟨""⟩) = none := by
  have hstep : t.step "" = .error .notADirectory := by
    unfold Trail.step
    cases hnode : t.node with
    | file content => rfl
    | directory entries =>
        rw [hnode] at hfile
        cases hfile
  have hresolve : tree.resolve (root.join ⟨""⟩) = .error .notADirectory := by
    rw [resolve_join rfl hroot ht]
    show (t.step "" >>= pure) = _
    rw [hstep]
    rfl
  simp [find?, hresolve, Except.toOption]

/-- The text at a path is that of the file it leads to. -/
theorem readText_of_resolve {text : String} (ht : tree.resolve root = .ok t)
    (hnode : t.node = .file (some text)) : tree.readText root = .ok text := by
  simp [readText, ht, hnode, bind, Except.bind]

/-- The nodes on a trail are well formed. -/
def Trail.WellFormed (t : Trail) : Prop :=
  t.node.WellFormed ∧ ∀ entry ∈ t.above, entry.2.WellFormed

/-- A step of a trail leads to a tree that is well formed. -/
theorem Trail.WellFormed.step {t t' : Trail} {piece : String} (hwf : t.WellFormed)
    (h : t.step piece = .ok t') : t'.WellFormed := by
  unfold Trail.step at h
  split at h
  · cases h
  · rename_i entries hentries
    split_ifs at h
    · rwa [← Except.ok.inj h]
    · split at h
      · rwa [← Except.ok.inj h]
      · rename_i name parent above habove
        have habove' : ∀ entry ∈ (name, parent) :: above, entry.2.WellFormed := habove ▸ hwf.2
        rw [← Except.ok.inj h]
        exact List.forall_mem_cons.mp habove'
    · split at h
      · rename_i node hnode
        have hdirectory : (FileNode.directory entries).WellFormed := hentries ▸ hwf.1
        rw [← Except.ok.inj h]
        refine ⟨?_, List.forall_mem_cons.mpr hwf⟩
        obtain ⟨front, back, heq, -⟩ := List.lookup_eq_some_iff.mp hnode
        cases hdirectory with
        | directory _ _ hnodes => exact hnodes (piece, node) (by simp [heq])
      · cases h

/-- All steps of a trail lead to trees that are well formed. -/
theorem Trail.WellFormed.foldlM {pieces : List String} {t t' : Trail} (hwf : t.WellFormed)
    (h : pieces.foldlM Trail.step t = .ok t') : t'.WellFormed := by
  induction pieces generalizing t with
  | nil => rwa [← Except.ok.inj h]
  | cons piece pieces ih =>
      rw [List.foldlM_cons] at h
      obtain ⟨mid, hstep, hrest⟩ := exists_of_bind_eq_ok h
      exact ih (hwf.step hstep) hrest

/-- What a path leads to is as well formed as the tree. -/
theorem wellFormed_of_resolve (htree : tree.WellFormed) (h : tree.resolve root = .ok t) :
    t.node.WellFormed := by
  have hstart : Trail.WellFormed ⟨tree, []⟩ := ⟨htree, fun _ hentry => nomatch hentry⟩
  exact (hstart.foldlM h).1

end FileNode

/-! ## Walks -/

namespace Walk

open FileNode (Leads WellFormed)

variable {g : Bool} {levels : List IgnoreLevel} {path : FilePath} {name : String} {node : FileNode}
  {entries : List (String × FileNode)} {x : FilePath × Option String}

/-- The files of a directory are those of its entries, one after the other. -/
theorem filesOf_eq_flatMap (entries : List (String × FileNode)) :
    filesOf g levels path entries =
      entries.flatMap fun entry => filesAt g levels (path.join ⟨entry.1⟩) entry.1 entry.2 := by
  induction entries with
  | nil => rw [filesOf, List.flatMap_nil]
  | cons entry rest ih => rw [filesOf, List.flatMap_cons, ih]

mutual

/-- What is listed at an entry is a file that the names in its path lead to. -/
theorem exists_leads_of_mem_filesAt : (levels : List IgnoreLevel) → (path : FilePath) →
    (name : String) → (node : FileNode) → x ∈ filesAt g levels path name node →
      ∃ names, Leads node names (.file x.2) ∧ x.1 = path.descend names
  | levels, path, name, .file content, hx => by
      rw [filesAt] at hx
      split_ifs at hx
      · cases hx
      · rw [List.mem_singleton.mp hx]
        exact ⟨[], .here _, rfl⟩
  | levels, path, name, .directory entries, hx => by
      rw [filesAt] at hx
      split_ifs at hx
      · cases hx
      · exact exists_leads_of_mem_filesOf _ path entries hx

/-- What is listed in a directory is a file that the names in its path lead to. -/
theorem exists_leads_of_mem_filesOf : (levels : List IgnoreLevel) → (path : FilePath) →
    (entries : List (String × FileNode)) → x ∈ filesOf g levels path entries →
      ∃ names, Leads (.directory entries) names (.file x.2) ∧ x.1 = path.descend names
  | levels, path, [], hx => by
      rw [filesOf] at hx
      cases hx
  | levels, path, (name, node) :: rest, hx => by
      rw [filesOf] at hx
      rcases List.mem_append.mp hx with hx | hx
      · obtain ⟨names, hleads, hpath⟩ := exists_leads_of_mem_filesAt _ _ _ node hx
        exact ⟨name :: names, .enter List.mem_cons_self hleads, hpath⟩
      · obtain ⟨names, hleads, hpath⟩ := exists_leads_of_mem_filesOf _ _ rest hx
        cases hleads with
        | enter hmem hleads =>
            exact ⟨_, .enter (List.mem_cons_of_mem _ hmem) hleads, hpath⟩

end

/-- Two entries of different names list no path twice. -/
theorem pairwise_filesOf (hdirectory : (FileNode.directory entries).WellFormed)
    (hpath : path.isAbsolute)
    (hentries : ∀ entry ∈ entries, (filesAt g levels (path.join ⟨entry.1⟩) entry.1 entry.2).Pairwise
      fun x y => ¬ x.1.same y.1) :
    (filesOf g levels path entries).Pairwise fun x y => ¬ x.1.same y.1 := by
  cases hdirectory with
  | directory hnodup hnames hnodes =>
      -- the name of an entry is the first component below the directory in all that it lists
      have hcomponents : ∀ entry ∈ entries,
          ∀ x ∈ filesAt g levels (path.join ⟨entry.1⟩) entry.1 entry.2,
            ∃ rest, x.1.components = path.components ++ .entry entry.1 :: rest := by
        intro entry hentry x hx
        obtain ⟨names, hleads, hx⟩ := exists_leads_of_mem_filesAt _ _ _ _ hx
        have hall : ∀ name ∈ entry.1 :: names, IsName name :=
          List.forall_mem_cons.mpr ⟨hnames entry hentry, hleads.isName (hnodes entry hentry)⟩
        refine ⟨names.map .entry, ?_⟩
        rw [hx]
        exact FilePath.components_descend hpath hall
      rw [filesOf_eq_flatMap, List.pairwise_flatMap]
      refine ⟨hentries, (List.pairwise_map.mp hnodup).imp_of_mem ?_⟩
      intro one other hone hother hne x hx y hy hsame
      obtain ⟨rest, hrest⟩ := hcomponents one hone x hx
      obtain ⟨rest', hrest'⟩ := hcomponents other hother y hy
      rw [FilePath.same, beq_iff_eq, hrest, hrest', List.append_cancel_left_eq] at hsame
      injection hsame with hname
      injection hname with hname
      exact hne hname

/-- A walk lists no path twice. -/
theorem pairwise_filesAt (hnode : node.WellFormed) (hpath : path.isAbsolute) :
    (filesAt g levels path name node).Pairwise fun x y => ¬ x.1.same y.1 := by
  induction hnode generalizing levels path name with
  | file content =>
      rw [filesAt]
      split_ifs
      · exact .nil
      · exact List.pairwise_singleton _ _
  | directory hnodup hnames hnodes ih =>
      rw [filesAt]
      split_ifs
      · exact .nil
      · refine pairwise_filesOf (.directory hnodup hnames hnodes) hpath ?_
        intro entry hentry
        exact ih entry hentry (FilePath.isAbsolute_join _ hpath)

variable {t : FileNode.Trail}

/-- No two files that are found have the same path. -/
theorem pairwise_filesFrom (ht : t.node.WellFormed) (hpath : path.isAbsolute) :
    (filesFrom g path t).Pairwise fun x y => ¬ x.1.same y.1 := by
  unfold filesFrom
  split
  · exact List.pairwise_singleton _ _
  · rename_i entries hentries
    rw [hentries] at ht
    refine pairwise_filesOf ht hpath ?_
    cases ht with
    | directory _ _ hnodes =>
        intro entry hentry
        exact pairwise_filesAt (hnodes entry hentry) (FilePath.isAbsolute_join _ hpath)

/-- What is listed from a directory on are the files that names lead to from there. -/
theorem exists_leads_of_mem_filesFrom (ht : t.node.isDirectory) (hx : x ∈ filesFrom g path t) :
    ∃ names, names ≠ [] ∧ Leads t.node names (.file x.2) ∧ x.1 = path.descend names := by
  unfold filesFrom at hx
  split at hx
  · rename_i content hcontent
    rw [hcontent] at ht
    cases ht
  · rename_i entries hentries
    rw [hentries]
    obtain ⟨names, hleads, hpath⟩ := exists_leads_of_mem_filesOf _ _ _ hx
    refine ⟨names, ?_, hleads, hpath⟩
    rintro rfl
    cases hleads

end Walk

/-! ## The files of an analysis -/

namespace Analyzer

variable {a : Analyzer} {directory : FilePath} {r : AnalyzerRequest} {tree : FileNode}
  {t : FileNode.Trail} {found : List (FilePath × Option String)} {f : SourceFile}

/-- The root of an analysis is the one it was given, seen from the directory of the run. -/
theorem root_of_build (h : build directory r = .ok a) : a.root = directory.join r.givenRoot := by
  unfold build at h
  cases hregistry : r.registry with
  | none =>
      rw [hregistry] at h
      cases h
  | some registry =>
      rw [hregistry] at h
      obtain ⟨patterns, -, hmade⟩ := exists_of_bind_eq_ok h
      rw [← Except.ok.inj hmade]
      rfl

/-- The files that are found are files of the walk. -/
theorem discover_eq_ok (h : tree.resolve a.root = .ok t) :
    ∃ found, a.discover tree = .ok found ∧
      (∀ x ∈ found, x ∈ Walk.filesFrom a.config.analyzer.respectGitignore a.root t) ∧
      (t.node.WellFormed → a.root.isAbsolute → found.Pairwise fun x y => ¬ x.1.same y.1) := by
  unfold discover
  rw [h]
  refine ⟨_, rfl, ?_, ?_⟩
  · intro x hx
    rw [List.mem_mergeSort] at hx
    exact (List.mem_filter.mp hx).1
  · intro ht hroot
    rw [(List.mergeSort_perm _ _).pairwise_iff fun h heq => h (FilePath.same_symm heq)]
    exact (Walk.pairwise_filesFrom ht hroot).filter _

/-- What was found and can be read. -/
def readable (found : List (FilePath × Option String)) : List (FilePath × String) :=
  found.filterMap fun x => x.2.map fun text => (x.1, text)

/-- The files that are loaded are the readable ones, numbered in order. -/
theorem load_eq (a : Analyzer) (found : List (FilePath × Option String)) :
    a.load found =
      (readable found).zipIdx.map fun x => SourceFile.below a.root x.2 x.1.1 x.1.2 :=
  rfl

/-- A loaded file has the path and the content that were found, and its path relative to the root.
-/
theorem mem_load (h : f ∈ a.load found) :
    (f.path, some f.content) ∈ found ∧ f.relativePath = f.path.relativeTo a.root := by
  rw [load_eq] at h
  obtain ⟨⟨⟨path, text⟩, id⟩, hmem, rfl⟩ := List.mem_map.mp h
  obtain ⟨⟨other, content⟩, hfound, hread⟩ :=
    List.mem_filterMap.mp (List.fst_mem_of_mem_zipIdx hmem)
  obtain ⟨_, rfl, heq⟩ := Option.map_eq_some_iff.mp hread
  obtain ⟨rfl, rfl⟩ := Prod.mk.inj heq
  exact ⟨hfound, rfl⟩

/-- Files that are read have different numbers, and paths as different as those that are found. -/
theorem pairwise_load (h : found.Pairwise fun x y => ¬ x.1.same y.1) :
    (a.load found).Pairwise fun f g => f.id ≠ g.id ∧ ¬ f.path.same g.path := by
  have hread : (readable found).Pairwise fun x y => ¬ x.1.same y.1 := by
    refine List.pairwise_filterMap.mpr (h.imp ?_)
    intro x y hxy p hp q hq
    obtain ⟨_, _, rfl⟩ := Option.map_eq_some_iff.mp hp
    obtain ⟨_, _, rfl⟩ := Option.map_eq_some_iff.mp hq
    exact hxy
  have hpaths : (readable found).zipIdx.Pairwise fun x y => ¬ x.1.1.same y.1.1 := by
    rw [← List.zipIdx_map_fst 0 (readable found)] at hread
    exact List.pairwise_map.mp hread
  have hids : (readable found).zipIdx.Pairwise fun x y => x.2 ≠ y.2 := by
    have hnodup : ((readable found).zipIdx.map Prod.snd).Nodup := by
      rw [List.zipIdx_map_snd]
      exact List.nodup_range'
    exact List.pairwise_map.mp hnodup
  rw [load_eq]
  exact List.pairwise_map.mpr (hids.and hpaths)

/-- Below a directory a file is shown by the names that lead to it. -/
theorem shown_below_directory (hroot : a.root.isAbsolute) (ht : tree.resolve a.root = .ok t)
    (hwf : t.node.WellFormed) (hdirectory : t.node.isDirectory) (hf : f ∈ a.load found)
    (hfound : ∀ x ∈ found, x ∈ Walk.filesFrom a.config.analyzer.respectGitignore a.root t) :
    f.path.components = a.root.components ++ f.relativePath.components ∧
      f.relativePath.text ≠ "" ∧ a.root.join f.relativePath = f.path ∧
      tree.readText f.path = .ok f.content := by
  obtain ⟨hmem, hrelative⟩ := mem_load hf
  obtain ⟨names, hne, hleads, hpath⟩ :=
    Walk.exists_leads_of_mem_filesFrom hdirectory (hfound _ hmem)
  have hnames := hleads.isName hwf
  have hjoin : f.path = a.root.join (ofNames names) :=
    hpath.trans (FilePath.descend_eq_join hroot hne hnames)
  have hshown : f.relativePath = ofNames names := by
    rw [hrelative, hjoin, FilePath.relativeTo_join_ofNames hroot hne hnames]
  have hcomponents := FilePath.components_ofNames hne hnames
  obtain ⟨t', ht', hnode⟩ := FileNode.exists_resolve_join hroot ht hwf hne hleads
  refine ⟨?_, ?_, ?_, ?_⟩
  · rw [hshown, hcomponents, ← FilePath.components_descend hroot hnames]
    exact congrArg _ hpath
  · intro hempty
    have hnil : (ofNames names).components = [] := by
      rw [← hshown, show f.relativePath = ⟨""⟩ from congrArg FilePath.mk hempty]
      rfl
    rw [hcomponents, List.map_eq_nil_iff] at hnil
    exact hne hnil
  · rw [hshown, hjoin]
  · rw [hjoin]
    exact FileNode.readText_of_resolve ht' hnode

/-- A root that is a file is shown by an empty path, which does not lead back to it. -/
theorem shown_at_file (hroot : a.root.isAbsolute) (ht : tree.resolve a.root = .ok t)
    (hfile : t.node.isFile) (hf : f ∈ a.load found)
    (hfound : ∀ x ∈ found, x ∈ Walk.filesFrom a.config.analyzer.respectGitignore a.root t) :
    f.path = a.root ∧ f.relativePath = ⟨""⟩ ∧ tree.readText f.path = .ok f.content ∧
      tree.find? (a.root.join f.relativePath) = none := by
  obtain ⟨hmem, hrelative⟩ := mem_load hf
  have hwalk := hfound _ hmem
  unfold Walk.filesFrom at hwalk
  cases hnode : t.node with
  | directory entries =>
      rw [hnode] at hfile
      cases hfile
  | file content =>
      rw [hnode] at hwalk
      obtain ⟨hpath, hcontent⟩ := Prod.mk.inj (List.mem_singleton.mp hwalk)
      have hempty : f.relativePath = ⟨""⟩ := by
        rw [hrelative, hpath, FilePath.relativeTo_self hroot]
      refine ⟨hpath, hempty, ?_, ?_⟩
      · rw [hpath]
        exact FileNode.readText_of_resolve ht (by rw [hnode, hcontent])
      · rw [hempty]
        exact FileNode.find?_join_empty hroot ht hfile

/-- **The files of an analysis and their paths.**  If there is something at the root, then the files
below it are found, and those that are read have different numbers and are shown by different paths.
If the root is a directory, then these paths are not empty, and joined with the root they are the
paths of the files.  If it is a file, then it is shown by the empty path, and that joined with the
root names nothing. -/
theorem load_names_files (hdirectory : directory.isAbsolute) (ha : build directory r = .ok a)
    (htree : tree.WellFormed) (ht : tree.resolve a.root = .ok t) :
    ∃ found, a.discover tree = .ok found ∧
      ((a.load found).Pairwise fun f g => f.id ≠ g.id ∧ ¬ f.relativePath.same g.relativePath) ∧
      (t.node.isDirectory → ∀ f ∈ a.load found, f.relativePath.text ≠ "" ∧
        a.root.join f.relativePath = f.path ∧ tree.readText f.path = .ok f.content) ∧
      (t.node.isFile → ∀ f ∈ a.load found, f.path = a.root ∧ f.relativePath = ⟨""⟩ ∧
        tree.readText f.path = .ok f.content ∧
        tree.find? (a.root.join f.relativePath) = none) := by
  have hroot : a.root.isAbsolute := by
    rw [root_of_build ha]
    exact FilePath.isAbsolute_join _ hdirectory
  have hwf := FileNode.wellFormed_of_resolve htree ht
  obtain ⟨found, hfound, hwalk, hpairwise⟩ := discover_eq_ok ht
  have hbelow : t.node.isDirectory → ∀ f ∈ a.load found, _ :=
    fun hdir f hf => shown_below_directory hroot ht hwf hdir hf hwalk
  have hat : t.node.isFile → ∀ f ∈ a.load found, _ :=
    fun hfile f hf => shown_at_file hroot ht hfile hf hwalk
  refine ⟨found, hfound, ?_, fun hdir f hf => (hbelow hdir f hf).2, hat⟩
  refine (pairwise_load (hpairwise hwf hroot)).imp_of_mem ?_
  rintro f g hf hg ⟨hid, hpath⟩
  refine ⟨hid, fun hsame => hpath ?_⟩
  -- files that are shown alike are at the same path
  by_cases hfile : t.node.isFile
  · rw [(hat hfile f hf).1, (hat hfile g hg).1]
    simp [FilePath.same]
  · have hdir : t.node.isDirectory := by simpa [FileNode.isDirectory] using hfile
    rw [FilePath.same, beq_iff_eq] at hsame ⊢
    rw [(hbelow hdir f hf).1, (hbelow hdir g hg).1, hsame]

/-- A directory with two files of one name. -/
def sampleTree : FileNode :=
  .directory [("work", .directory [("a.rs", .file (some "")),
    ("src", .directory [("a.rs", .file (some ""))])])]

/-- No name stands twice in a directory of the sample. -/
theorem wellFormed_sampleTree : sampleTree.WellFormed := by
  have hsource : (FileNode.directory [("a.rs", .file (some ""))]).WellFormed :=
    .directory (by decide) (by decide) (by simpa using .file (some ""))
  refine .directory (by decide) (by decide) (List.forall_mem_singleton.mpr ?_)
  refine .directory (by decide) (by decide) ?_
  simpa using ⟨.file (some ""), hsource⟩

/-- Two files below the root of the sample, each found again from its relative path. -/
theorem load_names_files_sample :
    ∃ a found, build ⟨"/"⟩ sampleRequest = .ok a ∧ a.discover sampleTree = .ok found ∧
      found.length = 2 ∧
      ((a.load found).Pairwise fun f g => f.id ≠ g.id ∧ ¬ f.relativePath.same g.relativePath) ∧
      ∀ f ∈ a.load found, f.relativePath.text ≠ "" ∧ a.root.join f.relativePath = f.path ∧
        sampleTree.readText f.path = .ok f.content := by
  obtain ⟨found, hfound, hpairwise, hbelow, -⟩ :=
    load_names_files (show FilePath.isAbsolute ⟨"/"⟩ from rfl)
      (show build ⟨"/"⟩ sampleRequest = .ok _ from rfl) wellFormed_sampleTree rfl
  have hlength : found.length = 2 := by
    rw [← Except.ok.inj hfound, List.length_mergeSort]
    decide +kernel
  exact ⟨_, found, rfl, hfound, hlength, hpairwise, hbelow rfl⟩

/-- The analysis of one of the files alone. -/
def fileAnalyzer : Analyzer where
  root := ⟨"/work/a.rs"⟩
  registry := ⟨[]⟩
  rules := []
  patterns := [("**/generated/**", ExcludePattern.aroundParts "generated")]
  config := {}

/-- The analysis is what a request with that root is built to. -/
theorem build_fileAnalyzer :
    build ⟨"/"⟩ { sampleRequest with root := some fileAnalyzer.root } = .ok fileAnalyzer :=
  rfl

/-- It finds the file that is its root. -/
theorem discover_fileAnalyzer :
    fileAnalyzer.discover sampleTree = .ok [(fileAnalyzer.root, some "")] := by
  have hwanted : [(fileAnalyzer.root, some "")].filter
      (fun x => isSource x.1 && !fileAnalyzer.excludes x.1) = [(fileAnalyzer.root, some "")] := by
    decide +kernel
  show Except.ok (([(fileAnalyzer.root, some "")].filter
    (fun x => isSource x.1 && !fileAnalyzer.excludes x.1)).mergeSort _) = _
  rw [hwanted, List.mergeSort_singleton]

/-- A root that is a file has no path to be shown by. -/
theorem load_unnamed_root :
    ¬ ∀ (directory : FilePath) (r : AnalyzerRequest) (a : Analyzer) (tree : FileNode)
      (t : FileNode.Trail) (found : List (FilePath × Option String)), directory.isAbsolute →
      build directory r = .ok a → tree.WellFormed → tree.resolve a.root = .ok t →
      a.discover tree = .ok found →
      ((a.load found).Pairwise fun f g => f.id ≠ g.id ∧ ¬ f.relativePath.same g.relativePath) ∧
        ∀ f ∈ a.load found, f.relativePath.text ≠ "" ∧ a.root.join f.relativePath = f.path := by
  intro h
  obtain ⟨-, hall⟩ := h ⟨"/"⟩ _ fileAnalyzer sampleTree _ _ rfl build_fileAnalyzer
    wellFormed_sampleTree rfl discover_fileAnalyzer
  exact (hall _ List.mem_cons_self).1 (by decide +kernel)

end Analyzer

end SchemaLint

import Mathlib.Data.List.Dedup
import SchemaLint.Proofs.History
import SchemaLint.Proofs.Sink

/-!
# Runs are put together from runs of one rule on one file

What a run reports is said here by membership alone: its findings are those that the requested rules
have on the files, its failures those of the units that the rules need (`Session.Finds`,
`Session.Fails`), and both lists are strictly sorted (`Session.run_reports`).  A strictly sorted list
is determined by its members, so how a run comes by its report does not matter.

* `AnalysisUnit.ReportsOwn`: a rule that reports in its own name and on its own file.
* `Session.run_reports`: the report of a run by its members.
* **`Session.run_additive`**: the report of a run is that of the runs of its rules on its files put
  together, whatever the order of rules and files and however the rules are named.
-/

namespace SchemaLint

/-- A rule whose findings carry its own name and the path of the file it was run on. -/
structure AnalysisUnit.ReportsOwn (u : AnalysisUnit) (info : RuleInfo) : Prop where
  /-- The id of a rule is its name. -/
  id_eq : u.id = info.name
  /-- Findings are in the name of the rule and on the file. -/
  own : ∀ cx ds, u.run cx = .ok (.findings ds) →
    ∀ d ∈ ds, d.rule = info.name ∧ d.location.file = cx.file.relativePath

namespace Session

variable {s : Session} {request : List String} {files : List SourceFile} {file : SourceFile}
  {calls : List UnitCall} {plan : Plan} {run : Run}

/-! ## Sorted failures -/

/-- Sorting failures neither adds nor drops any. -/
theorem mem_sortFailures {fs : List UnitFailure} {e : UnitFailure} :
    e ∈ sortFailures fs ↔ e ∈ fs :=
  List.mem_mergeSort

/-- Where failures of one unit on one path are equal and none is repeated, sorting is strict. -/
theorem strictlySorted_sortFailures {fs : List UnitFailure} (hnodup : fs.Nodup)
    (hkeys : ∀ a ∈ fs, ∀ b ∈ fs, a.compare b = .eq → a = b) :
    StrictlySorted UnitFailure.compare (sortFailures fs) := by
  have hle : ∀ a b : UnitFailure, (a.compare b != .gt) = (a.compare b).isLE := by
    intro a b
    cases a.compare b <;> rfl
  have hsorted : (sortFailures fs).Pairwise fun a b => (a.compare b != .gt) = true := by
    apply List.pairwise_mergeSort
    · intro a b c hab hbc
      rw [hle] at hab hbc ⊢
      exact Std.TransCmp.isLE_trans hab hbc
    · intro a b
      have hswap : a.compare b = (b.compare a).swap := Std.OrientedCmp.eq_swap
      rw [hle, hle, hswap]
      cases b.compare a <;> rfl
  have hdistinct : (sortFailures fs).Nodup := (List.mergeSort_perm fs _).nodup_iff.mpr hnodup
  refine (hsorted.and hdistinct).imp_of_mem ?_
  rintro a b ha hb ⟨hle, hne⟩
  cases hab : a.compare b with
  | lt => rfl
  | eq => exact absurd (hkeys a (mem_sortFailures.mp ha) b (mem_sortFailures.mp hb) hab) hne
  | gt => simp [hab] at hle

/-! ## What units contribute -/

/-- The findings of a unit on a file. -/
def findingsAt (s : Session) (file : SourceFile) (n : Nat) : List Diagnostic :=
  match s.plain file s.depth n with
  | .ok fact => fact.findings?.getD []
  | .error _ => []

/-- The failure of a unit on a file, if it fails there. -/
def failureAt? (s : Session) (file : SourceFile) (n : Nat) : Option UnitFailure :=
  s.failureOf? file (n, s.plain file s.depth n)

/-- A unit whose findings on every file carry its id and the path of the file. -/
def OwnFindings (s : Session) (n : Nat) : Prop :=
  ∀ file, ∀ d ∈ s.findingsAt file n,
    d.rule = s.registry.idOf n ∧ d.location.file = file.relativePath

/-- A request whose units all have such findings. -/
def OwnRequest (s : Session) (request : List String) : Prop :=
  ∀ id ∈ request, ∀ n, s.registry.lookup id = some n → s.OwnFindings n

/-- Files that are told apart by the paths that findings show. -/
def KnownByPath (files : List SourceFile) : Prop :=
  ∀ f ∈ files, ∀ g ∈ files, f.relativePath.same g.relativePath → f = g

/-- A fact of a unit is one that the unit gave when it was run on the file. -/
theorem exists_run_of_plain {n depth : Nat} {entry : Entry} {fact : Fact}
    (hentry : s.registry.entries[n]? = some entry) (h : s.plain file depth n = .ok fact) :
    ∃ facts, entry.unit.run (s.context file file.parse? facts []) = .ok fact := by
  cases depth with
  | zero => cases h
  | succ depth =>
      unfold plain at h
      rw [hentry] at h
      simp only [outcomeFrom] at h
      split at h
      · cases h
      · exact ⟨_, h⟩

/-- A rule that reports in its own name has findings of its own. -/
theorem ownFindings_of_reportsOwn {n : Nat} {entry : Entry} {info : RuleInfo}
    (hentry : s.registry.entries[n]? = some entry) (hown : entry.unit.ReportsOwn info) :
    s.OwnFindings n := by
  intro file d hd
  unfold findingsAt at hd
  split at hd
  · rename_i fact hfact
    obtain ⟨facts, hrun⟩ := exists_run_of_plain hentry hfact
    cases fact with
    | findings ds =>
        obtain ⟨hrule, hfile⟩ := hown.own _ ds hrun d hd
        exact ⟨by rw [hrule, Registry.idOf_eq hentry, hown.id_eq], hfile⟩
    | _ => cases hd
  · cases hd

/-- A failure names its unit and its file. -/
theorem failureAt?_eq_some {n : Nat} {e : UnitFailure} (h : s.failureAt? file n = some e) :
    e.unit = s.registry.idOf n ∧ e.file = file.relativePath := by
  unfold failureAt? at h
  generalize s.plain file s.depth n = outcome at h
  rcases outcome with error | fact
  · cases h
    exact ⟨rfl, rfl⟩
  · cases h

/-! ## The report of a run -/

/-- A finding that a requested rule has on a file, and that is the first with its key there. -/
def Finds (s : Session) (request : List String) (file : SourceFile) (d : Diagnostic) : Prop :=
  ∃ n, some n ∈ request.map s.registry.lookup ∧ d ∈ Sink.kept (s.findingsAt file n)

/-- A failure of a unit that a requested rule needs. -/
def Fails (s : Session) (request : List String) (file : SourceFile) (e : UnitFailure) : Prop :=
  ∃ root n, some root ∈ request.map s.registry.lookup ∧ s.registry.Reaches root n ∧
    s.failureAt? file n = some e

/-- The report of a request on files: strictly sorted findings and failures, those of the requested
rules and of the units they need. -/
structure Reports (s : Session) (request : List String) (files : List SourceFile) (run : Run) :
    Prop where
  /-- Findings stand in the order of their keys, one for each. -/
  findings_sorted : StrictlySorted Diagnostic.compareKey run.diagnostics
  /-- Findings are those of the requested rules on the files. -/
  mem_findings : ∀ d, d ∈ run.diagnostics ↔ ∃ file ∈ files, s.Finds request file d
  /-- Failures stand in the order of file and unit, one for each. -/
  failures_sorted : StrictlySorted UnitFailure.compare run.failures
  /-- Failures are those of the needed units on the files. -/
  mem_failures : ∀ e, e ∈ run.failures ↔ ∃ file ∈ files, s.Fails request file e

/-- Collecting the findings file by file is collecting them all. -/
theorem sinkOf_toList (plan : Plan) (perFile : List (SourceFile × List (Nat × Outcome))) :
    (sinkOf plan perFile).toList =
      Sink.kept (perFile.flatMap fun (_, outcomes) => outcomes.flatMap (findingsOf plan)) := by
  have hfold : ∀ sink : Sink, perFile.foldl
      (fun sink (_, outcomes) => sink.collect (outcomes.flatMap (findingsOf plan))) sink =
        sink.collect
          (perFile.flatMap fun (_, outcomes) => outcomes.flatMap (findingsOf plan)) := by
    induction perFile with
    | nil => exact fun sink => rfl
    | cons entry rest ih =>
        intro sink
        rw [List.foldl_cons, ih, List.flatMap_cons, Sink.collect_append]
  rw [sinkOf, hfold]
  rfl

/-- The findings of the requested units among the outcomes on a file. -/
theorem flatMap_plainOutcomes (s : Session) (plan : Plan) (file : SourceFile) :
    (s.plainOutcomes plan file).flatMap (findingsOf plan) =
      (plan.order.filter plan.requested.contains).flatMap (s.findingsAt file) := by
  have hone : ∀ n, findingsOf plan (n, s.plain file s.depth n) =
      if plan.requested.contains n then s.findingsAt file n else [] := by
    intro n
    unfold findingsAt
    rcases s.plain file s.depth n with error | fact
    · simp [findingsOf]
    · rfl
  unfold plainOutcomes
  induction plan.order with
  | nil => rfl
  | cons n rest ih =>
      rw [List.map_cons, List.flatMap_cons, ih, hone, List.filter_cons]
      split_ifs
      · rfl
      · rfl

/-- Files with different paths are told apart by them. -/
theorem knownByPath_of_pairwise
    (h : files.Pairwise fun f g => ¬ f.relativePath.same g.relativePath) : KnownByPath files := by
  intro f hf g hg hsame
  by_contra hne
  have : Std.Symm fun f g : SourceFile => ¬ f.relativePath.same g.relativePath :=
    ⟨fun f g h hsame => h (FilePath.same_symm hsame)⟩
  exact h.forall hf hg hne hsame

/-- **The findings of rules on files are kept unless one comes twice from one rule on one file.** -/
theorem mem_kept_findings {units : List Nat} (hunits : ∀ n ∈ units, s.OwnFindings n)
    (hids : ∀ n ∈ units, ∀ m ∈ units, s.registry.idOf n = s.registry.idOf m → n = m)
    (hpaths : KnownByPath files) {d : Diagnostic} :
    d ∈ Sink.kept (files.flatMap fun f => units.flatMap (s.findingsAt f)) ↔
      ∃ f ∈ files, ∃ n ∈ units, d ∈ Sink.kept (s.findingsAt f n) := by
  have hthin : Sink.kept (files.flatMap fun f => units.flatMap (s.findingsAt f)) =
      Sink.kept (files.flatMap fun f => units.flatMap fun n => Sink.kept (s.findingsAt f n)) := by
    calc Sink.kept (files.flatMap fun f => units.flatMap (s.findingsAt f))
        = Sink.kept (files.flatMap fun f => Sink.kept (units.flatMap (s.findingsAt f))) :=
          (Sink.kept_flatMap _ _).symm
      _ = Sink.kept (files.flatMap fun f =>
            Sink.kept (units.flatMap fun n => Sink.kept (s.findingsAt f n))) := by
          simp only [Sink.kept_flatMap]
      _ = _ := Sink.kept_flatMap _ _
  rw [hthin, Sink.mem_kept]
  · simp only [List.mem_flatMap]
  · intro a ha b hb hab
    simp only [List.mem_flatMap] at ha hb
    obtain ⟨f, hf, n, hn, ha⟩ := ha
    obtain ⟨g, hg, m, hm, hb⟩ := hb
    obtain ⟨hrule, hfile⟩ := hunits n hn f a (Sink.mem_of_mem_kept ha)
    obtain ⟨hrule', hfile'⟩ := hunits m hm g b (Sink.mem_of_mem_kept hb)
    obtain ⟨hsame, -, -, hname, -⟩ := Diagnostic.compareKey_eq_iff.mp hab
    obtain rfl : f = g := hpaths f hf g hg (by rwa [← hfile, ← hfile'])
    obtain rfl : n = m := hids n hn m hm (by rw [← hrule, ← hrule', hname])
    exact (Sink.strictlySorted_kept _).eq_of_compare ha hb hab

/-- The failures of units on files can be told apart by unit and path, and none is repeated. -/
theorem failures_distinct {units : List Nat} (hnodup : units.Nodup)
    (hids : ∀ n ∈ units, ∀ m ∈ units, s.registry.idOf n = s.registry.idOf m → n = m)
    (hfiles : files.Nodup) (hpaths : KnownByPath files) :
    (files.flatMap fun f => units.filterMap (s.failureAt? f)).Nodup ∧
      ∀ a ∈ files.flatMap fun f => units.filterMap (s.failureAt? f),
        ∀ b ∈ files.flatMap fun f => units.filterMap (s.failureAt? f),
          a.compare b = .eq → a = b := by
  refine ⟨List.nodup_flatMap.mpr ⟨?_, ?_⟩, ?_⟩
  · intro f hf
    refine List.pairwise_filterMap.mpr (hnodup.imp_of_mem ?_)
    rintro n m hn hm hne a ha b hb rfl
    refine hne (hids n hn m hm ?_)
    rw [← (failureAt?_eq_some ha).1, ← (failureAt?_eq_some hb).1]
  · refine hfiles.imp_of_mem ?_
    intro f g hf hg hne a ha hb
    obtain ⟨n, -, hn⟩ := List.mem_filterMap.mp ha
    obtain ⟨m, -, hm⟩ := List.mem_filterMap.mp hb
    refine hne (hpaths f hf g hg ?_)
    rw [← (failureAt?_eq_some hn).2, (failureAt?_eq_some hm).2]
    simp [FilePath.same]
  · intro a ha b hb hab
    simp only [List.mem_flatMap, List.mem_filterMap] at ha hb
    obtain ⟨f, hf, n, hn, ha⟩ := ha
    obtain ⟨g, hg, m, hm, hb⟩ := hb
    obtain ⟨hunit, hfile⟩ := failureAt?_eq_some ha
    obtain ⟨hunit', hfile'⟩ := failureAt?_eq_some hb
    obtain ⟨hsame, hid⟩ := UnitFailure.compare_eq_iff.mp hab
    obtain rfl : f = g := hpaths f hf g hg (by rwa [← hfile, ← hfile'])
    obtain rfl : n = m := hids n hn m hm (by rw [← hunit, ← hunit', hid])
    exact Option.some.inj (ha.symm.trans hb)

/-- What the two lists of a run are made from: the findings of the requested units and the failures
of all units of the plan, file by file. -/
theorem run_lists (h : s.Ready files) (hplan : Plan.of s.registry request = .ok plan) :
    (sinkOf plan (s.runFiles plan files (.after calls)).1).toList =
        Sink.kept (files.flatMap fun f =>
          (plan.order.filter plan.requested.contains).flatMap (s.findingsAt f)) ∧
      s.failuresOf (s.runFiles plan files (.after calls)).1 =
        files.flatMap fun f => plan.order.filterMap (s.failureAt? f) := by
  obtain ⟨hper, -⟩ := runFiles_spec h (h.plan_depthWithin hplan) (fun f hf => hf)
    (s.sound_after files calls)
  rw [hper]
  constructor
  · rw [sinkOf_toList, List.flatMap_map]
    simp only [flatMap_plainOutcomes]
  · rw [failuresOf, List.flatMap_map]
    simp only [plainOutcomes, List.filterMap_map]
    rfl

/-- **What a run reports**: the first findings with their keys of the requested rules, and the
failures of all units they need, both strictly sorted. -/
theorem run_reports (h : s.Ready files) (hpaths : KnownByPath files) (hfiles : files.Nodup)
    (hown : s.OwnRequest request) (hrun : s.run request files calls = .ok run) :
    s.Reports request files run := by
  obtain ⟨plan, hplan, rfl⟩ := run_eq_ok_iff.mp hrun
  obtain ⟨hfindings, hfailures⟩ := run_lists h hplan
  have hids : ∀ n ∈ plan.order, ∀ m ∈ plan.order,
      s.registry.idOf n = s.registry.idOf m → n = m := fun n hn m hm =>
    h.wellFormed.idOf_inj (Plan.order_lt h.wellFormed hplan n hn)
      (Plan.order_lt h.wellFormed hplan m hm)
  have hrequested : ∀ n, n ∈ plan.order.filter plan.requested.contains ↔
      ∃ id ∈ request, s.registry.lookup id = some n :=
    fun n => Plan.mem_filter_requested_iff hplan
  constructor
  · rw [hfindings]
    exact Sink.strictlySorted_kept _
  · intro d
    rw [hfindings, mem_kept_findings _ _ hpaths]
    · simp only [hrequested, Finds, List.mem_map]
    · intro n hn
      obtain ⟨id, hid, hlookup⟩ := (hrequested n).mp hn
      exact hown id hid n hlookup
    · exact fun n hn m hm => hids n (List.mem_of_mem_filter hn) m (List.mem_of_mem_filter hm)
  · obtain ⟨hnodup, hkeys⟩ := failures_distinct (Plan.order_of_eq_ok hplan).1 hids hfiles hpaths
    rw [hfailures]
    exact strictlySorted_sortFailures hnodup hkeys
  · intro e
    rw [mem_sortFailures, hfailures]
    simp only [List.mem_flatMap, List.mem_filterMap, Plan.mem_order_iff hplan, Fails, List.mem_map]
    constructor
    · rintro ⟨f, hf, n, ⟨id, hid, root, hlookup, hreaches⟩, he⟩
      exact ⟨f, hf, root, n, ⟨id, hid, hlookup⟩, hreaches, he⟩
    · rintro ⟨f, hf, root, n, ⟨id, hid, hlookup⟩, hreaches, he⟩
      exact ⟨f, hf, n, ⟨id, hid, root, hlookup, hreaches⟩, he⟩

/-! ## Runs put together -/

/-- Whether a run succeeds is decided id by id. -/
theorem exists_run_iff (hr : s.registry.WellFormed) :
    (∃ run, s.run request files calls = .ok run) ↔ ∀ id ∈ request, ∃ n,
      s.registry.lookup id = some n ∧ s.registry.DepthWithin s.registry.size n := by
  rw [← Plan.exists_of_eq_ok_iff hr]
  constructor
  · rintro ⟨run, hrun⟩
    obtain ⟨plan, hplan, -⟩ := run_eq_ok_iff.mp hrun
    exact ⟨plan, hplan⟩
  · rintro ⟨plan, hplan⟩
    exact ⟨_, run_eq_ok_iff.mpr ⟨plan, hplan, rfl⟩⟩

end Session

/-- The report of a run is that of other runs put together: the findings that a sink keeps of
theirs, and their failures sorted and without repeats.  Nothing of theirs is lost. -/
structure Run.Unites (run : Run) (parts : List Run) : Prop where
  /-- The findings are what a sink makes of all findings. -/
  findings_eq : run.diagnostics = (Sink.empty.collect (parts.flatMap Run.diagnostics)).toList
  /-- They stand in the order of the sink. -/
  findings_sorted : StrictlySorted Diagnostic.compareKey run.diagnostics
  /-- Every finding is there. -/
  mem_findings : ∀ d, d ∈ run.diagnostics ↔ ∃ part ∈ parts, d ∈ part.diagnostics
  /-- The failures are all failures, sorted and without repeats. -/
  failures_eq : run.failures = Session.sortFailures (parts.flatMap Run.failures).dedup
  /-- They stand in the order of file and unit. -/
  failures_sorted : StrictlySorted UnitFailure.compare run.failures
  /-- Every failure is there. -/
  mem_failures : ∀ e, e ∈ run.failures ↔ ∃ part ∈ parts, e ∈ part.failures

/-- Sorted reports with the findings and failures of all parts are the parts put together. -/
theorem Run.unites_of_mem {run : Run} {parts : List Run}
    (hfindings : StrictlySorted Diagnostic.compareKey run.diagnostics)
    (hd : ∀ d, d ∈ run.diagnostics ↔ ∃ part ∈ parts, d ∈ part.diagnostics)
    (hfailures : StrictlySorted UnitFailure.compare run.failures)
    (he : ∀ e, e ∈ run.failures ↔ ∃ part ∈ parts, e ∈ part.failures) : run.Unites parts := by
  have hd' : ∀ d, d ∈ run.diagnostics ↔ d ∈ parts.flatMap Run.diagnostics := by
    intro d
    rw [hd, List.mem_flatMap]
  have he' : ∀ e, e ∈ run.failures ↔ e ∈ (parts.flatMap Run.failures).dedup := by
    intro e
    rw [he, List.mem_dedup, List.mem_flatMap]
  refine ⟨?_, hfindings, hd, ?_, hfailures, he⟩
  · have hkeys : ∀ a ∈ parts.flatMap Run.diagnostics, ∀ b ∈ parts.flatMap Run.diagnostics,
        a.compareKey b = .eq → a = b :=
      fun a ha b hb => hfindings.eq_of_compare ((hd' a).mpr ha) ((hd' b).mpr hb)
    refine eq_of_strictlySorted hfindings (Sink.strictlySorted_kept _) fun d => ?_
    exact (hd' d).trans (Sink.mem_kept hkeys).symm
  · have hkeys : ∀ a ∈ (parts.flatMap Run.failures).dedup,
        ∀ b ∈ (parts.flatMap Run.failures).dedup, a.compare b = .eq → a = b :=
      fun a ha b hb => hfailures.eq_of_compare ((he' a).mpr ha) ((he' b).mpr hb)
    refine eq_of_strictlySorted hfailures
      (Session.strictlySorted_sortFailures (List.nodup_dedup _) hkeys) fun e => ?_
    rw [he', Session.mem_sortFailures]

namespace Session

variable {s : Session} {request : List String} {files : List SourceFile} {run : Run}

/-- Requested rules that report in their own names have findings of their own. -/
theorem ownRequest_of_rules {units : List AnalysisUnit}
    (hbuild : Registry.build units = .ok s.registry)
    (hown : ∀ u ∈ units, ∀ info, u.rule = some info → u.ReportsOwn info)
    (hrules : ∀ id ∈ request, (s.registry.rule? id).isSome) : s.OwnRequest request := by
  intro id hid n hlookup
  have hrule := hrules id hid
  rw [Registry.rule?, hlookup, Option.bind_some] at hrule
  obtain ⟨info, hinfo⟩ := Option.isSome_iff_exists.mp hrule
  obtain ⟨entry, hentry, hinfo⟩ := Option.bind_eq_some_iff.mp hinfo
  refine ownFindings_of_reportsOwn hentry (hown entry.unit ?_ info hinfo)
  rw [← Registry.map_unit_of_build hbuild]
  exact List.mem_map_of_mem (List.mem_of_getElem? hentry)

/-- What is reported on one of the files is the part of a sorted report that is on its path. -/
theorem eq_filter_of_mem {α : Type} {c : α → α → Ordering} [Std.TransCmp c] {all one : List α}
    {on : SourceFile → α → Prop} {path : α → FilePath} {file : SourceFile}
    (hall : StrictlySorted c all) (hone : StrictlySorted c one)
    (hmem : ∀ a, a ∈ all ↔ ∃ f ∈ files, on f a) (hmem' : ∀ a, a ∈ one ↔ ∃ f ∈ [file], on f a)
    (hpath : ∀ f a, on f a → path a = f.relativePath) (hfile : file ∈ files)
    (hpaths : KnownByPath files) :
    one = all.filter fun a => (path a).same file.relativePath := by
  refine eq_of_strictlySorted hone (hall.filter _) fun a => ?_
  rw [hmem', List.mem_filter, hmem]
  constructor
  · rintro ⟨f, hf, hon⟩
    obtain rfl := List.mem_singleton.mp hf
    refine ⟨⟨f, hfile, hon⟩, ?_⟩
    rw [hpath f a hon]
    simp [FilePath.same]
  · rintro ⟨⟨f, hf, hon⟩, hsame⟩
    rw [hpath f a hon] at hsame
    obtain rfl := hpaths f hf file hfile hsame
    exact ⟨f, List.mem_singleton_self f, hon⟩

/-- The report on one of the files is the part of the report that is on its path. -/
theorem Reports.on_file {file : SourceFile} {alone : Run} (h : s.Reports request files run)
    (halone : s.Reports request [file] alone) (hfile : file ∈ files)
    (hpaths : KnownByPath files) (hown : s.OwnRequest request) :
    alone.diagnostics = run.diagnostics.filter (·.location.file.same file.relativePath) ∧
      alone.failures = run.failures.filter (·.file.same file.relativePath) := by
  constructor
  · refine eq_filter_of_mem h.findings_sorted halone.findings_sorted h.mem_findings
      halone.mem_findings ?_ hfile hpaths
    rintro f d ⟨n, hn, hd⟩
    obtain ⟨id, hid, hlookup⟩ := List.mem_map.mp hn
    exact (hown id hid n hlookup f d (Sink.mem_of_mem_kept hd)).2
  · refine eq_filter_of_mem h.failures_sorted halone.failures_sorted h.mem_failures
      halone.mem_failures ?_ hfile hpaths
    rintro f e ⟨root, n, hroot, hreaches, he⟩
    exact (failureAt?_eq_some he).2

/-- What a request finds is what its rules find. -/
theorem finds_iff {file : SourceFile} {d : Diagnostic} :
    s.Finds request file d ↔ ∃ r ∈ request, s.Finds [r] file d := by
  simp only [Finds, List.mem_map, List.mem_singleton, exists_eq_left]
  constructor
  · rintro ⟨n, ⟨r, hr, hlookup⟩, hd⟩
    exact ⟨r, hr, n, hlookup, hd⟩
  · rintro ⟨r, hr, n, hlookup, hd⟩
    exact ⟨n, ⟨r, hr, hlookup⟩, hd⟩

/-- Where a request fails is where its rules fail. -/
theorem fails_iff {file : SourceFile} {e : UnitFailure} :
    s.Fails request file e ↔ ∃ r ∈ request, s.Fails [r] file e := by
  simp only [Fails, List.mem_map, List.mem_singleton, exists_eq_left]
  constructor
  · rintro ⟨root, n, ⟨r, hr, hlookup⟩, hn⟩
    exact ⟨r, hr, root, n, hlookup, hn⟩
  · rintro ⟨r, hr, root, n, hlookup, hn⟩
    exact ⟨root, n, ⟨r, hr, hlookup⟩, hn⟩

/-- The reports of the rules on the files, put together, are the report of all. -/
theorem Reports.unites {part : String → SourceFile → Run} (h : s.Reports request files run)
    (hpart : ∀ r ∈ request, ∀ f ∈ files, s.Reports [r] [f] (part r f)) :
    run.Unites (files.flatMap fun f => request.map fun r => part r f) := by
  refine Run.unites_of_mem h.findings_sorted (fun d => ?_) h.failures_sorted fun e => ?_
  · calc d ∈ run.diagnostics
        ↔ ∃ f ∈ files, ∃ r ∈ request, d ∈ (part r f).diagnostics := by
          rw [h.mem_findings]
          refine exists_congr fun f => and_congr_right fun hf => finds_iff.trans ?_
          refine exists_congr fun r => and_congr_right fun hr => ?_
          simp [(hpart r hr f hf).mem_findings]
      _ ↔ _ := by simp
  · calc e ∈ run.failures
        ↔ ∃ f ∈ files, ∃ r ∈ request, e ∈ (part r f).failures := by
          rw [h.mem_failures]
          refine exists_congr fun f => and_congr_right fun hf => fails_iff.trans ?_
          refine exists_congr fun r => and_congr_right fun hr => ?_
          simp [(hpart r hr f hf).mem_failures]
      _ ↔ _ := by simp

/-- Reports of requests for the same units on the same files are the same, whatever the order. -/
theorem Reports.unique {request' : List String} {files' : List SourceFile} {run' : Run}
    (h : s.Reports request files run) (h' : s.Reports request' files' run')
    (hunits : ∀ o, o ∈ request'.map s.registry.lookup ↔ o ∈ request.map s.registry.lookup)
    (hfiles : ∀ f, f ∈ files' ↔ f ∈ files) :
    run'.diagnostics = run.diagnostics ∧ run'.failures = run.failures := by
  constructor
  · refine eq_of_strictlySorted h'.findings_sorted h.findings_sorted fun d => ?_
    rw [h'.mem_findings, h.mem_findings]
    simp only [Finds, hunits, hfiles]
  · refine eq_of_strictlySorted h'.failures_sorted h.failures_sorted fun e => ?_
    rw [h'.mem_failures, h.mem_failures]
    simp only [Fails, hunits, hfiles]

/-- What a run on files that differ in number and path reports. -/
theorem reports_of_run {units : List AnalysisUnit} {calls : List UnitCall}
    (hbuild : Registry.build units = .ok s.registry) (hpure : ∀ u ∈ units, u.IsPure)
    (hown : s.OwnRequest request) (hids : files.Pairwise fun f g => f.id ≠ g.id)
    (hpaths : files.Pairwise fun f g => ¬ f.relativePath.same g.relativePath)
    (hrun : s.run request files calls = .ok run) : s.Reports request files run := by
  have hfiles : files.Nodup := hids.imp fun hne heq => hne (congrArg SourceFile.id heq)
  exact run_reports (.of_build hbuild hpure (ids_of_pairwise hids)) (knownByPath_of_pairwise hpaths)
    hfiles hown hrun

/-- **Runs are additive over rules and files.**  For rules that report in their own names, and files
that differ in number and path: a run succeeds exactly if every rule can be run; then its report is
that of the runs of one rule on one file put together; it stays the same when rules and files come
in another order, a rule comes again or is requested by its code instead of its name; and what it
says of one file is what the run on that file alone says. -/
theorem run_additive {units : List AnalysisUnit}
    (hbuild : Registry.build units = .ok s.registry) (hpure : ∀ u ∈ units, u.IsPure)
    (hown : ∀ u ∈ units, ∀ info, u.rule = some info → u.ReportsOwn info)
    (hrules : ∀ id ∈ request, (s.registry.rule? id).isSome)
    (hids : files.Pairwise fun f g => f.id ≠ g.id)
    (hpaths : files.Pairwise fun f g => ¬ f.relativePath.same g.relativePath)
    (calls : List UnitCall) :
    ((∃ run, s.run request files calls = .ok run) ↔
      ∀ r ∈ request, ∀ file calls', ∃ part, s.run [r] [file] calls' = .ok part) ∧
    ∀ run, s.run request files calls = .ok run →
      (∀ part : String → SourceFile → Run,
        (∀ r ∈ request, ∀ f ∈ files, ∃ calls', s.run [r] [f] calls' = .ok (part r f)) →
          run.Unites (files.flatMap fun f => request.map fun r => part r f)) ∧
      (∀ request' files' calls',
        (∀ o, o ∈ request'.map s.registry.lookup ↔ o ∈ request.map s.registry.lookup) →
        files'.Perm files →
          ∃ run', s.run request' files' calls' = .ok run' ∧
            run'.diagnostics = run.diagnostics ∧ run'.failures = run.failures) ∧
      ∀ f ∈ files, ∀ calls', ∃ alone, s.run request [f] calls' = .ok alone ∧
        alone.diagnostics = run.diagnostics.filter (·.location.file.same f.relativePath) ∧
        alone.failures = run.failures.filter (·.file.same f.relativePath) := by
  have hwf := Registry.wellFormed_of_build hbuild
  have hown' := ownRequest_of_rules hbuild hown hrules
  -- Both a whole run and the runs of its parts report what `reports_of_run` says, and that is all
  -- that is used of them.
  refine ⟨?_, fun run hrun => ?_⟩
  · rw [exists_run_iff hwf]
    constructor
    · intro h r hr file calls'
      exact (exists_run_iff hwf).mpr (by simpa using h r hr)
    · intro h r hr
      obtain ⟨part, hpart⟩ := h r hr ⟨0, ⟨""⟩, ⟨""⟩, ""⟩ []
      simpa using (exists_run_iff hwf).mp ⟨part, hpart⟩
  · have hreports := reports_of_run hbuild hpure hown' hids hpaths hrun
    have hfound := (exists_run_iff hwf).mp ⟨run, hrun⟩
    refine ⟨?_, ?_, ?_⟩
    · intro part hpart
      refine hreports.unites fun r hr f hf => ?_
      obtain ⟨calls', hrun'⟩ := hpart r hr f hf
      refine reports_of_run hbuild hpure ?_ (List.pairwise_singleton _ _)
        (List.pairwise_singleton _ _) hrun'
      intro id hid
      obtain rfl := List.mem_singleton.mp hid
      exact hown' id hr
    · intro request' files' calls' hunits hperm
      have hdenoted : ∀ id ∈ request', ∃ id' ∈ request,
          s.registry.lookup id' = s.registry.lookup id := fun id hid =>
        List.mem_map.mp ((hunits _).mp (List.mem_map_of_mem hid))
      obtain ⟨run', hrun'⟩ : ∃ run', s.run request' files' calls' = .ok run' := by
        refine (exists_run_iff hwf).mpr fun id hid => ?_
        obtain ⟨id', hid', hlookup⟩ := hdenoted id hid
        rw [← hlookup]
        exact hfound id' hid'
      refine ⟨run', hrun', hreports.unique ?_ hunits fun f => hperm.mem_iff⟩
      refine reports_of_run hbuild hpure ?_ ((hperm.pairwise_iff fun h => h.symm).mpr hids)
        ((hperm.pairwise_iff ?_).mpr hpaths) hrun'
      · intro id hid n hn
        obtain ⟨id', hid', hlookup⟩ := hdenoted id hid
        exact hown' id' hid' n (hlookup.trans hn)
      · intro f g hne hsame
        exact hne (FilePath.same_symm hsame)
    · intro f hf calls'
      obtain ⟨alone, halone⟩ : ∃ alone, s.run request [f] calls' = .ok alone :=
        (exists_run_iff hwf).mpr hfound
      have halone' := reports_of_run hbuild hpure hown' (List.pairwise_singleton _ f)
        (List.pairwise_singleton _ f) halone
      exact ⟨alone, halone, hreports.on_file halone' hf (knownByPath_of_pairwise hpaths) hown'⟩

/-- A unit that fails on one file, and two rules that need it.  The first reports one finding
twice. -/
def sampleRules : List AnalysisUnit :=
  let first : RuleInfo := ⟨"first", "F1", "", .error⟩
  let second : RuleInfo := ⟨"second", "S1", "", .warning⟩
  [Script.analysis { failOn := some "b" } "base" "" [] (.constant 1),
    first.unit ["base"] fun cx =>
      .ok [first.finding cx.file ⟨2, 1⟩ "bad" none, first.finding cx.file ⟨2, 1⟩ "bad" none],
    second.unit ["base"] fun cx => .ok [second.finding cx.file ⟨1, 5⟩ "odd" none]]

/-- The session of the sample rules. -/
def ruleSession : Session where
  registry := ⟨sampleRules.zipWith Entry.mk [[], [0], [0]]⟩
  settings := {}

/-- The files the sample rules are run on. -/
def ruleFiles : List SourceFile :=
  [.ofText 0 ⟨"a"⟩ "", .ofText 1 ⟨"b"⟩ ""]

/-- What the first rule finds. -/
def bad : Diagnostic :=
  ⟨"F1", "first", .error, ⟨⟨"a"⟩, 2, 1, 0, 0⟩, "bad", none⟩

/-- What the second rule finds. -/
def odd : Diagnostic :=
  ⟨"S1", "second", .warning, ⟨⟨"a"⟩, 1, 5, 0, 0⟩, "odd", none⟩

/-- The run of the sample rules has both findings on one file and three failures on the other. -/
theorem ruleSession_run :
    ∃ run, ruleSession.run ["first", "second"] ruleFiles [] = .ok run ∧
      run.diagnostics = [odd, bad] ∧
      run.failures.map UnitFailure.unit = ["base", "first", "second"] := by
  have hclosure : ruleSession.registry.closure [1, 2] = [0, 1, 2] := by cbv
  have hsteps : Countdown.Steps ruleSession.registry [0, 1, 2]
      (.start ruleSession.registry [0, 1, 2]) ⟨[(0, 0), (1, 0), (2, 0)], [], [0, 1, 2], []⟩ :=
    .head rfl (.head rfl (.head rfl (.head rfl (.head rfl .refl))))
  have horder := Registry.orderOf_of_steps hsteps rfl rfl
  have hplan : Plan.of ruleSession.registry ["first", "second"] = .ok ⟨[0, 1, 2], [1, 2]⟩ :=
    Plan.of_eq_ok_iff.mpr ⟨[1, 2], .cons rfl (.cons rfl .nil), rfl, by rw [hclosure, horder]⟩
  have hper : (ruleSession.runFiles ⟨[0, 1, 2], [1, 2]⟩ ruleFiles (.after [])).1 =
      [(.ofText 0 ⟨"a"⟩ "",
          [(0, .ok (.number 1)), (1, .ok (.findings [bad, bad])), (2, .ok (.findings [odd]))]),
        (.ofText 1 ⟨"b"⟩ "",
          [(0, .error (.failed "failed on b")), (1, .error (.dependencyFailed "base")),
            (2, .error (.dependencyFailed "base"))])] := rfl
  obtain ⟨run, hrun, hdiagnostics, hfailures⟩ := exists_run_of_plan hplan ruleFiles []
  refine ⟨run, hrun, ?_, ?_⟩
  · rw [hdiagnostics, hper]
    rfl
  · rw [hfailures, hper, sortFailures, List.mergeSort_of_pairwise (by decide)]
    rfl

/-- Two rules on two files, asked for together, by code, twice and in another order. -/
theorem run_additive_sample :
    Registry.build sampleRules = .ok ruleSession.registry ∧
    ∃ (run : Run) (part : String → SourceFile → Run),
      ruleSession.run ["first", "second"] ruleFiles [] = .ok run ∧
      run.diagnostics = [odd, bad] ∧
      run.Unites (ruleFiles.flatMap fun f => ["first", "second"].map fun r => part r f) ∧
      ∃ run', ruleSession.run ["S1", "first", "second"] ruleFiles.reverse [] = .ok run' ∧
        run'.diagnostics = run.diagnostics ∧ run'.failures = run.failures := by
  obtain ⟨run, hrun, hfindings, -⟩ := ruleSession_run
  have hbuild : Registry.build sampleRules = .ok ruleSession.registry := rfl
  have hpure : ∀ u ∈ sampleRules, u.IsPure := by
    intro u hu
    simp only [sampleRules, List.mem_cons, List.not_mem_nil, or_false] at hu
    rcases hu with rfl | rfl | rfl
    · exact isPure_analysis _ rfl _ _ _ _
    · exact fun cx calls => rfl
    · exact fun cx calls => rfl
  have hown : ∀ u ∈ sampleRules, ∀ info, u.rule = some info → u.ReportsOwn info := by
    intro u hu info hinfo
    simp only [sampleRules, List.mem_cons, List.not_mem_nil, or_false] at hu
    rcases hu with rfl | rfl | rfl
    · cases hinfo
    · cases hinfo
      refine ⟨rfl, fun cx ds hds d hd => ?_⟩
      cases hds
      simp at hd
      simp [hd, RuleInfo.finding, Location.ofPosition]
    · cases hinfo
      refine ⟨rfl, fun cx ds hds d hd => ?_⟩
      cases hds
      simp at hd
      simp [hd, RuleInfo.finding, Location.ofPosition]
  have hrules : ∀ id ∈ ["first", "second"], (ruleSession.registry.rule? id).isSome := by
    simp only [List.forall_mem_cons]
    exact ⟨rfl, rfl, nofun⟩
  have hids : ruleFiles.Pairwise fun f g => f.id ≠ g.id := by
    simp [ruleFiles, SourceFile.ofText]
  have hpaths : ruleFiles.Pairwise fun f g => ¬ f.relativePath.same g.relativePath := by
    simp [ruleFiles, SourceFile.ofText]
    decide
  obtain ⟨hruns, hadditive⟩ := run_additive hbuild hpure hown hrules hids hpaths []
  obtain ⟨hunites, hsame, -⟩ := hadditive run hrun
  let part (r : String) (f : SourceFile) : Run := (ruleSession.run [r] [f] []).toOption.getD run
  have hpart : ∀ r ∈ ["first", "second"], ∀ f ∈ ruleFiles,
      ∃ calls, ruleSession.run [r] [f] calls = .ok (part r f) := by
    intro r hr f hf
    obtain ⟨one, hone⟩ := hruns.mp ⟨run, hrun⟩ r hr f []
    refine ⟨[], ?_⟩
    simp only [part, hone]
    rfl
  have hlookup : ruleSession.registry.lookup "S1" = ruleSession.registry.lookup "second" := rfl
  refine ⟨hbuild, run, part, hrun, hfindings, hunites part hpart, ?_⟩
  refine hsame ["S1", "first", "second"] ruleFiles.reverse [] ?_ ruleFiles.reverse_perm
  intro o
  simp only [List.map_cons, List.map_nil, hlookup, List.mem_cons, List.not_mem_nil, or_false]
  tauto

end Session

end SchemaLint

import SchemaLint.Cli.Response
import SchemaLint.Proofs.Builtin

/-!
# The report and the exit status agree

A check counts every failure, but its report leaves out the units that were skipped.  Nothing gets
lost by that: a unit is skipped for another one that failed on the same file, and the chain of such
units ends in one that failed by itself.  Files of the same number share their outcomes, so they
share the end of the chain as well, and numbers need not be distinct.

* `Session.Ledger.exists_unskipped`: a failure that is kept leads to one that is no skip.
* `Session.exists_unskipped_failure`: hence every path among the failures of a run has one that is
  printed.
* `Rules.neverSkips_units`: no built-in unit gives the failure of a dependency as its own.
* **`Analyzer.not_clean_iff_printed`**: an analysis is not clean if and only if its compact report
  is not empty.
-/

namespace SchemaLint

/-! ## Failures that are no skips -/

namespace Session

variable {s : Session} {seen : List SourceFile} {calls : List UnitCall} {st : EngineState} {n : Nat}

/-- A kept failure of a unit leads, through units for which others were skipped, to one that is no
skip: by induction on the depth of the unit. -/
theorem Ledger.exists_unskipped (h : s.Ledger seen calls st)
    (hskip : ∀ e ∈ s.registry.entries, e.unit.NeverSkips) {units : List Nat}
    (hclosed : ∀ n ∈ units, ∀ m, s.registry.Depends n m → m ∈ units) {depth f : Nat}
    (hdepth : s.registry.DepthWithin depth n) (hn : n ∈ units) {e : UnitError}
    (ho : st.outcome? n f = some (.error e)) :
    ∃ k ∈ units, ∃ e', st.outcome? k f = some (.error e') ∧ e'.isSkip = false := by
  induction depth generalizing n e with
  | zero => exact hdepth.elim
  | succ depth ih =>
      obtain ⟨-, file, -, rfl, outcome, hbelow, hcause⟩ := h.settled n f _ ho
      rcases hcause with ⟨m, hm, -⟩ | ⟨entry, _, _, _, hentry, -, -, hrun⟩
      · obtain ⟨e', he'⟩ := hm.failed
        have hkept := hbelow m hm.depends
        rw [he'] at hkept
        exact ih (hdepth.2 m hm.depends) (hclosed n hn m hm.depends) hkept
      · exact ⟨n, hn, e, ho, hskip entry (List.mem_of_getElem? hentry) _ _ hrun.symm⟩

/-- **Every path among the failures of a run has a failure that is no skip.** -/
theorem exists_unskipped_failure {units : List AnalysisUnit}
    (hbuild : Registry.build units = .ok s.registry) (hskip : ∀ u ∈ units, u.NeverSkips)
    {request : List String} {files : List SourceFile} {run : Run}
    (hrun : s.run request files calls = .ok run) {f : UnitFailure} (hf : f ∈ run.failures) :
    ∃ g ∈ run.failures, g.file = f.file ∧ g.error.isSkip = false := by
  have hwf := Registry.wellFormed_of_build hbuild
  have hskip' : ∀ e ∈ s.registry.entries, e.unit.NeverSkips :=
    Registry.forall_entries_of_build hbuild hskip
  obtain ⟨plan, hplan, rfl⟩ := run_eq_ok_iff.mp hrun
  obtain ⟨-, -, hfirst⟩ := Plan.order_of_eq_ok hplan
  have hdepth : ∀ n ∈ plan.order, s.registry.DepthWithin s.depth n :=
    fun n hn => Plan.depthWithin hwf hplan hn
  have hclosed : ∀ n ∈ plan.order, ∀ m, s.registry.Depends n m → m ∈ plan.order :=
    fun n hn m hm => Plan.mem_order_of_depends hplan hn hm
  obtain ⟨hledger, -, -, hfailures⟩ := ledger_runFiles hwf hfirst hdepth
    (fun f hf => hf) (s.ledger_after files calls)
  -- The failures of a run are the failed outcomes of its planned units, so a failed unit below a
  -- skipped one is listed too.
  have hlisted : ∀ g, g ∈ sortFailures (s.failuresOf (s.runFiles plan files (.after calls)).1) ↔
      ∃ file ∈ files, ∃ n ∈ plan.order, ∃ e,
        (s.runFiles plan files (.after calls)).2.outcome? n file.id = some (.error e) ∧
          g = ⟨s.registry.idOf n, file.relativePath, e⟩ := by
    intro g
    rw [mem_sortFailures, hfailures, List.mem_flatMap]
    refine exists_congr fun file => and_congr_right fun _ => ?_
    unfold failuresOn
    rw [List.mem_filterMap]
    refine exists_congr fun n => and_congr_right fun _ => ?_
    rcases (s.runFiles plan files (.after calls)).2.outcome? n file.id with _ | _ | fact
    · simp
    · simp [failureOf?, eq_comm]
    · simp [failureOf?]
  obtain ⟨file, hfile, n, hn, e, ho, rfl⟩ := (hlisted f).mp hf
  obtain ⟨k, hk, e', ho', hunskipped⟩ :=
    hledger.exists_unskipped hskip' hclosed (hdepth n hn) hn ho
  exact ⟨_, (hlisted _).mpr ⟨file, hfile, k, hk, e', ho', rfl⟩, rfl, hunskipped⟩

end Session

/-! ## The built-in units -/

/-- Reading a fact fails because the fact is not there or of another kind, never by a skip. -/
theorem UnitContext.isSkip_of_read {cx : UnitContext} {id : String} {α : Type}
    {kind : Fact → Option α} {e : UnitError} (h : cx.read id kind = .error e) :
    e.isSkip = false := by
  unfold read at h
  split at h
  · cases h
    rfl
  · split at h
    · cases h
    · cases h
      rfl

/-- A unit whose file is not valid code is not skipped. -/
theorem UnitContext.isSkip_of_parsed {cx : UnitContext} {e : UnitError}
    (h : cx.parsed = .error e) : e.isSkip = false := by
  unfold parsed at h
  split at h
  · cases h
  · cases h
    rfl

/-- What fails in two steps fails in one of them. -/
theorem isSkip_of_bind {α β : Type} {x : Except UnitError α} {next : α → Except UnitError β}
    {e : UnitError} (h : x >>= next = .error e) (hx : ∀ e, x = .error e → e.isSkip = false)
    (hnext : ∀ a e, next a = .error e → e.isSkip = false) : e.isSkip = false := by
  rcases x with e' | a
  · cases h
    exact hx e rfl
  · exact hnext a e h

/-- What fails before it returns something fails there. -/
theorem isSkip_of_bind_pure {α β : Type} {x : Except UnitError α} {make : α → β} {e : UnitError}
    (h : (x >>= fun a => pure (make a)) = .error e)
    (hx : ∀ e, x = .error e → e.isSkip = false) : e.isSkip = false := by
  refine isSkip_of_bind h hx fun a e' h' => ?_
  cases h'

namespace Rules

/-- A rule fails if its check does. -/
theorem neverSkips_unit {info : RuleInfo} {requires : List String}
    {check : UnitContext → Except UnitError (List Diagnostic)}
    (hcheck : ∀ cx e, check cx = .error e → e.isSkip = false) :
    (info.unit requires check).NeverSkips := by
  intro cx e h
  refine hcheck cx e ?_
  rcases hds : check cx with e' | ds
  · simp only [RuleInfo.unit, hds, Except.map] at h
    injection h with h
    rw [h]
  · simp only [RuleInfo.unit, hds, Except.map] at h
    cases h

/-- **No built-in unit gives the failure of a dependency as its own.** -/
theorem neverSkips_units : ∀ u ∈ units, u.NeverSkips := by
  intro u hu
  rcases mem_units_iff.mp hu with hindex | ⟨r, hr, rfl⟩ | rfl | rfl
  · simp only [Index.all, List.mem_cons, List.not_mem_nil, or_false] at hindex
    rcases hindex with rfl | rfl | rfl | rfl
    · intro cx e h
      exact isSkip_of_bind_pure h fun _ => UnitContext.isSkip_of_parsed
    · intro cx e h
      exact isSkip_of_bind h (fun _ => UnitContext.isSkip_of_read) fun _ _ h =>
        isSkip_of_bind_pure h fun _ => UnitContext.isSkip_of_parsed
    · intro cx e h
      exact isSkip_of_bind h (fun _ => UnitContext.isSkip_of_read) fun _ _ h =>
        isSkip_of_bind_pure h fun _ => UnitContext.isSkip_of_parsed
    · intro cx e h
      cases h
  · refine neverSkips_unit fun cx e h => ?_
    exact isSkip_of_bind h (fun _ => UnitContext.isSkip_of_read) fun _ _ h =>
      isSkip_of_bind_pure h fun _ => UnitContext.isSkip_of_read
  · refine neverSkips_unit fun cx e h => ?_
    exact isSkip_of_bind h (fun _ => UnitContext.isSkip_of_read) fun _ _ h =>
      isSkip_of_bind_pure h fun _ => UnitContext.isSkip_of_read
  · refine neverSkips_unit fun cx e h => ?_
    exact isSkip_of_bind_pure h fun _ => UnitContext.isSkip_of_read

end Rules

/-! ## Lines -/

/-- Only no lines at all make an empty text. -/
theorem asLines_eq_empty_iff (ls : List String) : asLines ls = "" ↔ ls = [] := by
  unfold asLines
  cases ls with
  | nil => simp
  | cons l rest => simp [asLine, String.append_eq_empty_iff]

/-- Each of some lines stands in their text. -/
theorem exists_asLines_eq {ls : List String} {l : String} (hl : l ∈ ls) :
    ∃ before after, asLines ls = before ++ asLine l ++ after := by
  unfold asLines
  induction ls with
  | nil => cases hl
  | cons m rest ih =>
      rw [List.map_cons, String.join_cons]
      rcases List.mem_cons.mp hl with rfl | hl
      · exact ⟨"", String.join (rest.map asLine), by simp⟩
      · obtain ⟨before, after, heq⟩ := ih hl
        refine ⟨asLine m ++ before, after, ?_⟩
        rw [heq]
        simp only [String.append_assoc]

/-- A compact report is empty if there are no findings and all failures are skips. -/
theorem LintResult.renderCompact_eq_empty_iff (r : LintResult) :
    r.renderCompact = "" ↔ r.diagnostics = [] ∧ ∀ f ∈ r.failures, f.error.isSkip := by
  unfold renderCompact failureLines
  rw [String.append_eq_empty_iff, asLines_eq_empty_iff, asLines_eq_empty_iff, List.map_eq_nil_iff,
    List.map_eq_nil_iff, List.filter_eq_nil_iff]
  simp

/-- A failure that is no skip has a line in a compact report. -/
theorem LintResult.exists_renderCompact_eq {r : LintResult} {f : UnitFailure}
    (hf : f ∈ r.failures) (hunskipped : f.error.isSkip = false) :
    ∃ before after, r.renderCompact = before ++ asLine f.display ++ after := by
  have hline : f.display ∈ r.failureLines :=
    List.mem_map_of_mem (List.mem_filter.mpr ⟨hf, by simp [hunskipped]⟩)
  obtain ⟨before, after, heq⟩ := exists_asLines_eq hline
  refine ⟨asLines (r.diagnostics.map Diagnostic.display) ++ before, after, ?_⟩
  unfold renderCompact
  rw [heq]
  simp only [String.append_assoc]

/-! ## Analyses -/

namespace Analyzer

/-- The result of an analysis is what a run of its session comes to. -/
theorem analyzeFiles_eq_ok_iff {a : Analyzer} {files : List SourceFile} {r : LintResult} :
    a.analyzeFiles files = .ok r ↔ ∃ selected run, a.selectedRules = .ok selected ∧
      Settings.isMarker a.config.settings.marker ∧
      Session.run ⟨a.registry, a.config.settings, a.faultOf⟩ selected files [] = .ok run ∧
      r = ⟨run.diagnostics.map (a.finish files), run.failures, files.length⟩ := by
  unfold analyzeFiles Session.of Settings.validate
  rcases hselected : a.selectedRules with e | selected
  · simp [bind, Except.bind]
  · by_cases hmarker : Settings.isMarker a.config.settings.marker
    · rcases hrun : Session.run ⟨a.registry, a.config.settings, a.faultOf⟩ selected files []
        with e | run
      · simp [bind, Except.bind, Except.map, hmarker, hrun]
      · simp [bind, Except.bind, Except.map, pure, Except.pure, hmarker, hrun, eq_comm]
    · simp [bind, Except.bind, Except.map, hmarker]

/-- **The exit status and the report agree.**  For every result of an analysis with the built-in
rules, on any files and under any configuration and request, the check ends with findings if and
only if the compact report is not empty; and whatever path has a failure has one whose line is
printed. -/
theorem not_clean_iff_printed {a : Analyzer} (hregistry : Rules.registry = .ok a.registry)
    {files : List SourceFile} {r : LintResult} (h : a.analyzeFiles files = .ok r) :
    (CheckOptions.isClean r = false ↔ r.renderCompact ≠ "") ∧
      ∀ f ∈ r.failures, ∃ g ∈ r.failures, g.file = f.file ∧ g.error.isSkip = false ∧
        ∃ before after, r.renderCompact = before ++ asLine g.display ++ after := by
  obtain ⟨selected, run, -, -, hrun, rfl⟩ := analyzeFiles_eq_ok_iff.mp h
  have hbuild : Registry.build Rules.units =
      .ok (Session.mk a.registry a.config.settings a.faultOf).registry := hregistry
  have hunskipped : ∀ f ∈ run.failures, ∃ g ∈ run.failures,
      g.file = f.file ∧ g.error.isSkip = false :=
    fun f hf => Session.exists_unskipped_failure hbuild Rules.neverSkips_units hrun hf
  refine ⟨?_, fun f hf => ?_⟩
  · rw [ne_eq, LintResult.renderCompact_eq_empty_iff]
    unfold CheckOptions.isClean LintResult.hasFailures
    rw [← Bool.not_eq_true, Bool.and_eq_true, List.isEmpty_iff, Bool.not_not, List.isEmpty_iff]
    refine not_congr (and_congr_right fun _ => ⟨fun hnone f hf => ?_, fun hskips => ?_⟩)
    · rw [hnone] at hf
      cases hf
    · refine List.eq_nil_iff_forall_not_mem.mpr fun f hf => ?_
      obtain ⟨g, hg, -, hgskip⟩ := hunskipped f hf
      rw [hskips g hg] at hgskip
      cases hgskip
  · obtain ⟨g, hg, hfile, hgskip⟩ := hunskipped f hf
    exact ⟨g, hg, hfile, hgskip, LintResult.exists_renderCompact_eq hg hgskip⟩

/-- An analysis with the built-in rules and the default configuration, of one rule. -/
def sample : Analyzer where
  root := ⟨"."⟩
  registry := Rules.builtinSession.registry
  rules := ["setter-key-literal"]
  patterns := []
  config := {}
  faultOf := Rules.builtinSession.faultOf

/-- The failures on a file that is not valid code: one unit fails, two are skipped. -/
def cutFailures : List UnitFailure :=
  [⟨"imports", ⟨"cut"⟩, .parse "1:27: unexpected end of input"⟩,
    ⟨"setter-calls", ⟨"cut"⟩, .dependencyFailed "imports"⟩,
    ⟨"setter-key-literal", ⟨"cut"⟩, .dependencyFailed "setter-calls"⟩]

/-- A valid file and one that is not give no findings, and failures on the second only. -/
theorem analyzeFiles_sample :
    sample.analyzeFiles [Session.sampleFile 0, Rules.cutFile] = .ok ⟨[], cutFailures, 2⟩ := by
  let s : Session := ⟨sample.registry, sample.config.settings, sample.faultOf⟩
  let plan : Plan := ⟨[0, 2, 3, 15], [15]⟩
  let files := [Session.sampleFile 0, Rules.cutFile]
  have hclosure : sample.registry.closure [15] = plan.order := by cbv
  have hsteps : Countdown.Steps sample.registry plan.order (.start sample.registry plan.order)
      ⟨[(0, 0), (2, 0), (3, 0), (15, 0)], [], plan.order, []⟩ :=
    .head rfl (.head rfl (.head rfl (.head rfl (.head rfl (.head rfl (.head rfl .refl))))))
  have hplan : Plan.of sample.registry ["setter-key-literal"] = .ok plan := by
    refine Plan.of_eq_ok_iff.mpr ⟨[15], .cons rfl .nil, rfl, ?_⟩
    rw [hclosure, Registry.orderOf_of_steps hsteps rfl rfl]
  have hfailures : s.failuresOf (s.runFiles plan files (.after [])).1 = cutFailures := by
    decide +kernel
  have hsink : (Session.sinkOf plan (s.runFiles plan files (.after [])).1).toList = [] := by
    decide +kernel
  have hsorted : Session.sortFailures (s.failuresOf (s.runFiles plan files (.after [])).1) =
      cutFailures := by
    rw [hfailures, Session.sortFailures, List.mergeSort_of_pairwise (by decide)]
  refine analyzeFiles_eq_ok_iff.mpr ⟨["setter-key-literal"], _, rfl, by decide,
    Session.run_eq_ok_iff.mpr ⟨plan, hplan, rfl⟩, ?_⟩
  rw [hsink, hsorted]
  rfl

/-- There are failures but no findings, so the check ends with findings, and one line is printed. -/
theorem not_clean_iff_printed_sample :
    ∃ r, sample.analyzeFiles [Session.sampleFile 0, Rules.cutFile] = .ok r ∧
      r.diagnostics = [] ∧ r.failures = cutFailures ∧
      CheckOptions.isClean r = false ∧ r.renderCompact ≠ "" ∧
      r.renderCompact = asLine "cut: unit `imports` parse error: 1:27: unexpected end of input" ∧
      ∀ f ∈ cutFailures, ∃ g ∈ r.failures, g.file = f.file ∧ g.error.isSkip = false ∧
        ∃ before after, r.renderCompact = before ++ asLine g.display ++ after := by
  have hregistry : Rules.registry = .ok sample.registry := Rules.registry_eq
  obtain ⟨hagree, hprinted⟩ := not_clean_iff_printed hregistry analyzeFiles_sample
  have hfound : CheckOptions.isClean ⟨[], cutFailures, 2⟩ = false := rfl
  exact ⟨_, analyzeFiles_sample, rfl, rfl, hfound, hagree.mp hfound, by decide +kernel, hprinted⟩

end Analyzer

end SchemaLint

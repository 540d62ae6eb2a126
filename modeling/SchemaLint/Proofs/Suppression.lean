import Mathlib.Data.Set.Function
import SchemaLint.Proofs.Builtin
import SchemaLint.Proofs.Literals

/-!
# What the rules on schema literals report

A rule on schema literals that is run alone reports the literals that break it and that no
directive silences.  The comments are found in the text and the literals in the syntax tree, but
both count lines the same way; and as no two literals are reported at one place, the sink keeps
every finding.

* `Comment.Silences`: a comment is a directive for a rule next to a line.
* `RuleInfo.isSilenced_scan_iff`: a rule is silenced on a line exactly if a comment silences it.
* `Rules.yields_schemaRule`: what the unit of such a rule finds on valid code.
* `SchemaRule.bijOn_kept`: a sink keeps the findings on literals at different places.
* **`Rules.schemaRule_reports`**: the findings of a run and the literals that break the rule and are
  not silenced correspond one to one.
-/

namespace SchemaLint

/-! ## Silencing -/

/-- A comment that ends on a line or on the line before it and is a directive for a rule. -/
def Comment.Silences (marker : String) (info : RuleInfo) (line : Nat) (c : Comment) : Prop :=
  (c.endLine = line ∨ c.endLine + 1 = line) ∧
    ∃ d, Directive.parse? marker c = some (.inr d) ∧
      (d.rule = Directive.wildcard ∨ d.rule = info.name ∨ d.rule = info.code)

section

variable {marker source : String}

/-- A directive applies from the line on which its comment ends. -/
theorem Directive.line_of_parse? {c : Comment} {d : Directive}
    (h : Directive.parse? marker c = some (.inr d)) : d.line = c.endLine := by
  obtain ⟨rest, -, hwords⟩ := Option.map_eq_some_iff.mp h
  unfold ofWords at hwords
  split at hwords
  · cases hwords
  · split at hwords
    · cases hwords
      rfl
    · cases hwords

/-- A directive is found if a comment of the text is one. -/
theorem Suppressions.mem_directives_scan {d : Directive} :
    d ∈ (scan marker source).directives ↔
      ∃ c ∈ comments source, Directive.parse? marker c = some (.inr d) := by
  simp only [scan, ofComments, List.mem_filterMap]
  constructor
  · rintro ⟨parsed, ⟨c, hc, hparsed⟩, hright⟩
    exact ⟨c, hc, by rw [hparsed, Sum.getRight?_eq_some_iff.mp hright]⟩
  · rintro ⟨c, hc, hparsed⟩
    exact ⟨.inr d, ⟨c, hc, hparsed⟩, rfl⟩

/-- Line zero, where no directive applies, is no line of a file. -/
theorem Suppressions.isSuppressedAt_scan_iff {rule : String} {line : Nat} (hline : 0 < line) :
    (scan marker source).isSuppressedAt rule line ↔
      ∃ c ∈ comments source, (c.endLine = line ∨ c.endLine + 1 = line) ∧
        ∃ d, Directive.parse? marker c = some (.inr d) ∧
          (d.rule = Directive.wildcard ∨ d.rule = rule) := by
  simp only [isSuppressedAt, List.any_eq_true, mem_directives_scan, Directive.isAdjacentTo,
    Directive.covers, Bool.and_eq_true, Bool.or_eq_true, beq_iff_eq, decide_eq_true_eq]
  constructor
  · rintro ⟨d, ⟨c, hc, hd⟩, ⟨-, hadjacent⟩, hcovers⟩
    rw [Directive.line_of_parse? hd] at hadjacent
    exact ⟨c, hc, hadjacent.imp Eq.symm Eq.symm, d, hd, hcovers⟩
  · rintro ⟨c, hc, hadjacent, d, hd, hcovers⟩
    refine ⟨d, ⟨c, hc, hd⟩, ⟨hline, ?_⟩, hcovers⟩
    rw [Directive.line_of_parse? hd]
    exact hadjacent.imp Eq.symm Eq.symm

/-- A rule is silenced by its name or its code, on a line that is one of a file. -/
theorem RuleInfo.isSilenced_scan_iff {info : RuleInfo} {line : Nat} (hline : 0 < line) :
    info.isSilenced (.scan marker source) line ↔
      ∃ c ∈ comments source, c.Silences marker info line := by
  simp only [isSilenced, Bool.or_eq_true, Suppressions.isSuppressedAt_scan_iff hline]
  constructor
  · rintro (⟨c, hc, hadjacent, d, hd, hrule⟩ | ⟨c, hc, hadjacent, d, hd, hrule⟩)
    · exact ⟨c, hc, hadjacent, d, hd, hrule.imp_right .inl⟩
    · exact ⟨c, hc, hadjacent, d, hd, hrule.imp_right .inr⟩
  · rintro ⟨c, hc, hadjacent, d, hd, hany | hname | hcode⟩
    · exact .inl ⟨c, hc, hadjacent, d, hd, .inl hany⟩
    · exact .inl ⟨c, hc, hadjacent, d, hd, .inr hname⟩
    · exact .inr ⟨c, hc, hadjacent, d, hd, .inr hcode⟩

end

/-! ## Keeping findings -/

/-- No two findings of a sink are equal. -/
theorem Sink.nodup_kept (ds : List Diagnostic) : (kept ds).Nodup := by
  refine (strictlySorted_kept ds).imp fun {a b} hlt hab => ?_
  have hself : a.compareKey a = .eq := Std.ReflCmp.compare_self
  rw [← hab, hself] at hlt
  cases hlt

/-- Findings of a rule on a file that share their key are at the same place. -/
theorem SchemaRule.reportPosition_of_compareKey {r : SchemaRule} {file : SourceFile}
    {l l' : SchemaLiteral} (h : (r.findingOn file l).compareKey (r.findingOn file l') = .eq) :
    l.reportPosition = l'.reportPosition := by
  obtain ⟨-, hline, hcolumn, -⟩ := Diagnostic.compareKey_eq_iff.mp h
  simp only [findingOn, RuleInfo.finding, Location.ofPosition] at hline hcolumn
  cases hl : l.reportPosition
  cases hl' : l'.reportPosition
  simp_all

/-- A sink keeps all findings of a rule on literals that are reported at different places. -/
theorem SchemaRule.mem_kept {r : SchemaRule} {file : SourceFile} {literals : List SchemaLiteral}
    (h : (literals.map SchemaLiteral.reportPosition).Nodup) {d : Diagnostic} :
    d ∈ Sink.kept (literals.map (r.findingOn file)) ↔ ∃ l ∈ literals, r.findingOn file l = d := by
  rw [Sink.mem_kept, List.mem_map]
  intro a ha b hb hab
  obtain ⟨l, hl, rfl⟩ := List.mem_map.mp ha
  obtain ⟨l', hl', rfl⟩ := List.mem_map.mp hb
  rw [List.inj_on_of_nodup_map h hl hl' (reportPosition_of_compareKey hab)]

/-- The findings that a sink keeps and such literals correspond one to one. -/
theorem SchemaRule.bijOn_kept {r : SchemaRule} {file : SourceFile} {literals : List SchemaLiteral}
    (h : (literals.map SchemaLiteral.reportPosition).Nodup) :
    Set.BijOn (r.findingOn file) {l | l ∈ literals}
      {d | d ∈ Sink.kept (literals.map (r.findingOn file))} := by
  refine ⟨fun l hl => (mem_kept h).mpr ⟨l, hl, rfl⟩, fun l hl l' hl' heq => ?_,
    fun d hd => (mem_kept h).mp hd⟩
  have hkey : (r.findingOn file l).compareKey (r.findingOn file l') = .eq := by
    rw [heq]
    exact Std.ReflCmp.compare_self
  exact List.inj_on_of_nodup_map h hl hl' (reportPosition_of_compareKey hkey)

/-! ## Outcomes on valid code -/

/-- The facts of units that are known to yield them. -/
theorem Session.factsOf_eq_ok {r : Registry} {outcome : Nat → Outcome} {fact : String → Fact}
    {units : List Nat} (h : ∀ n ∈ units, outcome n = .ok (fact (r.idOf n))) :
    factsOf r outcome units = .ok ((units.map r.idOf).map fun id => (id, fact id)) := by
  induction units with
  | nil => rfl
  | cons n rest ih =>
      unfold factsOf
      rw [h n List.mem_cons_self, ih fun m hm => h m (List.mem_cons_of_mem n hm)]
      rfl

namespace Rules

variable {s : Session} {file : SourceFile} {n : Nat} {o : Outcome} {code : Code.CodeFile}

/-- What a built-in unit yields where the units it depends on are known to yield given facts. -/
theorem yields_unit (hregistry : registry = .ok s.registry) (u : AnalysisUnit) (hu : u ∈ units)
    (hid : s.registry.idOf n = u.id) (fact : String → Fact)
    (hfacts : ∀ id ∈ u.requires, ∀ m o, s.registry.idOf m = id → s.Yields file m o →
      o = .ok (fact id))
    (hy : s.Yields file n o) :
    o = u.run (s.context file file.parse? (u.requires.map fun id => (id, fact id)) []) := by
  obtain ⟨found, below⟩ := hy
  rename_i entry outcome
  have hunit := unit_eq hregistry found hu hid
  have hrequires := Registry.map_idOf_requiresOf hregistry found
  rw [Registry.requiresOf_eq found, hunit] at hrequires
  unfold Session.outcomeFrom
  rw [Session.factsOf_eq_ok fun m hm => ?_, hrequires, hunit]
  refine hfacts _ ?_ m _ rfl (below m hm)
  rw [← hrequires]
  exact List.mem_map_of_mem hm

/-- On valid code the unit on imports gives the table of the code. -/
theorem yields_imports (hregistry : registry = .ok s.registry) (hcode : file.parse? = some code)
    (hid : s.registry.idOf n = Index.importsId) (hy : s.Yields file n o) :
    o = .ok (.imports (.ofNodes code.nodes)) := by
  rw [yields_unit hregistry Index.imports (by simp [units, Index.all]) hid
    (fun _ => .imports (.ofNodes code.nodes)) (fun id hid => nomatch hid) hy]
  simp [Index.imports, UnitContext.parsed, hcode]

/-- The schema literals of a file. -/
def literalsOf (s : Session) (code : Code.CodeFile) : List SchemaLiteral :=
  SchemaLiteral.collect (.ofNodes code.nodes) s.settings.schema code.nodes

/-- On valid code the unit on schema literals gives those of the code. -/
theorem yields_schemaLiterals (hregistry : registry = .ok s.registry)
    (hcode : file.parse? = some code) (hid : s.registry.idOf n = Index.schemaLiteralsId)
    (hy : s.Yields file n o) : o = .ok (.schemaLiterals (literalsOf s code)) := by
  rw [yields_unit hregistry Index.schemaLiterals (by simp [units, Index.all]) hid
    (fun _ => .imports (.ofNodes code.nodes)) (fun id hid m o hm => ?_) hy]
  · simp [Index.schemaLiterals, UnitContext.parsed, UnitContext.read, hcode, Fact.imports?, bind,
      Except.bind, literalsOf]
    rfl
  · rw [List.mem_singleton.mp hid] at hm
    exact yields_imports hregistry hcode hm

/-- **The findings of a rule on valid code**: it builds on the literals and the directives of the
file. -/
theorem yields_schemaRule (hregistry : registry = .ok s.registry) {r : SchemaRule}
    (hr : r ∈ schemaRules) (hcode : file.parse? = some code)
    (hid : s.registry.idOf n = r.info.name) (hy : s.Yields file n o) :
    o = .ok (.findings
      (r.findings file (.scan s.settings.marker file.content) (literalsOf s code))) := by
  rw [yields_unit hregistry r.unit (unit_mem_units hr) hid
    (fun id => if id = Index.schemaLiteralsId then .schemaLiterals (literalsOf s code)
      else .suppressions (.scan s.settings.marker file.content)) (fun id hid m o hm hyields => ?_) hy]
  · rfl
  · rcases List.mem_pair.mp hid with rfl | rfl
    · exact yields_schemaLiterals hregistry hcode hm hyields
    · exact yields_suppressions hregistry hm hyields

/-! ## Runs -/

/-- A rule on schema literals is found by its name and by its code. -/
theorem lookup_schemaRule (hregistry : registry = .ok s.registry) {r : SchemaRule}
    (hr : r ∈ schemaRules) {request : String}
    (hrequest : request = r.info.name ∨ request = r.info.code) :
    ∃ n, s.registry.lookup request = some n ∧ s.registry.idOf n = r.info.name := by
  have hconcrete := Except.ok.inj (hregistry.symm.trans registry_eq)
  have hall : ∀ r ∈ schemaRules, ∀ request ∈ [r.info.name, r.info.code],
      (builtinSession.registry.lookup request).map builtinSession.registry.idOf =
        some r.info.name := by
    decide
  rw [hconcrete]
  exact Option.map_eq_some_iff.mp (hall r hr request (by simpa using hrequest))

/-- The units of a plan for one request that report. -/
theorem filter_requested {registry : Registry} {request : String} {plan : Plan} {n : Nat}
    (hplan : Plan.of registry [request] = .ok plan) (hn : registry.lookup request = some n) :
    plan.order.filter plan.requested.contains = [n] := by
  have hnodup := (Plan.order_of_eq_ok hplan).1
  refine List.perm_singleton.mp ((List.perm_ext_iff_of_nodup (hnodup.filter _)
    (List.nodup_singleton n)).mpr fun m => ?_)
  rw [Plan.mem_filter_requested_iff hplan, List.mem_singleton]
  constructor
  · rintro ⟨id, hid, hm⟩
    rw [List.mem_singleton.mp hid, hn] at hm
    exact (Option.some.inj hm).symm
  · rintro rfl
    exact ⟨request, List.mem_singleton.mpr rfl, hn⟩

/-- The literals that a rule selects are those that break it and that no comment silences. -/
theorem mem_unsilenced (hcode : file.parse? = some code) {r : SchemaRule} {l : SchemaLiteral} :
    l ∈ (literalsOf s code).filter (fun l => r.isBrokenBy l &&
        !r.info.isSilenced (.scan s.settings.marker file.content) l.anchorLine) ↔
      l ∈ literalsOf s code ∧ r.isBrokenBy l ∧
        ¬ ∃ c ∈ comments file.content, c.Silences s.settings.marker r.info l.anchorLine := by
  obtain ⟨hknown, -⟩ := SchemaLiteral.reportPosition_of_parseFile? hcode (.ofNodes code.nodes)
    s.settings.schema
  rw [List.mem_filter, Bool.and_eq_true]
  refine and_congr_right fun hl => and_congr_right fun _ => ?_
  have hsilenced : r.info.isSilenced (.scan s.settings.marker file.content) l.anchorLine ↔ _ :=
    RuleInfo.isSilenced_scan_iff (hknown l hl)
  rw [← hsilenced, Bool.not_eq_true', Bool.not_eq_true]

/-- What a run of one unit on one file reports, where no unit fails. -/
theorem run_alone (hready : s.Ready [file]) {request : String} {ds : List Diagnostic}
    (hn : s.registry.lookup request = some n) (hok : ∀ m o, s.Yields file m o → ¬ o.Failed)
    (hds : ∀ o, s.Yields file n o → o = .ok (.findings ds)) {calls : List UnitCall} {run : Run}
    (hrun : s.run [request] [file] calls = .ok run) :
    run.failures = [] ∧ run.diagnostics = Sink.kept ds := by
  obtain ⟨plan, hplan, rfl⟩ := Session.run_eq_ok_iff.mp hrun
  have hyields : ∀ m ∈ plan.order, s.Yields file m (s.plain file s.depth m) := fun m hm =>
    Session.yields_plain (hready.plan_depthWithin hplan m hm)
  have hlists := @Session.run_lists s [request] [file] calls plan hready hplan
  simp only [List.flatMap_singleton] at hlists
  constructor
  · refine List.eq_nil_iff_forall_not_mem.mpr fun e he => ?_
    rw [Session.mem_sortFailures, hlists.2] at he
    obtain ⟨m, hm, hfailure⟩ := List.mem_filterMap.mp he
    have hnot := hok m _ (hyields m hm)
    unfold Session.failureAt? at hfailure
    rcases hplain : s.plain file s.depth m with error | fact
    · exact hnot ⟨error, hplain⟩
    · rw [hplain] at hfailure
      cases hfailure
  · have hmem := Plan.mem_order_of_lookup hplan (List.mem_singleton.mpr rfl) hn
    show (Session.sinkOf plan _).toList = _
    rw [hlists.1, filter_requested hplan hn, List.flatMap_singleton]
    unfold Session.findingsAt
    rw [hds _ (hyields n hmem)]
    rfl

/-- **One finding for each literal that breaks the rule and is not silenced.**  A rule on schema
literals that is run alone on a file of valid code fails nowhere.  What it reports corresponds one
to one to those schema literals of the file that break the rule and for which no comment that ends
on their anchor line or on the line before it is a directive for the rule, by name, by code or for
every rule.  Each is reported at its own place, and no two literals share a place, so the sink drops
none. -/
theorem schemaRule_reports (hregistry : registry = .ok s.registry) {r : SchemaRule}
    (hr : r ∈ schemaRules) {request : String}
    (hrequest : request = r.info.name ∨ request = r.info.code) (hcode : file.parse? = some code)
    (calls : List UnitCall) :
    ∃ run, s.run [request] [file] calls = .ok run ∧ run.failures = [] ∧ run.diagnostics.Nodup ∧
      ((literalsOf s code).map SchemaLiteral.reportPosition).Nodup ∧
      Set.BijOn (r.findingOn file)
        {l | l ∈ literalsOf s code ∧ r.isBrokenBy l ∧
          ¬ ∃ c ∈ comments file.content, c.Silences s.settings.marker r.info l.anchorLine}
        {d | d ∈ run.diagnostics} ∧
      ∀ l, (r.findingOn file l).location = .ofPosition file.relativePath l.reportPosition := by
  have hwf := Registry.wellFormed_of_build hregistry
  obtain ⟨n, hn, hid⟩ := lookup_schemaRule hregistry hr hrequest
  obtain ⟨run, hrun⟩ : ∃ run, s.run [request] [file] calls = .ok run := by
    refine (Session.exists_run_iff hwf).mpr fun id hid => ⟨n, ?_, ?_⟩
    · rw [List.mem_singleton.mp hid, hn]
    · exact depthWithin_of_depends_lt (depends_lt hregistry) (Registry.lookup_lt hn)
  have hready : s.Ready [file] :=
    .of_build hregistry isPure_units (Session.ids_of_pairwise (List.pairwise_singleton _ _))
  obtain ⟨hfailures, hkept⟩ := run_alone hready hn
    (fun m o hy => not_failed_of_parse hregistry (Option.isSome_of_eq_some hcode) hy)
    (fun o hy => yields_schemaRule hregistry hr hcode hid hy) hrun
  obtain ⟨-, hplaces⟩ := SchemaLiteral.reportPosition_of_parseFile? hcode (.ofNodes code.nodes)
    s.settings.schema
  refine ⟨run, hrun, hfailures, hkept ▸ Sink.nodup_kept _, hplaces, ?_, fun _ => rfl⟩
  rw [hkept]
  simp only [← mem_unsilenced hcode]
  exact SchemaRule.bijOn_kept (hplaces.sublist (List.filter_sublist.map _))

/-- A file with two schemas without a type, of which a directive above the first excuses one. -/
def markedFile : SourceFile :=
  .ofText 0 ⟨"marked.rs"⟩ "use tfschema::Schema; // provider-lint:ignore S012
const A: Schema = Schema {};
const B: Schema = Schema {};"

/-- Of two schemas without a type the one that no directive excuses is reported. -/
theorem schemaRule_reports_sample :
    ∃ run, builtinSession.run ["missing-type"] [markedFile] [] = .ok run ∧
      run.diagnostics.map Diagnostic.location = [.ofPosition ⟨"marked.rs"⟩ ⟨3, 19⟩] := by
  have hreported : markedFile.parse?.map (fun code =>
      ((literalsOf builtinSession code).filter fun l => missingType.isBrokenBy l &&
        !missingType.info.isSilenced (.scan builtinSession.settings.marker markedFile.content)
          l.anchorLine).map SchemaLiteral.reportPosition) = some [⟨3, 19⟩] := by
    decide +kernel
  obtain ⟨code, hcode, hpositions⟩ := Option.map_eq_some_iff.mp hreported
  obtain ⟨l, hl, hposition⟩ := List.map_eq_singleton_iff.mp hpositions
  have hregistry : registry = .ok builtinSession.registry := registry_eq
  have hrule : missingType ∈ schemaRules := by simp [schemaRules]
  obtain ⟨run, hrun, -, hnodup, -, hbij, -⟩ :=
    schemaRule_reports hregistry hrule (.inl rfl) hcode []
  refine ⟨run, hrun, ?_⟩
  simp only [← mem_unsilenced hcode, hl, List.mem_singleton] at hbij
  have hdiagnostics : run.diagnostics = [missingType.findingOn markedFile l] := by
    refine List.perm_singleton.mp ((List.perm_ext_iff_of_nodup hnodup
      (List.nodup_singleton _)).mpr fun d => ?_)
    rw [List.mem_singleton]
    constructor
    · intro hd
      obtain ⟨_, rfl, rfl⟩ := hbij.surjOn hd
      rfl
    · rintro rfl
      exact hbij.mapsTo rfl
  rw [hdiagnostics, List.map_singleton, ← hposition]
  rfl

end Rules

end SchemaLint

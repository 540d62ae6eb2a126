import SchemaLint.Proofs.Pointing

/-!
# What is said about a rule is about that rule alone

A configuration says whether a rule is enabled and how serious its findings are, under the name or
the code of the rule.  Such settings decide which rules run, and with that the plan of a run, but
the findings of a rule on given files do not depend on what else is planned: a run has those of its
rules put together.  Names and codes of the built-in rules are all different, so settings under
those of one rule reach no other.

* `Session.findingsOn`, **`Session.mem_diagnostics_iff`**: the findings of one rule on some files,
  and those of a run.
* `AnalysisUnit.Signs`, `Rules.signs_units`: built-in rules sign their findings by name and code.
* `Config.AgreesBut`: configurations that differ in what they say about one rule.
* **`Analyzer.settings_confined`**: under such configurations an analysis has the same findings of
  all other rules, and those of the rule itself up to severity unless it is disabled.
-/

namespace SchemaLint

/-! ## Findings rule by rule -/

/-- Where all but one of the parts are empty, what is put together is that one. -/
theorem flatMap_eq_of_unique {α β : Type} {l : List α} (hnodup : l.Nodup) {n : α} (hn : n ∈ l)
    {g : α → List β} (hothers : ∀ m ∈ l, m ≠ n → g m = []) : l.flatMap g = g n := by
  obtain ⟨front, back, rfl⟩ := List.append_of_mem hn
  rw [List.nodup_middle, List.nodup_cons] at hnodup
  have hempty : ∀ m ∈ front ++ back, g m = [] := by
    intro m hm
    refine hothers m ?_ ?_
    · rw [List.mem_append, List.mem_cons]
      exact (List.mem_append.mp hm).imp_right .inr
    · rintro rfl
      exact hnodup.1 hm
  have hfront : front.flatMap g = [] :=
    List.flatMap_eq_nil_iff.mpr fun m hm => hempty m (List.mem_append_left _ hm)
  have hback : back.flatMap g = [] :=
    List.flatMap_eq_nil_iff.mpr fun m hm => hempty m (List.mem_append_right _ hm)
  rw [List.flatMap_append, List.flatMap_cons, hfront, hback, List.nil_append, List.append_nil]

/-- Which findings of a rule are kept depends on its own findings only. -/
theorem Sink.mem_kept_filter_rule {ds : List Diagnostic} {d : Diagnostic} :
    d ∈ kept (ds.filter fun e => e.rule == d.rule) ↔ d ∈ kept ds := by
  have hkey : (fun e : Diagnostic => decide ((e.rule == d.rule) = true ∧ d.sameKey e = true)) =
      d.sameKey := by
    funext e
    rw [Bool.eq_iff_iff, decide_eq_true_iff, and_iff_right_iff_imp, Diagnostic.sameKey_iff,
      Diagnostic.compareKey_eq_iff]
    rintro ⟨-, -, -, hrule, -⟩
    simp [hrule]
  rw [mem_kept_iff, mem_kept_iff, List.find?_filter, hkey]

namespace Session

variable {s : Session} {request : List String} {files : List SourceFile} {calls : List UnitCall}
  {run : Run} {d : Diagnostic}

/-- The findings of a unit on some files, those that come first with their keys. -/
def findingsOn (s : Session) (files : List SourceFile) (n : Nat) : List Diagnostic :=
  Sink.kept (files.flatMap fun f => s.findingsAt f n)

/-- A unit whose findings are in its own name. -/
def InOwnName (s : Session) (n : Nat) : Prop :=
  ∀ file, ∀ d ∈ s.findingsAt file n, d.rule = s.registry.idOf n

/-- **The findings of several units are those of each.** -/
theorem mem_kept_units {units : List Nat} (hnodup : units.Nodup)
    (hnames : ∀ n ∈ units, s.InOwnName n)
    (hids : ∀ n ∈ units, ∀ m ∈ units, s.registry.idOf n = s.registry.idOf m → n = m) :
    d ∈ Sink.kept (files.flatMap fun f => units.flatMap (s.findingsAt f)) ↔
      ∃ n ∈ units, d ∈ s.findingsOn files n := by
  -- among the findings of all units, those with the name of one are its own
  have hone : ∀ n ∈ units, d.rule = s.registry.idOf n →
      (files.flatMap fun f => units.flatMap (s.findingsAt f)).filter (fun e => e.rule == d.rule) =
        files.flatMap fun f => s.findingsAt f n := by
    intro n hn hrule
    rw [List.filter_flatMap]
    refine List.flatMap_congr fun f _ => ?_
    rw [List.filter_flatMap, flatMap_eq_of_unique hnodup hn]
    · refine List.filter_eq_self.mpr fun e he => ?_
      simp [hrule, hnames n hn f e he]
    · intro m hm hne
      refine List.filter_eq_nil_iff.mpr fun e he hsame => hne (hids m hm n hn ?_)
      rw [← hnames m hm f e he, ← hrule]
      simpa using hsame
  constructor
  · intro hd
    obtain ⟨f, hf, hmem⟩ := List.mem_flatMap.mp (Sink.mem_of_mem_kept hd)
    obtain ⟨n, hn, hmem⟩ := List.mem_flatMap.mp hmem
    refine ⟨n, hn, ?_⟩
    rw [findingsOn, ← hone n hn (hnames n hn f d hmem), Sink.mem_kept_filter_rule]
    exact hd
  · rintro ⟨n, hn, hd⟩
    obtain ⟨f, hf, hmem⟩ := List.mem_flatMap.mp (Sink.mem_of_mem_kept hd)
    rwa [findingsOn, ← hone n hn (hnames n hn f d hmem), Sink.mem_kept_filter_rule] at hd

/-- **What a run has of each rule**: findings stand in the order of their keys, and there are those
of the requested rules, whatever else is planned. -/
theorem mem_diagnostics_iff (h : s.Ready files)
    (hnames : ∀ id ∈ request, ∀ n, s.registry.lookup id = some n →
      s.registry.idOf n = id ∧ s.InOwnName n)
    (hrun : s.run request files calls = .ok run) :
    StrictlySorted Diagnostic.compareKey run.diagnostics ∧ ∀ d, d ∈ run.diagnostics ↔
      d.rule ∈ request ∧ ∃ n, s.registry.lookup d.rule = some n ∧ d ∈ s.findingsOn files n := by
  obtain ⟨plan, hplan, rfl⟩ := run_eq_ok_iff.mp hrun
  obtain ⟨hfindings, -⟩ := @run_lists s request files calls plan h hplan
  have hrequested : ∀ n, n ∈ plan.order.filter plan.requested.contains ↔
      ∃ id ∈ request, s.registry.lookup id = some n :=
    fun n => Plan.mem_filter_requested_iff hplan
  have hown : ∀ n ∈ plan.order.filter plan.requested.contains, s.InOwnName n := by
    intro n hn
    obtain ⟨id, hid, hlookup⟩ := (hrequested n).mp hn
    exact (hnames id hid n hlookup).2
  have hids : ∀ n ∈ plan.order.filter plan.requested.contains,
      ∀ m ∈ plan.order.filter plan.requested.contains,
        s.registry.idOf n = s.registry.idOf m → n = m := fun n hn m hm =>
    h.wellFormed.idOf_inj (Plan.order_lt h.wellFormed hplan n (List.mem_of_mem_filter hn))
      (Plan.order_lt h.wellFormed hplan m (List.mem_of_mem_filter hm))
  have hnodup := (Plan.order_of_eq_ok hplan).1.filter plan.requested.contains
  simp only [hfindings]
  refine ⟨Sink.strictlySorted_kept _, fun d => ?_⟩
  rw [mem_kept_units hnodup hown hids]
  constructor
  · rintro ⟨n, hn, hd⟩
    obtain ⟨id, hid, hlookup⟩ := (hrequested n).mp hn
    obtain ⟨f, -, hmem⟩ := List.mem_flatMap.mp (Sink.mem_of_mem_kept hd)
    have hrule : d.rule = id := by rw [hown n hn f d hmem, (hnames id hid n hlookup).1]
    rw [hrule]
    exact ⟨hid, n, hlookup, hd⟩
  · rintro ⟨hid, n, hlookup, hd⟩
    exact ⟨n, (hrequested n).mpr ⟨_, hid, hlookup⟩, hd⟩

end Session

/-! ## Registered rules -/

/-- A rule that is looked up is registered. -/
theorem Registry.mem_rules_of_rule? {r : Registry} {id : String} {info : RuleInfo}
    (h : r.rule? id = some info) : info ∈ r.rules := by
  obtain ⟨n, -, hn⟩ := Option.bind_eq_some_iff.mp h
  obtain ⟨entry, hentry, hinfo⟩ := Option.bind_eq_some_iff.mp hn
  exact List.mem_filterMap.mpr ⟨entry, List.mem_of_getElem? hentry, hinfo⟩

/-! ## Signed findings -/

/-- A rule that signs its findings: they carry its name and its code. -/
structure AnalysisUnit.Signs (u : AnalysisUnit) (info : RuleInfo) : Prop where
  /-- The id of a rule is its name. -/
  id_eq : u.id = info.name
  /-- Findings are signed. -/
  signed : ∀ cx ds, u.run cx = .ok (.findings ds) →
    ∀ d ∈ ds, d.rule = info.name ∧ d.code = info.code

/-- A rule signs its findings if its check does. -/
theorem RuleInfo.signs_unit {info : RuleInfo} {requires : List String}
    {check : UnitContext → Except UnitError (List Diagnostic)}
    (hcheck : ∀ cx ds, check cx = .ok ds → ∀ d ∈ ds, d.rule = info.name ∧ d.code = info.code) :
    (info.unit requires check).Signs info := by
  refine ⟨rfl, fun cx ds h => hcheck cx ds ?_⟩
  rcases hds : check cx with e | ds'
  · simp only [RuleInfo.unit, hds, Except.map] at h
    cases h
  · simp only [RuleInfo.unit, hds, Except.map] at h
    cases h
    rfl

namespace Rules

variable {s : Session} {info other : RuleInfo}

/-- **All built-in rules sign their findings.** -/
theorem signs_units : ∀ u ∈ units, ∀ info, u.rule = some info → u.Signs info := by
  intro u hu info hinfo
  rcases mem_units_iff.mp hu with hindex | ⟨r, hr, rfl⟩ | rfl | rfl
  · rw [Index.rule_eq_none u hindex] at hinfo
    cases hinfo
  · obtain rfl : r.info = info := Option.some.inj hinfo
    refine RuleInfo.signs_unit fun cx ds h d hd => ?_
    obtain ⟨literals, -, h⟩ := exists_of_bind_eq_ok h
    obtain ⟨directives, -, h⟩ := exists_of_bind_eq_ok h
    obtain rfl := Except.ok.inj h
    obtain ⟨l, -, rfl⟩ := List.mem_map.mp hd
    exact ⟨rfl, rfl⟩
  · obtain rfl : setterKeyLiteralInfo = info := Option.some.inj hinfo
    refine RuleInfo.signs_unit fun cx ds h d hd => ?_
    obtain ⟨calls, -, h⟩ := exists_of_bind_eq_ok h
    obtain ⟨directives, -, h⟩ := exists_of_bind_eq_ok h
    obtain rfl := Except.ok.inj h
    obtain ⟨c, -, hfinding⟩ := List.mem_filterMap.mp hd
    split at hfinding
    · cases hfinding
    · obtain ⟨key, -, rfl⟩ := Option.map_eq_some_iff.mp hfinding
      exact ⟨rfl, rfl⟩
  · obtain rfl : malformedSuppressionInfo = info := Option.some.inj hinfo
    refine RuleInfo.signs_unit fun cx ds h d hd => ?_
    obtain ⟨directives, -, h⟩ := exists_of_bind_eq_ok h
    obtain rfl := Except.ok.inj h
    rcases List.mem_append.mp hd with hd | hd
    · obtain ⟨m, -, rfl⟩ := List.mem_map.mp hd
      exact ⟨rfl, rfl⟩
    · obtain ⟨m, -, rfl⟩ := List.mem_map.mp hd
      exact ⟨rfl, rfl⟩

/-- A rule is found by its name. -/
theorem exists_lookup (hregistry : registry = .ok s.registry) (hinfo : info ∈ s.registry.rules) :
    ∃ n, s.registry.lookup info.name = some n ∧ s.registry.idOf n = info.name ∧
      ∀ file, ∀ d ∈ s.findingsAt file n, d.rule = info.name ∧ d.code = info.code := by
  have hwf := Registry.wellFormed_of_build hregistry
  obtain ⟨entry, hmem, hrule⟩ := List.mem_filterMap.mp hinfo
  obtain ⟨n, hentry⟩ := List.getElem?_of_mem hmem
  have hsigns := signs_units entry.unit (mem_units hregistry hentry) info hrule
  have hid : s.registry.idOf n = info.name := by rw [Registry.idOf_eq hentry, hsigns.id_eq]
  refine ⟨n, ?_, hid, ?_⟩
  · rw [← hid]
    exact hwf.lookup_idOf (List.getElem?_eq_some_iff.mp hentry).1
  · intro file d hd
    obtain ⟨ds, hds, hd⟩ := Session.exists_findings_of_findingsAt hd
    obtain ⟨facts, hrun⟩ := Session.exists_run_of_plain hentry hds
    exact hsigns.signed _ ds hrun d hd

/-- The names and codes of the built-in rules are all different. -/
theorem told_apart (hregistry : registry = .ok s.registry) (hinfo : info ∈ s.registry.rules)
    (hother : other ∈ s.registry.rules) :
    info = other ∨ ∀ key ∈ [info.name, info.code], key ∉ [other.name, other.code] := by
  have hall : ∀ info ∈ builtinSession.registry.rules, ∀ other ∈ builtinSession.registry.rules,
      info = other ∨ ∀ key ∈ [info.name, info.code], key ∉ [other.name, other.code] := by
    decide +kernel
  have hconcrete : s.registry = builtinSession.registry :=
    Except.ok.inj (hregistry.symm.trans registry_eq)
  rw [hconcrete] at hinfo hother
  exact hall info hinfo other hother

/-- A built-in rule is known by its name. -/
theorem eq_of_name (hregistry : registry = .ok s.registry) (hinfo : info ∈ s.registry.rules)
    (hother : other ∈ s.registry.rules) (hname : info.name = other.name) : info = other := by
  rcases told_apart hregistry hinfo hother with heq | hkeys
  · exact heq
  · exact absurd (by simp [hname]) (hkeys info.name List.mem_cons_self)

end Rules

/-! ## Configurations -/

namespace Config

variable {c c' : Config} {info other : RuleInfo}

/-- Two configurations that give the same settings to units, and differ in what they say about
rules under the name or the code of one rule only. -/
structure AgreesBut (c : Config) (info : RuleInfo) (c' : Config) : Prop where
  /-- Units get the same settings. -/
  settings : c.settings = c'.settings
  /-- Under all other names the same is said. -/
  rules : ∀ key, key ∉ [info.name, info.code] → c.rules.lookup key = c'.rules.lookup key

/-- What is said about another rule. -/
theorem AgreesBut.ruleSettings?_eq (h : c.AgreesBut info c')
    (hkeys : ∀ key ∈ [other.name, other.code], key ∉ [info.name, info.code]) :
    c.ruleSettings? other.name other.code = c'.ruleSettings? other.name other.code := by
  unfold ruleSettings?
  rw [h.rules _ (hkeys _ (by simp)), h.rules _ (hkeys _ (by simp))]

end Config

/-! ## Analyses -/

namespace Analyzer

variable {a : Analyzer} {files : List SourceFile} {c c' : Config} {selected selected' : List String}
  {found found' : List Diagnostic} {r : LintResult} {info : RuleInfo}

/-- The analysis under another configuration. -/
def under (a : Analyzer) (c : Config) : Analyzer :=
  { a with config := c }

/-- The rules to choose from: the requested ones, or else all. -/
def candidates (a : Analyzer) : Except ConfigurationError (List RuleInfo) :=
  if a.rules.isEmpty then .ok a.registry.rules else a.rules.mapM a.requestedRule

/-- Every candidate is a registered rule. -/
theorem mem_rules_of_candidates {infos : List RuleInfo} (h : a.candidates = .ok infos)
    (hinfo : info ∈ infos) : info ∈ a.registry.rules := by
  unfold candidates at h
  split_ifs at h
  · rwa [← Except.ok.inj h] at hinfo
  · obtain ⟨id, -, hrequested⟩ := exists_of_mem_mapM h hinfo
    unfold requestedRule at hrequested
    split at hrequested
    · rename_i hrule
      obtain rfl := Except.ok.inj hrequested
      exact Registry.mem_rules_of_rule? hrule
    · cases hrequested

/-- The selected rules are the enabled ones among those to choose from. -/
theorem selectedRules_eq : a.selectedRules = a.candidates.map fun infos =>
    ((infos.filter fun info => a.config.isRuleEnabled info.name info.code).map
      fun info => info.name).eraseDups := by
  unfold selectedRules candidates
  split_ifs
  · rfl
  · cases a.rules.mapM a.requestedRule <;> rfl

/-- The selected rules are the enabled candidates. -/
theorem mem_selected_iff {infos : List RuleInfo} (hinfos : a.candidates = .ok infos)
    (hselected : a.selectedRules = .ok selected) {name : String} :
    name ∈ selected ↔
      ∃ info ∈ infos, a.config.isRuleEnabled info.name info.code ∧ info.name = name := by
  rw [selectedRules_eq, hinfos] at hselected
  rw [← Except.ok.inj hselected, List.mem_eraseDups, List.mem_map]
  simp only [List.mem_filter, and_assoc]

/-- The session of an analysis. -/
def session (a : Analyzer) : Session :=
  ⟨a.registry, a.config.settings, a.faultOf⟩

/-- A selection comes from candidates. -/
theorem exists_candidates (hselected : a.selectedRules = .ok selected) :
    ∃ infos, a.candidates = .ok infos := by
  cases hinfos : a.candidates with
  | error e =>
      rw [selectedRules_eq, hinfos] at hselected
      cases hselected
  | ok infos => exact ⟨infos, rfl⟩

/-- What is said about rules does not change the session. -/
theorem session_under (h : c.settings = c'.settings) :
    (a.under c).session = (a.under c').session := by
  simp only [session, under, h]

/-- A selected rule is registered. -/
theorem exists_rule_of_selected (hselected : a.selectedRules = .ok selected) {name : String}
    (hname : name ∈ selected) :
    ∃ info ∈ a.registry.rules, a.config.isRuleEnabled info.name info.code ∧ info.name = name := by
  obtain ⟨infos, hinfos⟩ := exists_candidates hselected
  obtain ⟨info, hinfo, henabled, rfl⟩ := (mem_selected_iff hinfos hselected).mp hname
  exact ⟨info, mem_rules_of_candidates hinfos hinfo, henabled, rfl⟩

/-- A rule that two configurations both enable or both disable is selected under both or neither. -/
theorem mem_selected_congr (hselected : (a.under c).selectedRules = .ok selected)
    (hselected' : (a.under c').selectedRules = .ok selected') {name : String}
    (h : ∀ info ∈ a.registry.rules, info.name = name →
      c.isRuleEnabled info.name info.code = c'.isRuleEnabled info.name info.code) :
    name ∈ selected ↔ name ∈ selected' := by
  obtain ⟨infos, hinfos⟩ := exists_candidates hselected
  rw [mem_selected_iff hinfos hselected, mem_selected_iff (a := a.under c') hinfos hselected']
  refine exists_congr fun info => and_congr_right fun hinfo => and_congr_left fun hname => ?_
  have henabled := h info (mem_rules_of_candidates hinfos hinfo) hname
  simp only [under, henabled]

/-- An analysis with the built-in rules fails for its request or its settings only. -/
theorem analyzeFiles_eq_error_iff (hregistry : Rules.registry = .ok a.registry)
    {e : ConfigurationError} : a.analyzeFiles files = .error e ↔ a.candidates = .error e ∨
      (∃ infos, a.candidates = .ok infos) ∧ a.config.settings.validate = .error e := by
  cases hinfos : a.candidates with
  | error e' =>
      have hselected : a.selectedRules = .error e' := by
        rw [selectedRules_eq, hinfos]
        rfl
      simp [analyzeFiles, hselected, bind, Except.bind]
  | ok infos =>
      obtain ⟨selected, hselected⟩ : ∃ selected, a.selectedRules = .ok selected := by
        rw [selectedRules_eq, hinfos]
        exact ⟨_, rfl⟩
      obtain ⟨run, hrun⟩ : ∃ run, a.session.run selected files [] = .ok run := by
        refine Rules.exists_run hregistry (fun name hname => ?_) _ _
        obtain ⟨info, hinfo, -, rfl⟩ := exists_rule_of_selected hselected hname
        obtain ⟨n, hn, -⟩ := Rules.exists_lookup (s := a.session) hregistry hinfo
        exact ⟨n, hn⟩
      unfold session at hrun
      by_cases hmarker : Settings.isMarker a.config.settings.marker
      · simp [analyzeFiles, Session.of, Settings.validate, hselected, hmarker, hrun, bind,
          Except.bind, Except.map, pure, Except.pure]
      · simp [analyzeFiles, Session.of, Settings.validate, hselected, hmarker, bind, Except.bind,
          Except.map]

/-- The findings of the selected rules, before they are given severities and offsets. -/
structure Lists (a : Analyzer) (files : List SourceFile) (selected : List String)
    (found : List Diagnostic) : Prop where
  /-- Findings stand in the order of their keys. -/
  sorted : StrictlySorted Diagnostic.compareKey found
  /-- Findings are those of the selected rules on the files. -/
  mem_iff : ∀ d, d ∈ found ↔ d.rule ∈ selected ∧
    ∃ n, a.registry.lookup d.rule = some n ∧ d ∈ a.session.findingsOn files n
  /-- Findings are signed by a rule. -/
  signed : ∀ d ∈ found, ∃ info ∈ a.registry.rules, d.rule = info.name ∧ d.code = info.code

/-- **What an analysis with the built-in rules lists.** -/
theorem exists_lists (hregistry : Rules.registry = .ok a.registry)
    (hids : files.Pairwise fun f g => f.id ≠ g.id) (h : a.analyzeFiles files = .ok r) :
    ∃ selected found, a.selectedRules = .ok selected ∧ a.Lists files selected found ∧
      r.diagnostics = found.map (a.finish files) := by
  obtain ⟨selected, run, hselected, -, hrun, rfl⟩ := analyzeFiles_eq_ok_iff.mp h
  have hready : a.session.Ready files :=
    .of_build hregistry Rules.isPure_units (Session.ids_of_pairwise hids)
  have hrules : ∀ name ∈ selected, ∃ info ∈ a.registry.rules, info.name = name ∧
      ∀ n, a.registry.lookup name = some n → a.registry.idOf n = name ∧
        ∀ file, ∀ d ∈ a.session.findingsAt file n, d.rule = name ∧ d.code = info.code := by
    intro name hname
    obtain ⟨info, hinfo, -, rfl⟩ := exists_rule_of_selected hselected hname
    obtain ⟨m, hm, hid, hsigned⟩ := Rules.exists_lookup (s := a.session) hregistry hinfo
    refine ⟨info, hinfo, rfl, fun n hn => ?_⟩
    obtain rfl : m = n := Option.some.inj (hm.symm.trans hn)
    exact ⟨hid, hsigned⟩
  obtain ⟨hsorted, hmem⟩ := Session.mem_diagnostics_iff hready (fun name hname n hn => by
    obtain ⟨info, -, -, hlookup⟩ := hrules name hname
    obtain ⟨hid, hsigned⟩ := hlookup n hn
    refine ⟨hid, fun file d hd => ?_⟩
    rw [(hsigned file d hd).1]
    exact hid.symm) hrun
  refine ⟨selected, run.diagnostics, hselected, ⟨hsorted, hmem, fun d hd => ?_⟩, rfl⟩
  obtain ⟨hname, n, hn, hd⟩ := (hmem d).mp hd
  obtain ⟨info, hinfo, hrule, hlookup⟩ := hrules _ hname
  obtain ⟨f, -, hd⟩ := List.mem_flatMap.mp (Sink.mem_of_mem_kept hd)
  exact ⟨info, hinfo, hrule.symm, ((hlookup n hn).2 f d hd).2⟩

/-- Of rules that are selected by both or by neither, two analyses list the same findings. -/
theorem Lists.filter_eq {a' : Analyzer} (h : a.Lists files selected found)
    (h' : a'.Lists files selected' found') (hsession : a.session = a'.session) (p : String → Bool)
    (hp : ∀ name, p name → (name ∈ selected ↔ name ∈ selected')) :
    found.filter (fun d => p d.rule) = found'.filter (fun d => p d.rule) := by
  have hregistry : a.registry = a'.registry := congrArg Session.registry hsession
  refine eq_of_strictlySorted (h.sorted.filter _) (h'.sorted.filter _) fun d => ?_
  rw [List.mem_filter, List.mem_filter, h.mem_iff, h'.mem_iff, hsession, hregistry]
  refine and_congr_left fun hd => and_congr_left fun _ => hp _ hd

/-- Settings on rules that are the same for a finding finish it in the same way. -/
theorem finish_under {d : Diagnostic}
    (h : c.ruleSettings? d.rule d.code = c'.ruleSettings? d.rule d.code) :
    (a.under c).finish files d = (a.under c').finish files d := by
  have hseverity : c.ruleSeverity? d.rule d.code = c'.ruleSeverity? d.rule d.code := by
    unfold Config.ruleSeverity?
    rw [h]
  unfold finish under
  simp only [hseverity]

/-- The findings of some rules can be taken before or after they are finished. -/
theorem filter_map_finish (p : String → Bool) :
    (found.map (a.finish files)).filter (fun d => p d.rule) =
      (found.filter fun d => p d.rule).map (a.finish files) := by
  -- finishing a finding does not change its rule
  rw [List.filter_map]
  rfl

end Analyzer

/-- Two findings that differ in their severity at most. -/
def Diagnostic.SameButSeverity (d d' : Diagnostic) : Prop :=
  { d with severity := d'.severity } = d'

namespace Analyzer

section

variable {a : Analyzer} {files : List SourceFile} {c c' : Config} {info : RuleInfo}
  {selected : List String} {r r' : LintResult} (hregistry : Rules.registry = .ok a.registry)

include hregistry

/-- Whether and how an analysis fails does not depend on what is said about rules. -/
theorem analyzeFiles_error_congr (hsettings : c.settings = c'.settings) {e : ConfigurationError} :
    (a.under c).analyzeFiles files = .error e ↔ (a.under c').analyzeFiles files = .error e := by
  rw [analyzeFiles_eq_error_iff (a := a.under c) hregistry,
    analyzeFiles_eq_error_iff (a := a.under c') hregistry]
  simp only [under, hsettings]
  rfl

/-- A disabled rule is not selected. -/
theorem notMem_selected (hinfo : info ∈ a.registry.rules)
    (hselected : a.selectedRules = .ok selected)
    (hdisabled : a.config.isRuleEnabled info.name info.code = false) : info.name ∉ selected := by
  intro hmem
  obtain ⟨other, hother, henabled, hname⟩ := exists_rule_of_selected hselected hmem
  rw [Rules.eq_of_name (s := a.session) hregistry hother hinfo hname, hdisabled] at henabled
  cases henabled

/-- What is said about a rule is said about no other. -/
theorem ruleSettings?_congr (hinfo : info ∈ a.registry.rules) (hc : c.AgreesBut info c')
    {other : RuleInfo} (hother : other ∈ a.registry.rules) (hne : other.name ≠ info.name) :
    c.ruleSettings? other.name other.code = c'.ruleSettings? other.name other.code := by
  rcases Rules.told_apart (s := a.session) hregistry hother hinfo with heq | hkeys
  · rw [heq] at hne
    exact absurd rfl hne
  · exact hc.ruleSettings?_eq hkeys

variable (hids : files.Pairwise fun f g => f.id ≠ g.id)

include hids

/-- All findings are of selected rules. -/
theorem rule_mem_selected (hselected : a.selectedRules = .ok selected)
    (h : a.analyzeFiles files = .ok r) : ∀ d ∈ r.diagnostics, d.rule ∈ selected := by
  obtain ⟨_, found, hselected', hlists, hfound⟩ := exists_lists hregistry hids h
  obtain rfl := Except.ok.inj (hselected.symm.trans hselected')
  rw [hfound]
  intro d hd
  obtain ⟨e, he, rfl⟩ := List.mem_map.mp hd
  exact ((hlists.mem_iff e).mp he).1

/-- **The findings of other rules are the same.** -/
theorem filter_others_eq (hinfo : info ∈ a.registry.rules) (hc : c.AgreesBut info c')
    (h : (a.under c).analyzeFiles files = .ok r) (h' : (a.under c').analyzeFiles files = .ok r') :
    r.diagnostics.filter (fun d => d.rule != info.name) =
      r'.diagnostics.filter (fun d => d.rule != info.name) := by
  obtain ⟨selected, found, hselected, hlists, hfound⟩ :=
    exists_lists (a := a.under c) hregistry hids h
  obtain ⟨selected', found', hselected', hlists', hfound'⟩ :=
    exists_lists (a := a.under c') hregistry hids h'
  have hothers : found.filter (fun d => d.rule != info.name) =
      found'.filter (fun d => d.rule != info.name) := by
    refine hlists.filter_eq hlists' (session_under hc.settings) (· != info.name) fun name hne => ?_
    refine mem_selected_congr hselected hselected' fun other hother hname => ?_
    unfold Config.isRuleEnabled
    rw [ruleSettings?_congr hregistry hinfo hc hother (by simpa [hname] using hne)]
  rw [hfound, hfound', filter_map_finish (· != info.name), filter_map_finish (· != info.name),
    hothers]
  refine List.map_congr_left fun d hd => finish_under ?_
  obtain ⟨hd, hne⟩ := List.mem_filter.mp hd
  obtain ⟨other, hother, hrule, hcode⟩ := hlists'.signed d hd
  rw [hrule, hcode]
  exact ruleSettings?_congr hregistry hinfo hc hother (by simpa [hrule] using hne)

/-- **The findings of the rule itself are the same up to severity**, where it is enabled. -/
theorem filter_rule_same (hinfo : info ∈ a.registry.rules) (hc : c.AgreesBut info c')
    (h : (a.under c).analyzeFiles files = .ok r) (h' : (a.under c').analyzeFiles files = .ok r')
    (henabled : c.isRuleEnabled info.name info.code)
    (henabled' : c'.isRuleEnabled info.name info.code) :
    List.Forall₂ Diagnostic.SameButSeverity (r.diagnostics.filter fun d => d.rule == info.name)
      (r'.diagnostics.filter fun d => d.rule == info.name) := by
  obtain ⟨selected, found, hselected, hlists, hfound⟩ :=
    exists_lists (a := a.under c) hregistry hids h
  obtain ⟨selected', found', hselected', hlists', hfound'⟩ :=
    exists_lists (a := a.under c') hregistry hids h'
  have hown : found.filter (fun d => d.rule == info.name) =
      found'.filter (fun d => d.rule == info.name) := by
    refine hlists.filter_eq hlists' (session_under hc.settings) (· == info.name) ?_
    intro name hsame
    refine mem_selected_congr hselected hselected' fun other hother hname => ?_
    rw [Rules.eq_of_name (s := a.session) hregistry hother hinfo (by simpa [hname] using hsame),
      henabled, henabled']
  rw [hfound, hfound', filter_map_finish (· == info.name), filter_map_finish (· == info.name), hown,
    List.forall₂_map_left_iff, List.forall₂_map_right_iff, List.forall₂_same]
  exact fun d _ => rfl

end

/-- **Settings on a rule are confined to it.**  Under two configurations that differ in what they
say about one rule only, an analysis with the built-in rules either fails in the same way, or has
results whose findings are all of selected rules.  The findings of other rules are the same and in
the same order; those of the rule itself are absent where it is disabled, and else the same up to
severity. -/
theorem settings_confined {a : Analyzer} (hregistry : Rules.registry = .ok a.registry)
    {files : List SourceFile} (hids : files.Pairwise fun f g => f.id ≠ g.id) {info : RuleInfo}
    (hinfo : info ∈ a.registry.rules) {c c' : Config} (hc : c.AgreesBut info c') :
    (∃ e, (a.under c).analyzeFiles files = .error e ∧ (a.under c').analyzeFiles files = .error e) ∨
    ∃ selected selected' r r', (a.under c).selectedRules = .ok selected ∧
      (a.under c').selectedRules = .ok selected' ∧ (a.under c).analyzeFiles files = .ok r ∧
      (a.under c').analyzeFiles files = .ok r' ∧
      (∀ d ∈ r.diagnostics, d.rule ∈ selected) ∧ (∀ d ∈ r'.diagnostics, d.rule ∈ selected') ∧
      r.diagnostics.filter (fun d => d.rule != info.name) =
        r'.diagnostics.filter (fun d => d.rule != info.name) ∧
      (c.isRuleEnabled info.name info.code = false → ∀ d ∈ r.diagnostics, d.rule ≠ info.name) ∧
      (c'.isRuleEnabled info.name info.code = false → ∀ d ∈ r'.diagnostics, d.rule ≠ info.name) ∧
      (c.isRuleEnabled info.name info.code → c'.isRuleEnabled info.name info.code →
        List.Forall₂ Diagnostic.SameButSeverity (r.diagnostics.filter fun d => d.rule == info.name)
          (r'.diagnostics.filter fun d => d.rule == info.name)) := by
  -- Errors come from unknown words and the marker, and neither depends on settings of a rule.
  cases hr : (a.under c).analyzeFiles files with
  | error e => exact .inl ⟨e, rfl, (analyzeFiles_error_congr hregistry hc.settings).mp hr⟩
  | ok r =>
      cases hr' : (a.under c').analyzeFiles files with
      | error e =>
          rw [(analyzeFiles_error_congr hregistry hc.settings).mpr hr'] at hr
          cases hr
      | ok r' =>
          obtain ⟨selected, _, hselected, -, -⟩ := analyzeFiles_eq_ok_iff.mp hr
          obtain ⟨selected', _, hselected', -, -⟩ := analyzeFiles_eq_ok_iff.mp hr'
          have hmem := rule_mem_selected (a := a.under c) hregistry hids hselected hr
          have hmem' := rule_mem_selected (a := a.under c') hregistry hids hselected' hr'
          refine .inr ⟨selected, selected', r, r', hselected, hselected', rfl, rfl, hmem, hmem',
            filter_others_eq hregistry hids hinfo hc hr hr', ?_, ?_,
            filter_rule_same hregistry hids hinfo hc hr hr'⟩
          · intro hdisabled d hd heq
            exact notMem_selected (a := a.under c) hregistry hinfo hselected hdisabled
              (heq ▸ hmem d hd)
          · intro hdisabled d hd heq
            exact notMem_selected (a := a.under c') hregistry hinfo hselected' hdisabled
              (heq ▸ hmem' d hd)

/-- A configuration that makes the findings of one rule less serious, under its code. -/
def lenient : Config :=
  { rules := [(Rules.missingType.info.code, { severity := some .info })] }

/-- That configuration says something about one rule only. -/
theorem agreesBut_lenient : Config.AgreesBut {} Rules.missingType.info lenient where
  settings := rfl
  rules key hkey := by
    have hne : (key == Rules.missingType.info.code) = false := by
      rw [beq_eq_false_iff_ne]
      rintro rfl
      exact hkey (by simp)
    simp [lenient, List.lookup, hne]

/-- An analysis of two rules, which both find something in the file below. -/
def pair : Analyzer where
  root := ⟨"."⟩
  registry := Rules.builtinSession.registry
  rules := ["missing-type", "required-optional-conflict"]
  patterns := []
  config := {}

/-- A file with a schema that has no type and is required and optional. -/
def conflictFile : SourceFile :=
  .ofText 0 ⟨"a.rs"⟩ "const A: S = tfschema::Schema { required: true, optional: true };"

/-- What the first of the rules finds. -/
def untyped : Diagnostic :=
  Rules.missingType.info.finding conflictFile ⟨1, 24⟩ "schema should configure Type" none

/-- What the second of the rules finds. -/
def conflict : Diagnostic :=
  Rules.requiredOptionalConflict.info.finding conflictFile ⟨1, 24⟩
    "schema should not enable Required and Optional" none

/-- The two rules are run last. -/
theorem orderOf_pair : pair.registry.orderOf [0, 1, 3, 5, 13] = .ok [0, 1, 3, 5, 13] := by
  have hsteps : Countdown.Steps pair.registry [0, 1, 3, 5, 13]
      (.start pair.registry [0, 1, 3, 5, 13])
      ⟨[(0, 0), (1, 0), (3, 0), (5, 0), (13, 0)], [], [0, 1, 3, 5, 13], []⟩ :=
    .head rfl (.head rfl (.head rfl (.head rfl (.head rfl
      (.head rfl (.head rfl (.head rfl (.head rfl (.head rfl .refl)))))))))
  exact Registry.orderOf_of_steps hsteps rfl rfl

/-- Both rules report, whatever the configuration says about rules without disabling them. -/
theorem analyzeFiles_pair {c : Config} (hsettings : c.settings = {})
    (hselected : (pair.under c).selectedRules = .ok pair.rules) :
    ∃ r, (pair.under c).analyzeFiles [conflictFile] = .ok r ∧
      r.diagnostics = [untyped, conflict].map ((pair.under c).finish [conflictFile]) := by
  have hclosure : pair.registry.closure [13, 5] = [0, 1, 3, 5, 13] := by cbv
  have hplan : Plan.of pair.session.registry pair.rules = .ok ⟨[0, 1, 3, 5, 13], [13, 5]⟩ := by
    refine Plan.of_eq_ok_iff.mpr ⟨[13, 5], .cons rfl (.cons rfl .nil), rfl, ?_⟩
    show pair.registry.orderOf (pair.registry.closure [13, 5]) = _
    rw [hclosure, orderOf_pair]
  have hfound : (Session.sinkOf ⟨[0, 1, 3, 5, 13], [13, 5]⟩
      (pair.session.runFiles ⟨[0, 1, 3, 5, 13], [13, 5]⟩ [conflictFile] (.after [])).1).toList =
        [untyped, conflict] := by
    decide +kernel
  obtain ⟨run, hrun, hdiagnostics, -⟩ := Session.exists_run_of_plan hplan [conflictFile] []
  have hsession : (pair.under c).session = pair.session :=
    session_under hsettings
  have hmarker : Settings.isMarker (pair.under c).config.settings.marker := by
    show Settings.isMarker c.settings.marker
    rw [hsettings]
    decide
  refine ⟨_, analyzeFiles_eq_ok_iff.mpr ⟨pair.rules, run, hselected, hmarker, ?_, rfl⟩, ?_⟩
  · show (pair.under c).session.run pair.rules [conflictFile] [] = _
    rw [hsession, hrun]
  · show run.diagnostics.map _ = _
    rw [hdiagnostics, hfound]

/-- The finding of the rule that is said something about gets another severity, and that of the
other rule stays as it is. -/
theorem settings_confined_sample :
    ∃ r r' d, (pair.under {}).analyzeFiles [conflictFile] = .ok r ∧
      (pair.under lenient).analyzeFiles [conflictFile] = .ok r' ∧
      r.diagnostics.filter (fun d => d.rule != Rules.missingType.info.name) = [d] ∧
      r'.diagnostics.filter (fun d => d.rule != Rules.missingType.info.name) = [d] ∧
      r.diagnostics.map Diagnostic.severity = [.error, .error] ∧
      r'.diagnostics.map Diagnostic.severity = [.info, .error] ∧
      List.Forall₂ Diagnostic.SameButSeverity
        (r.diagnostics.filter fun d => d.rule == Rules.missingType.info.name)
        (r'.diagnostics.filter fun d => d.rule == Rules.missingType.info.name) := by
  obtain ⟨r, hr, hdiagnostics⟩ := analyzeFiles_pair (c := {}) rfl rfl
  obtain ⟨r', hr', hdiagnostics'⟩ := analyzeFiles_pair (c := lenient) rfl rfl
  have hinfo : Rules.missingType.info ∈ pair.registry.rules := by decide
  rcases settings_confined (a := pair) Rules.registry_eq
    (List.pairwise_singleton (fun f g : SourceFile => f.id ≠ g.id) conflictFile) hinfo
    agreesBut_lenient with
    ⟨e, he, -⟩ | ⟨_, _, r₀, r₀', -, -, hr₀, hr₀', -, -, hothers, -, -, hsame⟩
  · rw [hr] at he
    cases he
  · obtain rfl : r = r₀ := Except.ok.inj (hr.symm.trans hr₀)
    obtain rfl : r' = r₀' := Except.ok.inj (hr'.symm.trans hr₀')
    have hfirst : r.diagnostics.filter (fun d => d.rule != Rules.missingType.info.name) =
        [(pair.under {}).finish [conflictFile] conflict] := by
      rw [hdiagnostics]
      rfl
    refine ⟨r, r', _, hr, hr', hfirst, hothers.symm.trans hfirst, ?_, ?_,
      hsame (by decide) (by decide)⟩
    · rw [hdiagnostics]
      rfl
    · rw [hdiagnostics']
      rfl

end Analyzer

end SchemaLint

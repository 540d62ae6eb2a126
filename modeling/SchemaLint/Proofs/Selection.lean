import SchemaLint.Proofs.Confinement

/-!
# Rules that are asked for

The rules of a check come from the command line, from a preset or from the configuration.  Values
on the command line are trimmed, and blank ones are dropped.  As long as one is left, only rules
that a value names by name or code are selected, and no other rule runs as a dependency of one that
does.  Where all values are blank nothing is left of the request, and an empty request is one for
all rules.

* `Session.CallsAmong`, `Session.calls_run`: only units of the plan are called in a run.
* `Rules.rule_eq_none_of_depends`: no built-in unit depends on a rule.
* `Rules.exists_call`: on valid code, every unit that is asked for is called.
* `CheckOptions.analyzer`, `CheckOptions.result_eq`: how a check is set up.
* **`CheckOptions.explicit_rules_win`**: the rules that are selected and run are those named on the
  command line, if a value there is not blank.
* `CheckOptions.blank_rules_lose`: where all values are blank, rules run that none names.
-/

namespace SchemaLint

/-! ## The units that a run calls -/

namespace Session

variable {s : Session} {units : List Nat} {st st' st'' : EngineState} {file : SourceFile} {n : Nat}
  {code : Option Code.CodeFile}

/-- The calls since a state are all of some units. -/
def CallsAmong (s : Session) (units : List Nat) (st st' : EngineState) : Prop :=
  ∀ c ∈ st'.calls, c ∈ st.calls ∨ ∃ n ∈ units, c.unit = s.registry.idOf n

/-- Nothing is called by doing nothing. -/
theorem CallsAmong.refl (s : Session) (units : List Nat) (st : EngineState) :
    s.CallsAmong units st st :=
  fun _ hc => .inl hc

/-- What is called in two steps is among the units if it is in each. -/
theorem CallsAmong.trans (h : s.CallsAmong units st st') (h' : s.CallsAmong units st' st'') :
    s.CallsAmong units st st'' := by
  intro c hc
  rcases h' c hc with hc | hnew
  · exact h c hc
  · exact .inr hnew

/-- Gathering facts calls what resolving calls. -/
theorem callsAmong_gather {resolve : Nat → EngineState → Outcome × EngineState} {needed : List Nat}
    (hres : ∀ m ∈ needed, ∀ st, s.CallsAmong units st (resolve m st).2) (st : EngineState) :
    s.CallsAmong units st (s.gather resolve needed st).2 := by
  induction needed generalizing st with
  | nil => exact .refl s units st
  | cons n rest ih =>
      have hhead := hres n List.mem_cons_self st
      unfold gather
      rcases hpair : resolve n st with ⟨o, st₁⟩
      rw [hpair] at hhead
      cases o with
      | error e => exact hhead
      | ok fact =>
          have htail := ih (fun m hm => hres m (List.mem_cons_of_mem n hm)) st₁
          simp only
          rcases hrest : s.gather resolve rest st₁ with ⟨result, st₂⟩
          rw [hrest] at htail
          cases result with
          | error id => exact hhead.trans htail
          | ok facts => exact hhead.trans htail

/-- Resolving a unit calls only units among which it is and which need no others: by induction on
the depth. -/
theorem callsAmong_resolve (hclosed : ∀ n ∈ units, ∀ m, s.registry.Depends n m → m ∈ units)
    (depth : Nat) (hn : n ∈ units) (st : EngineState) :
    s.CallsAmong units st (s.resolve file code depth n st).2 := by
  induction depth generalizing n st with
  | zero => exact .refl s units st
  | succ depth ih =>
      unfold resolve
      cases st.outcome? n file.id with
      | some o => exact .refl s units st
      | none =>
          cases hentry : s.registry.entries[n]? with
          | none => exact .refl s units st
          | some entry =>
              have hneeded : ∀ m ∈ entry.requires, m ∈ units := by
                intro m hm
                refine hclosed n hn m ?_
                unfold Registry.Depends
                rwa [Registry.requiresOf_eq hentry]
              have hgather : s.CallsAmong units st
                  (s.gather (s.resolve file code depth) entry.requires st).2 :=
                callsAmong_gather (fun m hm st' => ih (hneeded m hm) st') st
              simp only
              rcases hpair : s.gather (s.resolve file code depth) entry.requires st with
                ⟨result, st₁⟩
              rw [hpair] at hgather
              cases result with
              | error id => exact hgather
              | ok facts =>
                  refine hgather.trans fun c hc => ?_
                  rcases List.mem_cons.mp hc with rfl | hc
                  · exact .inr ⟨n, hn, (Registry.idOf_eq hentry).symm⟩
                  · exact .inl hc

/-- The units of a plan call only each other on a file. -/
theorem callsAmong_runUnits (hclosed : ∀ n ∈ units, ∀ m, s.registry.Depends n m → m ∈ units)
    {turns : List Nat} (hturns : ∀ n ∈ turns, n ∈ units) (st : EngineState) :
    s.CallsAmong units st (s.runUnits file code turns st).2 := by
  induction turns generalizing st with
  | nil => exact .refl s units st
  | cons n rest ih =>
      have hturn : s.CallsAmong units st (s.resolve file code s.depth n st).2 :=
        callsAmong_resolve hclosed s.depth (hturns n List.mem_cons_self) st
      exact hturn.trans (ih (fun m hm => hturns m (List.mem_cons_of_mem n hm)) _)

/-- The units of a plan call only each other on all files. -/
theorem callsAmong_runFiles {plan : Plan}
    (hclosed : ∀ n ∈ plan.order, ∀ m, s.registry.Depends n m → m ∈ plan.order)
    (files : List SourceFile) (st : EngineState) :
    s.CallsAmong plan.order st (s.runFiles plan files st).2 := by
  induction files generalizing st with
  | nil => exact .refl s plan.order st
  | cons file rest ih =>
      have hfile : s.CallsAmong plan.order st (s.runUnits file file.parse? plan.order st).2 :=
        callsAmong_runUnits hclosed (fun n hn => hn) st
      exact hfile.trans (ih _)

/-- **A run calls only what its request needs.** -/
theorem calls_run {request : List String} {files : List SourceFile} {run : Run}
    (hrun : s.run request files [] = .ok run) {c : UnitCall} (hc : c ∈ run.state.calls) :
    ∃ n, c.unit = s.registry.idOf n ∧
      ∃ id ∈ request, ∃ root, s.registry.lookup id = some root ∧ s.registry.Reaches root n := by
  obtain ⟨plan, hplan, rfl⟩ := run_eq_ok_iff.mp hrun
  have hclosed : ∀ n ∈ plan.order, ∀ m, s.registry.Depends n m → m ∈ plan.order :=
    fun n hn m hm => Plan.mem_order_of_depends hplan hn hm
  rcases callsAmong_runFiles hclosed files (.after []) c hc with hc | ⟨n, hn, hunit⟩
  · cases hc
  · exact ⟨n, hunit, (Plan.mem_order_iff hplan).mp hn⟩

end Session

/-! ## Built-in rules -/

namespace Rules

variable {s : Session} {info : RuleInfo} {n m : Nat}

/-- No built-in rule has an empty name or code. -/
theorem name_code_ne_empty (hregistry : registry = .ok s.registry)
    (hinfo : info ∈ s.registry.rules) : info.name ≠ "" ∧ info.code ≠ "" := by
  have hall : ∀ info ∈ builtinSession.registry.rules, info.name ≠ "" ∧ info.code ≠ "" := by
    decide +kernel
  rw [Except.ok.inj (hregistry.symm.trans registry_eq)] at hinfo
  exact hall info hinfo

/-- No built-in unit depends on a rule. -/
theorem rule_eq_none_of_depends (hregistry : registry = .ok s.registry)
    (h : s.registry.Depends n m) {entry : Entry} (hentry : s.registry.entries[m]? = some entry) :
    entry.unit.rule = none := by
  have hconcrete : s.registry = builtinSession.registry :=
    Except.ok.inj (hregistry.symm.trans registry_eq)
  have hn : n < builtinSession.registry.size := by
    by_contra hge
    have hnone : s.registry.entries[n]? = none := by
      rw [hconcrete]
      exact List.getElem?_eq_none (by simpa [Registry.size] using hge)
    simp [Registry.Depends, Registry.requiresOf, hnone] at h
  have hall : ∀ n < builtinSession.registry.size, ∀ m ∈ builtinSession.registry.requiresOf n,
      (builtinSession.registry.entries[m]?.bind fun e => e.unit.rule) = none := by
    decide +kernel
  unfold Registry.Depends at h
  rw [hconcrete] at h hentry
  simpa [hentry] using hall n hn m h

/-- A rule is found under its name and under its code only. -/
theorem name_or_code_of_rule? (hregistry : registry = .ok s.registry) {id : String}
    (h : s.registry.rule? id = some info) : id = info.name ∨ id = info.code := by
  obtain ⟨n, hlookup, hn⟩ := Option.bind_eq_some_iff.mp h
  obtain ⟨entry, hentry, hinfo⟩ := Option.bind_eq_some_iff.mp hn
  have hsigns := signs_units entry.unit (mem_units hregistry hentry) info hinfo
  rcases Option.or_eq_some_iff.mp hlookup with hid | ⟨-, hcode⟩
  · obtain ⟨hlt, hfound, -⟩ := List.findIdx?_eq_some_iff_getElem.mp hid
    obtain rfl := Option.some.inj ((List.getElem?_eq_getElem hlt).symm.trans hentry)
    exact .inl ((beq_iff_eq.mp hfound).symm.trans hsigns.id_eq)
  · obtain ⟨hlt, hfound, -⟩ := List.findIdx?_eq_some_iff_getElem.mp hcode
    obtain rfl := Option.some.inj ((List.getElem?_eq_getElem hlt).symm.trans hentry)
    rw [hinfo] at hfound
    exact .inr (beq_iff_eq.mp hfound).symm

/-- A rule that a run calls is one that its request denotes: no unit needs a rule. -/
theorem exists_lookup_of_called (hregistry : registry = .ok s.registry) {request : List String}
    {files : List SourceFile} {run : Run} (hrun : s.run request files [] = .ok run)
    (hinfo : info ∈ s.registry.rules) {c : UnitCall} (hc : c ∈ run.state.calls)
    (hunit : c.unit = info.name) :
    ∃ id ∈ request, ∃ n, s.registry.lookup id = some n ∧ s.registry.idOf n = info.name := by
  have hwf := Registry.wellFormed_of_build hregistry
  obtain ⟨n, hn, id, hid, root, hroot, hreaches⟩ := Session.calls_run hrun hc
  have hname : s.registry.idOf n = info.name := hn.symm.trans hunit
  rcases hreaches.cases_tail with rfl | ⟨k, -, hdepends⟩
  · exact ⟨id, hid, n, hroot, hname⟩
  · obtain ⟨entry, hmem, hrule⟩ := List.mem_filterMap.mp hinfo
    obtain ⟨i, hentry⟩ := List.getElem?_of_mem hmem
    have hsigns := signs_units entry.unit (mem_units hregistry hentry) info hrule
    have hsame : n = i := by
      refine hwf.idOf_inj (hwf.depends_lt hdepends) (List.getElem?_eq_some_iff.mp hentry).1 ?_
      rw [hname, Registry.idOf_eq hentry, hsigns.id_eq]
    have hnone := rule_eq_none_of_depends hregistry hdepends (hsame ▸ hentry)
    rw [hrule] at hnone
    cases hnone

/-- On valid code every unit that a request denotes is called, as nothing that it needs fails. -/
theorem exists_call (hregistry : registry = .ok s.registry) {request : List String}
    {files : List SourceFile} (hids : files.Pairwise fun f g => f.id ≠ g.id) {run : Run}
    (hrun : s.run request files [] = .ok run) {file : SourceFile} (hfile : file ∈ files)
    (hcode : file.parse?.isSome) {id : String} (hid : id ∈ request)
    (hn : s.registry.lookup id = some n) : ∃ c ∈ run.state.calls, c.unit = s.registry.idOf n := by
  have hready : s.Ready files := .of_build hregistry isPure_units (Session.ids_of_pairwise hids)
  obtain ⟨plan, hplan, rfl⟩ := Session.run_eq_ok_iff.mp hrun
  have hdepth := hready.plan_depthWithin hplan
  obtain ⟨-, -, hfirst⟩ := Plan.order_of_eq_ok hplan
  obtain ⟨-, -, -, hkept⟩ := Session.runFiles_spec hready hdepth (fun f hf => hf)
    (s.sound_after files [])
  obtain ⟨hledger, -⟩ := Session.ledger_runFiles hready.wellFormed hfirst hdepth (fun f hf => hf)
    (s.ledger_after files [])
  have hmem := Plan.mem_order_of_lookup hplan hid hn
  have hbelow : ∀ m, s.registry.Depends n m → m ∈ plan.order :=
    fun m hm => Plan.mem_order_of_depends hplan hmem hm
  have hsame : ∀ g ∈ files, g.id = file.id → g = file := fun g hg =>
    Session.ids_of_pairwise hids g hg file hfile
  rcases hledger.caused hsame (hkept file hfile n hmem)
    (fun m hm => hkept file hfile m (hbelow m hm)) with ⟨m, hm, -⟩ | hcalled
  · exact absurd hm.failed
      (not_failed_of_parse hregistry hcode (Session.yields_plain (hdepth m (hbelow m hm.depends))))
  · obtain ⟨entry, -, later, earlier, hentry, -, hcalls, -⟩ := hcalled
    refine ⟨⟨entry.unit.id, file.id, file.path⟩, ?_, (Registry.idOf_eq hentry).symm⟩
    show _ ∈ (s.runFiles plan files (.after [])).2.calls
    rw [hcalls]
    exact List.mem_append_right later List.mem_cons_self

end Rules

/-! ## Checks -/

/-- A list of checks that succeeds has the results of all of them. -/
theorem map_eq_of_mapM {α β ε : Type} {f : α → Except ε β} {xs : List α} {ys : List β}
    (h : xs.mapM f = .ok ys) : xs.map f = ys.map .ok := by
  rw [← List.forall₂_eq_eq_eq, List.forall₂_map_left_iff, List.forall₂_map_right_iff]
  exact mapM_eq_ok_iff.mp h

/-- A word denotes the rule that the registry has for it. -/
theorem Analyzer.requestedRule_eq_ok_iff {a : Analyzer} {id : String} {info : RuleInfo} :
    a.requestedRule id = .ok info ↔ a.registry.rule? id = some info := by
  unfold requestedRule
  cases a.registry.rule? id <;> simp

namespace CheckOptions

variable {o : CheckOptions} {e : Environment} {source : ConfigSource} {a : Analyzer}
  {selected : List String} {info : RuleInfo}

/-- The analysis of a check, before it selects rules. -/
def analyzer (o : CheckOptions) (e : Environment) (source : ConfigSource) :
    Except CheckError Analyzer := do
  let config ← source.load e
  let requested ← o.requestedRules config
  let registry ← Rules.registry.mapError CheckError.registry
  (Analyzer.build e.directory {
    root := some o.path
    registry := some registry
    rules := requested
    exclude := o.exclude
    config := some config
    faultOf := e.codeFault }).mapError CheckError.build

/-- A check sets up its analysis, selects rules and analyses the files. -/
theorem result_eq (o : CheckOptions) (e : Environment) (source : ConfigSource) :
    o.result e source = (do
      let a ← o.analyzer e source
      discard <| a.selectedRules.mapError CheckError.selection
      (a.analyze e.files).mapError CheckError.analysis) := by
  simp only [result, analyzer, bind_assoc]

/-- Another error makes no difference to a value. -/
theorem mapError_eq_ok_iff {α ε ε' : Type} {x : Except ε α} {f : ε → ε'} {y : α} :
    x.mapError f = .ok y ↔ x = .ok y := by
  cases x <;> simp [Except.mapError]

/-- What the analysis of a check is made of. -/
theorem analyzer_eq_ok (h : o.analyzer e source = .ok a) :
    source.load e = .ok a.config ∧ o.requestedRules a.config = .ok a.rules ∧
      Rules.registry = .ok a.registry := by
  obtain ⟨config, hconfig, h⟩ := exists_of_bind_eq_ok h
  obtain ⟨requested, hrequested, h⟩ := exists_of_bind_eq_ok h
  obtain ⟨registry, hregistry, h⟩ := exists_of_bind_eq_ok h
  obtain ⟨patterns, -, hmade⟩ := exists_of_bind_eq_ok (mapError_eq_ok_iff.mp h)
  rw [← Except.ok.inj hmade]
  exact ⟨hconfig, hrequested, mapError_eq_ok_iff.mp hregistry⟩

/-- Whether a value names a rule, by name or code, when it is trimmed. -/
def Names (o : CheckOptions) (info : RuleInfo) : Prop :=
  ∃ value ∈ o.rules, Text.trim value = info.name ∨ Text.trim value = info.code

/-- The request that is left of values on the command line. -/
theorem mem_requestedRules_iff {config : Config} {requested : List String}
    (hrules : o.rules ≠ []) (h : o.requestedRules config = .ok requested) {id : String} :
    id ∈ requested ↔ id ≠ "" ∧ ∃ value ∈ o.rules, Text.trim value = id := by
  have hnonempty : o.rules.isEmpty = false := by simpa using hrules
  unfold requestedRules at h
  rw [hnonempty] at h
  rw [← Except.ok.inj h, List.mem_filter, List.mem_map, and_comm]
  simp

/-- The rules to choose from, where a value is not blank: all values that are left denote rules,
and these are the named ones, since names and codes tell rules apart. -/
theorem mem_candidates_iff (ha : o.analyzer e source = .ok a)
    (hgiven : ∃ value ∈ o.rules, Text.trim value ≠ "") {infos : List RuleInfo}
    (hinfos : a.candidates = .ok infos) :
    info ∈ infos ↔ info ∈ a.registry.rules ∧ o.Names info := by
  obtain ⟨-, hrequested, hregistry⟩ := analyzer_eq_ok ha
  obtain ⟨given, hmem, hblank⟩ := hgiven
  have hrules := List.ne_nil_of_mem hmem
  have hvalues : ∀ id, id ∈ a.rules ↔ id ≠ "" ∧ ∃ value ∈ o.rules, Text.trim value = id :=
    fun id => mem_requestedRules_iff hrules hrequested
  have hkept : a.rules.isEmpty = false := by
    rw [List.isEmpty_eq_false_iff]
    exact List.ne_nil_of_mem ((hvalues _).mpr ⟨hblank, given, hmem, rfl⟩)
  have hdenoted : a.rules.map a.requestedRule = infos.map .ok := by
    unfold Analyzer.candidates at hinfos
    rw [hkept] at hinfos
    exact map_eq_of_mapM hinfos
  constructor
  · intro hinfo
    obtain ⟨id, hid, hrule⟩ := List.mem_map.mp
      (hdenoted ▸ List.mem_map_of_mem hinfo : Except.ok info ∈ a.rules.map a.requestedRule)
    have hrule := Analyzer.requestedRule_eq_ok_iff.mp hrule
    obtain ⟨value, hvalue, rfl⟩ := ((hvalues id).mp hid).2
    exact ⟨Registry.mem_rules_of_rule? hrule, value, hvalue,
      Rules.name_or_code_of_rule? (s := a.session) hregistry hrule⟩
  · rintro ⟨hinfo, value, hvalue, hname⟩
    obtain ⟨hname', hcode'⟩ := Rules.name_code_ne_empty (s := a.session) hregistry hinfo
    have hid : Text.trim value ∈ a.rules := by
      refine (hvalues _).mpr ⟨?_, value, hvalue, rfl⟩
      rcases hname with h | h <;> rwa [h]
    obtain ⟨other, hother, hrule⟩ := List.mem_map.mp
      (hdenoted ▸ List.mem_map_of_mem hid : a.requestedRule (Text.trim value) ∈ infos.map .ok)
    have hrule := Analyzer.requestedRule_eq_ok_iff.mp hrule.symm
    -- the value denotes a rule, and no other rule shares a name or code with it
    have hsame := Rules.name_or_code_of_rule? (s := a.session) hregistry hrule
    have hother' := Registry.mem_rules_of_rule? hrule
    rcases Rules.told_apart (s := a.session) hregistry hinfo hother' with rfl | hapart
    · exact hother
    · refine absurd ?_ (hapart (Text.trim value) ?_)
      · simpa using hsame
      · simpa using hname

/-- **Rules that are asked for win.**  In every check that comes to select rules, whatever the
preset and the configuration say, if a value given for rules is not blank then the selected rules
are the enabled ones that a value names, by name or code; and in a run of the selected rules on any
files, every rule that is called is one that a value names. -/
theorem explicit_rules_win (ha : o.analyzer e source = .ok a)
    (hgiven : ∃ value ∈ o.rules, Text.trim value ≠ "")
    (hselected : a.selectedRules = .ok selected) :
    (∀ name, name ∈ selected ↔ ∃ info ∈ a.registry.rules, info.name = name ∧
      a.config.isRuleEnabled info.name info.code ∧ o.Names info) ∧
    ∀ files run, a.session.run selected files [] = .ok run →
      ∀ info ∈ a.registry.rules, ∀ c ∈ run.state.calls, c.unit = info.name → o.Names info := by
  obtain ⟨-, -, hregistry⟩ := analyzer_eq_ok ha
  obtain ⟨infos, hinfos⟩ := Analyzer.exists_candidates hselected
  have hmem : ∀ name, name ∈ selected ↔ ∃ info ∈ a.registry.rules, info.name = name ∧
      a.config.isRuleEnabled info.name info.code ∧ o.Names info := by
    intro name
    rw [Analyzer.mem_selected_iff hinfos hselected]
    refine exists_congr fun info => ?_
    rw [mem_candidates_iff ha hgiven hinfos]
    constructor
    · rintro ⟨⟨hinfo, hnames⟩, henabled, hname⟩
      exact ⟨hinfo, hname, henabled, hnames⟩
    · rintro ⟨hinfo, hname, henabled, hnames⟩
      exact ⟨⟨hinfo, hnames⟩, henabled, hname⟩
  refine ⟨hmem, fun files run hrun info hinfo c hc hunit => ?_⟩
  obtain ⟨id, hid, n, hn, hname⟩ :=
    Rules.exists_lookup_of_called (s := a.session) hregistry hrun hinfo hc hunit
  obtain ⟨other, hother, rfl, -, hnames⟩ := (hmem id).mp hid
  obtain ⟨m, hm, hother', -⟩ := Rules.exists_lookup (s := a.session) hregistry hother
  obtain rfl : m = n := Option.some.inj (hm.symm.trans hn)
  rwa [Rules.eq_of_name (s := a.session) hregistry hinfo hother (hname.symm.trans hother')]

/-- A run in a directory without files. -/
def bareEnvironment : Environment where
  directory := ⟨"/"⟩
  bindings := []
  files := .directory []

/-- A code with blanks around it, next to an empty value and a preset. -/
theorem explicit_rules_win_sample :
    ∃ a, analyzer { rules := [" S013", ""], preset := some "validation" } bareEnvironment
        .defaults = .ok a ∧
      a.selectedRules = .ok ["missing-presence"] ∧
      ∀ files run, a.session.run ["missing-presence"] files [] = .ok run →
        ∀ info ∈ a.registry.rules, ∀ c ∈ run.state.calls, c.unit = info.name →
          Names { rules := [" S013", ""], preset := some "validation" } info := by
  obtain ⟨a, ha, hselected⟩ : ∃ a, analyzer { rules := [" S013", ""], preset := some "validation" }
      bareEnvironment .defaults = .ok a ∧ a.selectedRules = .ok ["missing-presence"] :=
    ⟨_, rfl, rfl⟩
  exact ⟨a, ha, hselected, (explicit_rules_win ha ⟨" S013", by simp, by decide⟩ hselected).2⟩

/-- A file without code. -/
def bareFile : SourceFile :=
  .ofText 0 ⟨"bare.rs"⟩ ""

/-- Values that are all blank, as those of a single comma are, do not win: on a file of valid code
a rule is called that they do not name.  It is one on setter calls, which the preset, of checks on
schemas, does not have either. -/
theorem blank_rules_lose :
    CommandLine.read none ["check", "--rules", ",", "--preset", "validation"] =
        .ok ⟨false, none, .check { rules := ["", ""], preset := some "validation" }⟩ ∧
    ¬ ∀ (o : CheckOptions) (e : Environment) (source : ConfigSource) (a : Analyzer)
        (selected : List String), o.rules ≠ [] → o.analyzer e source = .ok a →
        a.selectedRules = .ok selected → ∀ files run, a.session.run selected files [] = .ok run →
          ∀ info ∈ a.registry.rules, ∀ c ∈ run.state.calls, c.unit = info.name → o.Names info := by
  refine ⟨rfl, fun hnamed => ?_⟩
  obtain ⟨a, ha, selected, hselected, hmem⟩ : ∃ a,
      analyzer { rules := ["", ""], preset := some "validation" } bareEnvironment .defaults =
          .ok a ∧
        ∃ selected, a.selectedRules = .ok selected ∧ "setter-key-literal" ∈ selected :=
    ⟨_, rfl, _, rfl, by decide +kernel⟩
  obtain ⟨-, -, hregistry⟩ := analyzer_eq_ok ha
  obtain ⟨run, hrun⟩ : ∃ run, a.session.run selected [bareFile] [] = .ok run := by
    refine Rules.exists_run hregistry (fun id hid => ?_) [bareFile] []
    obtain ⟨info, hinfo, -, rfl⟩ := Analyzer.exists_rule_of_selected hselected hid
    obtain ⟨n, hn, -⟩ := Rules.exists_lookup (s := a.session) hregistry hinfo
    exact ⟨n, hn⟩
  obtain ⟨info, hinfo, -, hname⟩ := Analyzer.exists_rule_of_selected hselected hmem
  obtain ⟨n, hn, hid, -⟩ := Rules.exists_lookup (s := a.session) hregistry hinfo
  obtain ⟨c, hc, hunit⟩ := Rules.exists_call (s := a.session) hregistry
    (List.pairwise_singleton _ bareFile) hrun List.mem_cons_self (by decide +kernel)
    (hname ▸ hmem) hn
  obtain ⟨value, hvalue, htrimmed⟩ := hnamed _ _ _ a selected (by simp) ha hselected _ run hrun info
    hinfo c hc (hunit.trans hid)
  have hblank : Text.trim value = "" := by
    obtain rfl : value = "" := by simpa using hvalue
    decide
  obtain ⟨hname', hcode'⟩ := Rules.name_code_ne_empty (s := a.session) hregistry hinfo
  rw [hblank] at htrimmed
  rcases htrimmed with h | h
  · exact hname' h.symm
  · exact hcode' h.symm

end CheckOptions

end SchemaLint

import SchemaLint.Proofs.Accounting
import SchemaLint.Proofs.Additivity
import SchemaLint.Proofs.Hereditary
import SchemaLint.Rules.Builtin

/-!
# What the built-in units come to

Facts are told apart only when they are read, so that every unit has to give a fact of the kind that
its dependents ask for.  The built-in units do: given facts of the right kinds, each of them gives a
fact of its own kind, unless it needs the code of a file that is not valid.

* `Fact.IsOf`: the kind of fact that the unit of an id gives.
* `AnalysisUnit.Typed`: a unit that keeps to the kinds; all built-in units do (`Rules.typed_units`).
* `Rules.hereditary_expected`: hence every outcome is a fact of the right kind, a file that is not
  valid code, or a skip.
* `Rules.failed_iff_of_not_parse`: on a file that is not valid code, the imports and all that depends
  on them fail.
* **`Rules.failures_of_builtin`**: the failures of the built-in units.
-/

namespace SchemaLint

/-! ## Kinds of facts -/

/-- A fact is of the kind that the unit of an id gives. -/
def Fact.IsOf (id : String) (fact : Fact) : Prop :=
  if id = Index.importsId then ∃ table, fact = .imports table
  else if id = Index.schemaLiteralsId then ∃ literals, fact = .schemaLiterals literals
  else if id = Index.setterCallsId then ∃ calls, fact = .setterCalls calls
  else if id = Index.suppressionsId then ∃ s, fact = .suppressions s
  else ∃ ds, fact = .findings ds

namespace Fact

variable {fact : Fact} {id : String}

/-- The fact on imports is a table of imports. -/
theorem isOf_imports : fact.IsOf Index.importsId ↔ ∃ table, fact = .imports table := by
  rw [IsOf, if_pos rfl]

/-- The fact on schema literals is a list of them. -/
theorem isOf_schemaLiterals :
    fact.IsOf Index.schemaLiteralsId ↔ ∃ literals, fact = .schemaLiterals literals := by
  rw [IsOf, if_neg (by decide), if_pos rfl]

/-- The fact on setter calls is a list of them. -/
theorem isOf_setterCalls :
    fact.IsOf Index.setterCallsId ↔ ∃ calls, fact = .setterCalls calls := by
  rw [IsOf, if_neg (by decide), if_neg (by decide), if_pos rfl]

/-- The fact on directives is what a scan finds. -/
theorem isOf_suppressions : fact.IsOf Index.suppressionsId ↔ ∃ s, fact = .suppressions s := by
  rw [IsOf, if_neg (by decide), if_neg (by decide), if_neg (by decide), if_pos rfl]

/-- Whatever is no index unit gives findings. -/
theorem isOf_findings (hid : id ∉ Index.all.map AnalysisUnit.id) (ds : List Diagnostic) :
    (Fact.findings ds).IsOf id := by
  simp only [Index.all, Index.imports, Index.schemaLiterals, Index.setterCalls, Index.suppressions,
    List.map_cons, List.map_nil, List.mem_cons, List.not_mem_nil, or_false, not_or] at hid
  rw [IsOf, if_neg hid.1, if_neg hid.2.1, if_neg hid.2.2.1, if_neg hid.2.2.2]
  exact ⟨ds, rfl⟩

/-- An index unit gives no findings. -/
theorem not_isOf_findings {u : AnalysisUnit} (hu : u ∈ Index.all) (ds : List Diagnostic) :
    ¬ (Fact.findings ds).IsOf u.id := by
  intro hkind
  simp only [Index.all, List.mem_cons, List.not_mem_nil, or_false] at hu
  rcases hu with rfl | rfl | rfl | rfl
  · obtain ⟨_, heq⟩ := isOf_imports.mp hkind
    cases heq
  · obtain ⟨_, heq⟩ := isOf_schemaLiterals.mp hkind
    cases heq
  · obtain ⟨_, heq⟩ := isOf_setterCalls.mp hkind
    cases heq
  · obtain ⟨_, heq⟩ := isOf_suppressions.mp hkind
    cases heq

end Fact

/-- Facts are there for the given units, each of its kind. -/
structure UnitContext.Supplies (cx : UnitContext) (units : List String) : Prop where
  /-- The facts are those of the units. -/
  keys : cx.facts.map Prod.fst = units
  /-- Each is of the kind that its unit gives. -/
  kinds : ∀ p ∈ cx.facts, p.2.IsOf p.1

/-- Reading the fact of a unit as one of its kind succeeds. -/
theorem UnitContext.Supplies.exists_read {cx : UnitContext} {units : List String}
    (h : cx.Supplies units) {id : String} (hid : id ∈ units) {α : Type} {kind : Fact → Option α}
    (hkind : ∀ fact, fact.IsOf id → ∃ a, kind fact = some a) : ∃ a, cx.read id kind = .ok a := by
  rcases hlookup : cx.facts.lookup id with _ | fact
  · rw [← h.keys] at hid
    obtain ⟨p, hp, rfl⟩ := List.mem_map.mp hid
    have hne := List.lookup_eq_none_iff.mp hlookup p hp
    simp at hne
  · obtain ⟨before, after, hfacts, -⟩ := List.lookup_eq_some_iff.mp hlookup
    obtain ⟨a, ha⟩ := hkind fact (h.kinds (id, fact) (by simp [hfacts]))
    refine ⟨a, ?_⟩
    unfold UnitContext.read
    rw [hlookup]
    simp only [ha]

/-! ## Units that keep to the kinds -/

/-- A unit that is about the imports of a file or builds on them. -/
def AnalysisUnit.UsesImports (u : AnalysisUnit) : Prop :=
  u.id = Index.importsId ∨ Index.importsId ∈ u.requires

/-- Given the facts of its dependencies, a unit gives a fact of its own kind; only if it uses the
imports, a file that is not valid code stops it. -/
def AnalysisUnit.Typed (u : AnalysisUnit) : Prop :=
  ∀ cx : UnitContext, cx.Supplies u.requires →
    (∃ fact, u.run cx = .ok fact ∧ fact.IsOf u.id) ∨
      cx.code = none ∧ u.UsesImports ∧ u.run cx = .error (.ofFault cx.fault)

/-- A unit that depends on the imports can read their table. -/
theorem UnitContext.Supplies.exists_imports {cx : UnitContext} {units : List String}
    (h : cx.Supplies units) (hid : Index.importsId ∈ units) :
    ∃ table, cx.read Index.importsId Fact.imports? = .ok table := by
  refine h.exists_read hid fun fact hfact => ?_
  obtain ⟨table, rfl⟩ := Fact.isOf_imports.mp hfact
  exact ⟨table, rfl⟩

/-- A unit that depends on the directives can read them. -/
theorem UnitContext.Supplies.exists_suppressions {cx : UnitContext} {units : List String}
    (h : cx.Supplies units) (hid : Index.suppressionsId ∈ units) :
    ∃ s, cx.read Index.suppressionsId Fact.suppressions? = .ok s := by
  refine h.exists_read hid fun fact hfact => ?_
  obtain ⟨s, rfl⟩ := Fact.isOf_suppressions.mp hfact
  exact ⟨s, rfl⟩

namespace Index

/-- The unit that finds imports needs valid code only. -/
theorem typed_imports : imports.Typed := by
  intro cx _
  rcases hcode : cx.code with _ | file
  · refine .inr ⟨rfl, .inl rfl, ?_⟩
    simp [imports, UnitContext.parsed, hcode, bind, Except.bind]
  · refine .inl ⟨.imports (ImportTable.ofNodes file.nodes), ?_, Fact.isOf_imports.mpr ⟨_, rfl⟩⟩
    simp [imports, UnitContext.parsed, hcode, bind, Except.bind, pure, Except.pure]

/-- A unit that makes its fact from the imports and the code of a file. -/
theorem typed_of_imports {u : AnalysisUnit} (make : ImportTable → UnitContext → Code.CodeFile → Fact)
    (hrequires : u.requires = [importsId])
    (hrun : ∀ cx, u.run cx = do
      let table ← cx.read importsId Fact.imports?
      return make table cx (← cx.parsed))
    (hkind : ∀ table cx file, (make table cx file).IsOf u.id) : u.Typed := by
  intro cx hcx
  have hmem : importsId ∈ u.requires := by simp [hrequires]
  obtain ⟨table, hread⟩ := hcx.exists_imports hmem
  rcases hcode : cx.code with _ | file
  · refine .inr ⟨rfl, .inr hmem, ?_⟩
    simp [hrun, UnitContext.parsed, hread, hcode, bind, Except.bind]
  · refine .inl ⟨make table cx file, ?_, hkind table cx file⟩
    simp [hrun, UnitContext.parsed, hread, hcode, bind, Except.bind, pure, Except.pure]

/-- The unit that finds schema literals needs valid code and the imports. -/
theorem typed_schemaLiterals : schemaLiterals.Typed :=
  typed_of_imports
    (fun table cx file => .schemaLiterals (SchemaLiteral.collect table cx.settings.schema file.nodes))
    rfl (fun _ => rfl) fun _ _ _ => Fact.isOf_schemaLiterals.mpr ⟨_, rfl⟩

/-- The unit that finds setter calls needs valid code and the imports. -/
theorem typed_setterCalls : setterCalls.Typed :=
  typed_of_imports
    (fun table cx file => .setterCalls (SetterCall.collect table cx.settings.schema file.nodes))
    rfl (fun _ => rfl) fun _ _ _ => Fact.isOf_setterCalls.mpr ⟨_, rfl⟩

/-- The unit that finds directives needs no code. -/
theorem typed_suppressions : suppressions.Typed :=
  fun _ _ => .inl ⟨_, rfl, Fact.isOf_suppressions.mpr ⟨_, rfl⟩⟩

/-- All index units keep to the kinds of facts. -/
theorem typed_all : ∀ u ∈ all, u.Typed :=
  List.forall_mem_cons.mpr ⟨typed_imports, List.forall_mem_cons.mpr ⟨typed_schemaLiterals,
    List.forall_mem_cons.mpr ⟨typed_setterCalls, List.forall_mem_singleton.mpr typed_suppressions⟩⟩⟩

/-- An index unit is no rule. -/
theorem rule_eq_none : ∀ u ∈ all, u.rule = none := by
  simp [all, imports, schemaLiterals, setterCalls, suppressions]

end Index

/-- A rule whose check succeeds on the facts it depends on. -/
theorem RuleInfo.typed_unit {info : RuleInfo} {requires : List String}
    {check : UnitContext → Except UnitError (List Diagnostic)}
    (hname : info.name ∉ Index.all.map AnalysisUnit.id)
    (hcheck : ∀ cx : UnitContext, cx.Supplies requires → ∃ ds, check cx = .ok ds) :
    (info.unit requires check).Typed := by
  intro cx hcx
  obtain ⟨ds, hds⟩ := hcheck cx hcx
  refine .inl ⟨.findings ds, ?_, Fact.isOf_findings hname ds⟩
  show (check cx).map Fact.findings = _
  rw [hds]
  rfl

/-- A rule on schema literals gives findings from the facts it depends on. -/
theorem SchemaRule.typed_unit {r : SchemaRule}
    (hname : r.info.name ∉ Index.all.map AnalysisUnit.id) : r.unit.Typed := by
  refine RuleInfo.typed_unit hname fun cx hcx => ?_
  obtain ⟨literals, hliterals⟩ :
      ∃ ls, cx.read Index.schemaLiteralsId Fact.schemaLiterals? = .ok ls := by
    refine hcx.exists_read List.mem_cons_self fun fact hfact => ?_
    obtain ⟨ls, rfl⟩ := Fact.isOf_schemaLiterals.mp hfact
    exact ⟨ls, rfl⟩
  obtain ⟨s, hs⟩ := hcx.exists_suppressions (by simp [SchemaRule.requires])
  exact ⟨r.findings cx.file s literals, by rw [hliterals, hs]; rfl⟩

/-- A unit with a dependency that failed is skipped for the first such. -/
theorem Session.FirstFailing.outcomeFrom_eq {s : Session} {file : SourceFile} {n m : Nat}
    {outcome : Nat → Outcome} (h : s.FirstFailing outcome n m) {entry : Entry}
    (hentry : s.registry.entries[n]? = some entry) :
    s.outcomeFrom file entry outcome = .error (.dependencyFailed (s.registry.idOf m)) := by
  obtain ⟨before, after, hrequires, ⟨e, hm⟩, hbefore⟩ := h
  rw [Registry.requiresOf_eq hentry] at hrequires
  have hfacts : Session.factsOf s.registry outcome (before ++ m :: after) =
      .error (s.registry.idOf m) := by
    clear hrequires
    induction before with
    | nil =>
        unfold Session.factsOf
        rw [List.nil_append]
        simp only [hm]
    | cons k rest ih =>
        obtain ⟨hk, hrest⟩ := List.forall_mem_cons.mp hbefore
        unfold Session.factsOf
        rcases hok : outcome k with e' | fact
        · exact absurd ⟨e', hok⟩ hk
        · simp only [List.cons_append, hok, ih hrest]
  unfold Session.outcomeFrom
  rw [hrequires, hfacts]

namespace Rules

/-- The built-in units: those that build an index, and the rules. -/
theorem mem_units_iff {u : AnalysisUnit} :
    u ∈ units ↔ u ∈ Index.all ∨ (∃ r ∈ schemaRules, r.unit = u) ∨
      u = setterKeyLiteral ∨ u = malformedSuppression := by
  simp [units]

/-- A rule on schema literals is a built-in unit. -/
theorem unit_mem_units {r : SchemaRule} (hr : r ∈ schemaRules) : r.unit ∈ units :=
  mem_units_iff.mpr (.inr (.inl ⟨r, hr, rfl⟩))

/-- The rule on keys gives findings from the setter calls and the directives. -/
theorem typed_setterKeyLiteral : setterKeyLiteral.Typed := by
  refine RuleInfo.typed_unit (by decide) fun cx hcx => ?_
  obtain ⟨calls, hcalls⟩ : ∃ cs, cx.read Index.setterCallsId Fact.setterCalls? = .ok cs := by
    refine hcx.exists_read List.mem_cons_self fun fact hfact => ?_
    obtain ⟨cs, rfl⟩ := Fact.isOf_setterCalls.mp hfact
    exact ⟨cs, rfl⟩
  obtain ⟨s, hs⟩ := hcx.exists_suppressions (by simp)
  exact ⟨setterKeyFindings cx.file s calls, by rw [hcalls, hs]; rfl⟩

/-- The rule on directives gives findings from the directives alone. -/
theorem typed_malformedSuppression : malformedSuppression.Typed := by
  refine RuleInfo.typed_unit (by decide) fun cx hcx => ?_
  obtain ⟨s, hs⟩ := hcx.exists_suppressions List.mem_cons_self
  exact ⟨directiveFindings cx.settings cx.file s, by rw [hs]; rfl⟩

/-- **All built-in units keep to the kinds of facts.** -/
theorem typed_units : ∀ u ∈ units, u.Typed := by
  have hnames : ∀ r ∈ schemaRules, r.info.name ∉ Index.all.map AnalysisUnit.id := by decide
  intro u hu
  rcases mem_units_iff.mp hu with hindex | ⟨r, hr, rfl⟩ | rfl | rfl
  · exact Index.typed_all u hindex
  · exact SchemaRule.typed_unit (hnames r hr)
  · exact typed_setterKeyLiteral
  · exact typed_malformedSuppression

/-- What a built-in unit gives does not depend on earlier calls. -/
theorem isPure_units : ∀ u ∈ units, u.IsPure := by
  intro u hu cx calls
  rcases mem_units_iff.mp hu with hindex | ⟨r, -, rfl⟩ | rfl | rfl
  · simp only [Index.all, List.mem_cons, List.not_mem_nil, or_false] at hindex
    rcases hindex with rfl | rfl | rfl | rfl <;> rfl
  · rfl
  · rfl
  · rfl

/-! ## Outcomes -/

variable {s : Session} {file : SourceFile} {n : Nat} {o : Outcome}

/-- The errors that a built-in unit can have: the fault of a text that is not valid code, or a
dependency that failed. -/
def Foreseen (s : Session) (e : UnitError) : Prop :=
  (∃ text, Code.parseFile? text = none ∧ e = .ofFault (s.faultOf text)) ∨
    ∃ id, e = .dependencyFailed id

/-- An outcome that a built-in unit can have: a fact of its kind, or such an error. -/
def Expected (s : Session) (n : Nat) : Outcome → Prop
  | .ok fact => fact.IsOf (s.registry.idOf n)
  | .error e => Foreseen s e

/-- A registered unit is one of the built-in units. -/
theorem mem_units (hregistry : registry = .ok s.registry) {entry : Entry}
    (hentry : s.registry.entries[n]? = some entry) : entry.unit ∈ units :=
  Registry.unit_mem_of_build hregistry hentry

/-- A registered unit is known by its id. -/
theorem unit_eq (hregistry : registry = .ok s.registry) {entry : Entry}
    (hentry : s.registry.entries[n]? = some entry) {u : AnalysisUnit} (hu : u ∈ units)
    (hid : s.registry.idOf n = u.id) : entry.unit = u := by
  have hids := (Registry.findDuplicate?_eq_none_iff.mp (Registry.build_eq_ok hregistry).1).ids
  refine List.inj_on_of_nodup_map hids (mem_units hregistry hentry) hu ?_
  rw [← hid, Registry.idOf_eq hentry]

/-- The facts that a unit is called on are those it declares, each of its kind. -/
theorem supplies_of_factsWith (hregistry : registry = .ok s.registry) {entry : Entry}
    (hentry : s.registry.entries[n]? = some entry) {cx : UnitContext}
    (h : s.FactsWith (Expected s) entry.requires cx.facts) : cx.Supplies entry.unit.requires := by
  refine ⟨?_, fun p hp => ?_⟩
  · rw [← Registry.map_idOf_requiresOf hregistry hentry, Registry.requiresOf_eq hentry]
    exact h.map_fst
  · obtain ⟨m, hid, hkind⟩ := h.exists_unit hp
    rw [hid]
    exact hkind

/-- **Every outcome of a built-in unit is one that it can have**, if those of its dependencies
are. -/
theorem hereditary_expected (hregistry : registry = .ok s.registry) : s.Hereditary (Expected s) where
  skip := fun _ id => .inr ⟨id, rfl⟩
  call := by
    intro n entry facts file earlier hentry hfacts
    have hsupplies : UnitContext.Supplies (s.context file file.parse? facts earlier)
        entry.unit.requires := supplies_of_factsWith hregistry hentry hfacts
    rcases typed_units _ (mem_units hregistry hentry) _ hsupplies with
      ⟨fact, hrun, hkind⟩ | ⟨hcode, -, hrun⟩
    · rw [hrun]
      show fact.IsOf (s.registry.idOf n)
      rwa [Registry.idOf_eq hentry]
    · rw [hrun]
      exact .inl ⟨file.content, hcode, rfl⟩

/-- A unit depends in some steps on the one that finds imports. -/
def DependsOnImports (s : Session) (n : Nat) : Prop :=
  ∃ i, s.registry.idOf i = Index.importsId ∧ Relation.TransGen s.registry.Depends n i

/-- What depends on the imports, or on a unit that does, depends on them. -/
theorem DependsOnImports.head {m : Nat} (hnm : s.registry.Depends n m)
    (hm : s.registry.idOf m = Index.importsId ∨ DependsOnImports s m) : DependsOnImports s n := by
  rcases hm with hid | ⟨i, hid, hmi⟩
  · exact ⟨m, hid, .single hnm⟩
  · exact ⟨i, hid, .head hnm hmi⟩

/-- What depends on the imports does so through one of its own dependencies. -/
theorem DependsOnImports.exists_depends (h : DependsOnImports s n) :
    ∃ m, s.registry.Depends n m ∧
      (s.registry.idOf m = Index.importsId ∨ DependsOnImports s m) := by
  obtain ⟨i, hid, hni⟩ := h
  obtain ⟨m, hnm, hmi⟩ := Relation.TransGen.head'_iff.mp hni
  refine ⟨m, hnm, ?_⟩
  rcases Relation.reflTransGen_iff_eq_or_transGen.mp hmi with rfl | hmi
  · exact .inl hid
  · exact .inr ⟨i, hid, hmi⟩

/-- What comes of a built-in unit, given what its dependencies yield: it is skipped for the first
that failed, has a fact, or needs code that is not valid. -/
theorem outcomeFrom_cases (hregistry : registry = .ok s.registry) {entry : Entry}
    (hentry : s.registry.entries[n]? = some entry) {outcome : Nat → Outcome}
    (hbelow : ∀ m ∈ entry.requires, s.Yields file m (outcome m)) :
    (∃ m, s.FirstFailing outcome n m ∧ s.outcomeFrom file entry outcome =
        .error (.dependencyFailed (s.registry.idOf m))) ∨
      (∀ m, s.registry.Depends n m → ¬ (outcome m).Failed) ∧
        ((∃ fact, s.outcomeFrom file entry outcome = .ok fact) ∨
          file.parse? = none ∧ entry.unit.UsesImports ∧
            s.outcomeFrom file entry outcome = .error (.ofFault (s.faultOf file.content))) := by
  unfold Session.outcomeFrom Session.FirstFailing Registry.Depends
  rw [Registry.requiresOf_eq hentry]
  rcases Session.factsOf_cases s.registry outcome entry.requires with
    ⟨facts, hfacts, hok⟩ | ⟨before, m, after, hsplit, hm, hbefore, hfacts⟩
  · have hexpected : ∀ m ∈ entry.requires, Expected s m (outcome m) :=
      fun m hm => (hereditary_expected hregistry).yields (hbelow m hm)
    have hsupplies : UnitContext.Supplies (s.context file file.parse? facts [])
        entry.unit.requires :=
      supplies_of_factsWith hregistry hentry (Session.factsWith_of_factsOf hexpected hfacts)
    refine .inr ⟨hok, ?_⟩
    rw [hfacts]
    rcases typed_units _ (mem_units hregistry hentry) _ hsupplies with
      ⟨fact, hrun, -⟩ | ⟨hnone, huses, hrun⟩
    · exact .inl ⟨fact, hrun⟩
    · exact .inr ⟨hnone, huses, hrun⟩
  · exact .inl ⟨m, ⟨before, after, hsplit, hm, hbefore⟩, by rw [hfacts]⟩

/-- On valid code no built-in unit fails. -/
theorem not_failed_of_parse (hregistry : registry = .ok s.registry) (hcode : file.parse?.isSome)
    (hy : s.Yields file n o) : ¬ o.Failed := by
  induction hy with
  | @intro n entry outcome found below ih =>
      rcases outcomeFrom_cases hregistry found below with ⟨m, hm, -⟩ | ⟨-, ⟨fact, hfact⟩ | hnone⟩
      · have hmem : m ∈ entry.requires := Registry.requiresOf_eq found ▸ hm.depends
        exact absurd hm.failed (ih m hmem)
      · rw [hfact]
        exact Outcome.not_failed_ok fact
      · rw [hnone.1] at hcode
        cases hcode

/-- The unit that finds imports fails on a file that is not valid code. -/
theorem failed_imports (hregistry : registry = .ok s.registry) {entry : Entry}
    (hentry : s.registry.entries[n]? = some entry) (hid : s.registry.idOf n = Index.importsId)
    (hcode : file.parse? = none) (outcome : Nat → Outcome) :
    s.outcomeFrom file entry outcome = .error (.ofFault (s.faultOf file.content)) := by
  have hunit : entry.unit = Index.imports :=
    unit_eq hregistry hentry (by simp [units, Index.all]) hid
  have hrequires : entry.requires = [] := by
    have hids := Registry.map_idOf_requiresOf hregistry hentry
    rw [Registry.requiresOf_eq hentry, hunit] at hids
    exact List.map_eq_nil_iff.mp hids
  simp [Session.outcomeFrom, Session.factsOf, hrequires, hunit, Index.imports, UnitContext.parsed,
    hcode, bind, Except.bind]

/-- **On a file that is not valid code, the imports fail and all that depends on them does**, and
nothing else: by induction along the dependencies, since only units that use the imports need
code. -/
theorem failed_iff_of_not_parse (hregistry : registry = .ok s.registry)
    (hcode : file.parse? = none) (hy : s.Yields file n o) :
    o.Failed ↔ s.registry.idOf n = Index.importsId ∨ DependsOnImports s n := by
  induction hy with
  | @intro n entry outcome found below ih =>
      have hmem : ∀ m, s.registry.Depends n m → m ∈ entry.requires :=
        fun m hm => Registry.requiresOf_eq found ▸ hm
      constructor
      · intro hfailed
        rcases outcomeFrom_cases hregistry found below with
          ⟨m, hm, -⟩ | ⟨-, ⟨fact, hfact⟩ | ⟨-, hid | huses, -⟩⟩
        · exact .inr (.head hm.depends ((ih m (hmem m hm.depends)).mp hm.failed))
        · rw [hfact] at hfailed
          exact absurd hfailed (Outcome.not_failed_ok fact)
        · exact .inl (by rw [Registry.idOf_eq found, hid])
        · rw [← Registry.map_idOf_requiresOf hregistry found] at huses
          obtain ⟨m, hm, hid⟩ := List.mem_map.mp huses
          exact .inr (.head hm (.inl hid))
      · rintro (hid | hn)
        · rw [failed_imports hregistry found hid hcode]
          exact ⟨_, rfl⟩
        · obtain ⟨m, hnm, hm⟩ := hn.exists_depends
          rcases outcomeFrom_cases hregistry found below with ⟨k, -, ho⟩ | ⟨hok, -⟩
          · exact ⟨_, ho⟩
          · exact absurd ((ih m (hmem m hnm)).mpr hm) (hok m hnm)

/-! ## Directives need no code -/

/-- The directives of a file are found whether or not it is valid code. -/
theorem yields_suppressions (hregistry : registry = .ok s.registry)
    (hid : s.registry.idOf n = Index.suppressionsId) (hy : s.Yields file n o) :
    o = .ok (.suppressions (Suppressions.scan s.settings.marker file.content)) := by
  obtain ⟨found, -⟩ := hy
  rename_i entry outcome
  have hunit : entry.unit = Index.suppressions :=
    unit_eq hregistry found (by simp [units, Index.all]) hid
  have hrequires : entry.requires = [] := by
    have hids := Registry.map_idOf_requiresOf hregistry found
    rw [Registry.requiresOf_eq found, hunit] at hids
    exact List.map_eq_nil_iff.mp hids
  simp [Session.outcomeFrom, Session.factsOf, hrequires, hunit, Index.suppressions]

/-- So are the findings on them. -/
theorem yields_malformedSuppression (hregistry : registry = .ok s.registry)
    (hid : s.registry.idOf n = malformedSuppressionInfo.name) (hy : s.Yields file n o) :
    o = .ok (.findings (directiveFindings s.settings file
      (Suppressions.scan s.settings.marker file.content))) := by
  obtain ⟨found, below⟩ := hy
  rename_i entry outcome
  have hunit : entry.unit = malformedSuppression :=
    unit_eq hregistry found (by simp [units]) hid
  have hids := Registry.map_idOf_requiresOf hregistry found
  rw [Registry.requiresOf_eq found, hunit] at hids
  obtain ⟨m, hrequires, hm⟩ : ∃ m, entry.requires = [m] ∧
      s.registry.idOf m = Index.suppressionsId := List.map_eq_singleton_iff.mp hids
  have hdirectives := yields_suppressions hregistry hm (below m (by simp [hrequires]))
  simp [Session.outcomeFrom, Session.factsOf, hrequires, hunit, hdirectives, hm,
    malformedSuppression, RuleInfo.unit, UnitContext.read, Fact.suppressions?, bind, Except.bind,
    pure, Except.pure, Except.map]

/-! ## Runs -/

/-- Where units depend on units with smaller numbers only, every unit has a bottom. -/
theorem depthWithin_of_depends_lt {r : Registry} (hlt : ∀ n m, r.Depends n m → m < n)
    (hn : n < r.size) : r.DepthWithin r.size n := by
  have hdepth : ∀ n, n < r.size → r.DepthWithin (n + 1) n := by
    intro n
    induction n using Nat.strongRecOn with
    | _ n ih =>
        intro hn
        refine ⟨hn, fun m hm => ?_⟩
        have hmn := hlt n m hm
        exact (ih m hmn (by omega)).mono hmn
  exact (hdepth n hn).mono hn

/-- The registry of the built-in units, with the numbers of their dependencies. -/
theorem registry_eq : registry = .ok ⟨units.zipWith Entry.mk
    ([[], [0], [0], []] ++ List.replicate 11 [1, 3] ++ [[2, 3], [3]])⟩ :=
  rfl

/-- Built-in units depend on units that were registered before them. -/
theorem depends_lt (hregistry : registry = .ok s.registry) :
    ∀ n m, s.registry.Depends n m → m < n := by
  have hconcrete := Except.ok.inj (hregistry.symm.trans registry_eq)
  intro n m hm
  have hn : n < 17 := by
    by_contra hge
    have hnone : s.registry.entries[n]? = none := by
      rw [hconcrete]
      exact List.getElem?_eq_none (by simp [units, Index.all, schemaRules]; omega)
    simp [Registry.Depends, Registry.requiresOf, hnone] at hm
  rw [hconcrete] at hm
  have hall : ∀ n < 17, ∀ m ∈ Registry.requiresOf ⟨units.zipWith Entry.mk
      ([[], [0], [0], []] ++ List.replicate 11 [1, 3] ++ [[2, 3], [3]])⟩ n, m < n := by
    decide
  exact hall n hn m hm

/-- A request of built-in units can be run. -/
theorem exists_run (hregistry : registry = .ok s.registry) {request : List String}
    (hrequest : ∀ id ∈ request, ∃ n, s.registry.lookup id = some n) (files : List SourceFile)
    (calls : List UnitCall) : ∃ run, s.run request files calls = .ok run := by
  refine (Session.exists_run_iff (Registry.wellFormed_of_build hregistry)).mpr fun id hid => ?_
  obtain ⟨n, hn⟩ := hrequest id hid
  exact ⟨n, hn, depthWithin_of_depends_lt (depends_lt hregistry) (Registry.lookup_lt hn)⟩

/-- What a run of built-in units says of a file, where the outcomes of the units are known. -/
structure Report (s : Session) (plan : Plan) (run : Run) (file : SourceFile)
    (outcome : Nat → Outcome) : Prop where
  /-- Every planned unit has its outcome. -/
  kept : ∀ n ∈ plan.order, run.state.outcome? n file.id = some (outcome n)
  /-- Valid code makes no unit fail. -/
  of_parse : file.parse?.isSome → s.failuresOn plan run.state file = []
  /-- Other files make the imports fail, with the fault of the file, and what depends on them is
  skipped for the first dependency that failed; -/
  of_not_parse : file.parse? = none → ∀ f, f ∈ s.failuresOn plan run.state file ↔
    (∃ n ∈ plan.order, s.registry.idOf n = Index.importsId ∧
      f = ⟨Index.importsId, file.relativePath, .ofFault (s.faultOf file.content)⟩) ∨
    ∃ n ∈ plan.order, DependsOnImports s n ∧ ∃ m, s.FirstFailing outcome n m ∧
      f = ⟨s.registry.idOf n, file.relativePath, .dependencyFailed (s.registry.idOf m)⟩
  /-- each unit has at most one failure. -/
  units_nodup : ((s.failuresOn plan run.state file).map UnitFailure.unit).Nodup
  /-- The directives are found, -/
  directives : ∀ n ∈ plan.order, s.registry.idOf n = Index.suppressionsId →
    outcome n = .ok (.suppressions (Suppressions.scan s.settings.marker file.content))
  /-- and so are the findings on them; -/
  findings : ∀ n ∈ plan.order, s.registry.idOf n = malformedSuppressionInfo.name →
    outcome n = .ok (.findings (directiveFindings s.settings file
      (Suppressions.scan s.settings.marker file.content)))
  /-- each is reported, or another with its key is. -/
  reported : ∀ n ∈ plan.requested, s.registry.idOf n = malformedSuppressionInfo.name →
    ∀ d ∈ directiveFindings s.settings file (Suppressions.scan s.settings.marker file.content),
      ∃ d' ∈ run.diagnostics, d.compareKey d' = .eq

/-- The error of a built-in unit on a file that is not valid code. -/
theorem plain_eq_error_iff (hregistry : registry = .ok s.registry)
    (hdepth : s.registry.DepthWithin s.depth n) (hcode : file.parse? = none) (e : UnitError) :
    s.plain file s.depth n = .error e ↔
      s.registry.idOf n = Index.importsId ∧ e = .ofFault (s.faultOf file.content) ∨
        DependsOnImports s n ∧ ∃ m, s.FirstFailing (s.plain file s.depth) n m ∧
          e = .dependencyFailed (s.registry.idOf m) := by
  obtain ⟨entry, hentry⟩ := Registry.exists_entry hdepth.lt
  have hbelow : ∀ m, s.registry.Depends n m → s.Yields file m (s.plain file s.depth m) :=
    fun m hm => Session.yields_plain (hdepth.of_reaches (.single hm))
  have hbelow' : ∀ m ∈ entry.requires, s.Yields file m (s.plain file s.depth m) := by
    rw [← Registry.requiresOf_eq hentry]
    exact hbelow
  have hfailed := failed_iff_of_not_parse hregistry hcode (Session.yields_plain hdepth)
  have hplain : s.plain file s.depth n = s.outcomeFrom file entry (s.plain file s.depth) :=
    (Session.yields_plain hdepth).unique (.intro hentry hbelow')
  rw [hplain] at hfailed ⊢
  constructor
  · intro he
    rcases hfailed.mp ⟨e, he⟩ with hid | hn
    · rw [failed_imports hregistry hentry hid hcode] at he
      exact .inl ⟨hid, (Except.error.inj he).symm⟩
    · rcases outcomeFrom_cases hregistry hentry hbelow' with ⟨m, hm, ho⟩ | ⟨hok, -⟩
      · rw [ho] at he
        exact .inr ⟨hn, m, hm, (Except.error.inj he).symm⟩
      · obtain ⟨m, hnm, hm⟩ := hn.exists_depends
        have hmfailed := (failed_iff_of_not_parse hregistry hcode (hbelow m hnm)).mpr hm
        exact absurd hmfailed (hok m hnm)
  · rintro (⟨hid, rfl⟩ | ⟨-, m, hm, rfl⟩)
    · exact failed_imports hregistry hentry hid hcode _
    · exact hm.outcomeFrom_eq hentry

/-- The failures on a file that is not valid code. -/
theorem mem_failuresOn_of_not_parse (hregistry : registry = .ok s.registry) {plan : Plan}
    (hdepth : ∀ n ∈ plan.order, s.registry.DepthWithin s.depth n) (hcode : file.parse? = none)
    {st : EngineState}
    (hkept : ∀ n ∈ plan.order, st.outcome? n file.id = some (s.plain file s.depth n))
    (f : UnitFailure) : f ∈ s.failuresOn plan st file ↔
      (∃ n ∈ plan.order, s.registry.idOf n = Index.importsId ∧
        f = ⟨Index.importsId, file.relativePath, .ofFault (s.faultOf file.content)⟩) ∨
      ∃ n ∈ plan.order, DependsOnImports s n ∧ ∃ m, s.FirstFailing (s.plain file s.depth) n m ∧
        f = ⟨s.registry.idOf n, file.relativePath, .dependencyFailed (s.registry.idOf m)⟩ := by
  rw [Session.mem_failuresOn hkept]
  constructor
  · rintro ⟨n, hn, e, he, rfl⟩
    rcases (plain_eq_error_iff hregistry (hdepth n hn) hcode e).mp he with
      ⟨hid, rfl⟩ | ⟨hdepends, m, hm, rfl⟩
    · exact .inl ⟨n, hn, hid, by rw [hid]⟩
    · exact .inr ⟨n, hn, hdepends, m, hm, rfl⟩
  · rintro (⟨n, hn, hid, rfl⟩ | ⟨n, hn, hdepends, m, hm, rfl⟩)
    · refine ⟨n, hn, _, ?_, by rw [hid]⟩
      exact (plain_eq_error_iff hregistry (hdepth n hn) hcode _).mpr (.inl ⟨hid, rfl⟩)
    · refine ⟨n, hn, _, ?_, rfl⟩
      exact (plain_eq_error_iff hregistry (hdepth n hn) hcode _).mpr (.inr ⟨hdepends, m, hm, rfl⟩)

/-- **The failures of the built-in units.**  A request of built-in units can be run; its failures
are those of the files.  On a file that is known by its number, valid code makes no unit fail; on
any other file the unit that finds imports fails if it is planned, with the place and the words of
the parser's fault, every planned unit that depends on it is skipped for the first of its
dependencies that failed, and the units on directives report as always.  On no input, files of the
same number and later requests included, is there an error other than the fault of a text that is
not valid code and a skip. -/
theorem failures_of_builtin (hregistry : registry = .ok s.registry) {request : List String}
    (hrequest : ∀ id ∈ request, (s.registry.lookup id).isSome) {files : List SourceFile}
    (hids : files.Pairwise fun f g => f.id ≠ g.id) (calls : List UnitCall) :
    (∃ run plan, s.run request files calls = .ok run ∧ Plan.of s.registry request = .ok plan ∧
      run.failures = Session.sortFailures (files.flatMap (s.failuresOn plan run.state)) ∧
      ∀ file ∈ files, ∃ outcome, Report s plan run file outcome) ∧
    ∀ request' files' calls' run', s.run request' files' calls' = .ok run' →
      (∀ f ∈ run'.failures, Foreseen s f.error) ∧
      ∀ later, (∀ n id e, (s.serve later run'.state).2.outcome? n id = some (.error e) →
          Foreseen s e) ∧
        ∀ e, .ok (.error e) ∈ (s.serve later run'.state).1 → Foreseen s e := by
  have hwf := Registry.wellFormed_of_build hregistry
  refine ⟨?_, fun request' files' calls' run' hrun' => ?_⟩
  · obtain ⟨run, hrun⟩ : ∃ run, s.run request files calls = .ok run := by
      refine (Session.exists_run_iff hwf).mpr fun id hid => ?_
      obtain ⟨n, hn⟩ := Option.isSome_iff_exists.mp (hrequest id hid)
      exact ⟨n, hn, depthWithin_of_depends_lt (depends_lt hregistry) (Registry.lookup_lt hn)⟩
    have hready : s.Ready files :=
      .of_build hregistry isPure_units (Session.ids_of_pairwise hids)
    obtain ⟨plan, hplan, rfl⟩ := Session.run_eq_ok_iff.mp hrun
    have hdepth := hready.plan_depthWithin hplan
    obtain ⟨-, -, -, hkept⟩ := Session.runFiles_spec hready hdepth (fun f hf => hf)
      (s.sound_after files calls)
    obtain ⟨hnodup, -, hfirst⟩ := Plan.order_of_eq_ok hplan
    obtain ⟨-, -, -, hfailures⟩ := Session.ledger_runFiles hwf hfirst hdepth (fun f hf => hf)
      (s.ledger_after files calls)
    refine ⟨_, plan, hrun, hplan, congrArg Session.sortFailures hfailures,
      fun file hfile => ⟨s.plain file s.depth, ?_⟩⟩
    -- What is kept after a run is what each unit yields without memory, so that each clause is one
    -- about `Yields`.
    refine ⟨hkept file hfile, fun hcode => ?_,
      fun hcode => mem_failuresOn_of_not_parse hregistry hdepth hcode (hkept file hfile),
      Session.failuresOn_units_nodup hwf hnodup fun n hn => (hdepth n hn).lt,
      fun n hn hid => yields_suppressions hregistry hid (Session.yields_plain (hdepth n hn)),
      fun n hn hid => yields_malformedSuppression hregistry hid (Session.yields_plain (hdepth n hn)),
      fun n hn hid d hd => ?_⟩
    · refine List.eq_nil_iff_forall_not_mem.mpr fun f hf => ?_
      obtain ⟨n, hn, e, he, -⟩ := (Session.mem_failuresOn (hkept file hfile) f).mp hf
      exact not_failed_of_parse hregistry hcode (Session.yields_plain (hdepth n hn)) ⟨e, he⟩
    · obtain ⟨id, hid', hlookup⟩ := (Plan.mem_requested_iff hplan).mp hn
      have horder := Plan.mem_order_of_lookup hplan hid' hlookup
      have hyields : s.Yields file n (s.plain file s.depth n) :=
        Session.yields_plain (hdepth n horder)
      have hplain := yields_malformedSuppression hregistry hid hyields
      show ∃ d' ∈ (Session.sinkOf plan _).toList, _
      rw [(Session.run_lists hready hplan).1]
      refine Sink.exists_mem_kept (List.mem_flatMap.mpr ⟨file, hfile, List.mem_flatMap.mpr
        ⟨n, List.mem_filter.mpr ⟨horder, by simpa using hn⟩, ?_⟩⟩)
      unfold Session.findingsAt
      rw [hplain]
      exact hd
  · -- The run may have several files of one number here, so only what every step keeps is known.
    obtain ⟨hkept, hfailures⟩ := (hereditary_expected hregistry).run hwf hrun'
    refine ⟨fun f hf => ?_, fun later => ?_⟩
    · obtain ⟨n, -, hn⟩ := hfailures f hf
      exact hn
    · obtain ⟨hkept', hanswers⟩ := (hereditary_expected hregistry).serve hwf later hkept
      refine ⟨fun n id e he => hkept' n id _ he, fun e he => ?_⟩
      obtain ⟨n, hn⟩ := hanswers _ he
      exact hn

/-- A session of the built-in units, with a parser that says where a text ends too early. -/
def builtinSession : Session where
  registry := ⟨units.zipWith Entry.mk
    ([[], [0], [0], []] ++ List.replicate 11 [1, 3] ++ [[2, 3], [3]])⟩
  settings := {}
  faultOf text := some ⟨1, text.length, "unexpected end of input"⟩

/-- A file that is not valid code, with a directive that is cut short. -/
def cutFile : SourceFile :=
  .ofText 1 ⟨"cut"⟩ "fn // provider-lint:ignore"

/-- The file is not valid code. -/
theorem cutFile_parse? : cutFile.parse? = none := by
  have hnone : cutFile.parse?.isSome = false := by decide +kernel
  exact Option.not_isSome_iff_eq_none.mp (by simp [hnone])

/-- The valid file has no failures, and the other one that of the imports. -/
theorem failures_of_builtin_sample :
    ∃ run plan, builtinSession.run ["missing-type", "PL001"] [Session.sampleFile 0, cutFile] [] =
        .ok run ∧
      builtinSession.failuresOn plan run.state (Session.sampleFile 0) = [] ∧
      ⟨"imports", cutFile.relativePath, .parse "1:27: unexpected end of input"⟩ ∈
        builtinSession.failuresOn plan run.state cutFile := by
  have hrequest : ∀ id ∈ ["missing-type", "PL001"],
      (builtinSession.registry.lookup id).isSome := by decide
  have hids : [Session.sampleFile 0, cutFile].Pairwise fun f g => f.id ≠ g.id := by
    simp [Session.sampleFile, cutFile, SourceFile.ofText]
  have hcode : (Session.sampleFile 0).parse?.isSome := by decide +kernel
  obtain ⟨⟨run, plan, hrun, hplan, -, hreport⟩, -⟩ :=
    failures_of_builtin registry_eq hrequest hids []
  refine ⟨run, plan, hrun, ?_, ?_⟩
  · obtain ⟨outcome, hfirst⟩ := hreport (Session.sampleFile 0) (by simp)
    exact hfirst.of_parse hcode
  · obtain ⟨outcome, hsecond⟩ := hreport cutFile (by simp)
    have hliterals : 1 ∈ builtinSession.registry.requiresOf 13 := by decide
    have himports : 0 ∈ builtinSession.registry.requiresOf 1 := by decide
    have hplanned : 0 ∈ plan.order := (Plan.mem_order_iff hplan).mpr
      ⟨"missing-type", by simp, 13, rfl, .head hliterals (.single himports)⟩
    have hfault : UnitError.ofFault (builtinSession.faultOf cutFile.content) =
        .parse "1:27: unexpected end of input" := rfl
    rw [← hfault]
    exact (hsecond.of_not_parse cutFile_parse? _).mpr (.inl ⟨0, hplanned, rfl, rfl⟩)

end Rules

end SchemaLint

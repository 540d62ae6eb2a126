import SchemaLint.Proofs.Suppression

/-!
# Where findings come from

Outcomes are kept by the number of a file, so a file whose number was there before gets the outcomes
of the earlier one.  Its findings are therefore those of a file, but not always its own.  For the
built-in rules it is then known what a finding is about.

* `Session.Covers`: the files that a run has come to, one for each number.
* `Session.exists_findingsAt`: a finding of a run is one of a requested unit on a file of the run.
* `Rules.Reported`: what a finding of the built-in rules is about.
* **`Rules.exists_reported`**: every finding of a run of built-in rules is about a schema literal, a
  setter call or a directive of one of its files.
-/

namespace SchemaLint

namespace Session

variable {s : Session} {plan : Plan} {seen : List SourceFile} {calls : List UnitCall}
  {st : EngineState}

/-! ## Files of the same number -/

/-- Sound outcomes stay sound when more files have been seen. -/
theorem Sound.mono (h : s.Sound seen calls st) {seen' : List SourceFile}
    (hseen : ∀ f ∈ seen, f ∈ seen') : s.Sound seen' calls st := by
  refine ⟨fun n f o ho => ?_, h.called⟩
  obtain ⟨file, hfile, hid, hy⟩ := h.outcomes n f o ho
  exact ⟨file, hseen file hfile, hid, hy⟩

/-- Units whose outcomes are kept change nothing. -/
theorem runUnits_kept {file : SourceFile} {units : List Nat} {outcome : Nat → Outcome}
    (hunits : ∀ n ∈ units, s.registry.DepthWithin s.depth n)
    (hkept : ∀ n ∈ units, st.outcome? n file.id = some (outcome n)) (code : Option Code.CodeFile) :
    s.runUnits file code units st = (units.map fun n => (n, outcome n), st) := by
  induction units with
  | nil => rfl
  | cons n rest ih =>
      obtain ⟨hn, hrest⟩ := List.forall_mem_cons.mp hkept
      obtain ⟨hdepth, hdepths⟩ := List.forall_mem_cons.mp hunits
      have hresolve : s.resolve file code s.depth n st = (outcome n, st) := by
        cases hs : s.depth with
        | zero =>
            rw [hs] at hdepth
            exact hdepth.elim
        | succ depth =>
            unfold resolve
            rw [hn]
      unfold runUnits
      simp only [hresolve, ih hdepths hrest, List.map_cons]

/-- The files that a run has come to, one for each number: what is kept is what units yield on them,
and for each of them the outcomes of all units of the plan are kept. -/
structure Covers (s : Session) (plan : Plan) (seen : List SourceFile) (calls : List UnitCall)
    (st : EngineState) : Prop where
  /-- A file is known by its number. -/
  ids : ∀ f ∈ seen, ∀ g ∈ seen, f.id = g.id → f = g
  /-- What is kept is what units yield on the files. -/
  sound : s.Sound seen calls st
  /-- All units of the plan have come to the files. -/
  kept : ∀ f ∈ seen, ∀ n ∈ plan.order, st.outcome? n f.id = some (s.plain f s.depth n)

section

variable (hr : s.registry.WellFormed) (hpure : ∀ e ∈ s.registry.entries, e.unit.IsPure)
  (hdepth : ∀ n ∈ plan.order, s.registry.DepthWithin s.depth n)

include hr hpure hdepth

/-- **One more file**: it gets the outcomes of the file of its number, which is itself if the number
is new. -/
theorem Covers.runUnits (h : s.Covers plan seen calls st) (file : SourceFile) :
    ∃ seen', (∀ g ∈ seen', g = file ∨ g ∈ seen) ∧
      s.Covers plan seen' calls (s.runUnits file file.parse? plan.order st).2 ∧
      ∃ g ∈ seen', (s.runUnits file file.parse? plan.order st).1 = s.plainOutcomes plan g := by
  by_cases hknown : ∃ g ∈ seen, g.id = file.id
  · obtain ⟨g, hg, hid⟩ := hknown
    have hkept := h.kept g hg
    rw [hid] at hkept
    rw [runUnits_kept hdepth hkept]
    exact ⟨seen, fun _ hf => .inr hf, h, g, hg, rfl⟩
  · have hnew : ∀ g ∈ seen, g.id ≠ file.id := fun g hg hid => hknown ⟨g, hg, hid⟩
    have hids : ∀ f ∈ file :: seen, ∀ g ∈ file :: seen, f.id = g.id → f = g := by
      intro f hf g hg hid
      rcases List.mem_cons.mp hf with hf | hf <;> rcases List.mem_cons.mp hg with hg | hg
      · rw [hf, hg]
      · exact absurd (hf ▸ hid.symm) (hnew g hg)
      · exact absurd (hg ▸ hid) (hnew f hf)
      · exact h.ids f hf g hg hid
    have hsound : s.Sound (file :: seen) calls st :=
      h.sound.mono fun f hf => List.mem_cons_of_mem file hf
    obtain ⟨houtcomes, hsound', hkeeps, hkept⟩ :=
      runUnits_spec ⟨hr, hpure, hids⟩ List.mem_cons_self hdepth hsound
    refine ⟨file :: seen, fun g hg => List.mem_cons.mp hg, ⟨hids, hsound', ?_⟩, file,
      List.mem_cons_self, houtcomes⟩
    intro f hf n hn
    rcases List.mem_cons.mp hf with rfl | hf
    · exact hkept n hn
    · exact hkeeps n f.id _ (h.kept f hf n hn)

/-- **All files**: every outcome that is listed is one on a file of the run, by induction on the
files. -/
theorem Covers.runFiles {files : List SourceFile} (h : s.Covers plan seen calls st) :
    ∀ entry ∈ (s.runFiles plan files st).1,
      ∃ g, (g ∈ seen ∨ g ∈ files) ∧ entry.2 = s.plainOutcomes plan g := by
  induction files generalizing seen st with
  | nil => exact fun entry he => nomatch he
  | cons file rest ih =>
      obtain ⟨seen', hseen', hcovers, g, hg, houtcomes⟩ := h.runUnits hr hpure hdepth file
      have hwhere : ∀ g ∈ seen', g ∈ seen ∨ g ∈ file :: rest := by
        intro g hg
        rcases hseen' g hg with rfl | hg
        · exact .inr List.mem_cons_self
        · exact .inl hg
      intro entry he
      unfold Session.runFiles at he
      rcases List.mem_cons.mp he with rfl | he
      · exact ⟨g, hwhere g hg, houtcomes⟩
      · obtain ⟨g', hg', houtcomes'⟩ := ih hcovers entry he
        refine ⟨g', ?_, houtcomes'⟩
        rcases hg' with hg' | hg'
        · exact hwhere g' hg'
        · exact .inr (List.mem_cons_of_mem file hg')

end

/-- **A finding of a run is one of a unit on a file of the run.** -/
theorem exists_findingsAt {units : List AnalysisUnit}
    (hbuild : Registry.build units = .ok s.registry) (hpure : ∀ u ∈ units, u.IsPure)
    {request : List String} {files : List SourceFile} {run : Run}
    (hrun : s.run request files calls = .ok run) {d : Diagnostic} (hd : d ∈ run.diagnostics) :
    ∃ file ∈ files, ∃ n, s.registry.DepthWithin s.depth n ∧ d ∈ s.findingsAt file n := by
  have hready : s.Ready [] := .of_build hbuild hpure fun _ hf => nomatch hf
  obtain ⟨plan, hplan, rfl⟩ := run_eq_ok_iff.mp hrun
  have hdepth := hready.plan_depthWithin hplan
  have hstart : s.Covers plan [] calls (.after calls) :=
    ⟨hready.ids, s.sound_after [] calls, fun _ hf => nomatch hf⟩
  have hd : d ∈ (sinkOf plan (s.runFiles plan files (.after calls)).1).toList := hd
  rw [sinkOf_toList] at hd
  obtain ⟨⟨_, outcomes⟩, hentry, hd⟩ := List.mem_flatMap.mp (Sink.mem_of_mem_kept hd)
  obtain ⟨g, hg, rfl⟩ := hstart.runFiles hready.wellFormed hready.pure hdepth _ hentry
  simp only [flatMap_plainOutcomes] at hd
  obtain ⟨n, hn, hd⟩ := List.mem_flatMap.mp hd
  exact ⟨g, hg.resolve_left List.not_mem_nil, n, hdepth n (List.mem_of_mem_filter hn), hd⟩

/-- A finding of a unit is in the fact that the unit gives. -/
theorem exists_findings_of_findingsAt {file : SourceFile} {n : Nat} {d : Diagnostic}
    (h : d ∈ s.findingsAt file n) : ∃ ds, s.plain file s.depth n = .ok (.findings ds) ∧ d ∈ ds := by
  unfold findingsAt at h
  split at h
  · rename_i fact hfact
    cases fact with
    | findings ds => exact ⟨ds, hfact, h⟩
    | _ => cases h
  · cases h

end Session

namespace Rules

variable {s : Session} {file : SourceFile} {n : Nat} {o : Outcome} {code : Code.CodeFile}

/-! ## Rules that need code -/

/-- A unit depends on those it requires. -/
theorem exists_depends (hregistry : registry = .ok s.registry) {u : AnalysisUnit} (hu : u ∈ units)
    (hn : n < s.registry.size) (hid : s.registry.idOf n = u.id) {id : String}
    (hmem : id ∈ u.requires) :
    ∃ m, s.registry.Depends n m ∧ m < s.registry.size ∧ s.registry.idOf m = id := by
  obtain ⟨entry, hentry⟩ := Registry.exists_entry hn
  have hrequires := Registry.map_idOf_requiresOf hregistry hentry
  rw [unit_eq hregistry hentry hu hid] at hrequires
  rw [← hrequires] at hmem
  obtain ⟨m, hm, hmid⟩ := List.mem_map.mp hmem
  exact ⟨m, hm, (Registry.wellFormed_of_build hregistry).depends_lt hm, hmid⟩

/-- A unit that requires one that requires the imports has a fact on valid code only. -/
theorem exists_parse (hregistry : registry = .ok s.registry) {u v : AnalysisUnit} (hu : u ∈ units)
    (hv : v ∈ units) (huv : v.id ∈ u.requires) (himports : Index.importsId ∈ v.requires)
    (hid : s.registry.idOf n = u.id) {fact : Fact} (hy : s.Yields file n (.ok fact)) :
    ∃ code, file.parse? = some code := by
  refine Option.ne_none_iff_exists'.mp fun hnone => ?_
  obtain ⟨m, hnm, hm, hmid⟩ := exists_depends hregistry hu hy.lt hid huv
  obtain ⟨i, hmi, -, hiid⟩ := exists_depends hregistry hv hm hmid himports
  exact Outcome.not_failed_ok fact ((failed_iff_of_not_parse hregistry hnone hy).mpr
    (.inr (.head hnm (.inr (.head hmi (.inl hiid))))))

/-! ## What findings are about -/

/-- The setter calls of a file. -/
def callsOf (s : Session) (code : Code.CodeFile) : List SetterCall :=
  SetterCall.collect (.ofNodes code.nodes) s.settings.schema code.nodes

/-- On valid code the unit on setter calls gives those of the code. -/
theorem yields_setterCalls (hregistry : registry = .ok s.registry)
    (hcode : file.parse? = some code) (hid : s.registry.idOf n = Index.setterCallsId)
    (hy : s.Yields file n o) : o = .ok (.setterCalls (callsOf s code)) := by
  rw [yields_unit hregistry Index.setterCalls (by simp [units, Index.all]) hid
    (fun _ => .imports (.ofNodes code.nodes)) (fun id hid m o hm => ?_) hy]
  · simp [Index.setterCalls, UnitContext.parsed, UnitContext.read, hcode, Fact.imports?, bind,
      Except.bind, callsOf]
    rfl
  · rw [List.mem_singleton.mp hid] at hm
    exact yields_imports hregistry hcode hm

/-- The findings on setter keys in valid code: the rule builds on the setter calls and the
directives of the file. -/
theorem yields_setterKeyLiteral (hregistry : registry = .ok s.registry)
    (hcode : file.parse? = some code) (hid : s.registry.idOf n = setterKeyLiteralInfo.name)
    (hy : s.Yields file n o) :
    o = .ok (.findings
      (setterKeyFindings file (.scan s.settings.marker file.content) (callsOf s code))) := by
  rw [yields_unit hregistry setterKeyLiteral (by simp [units]) hid
    (fun id => if id = Index.setterCallsId then .setterCalls (callsOf s code)
      else .suppressions (.scan s.settings.marker file.content))
    (fun id hid m o hm hyields => ?_) hy]
  · rfl
  · rcases List.mem_pair.mp hid with rfl | rfl
    · exact yields_setterCalls hregistry hcode hm hyields
    · exact yields_suppressions hregistry hm hyields

/-- What a finding of the built-in rules on a file is about. -/
inductive Reported (s : Session) (file : SourceFile) : Diagnostic → Prop
  /-- A schema literal. -/
  | literal {r : SchemaRule} {code : Code.CodeFile} {l : SchemaLiteral} (hr : r ∈ schemaRules)
      (hcode : file.parse? = some code) (hl : l ∈ literalsOf s code) :
      Reported s file (r.findingOn file l)
  /-- The key of a setter call. -/
  | key {code : Code.CodeFile} {c : SetterCall} {key : CallArgument} (message : String)
      (hcode : file.parse? = some code) (hc : c ∈ callsOf s code)
      (hkey : computedKey? c = some key) :
      Reported s file (setterKeyLiteralInfo.finding file key.position message none)
  /-- A comment that is a directive or a malformed one. -/
  | directive {c : Comment} (message : String) (hc : c ∈ comments file.content)
      (hdirective : (Directive.parse? s.settings.marker c).isSome) :
      Reported s file (malformedSuppressionInfo.finding file c.position message none)

/-- A directive, well formed or not, is at the place of its comment. -/
theorem position_of_parse? {marker : String} {c : Comment} {parsed : MalformedDirective ⊕ Directive}
    (h : Directive.parse? marker c = some parsed) :
    parsed.elim (·.position) (·.position) = c.position := by
  obtain ⟨words, -, rfl⟩ := Option.map_eq_some_iff.mp h
  unfold Directive.ofWords
  split
  · rfl
  · split <;> rfl

/-- What the rule on directives finds is about a comment of the file. -/
theorem reported_of_directiveFindings {d : Diagnostic}
    (hd : d ∈ directiveFindings s.settings file (.scan s.settings.marker file.content)) :
    Reported s file d := by
  have hplace : ∀ parsed, parsed ∈ (comments file.content).filterMap
      (Directive.parse? s.settings.marker) → ∀ message, Reported s file
        (malformedSuppressionInfo.finding file (parsed.elim (·.position) (·.position)) message
          none) := by
    intro parsed hparsed message
    obtain ⟨c, hc, hparse⟩ := List.mem_filterMap.mp hparsed
    rw [position_of_parse? hparse]
    exact .directive message hc (Option.isSome_of_eq_some hparse)
  unfold directiveFindings at hd
  rcases List.mem_append.mp hd with hd | hd
  · obtain ⟨m, hm, rfl⟩ := List.mem_map.mp hd
    obtain ⟨parsed, hparsed, hleft⟩ := List.mem_filterMap.mp hm
    rw [Sum.getLeft?_eq_some_iff] at hleft
    exact hplace (.inl m) (hleft ▸ hparsed) _
  · obtain ⟨m, hm, rfl⟩ := List.mem_map.mp hd
    obtain ⟨parsed, hparsed, hright⟩ := List.mem_filterMap.mp (List.mem_of_mem_filter hm)
    rw [Sum.getRight?_eq_some_iff] at hright
    exact hplace (.inr m) (hright ▸ hparsed) _

/-- What the findings that a built-in unit yields are about, unit by unit.  Index units yield no
findings. -/
theorem reported_of_yields (hregistry : registry = .ok s.registry) {ds : List Diagnostic}
    (hy : s.Yields file n (.ok (.findings ds))) {d : Diagnostic} (hd : d ∈ ds) :
    Reported s file d := by
  obtain ⟨entry, hentry⟩ := Registry.exists_entry hy.lt
  have hu := mem_units hregistry hentry
  have hid := Registry.idOf_eq hentry
  have hkind : (Fact.findings ds).IsOf (s.registry.idOf n) :=
    (hereditary_expected hregistry).yields hy
  generalize entry.unit = u at hu hid
  rw [hid] at hkind
  -- A unit that builds an index yields no findings; of a rule, its own lemma says what it yields.
  rcases mem_units_iff.mp hu with hindex | ⟨r, hr, rfl⟩ | rfl | rfl
  · exact absurd hkind (Fact.not_isOf_findings hindex ds)
  · obtain ⟨code, hcode⟩ := exists_parse hregistry (unit_mem_units hr) (v := Index.schemaLiterals)
      (by simp [units, Index.all]) List.mem_cons_self List.mem_cons_self hid hy
    cases yields_schemaRule hregistry hr hcode hid hy
    obtain ⟨l, hl, rfl⟩ := List.mem_map.mp hd
    exact .literal hr hcode (List.mem_of_mem_filter hl)
  · obtain ⟨code, hcode⟩ := exists_parse hregistry (u := setterKeyLiteral) (by simp [units])
      (v := Index.setterCalls) (by simp [units, Index.all]) List.mem_cons_self List.mem_cons_self
      hid hy
    cases yields_setterKeyLiteral hregistry hcode hid hy
    obtain ⟨c, hc, hfinding⟩ := List.mem_filterMap.mp hd
    split at hfinding
    · cases hfinding
    · obtain ⟨key, hkey, rfl⟩ := Option.map_eq_some_iff.mp hfinding
      exact .key _ hcode hc hkey
  · cases yields_malformedSuppression hregistry hid hy
    exact reported_of_directiveFindings hd

/-- **What the findings of a run are about.**  Every finding of a run of built-in units is one on a
file of the run, and about a schema literal, the key of a setter call or a directive of it. -/
theorem exists_reported (hregistry : registry = .ok s.registry) {request : List String}
    {files : List SourceFile} {calls : List UnitCall} {run : Run}
    (hrun : s.run request files calls = .ok run) {d : Diagnostic} (hd : d ∈ run.diagnostics) :
    ∃ file ∈ files, Reported s file d := by
  obtain ⟨file, hfile, n, hdepth, hd⟩ := Session.exists_findingsAt hregistry isPure_units hrun hd
  obtain ⟨ds, hds, hd⟩ := Session.exists_findings_of_findingsAt hd
  have hy : s.Yields file n (s.plain file s.depth n) := Session.yields_plain hdepth
  rw [hds] at hy
  exact ⟨file, hfile, reported_of_yields hregistry hy hd⟩

end Rules

end SchemaLint

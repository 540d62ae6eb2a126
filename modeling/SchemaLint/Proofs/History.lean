import SchemaLint.Proofs.Memory

/-!
# Runs and the requests after them

A run resolves the units of its plan on one file after the other, and afterwards outcomes can be
asked for, on files of the run or on others.  Each of these steps keeps the invariant of
`SchemaLint.Proofs.Memory`, so that it holds over the whole history.

* `Session.runFiles_spec`, `Session.run_eq_ok_iff`: the outcomes of a run are the plain ones.
* `Session.serve`: requests after a run, answered one after the other.
* `Session.KnownOrNew`: the files of requests are known, or bring a number that is new.
* **`Session.outcomes_as_without_memory`**: after a run and any such requests, every outcome that is
  kept or was answered is the plain one, nothing was called twice, and no outcome has changed.
-/

namespace SchemaLint.Session

variable {s : Session} {seen : List SourceFile} {calls : List UnitCall} {st : EngineState}

/-- Every outcome of a state is one of a later state. -/
def Keeps (st st' : EngineState) : Prop :=
  ∀ n f o, st.outcome? n f = some o → st'.outcome? n f = some o

/-- Outcomes that are kept in two steps are kept in both together. -/
theorem Keeps.trans {st st' st'' : EngineState} (h : Keeps st st') (h' : Keeps st' st'') :
    Keeps st st'' :=
  fun n f o ho => h' n f o (h n f o ho)

/-- What a session needs of its units and of the files it sees: units that were checked and are
pure, and files that are told apart by their numbers. -/
structure Ready (s : Session) (seen : List SourceFile) : Prop where
  /-- The registry is well formed. -/
  wellFormed : s.registry.WellFormed
  /-- Every unit is pure. -/
  pure : ∀ e ∈ s.registry.entries, e.unit.IsPure
  /-- A file is known by its number. -/
  ids : ∀ f ∈ seen, ∀ g ∈ seen, f.id = g.id → f = g

/-- A registry that was built from pure units can run files with different numbers. -/
theorem Ready.of_build {units : List AnalysisUnit}
    (hbuild : Registry.build units = .ok s.registry) (hpure : ∀ u ∈ units, u.IsPure)
    (hids : ∀ f ∈ seen, ∀ g ∈ seen, f.id = g.id → f = g) : s.Ready seen :=
  ⟨Registry.wellFormed_of_build hbuild, Registry.forall_entries_of_build hbuild hpure, hids⟩

/-- Files with different numbers are told apart by them. -/
theorem ids_of_pairwise {files : List SourceFile} (h : files.Pairwise fun f g => f.id ≠ g.id) :
    ∀ f ∈ files, ∀ g ∈ files, f.id = g.id → f = g :=
  fun _ hf _ hg hid => List.inj_on_of_nodup_map (List.pairwise_map.mpr h) hf hg hid

/-! ## Runs -/

/-- The outcomes of the units of a plan on a file, without memory. -/
def plainOutcomes (s : Session) (plan : Plan) (file : SourceFile) : List (Nat × Outcome) :=
  plan.order.map fun n => (n, s.plain file s.depth n)

/-- Running units on a file gives the plain outcomes and keeps them. -/
theorem runUnits_spec (h : s.Ready seen) {file : SourceFile} (hfile : file ∈ seen)
    {units : List Nat} (hunits : ∀ n ∈ units, s.registry.DepthWithin s.depth n)
    (hs : s.Sound seen calls st) :
    (s.runUnits file file.parse? units st).1 = units.map (fun n => (n, s.plain file s.depth n)) ∧
      s.Sound seen calls (s.runUnits file file.parse? units st).2 ∧
      Keeps st (s.runUnits file file.parse? units st).2 ∧
      ∀ n ∈ units, (s.runUnits file file.parse? units st).2.outcome? n file.id =
        some (s.plain file s.depth n) := by
  induction units generalizing st with
  | nil => exact ⟨rfl, hs, fun _ _ _ ho => ho, fun n hn => nomatch hn⟩
  | cons n rest ih =>
      have hdepth := hunits n List.mem_cons_self
      obtain ⟨hy, hsound, hgrows, hkept⟩ :=
        resolve_spec h.wellFormed h.pure h.ids hfile hdepth hs
      rw [hy.unique (yields_plain hdepth)] at hkept
      obtain ⟨hrest, hsound', hkeeps, hkept'⟩ :=
        ih (fun m hm => hunits m (List.mem_cons_of_mem n hm)) hsound
      refine ⟨?_, hsound', Keeps.trans hgrows.keeps hkeeps, ?_⟩
      · unfold runUnits
        rw [List.map_cons, ← hrest, ← hy.unique (yields_plain hdepth)]
      · intro m hm
        rcases List.mem_cons.mp hm with rfl | hm
        · exact hkeeps m file.id _ hkept
        · exact hkept' m hm

/-- Running a plan on files gives the plain outcomes and keeps them. -/
theorem runFiles_spec (h : s.Ready seen) {plan : Plan}
    (hplan : ∀ n ∈ plan.order, s.registry.DepthWithin s.depth n) {files : List SourceFile}
    (hfiles : ∀ f ∈ files, f ∈ seen) (hs : s.Sound seen calls st) :
    (s.runFiles plan files st).1 = files.map (fun f => (f, s.plainOutcomes plan f)) ∧
      s.Sound seen calls (s.runFiles plan files st).2 ∧
      Keeps st (s.runFiles plan files st).2 ∧
      ∀ f ∈ files, ∀ n ∈ plan.order,
        (s.runFiles plan files st).2.outcome? n f.id = some (s.plain f s.depth n) := by
  induction files generalizing st with
  | nil => exact ⟨rfl, hs, fun _ _ _ ho => ho, fun f hf => nomatch hf⟩
  | cons file rest ih =>
      obtain ⟨houtcomes, hsound, hkeeps, hkept⟩ :=
        runUnits_spec h (hfiles file List.mem_cons_self) hplan hs
      obtain ⟨hrest, hsound', hkeeps', hkept'⟩ :=
        ih (fun f hf => hfiles f (List.mem_cons_of_mem file hf)) hsound
      refine ⟨?_, hsound', Keeps.trans hkeeps hkeeps', ?_⟩
      · unfold runFiles
        rw [List.map_cons, ← hrest, plainOutcomes, ← houtcomes]
      · intro f hf n hn
        rcases List.mem_cons.mp hf with rfl | hf
        · exact hkeeps' n f.id _ (hkept n hn)
        · exact hkept' f hf n hn

/-- The sink that the outcomes of the files fill. -/
def sinkOf (plan : Plan) (perFile : List (SourceFile × List (Nat × Outcome))) : Sink :=
  perFile.foldl (fun sink (_, outcomes) => sink.collect (outcomes.flatMap (findingsOf plan)))
    Sink.empty

/-- The failures among the outcomes of the files. -/
def failuresOf (s : Session) (perFile : List (SourceFile × List (Nat × Outcome))) :
    List UnitFailure :=
  perFile.flatMap fun (file, outcomes) => outcomes.filterMap (s.failureOf? file)

/-- What is behind a run: a plan, and the findings and failures of its outcomes. -/
theorem run_eq_ok_iff {request : List String} {files : List SourceFile} {run : Run} :
    s.run request files calls = .ok run ↔
      ∃ plan, Plan.of s.registry request = .ok plan ∧
        run = ⟨(s.runFiles plan files (.after calls)).2,
          (sinkOf plan (s.runFiles plan files (.after calls)).1).toList,
          sortFailures (s.failuresOf (s.runFiles plan files (.after calls)).1)⟩ := by
  unfold Session.run
  rcases hplan : Plan.of s.registry request with e | plan
  · simp [bind, Except.bind]
  · simp only [bind, Except.bind, pure, Except.pure, Except.ok.injEq, exists_eq_left']
    exact eq_comm

/-- A request that has a plan has a run, with the findings and failures of the outcomes. -/
theorem exists_run_of_plan {request : List String} {plan : Plan}
    (hplan : Plan.of s.registry request = .ok plan) (files : List SourceFile)
    (calls : List UnitCall) : ∃ run, s.run request files calls = .ok run ∧
      run.diagnostics = (sinkOf plan (s.runFiles plan files (.after calls)).1).toList ∧
      run.failures = sortFailures (s.failuresOf (s.runFiles plan files (.after calls)).1) :=
  ⟨_, run_eq_ok_iff.mpr ⟨plan, hplan, rfl⟩, rfl, rfl⟩

/-- The units of a plan fit the depth of the session. -/
theorem Ready.plan_depthWithin (h : s.Ready seen) {request : List String} {plan : Plan}
    (hplan : Plan.of s.registry request = .ok plan) :
    ∀ n ∈ plan.order, s.registry.DepthWithin s.depth n :=
  fun _ hn => Plan.depthWithin h.wellFormed hplan hn

/-! ## Requests after a run -/

/-- Requests for the outcomes of units on files, answered one after the other.  A request that
cannot be planned changes nothing. -/
def serve (s : Session) : List (String × SourceFile) → EngineState →
    List (Except ConfigurationError Outcome) × EngineState
  | [], st => ([], st)
  | (unit, file) :: rest, st =>
    match s.resolveLater unit file st with
    | .error e =>
      let (answers, st') := s.serve rest st
      (.error e :: answers, st')
    | .ok (outcome, st₁) =>
      let (answers, st') := s.serve rest st₁
      (.ok outcome :: answers, st')

/-- Requests can be served in parts. -/
theorem serve_append (s : Session) (earlier rest : List (String × SourceFile))
    (st : EngineState) :
    (s.serve (earlier ++ rest) st).2 = (s.serve rest (s.serve earlier st).2).2 := by
  induction earlier generalizing st with
  | nil => rfl
  | cons request earlier ih =>
      obtain ⟨unit, file⟩ := request
      rw [List.cons_append, serve, serve]
      rcases s.resolveLater unit file st with e | ⟨o, st₁⟩
      · exact ih st
      · exact ih st₁

/-- What an answer to a request says, and that the state holds it: the error of a plan that there
is not, or else what the requested unit yields on the file. -/
def Answers (s : Session) (st : EngineState) (request : String × SourceFile)
    (answer : Except ConfigurationError Outcome) : Prop :=
  match Plan.of s.registry [request.1] with
  | .error e => answer = .error e
  | .ok _ => ∃ n o, s.registry.lookup request.1 = some n ∧ answer = .ok o ∧
      s.Yields request.2 n o ∧ st.outcome? n request.2.id = some o

/-- A request whose unit can be planned is one to resolve the unit. -/
theorem resolveLater_eq {unit : String} {plan : Plan} (file : SourceFile) (st : EngineState)
    (hplan : Plan.of s.registry [unit] = .ok plan) :
    ∃ n ∈ plan.order, s.registry.lookup unit = some n ∧
      s.resolveLater unit file st = .ok (s.resolve file file.parse? s.depth n st) := by
  obtain ⟨found, hfound, -, -⟩ := Plan.of_eq_ok_iff.mp hplan
  rcases hfound with _ | ⟨hn, -⟩
  rename_i n rest
  refine ⟨n, Plan.mem_order_of_lookup hplan List.mem_cons_self hn, hn, ?_⟩
  unfold resolveLater
  rw [hplan, Plan.find_eq_ok_iff.mpr hn]
  rfl

/-- **Serving requests keeps the invariant and every outcome**, and every answer is what the unit
yields. -/
theorem serve_spec (h : s.Ready seen) {later : List (String × SourceFile)}
    (hfiles : ∀ request ∈ later, request.2 ∈ seen) (hs : s.Sound seen calls st) :
    s.Sound seen calls (s.serve later st).2 ∧ Keeps st (s.serve later st).2 ∧
      List.Forall₂ (s.Answers (s.serve later st).2) later (s.serve later st).1 := by
  induction later generalizing st with
  | nil => exact ⟨hs, fun _ _ _ ho => ho, .nil⟩
  | cons request rest ih =>
      obtain ⟨unit, file⟩ := request
      have hrest : ∀ request ∈ rest, request.2 ∈ seen :=
        fun request hrequest => hfiles request (List.mem_cons_of_mem _ hrequest)
      rw [serve]
      rcases hplan : Plan.of s.registry [unit] with e | plan
      · have hlater : s.resolveLater unit file st = .error e := by
          unfold resolveLater
          rw [hplan]
          rfl
        obtain ⟨hsound, hkeeps, hanswers⟩ := ih hrest hs
        rw [hlater]
        refine ⟨hsound, hkeeps, .cons ?_ hanswers⟩
        unfold Answers
        rw [hplan]
      · obtain ⟨n, hn, hlookup, hlater⟩ := resolveLater_eq file st hplan
        obtain ⟨hy, hsound₁, hgrows, hkept⟩ := resolve_spec h.wellFormed h.pure h.ids
          (hfiles (unit, file) List.mem_cons_self) (h.plan_depthWithin hplan n hn) hs
        obtain ⟨hsound, hkeeps, hanswers⟩ := ih hrest hsound₁
        rw [hlater]
        refine ⟨hsound, Keeps.trans hgrows.keeps hkeeps, .cons ?_ hanswers⟩
        unfold Answers
        rw [hplan]
        exact ⟨n, _, hlookup, rfl, hy, hkeeps n file.id _ hkept⟩

/-! ## Whole histories -/

/-- Each file is one of those seen before, or none of those has its number. -/
def KnownOrNew : List SourceFile → List SourceFile → Prop
  | _, [] => True
  | seen, file :: rest =>
    (file ∈ seen ∨ ∀ f ∈ seen, f.id ≠ file.id) ∧ KnownOrNew (seen ++ [file]) rest

/-- Then all files are told apart by their numbers. -/
theorem KnownOrNew.ids {rest : List SourceFile}
    (hseen : ∀ f ∈ seen, ∀ g ∈ seen, f.id = g.id → f = g) (h : KnownOrNew seen rest) :
    ∀ f ∈ seen ++ rest, ∀ g ∈ seen ++ rest, f.id = g.id → f = g := by
  induction rest generalizing seen with
  | nil => simpa using hseen
  | cons file rest ih =>
      have hwith : ∀ f ∈ seen ++ [file], ∀ g ∈ seen ++ [file], f.id = g.id → f = g := by
        rcases h.1 with hmem | hnew
        · have hsame : ∀ f ∈ seen ++ [file], f ∈ seen := by
            intro f hf
            rcases List.mem_append.mp hf with hf | hf
            · exact hf
            · rw [List.mem_singleton] at hf
              exact hf ▸ hmem
          exact fun f hf g hg => hseen f (hsame f hf) g (hsame g hg)
        · intro f hf g hg hid
          rw [List.mem_append, List.mem_singleton] at hf hg
          rcases hf with hf | rfl <;> rcases hg with hg | rfl
          · exact hseen f hf g hg hid
          · exact absurd hid (hnew f hf)
          · exact absurd hid.symm (hnew g hg)
          · rfl
      simpa using ih hwith h.2

/-- **Memory changes no outcome.**  After a run on files with different numbers and any requests on
known or new files: the run has come to every planned unit on every file; whatever is kept for a
unit and the number of a file is the one outcome that the unit yields on that file without memory;
every answer is what the requested unit yields, unless it cannot be planned; no unit was called
twice on a file; and no outcome that could once be read has changed. -/
theorem outcomes_as_without_memory {units : List AnalysisUnit}
    (hbuild : Registry.build units = .ok s.registry) (hpure : ∀ u ∈ units, u.IsPure)
    {request : List String} {files : List SourceFile} {run : Run}
    (hids : files.Pairwise fun f g => f.id ≠ g.id)
    (hrun : s.run request files calls = .ok run) {later : List (String × SourceFile)}
    (hlater : KnownOrNew files (later.map Prod.snd)) :
    (∃ plan, Plan.of s.registry request = .ok plan ∧
      ∀ f ∈ files, ∀ n ∈ plan.order, (run.state.outcome? n f.id).isSome) ∧
    (∀ n id o, (s.serve later run.state).2.outcome? n id = some o →
      ∃ file ∈ files ++ later.map Prod.snd, file.id = id ∧ ∀ o', s.Yields file n o' ↔ o' = o) ∧
    List.Forall₂ (s.Answers (s.serve later run.state).2) later (s.serve later run.state).1 ∧
    (∃ new, (s.serve later run.state).2.calls = new ++ calls ∧ (new.map UnitCall.key).Nodup) ∧
    ∀ earlier rest, later = earlier ++ rest → ∀ unit id o,
      s.fact? (s.serve earlier run.state).2 unit id = some o →
        s.fact? (s.serve later run.state).2 unit id = some o := by
  -- The files of later requests are counted as seen from the start; then one invariant covers the
  -- run and all requests after it.
  have hready : s.Ready (files ++ later.map Prod.snd) :=
    .of_build hbuild hpure (hlater.ids (ids_of_pairwise hids))
  obtain ⟨plan, hplan, rfl⟩ := run_eq_ok_iff.mp hrun
  obtain ⟨-, hsound₀, -, hkept⟩ := runFiles_spec hready (hready.plan_depthWithin hplan)
    (fun f hf => List.mem_append_left _ hf) (s.sound_after (files ++ later.map Prod.snd) calls)
  have hseen : ∀ request ∈ later, request.2 ∈ files ++ later.map Prod.snd :=
    fun request hrequest => List.mem_append_right _ (List.mem_map_of_mem hrequest)
  obtain ⟨hsound, -, hanswers⟩ := serve_spec hready hseen hsound₀
  refine ⟨⟨plan, hplan, ?_⟩, ?_, hanswers, ?_, ?_⟩
  · intro f hf n hn
    rw [hkept f hf n hn]
    rfl
  · intro n id o ho
    obtain ⟨file, hfile, hid, hy⟩ := hsound.outcomes n id o ho
    exact ⟨file, hfile, hid, fun o' => ⟨fun hy' => hy'.unique hy, fun heq => heq ▸ hy⟩⟩
  · obtain ⟨new, hcalls, hnodup, -⟩ := hsound.called
    exact ⟨new, hcalls, hnodup⟩
  · -- What could be read after the earlier requests is kept by the rest of them.
    intro earlier rest heq unit id o ho
    have hseen₁ : ∀ r ∈ earlier, r.2 ∈ files ++ later.map Prod.snd :=
      fun r hr => hseen r (heq ▸ List.mem_append_left rest hr)
    have hseen₂ : ∀ r ∈ rest, r.2 ∈ files ++ later.map Prod.snd :=
      fun r hr => hseen r (heq ▸ List.mem_append_right earlier hr)
    have hkeeps := (serve_spec hready hseen₂ (serve_spec hready hseen₁ hsound₀).1).2.1
    rw [heq, serve_append]
    unfold fact? at ho ⊢
    obtain ⟨n, hn, ho⟩ := Option.bind_eq_some_iff.mp ho
    rw [hn]
    exact hkeeps n id o ho

/-- A scripted unit that does not count its calls is pure. -/
theorem isPure_analysis (script : Script) (hfirst : script.failFirst = false) (id doc : String)
    (requires : List String) (fact : ScriptedFact) :
    (script.analysis id doc requires fact).IsPure := by
  intro cx calls
  have hplay : script.play id { cx with earlier := calls } = script.play id cx := by
    unfold Script.play
    rw [hfirst]
    rfl
  show (script.play id { cx with earlier := calls } >>= fun _ => _) = _
  rw [hplay]
  cases fact <;> rfl

/-- The sample units with the settings they have by default. -/
def sample : Session where
  registry := Plan.sampleRegistry
  settings := {}

/-- Two files, and a third that is asked about later. -/
def sampleFile (number : Nat) : SourceFile :=
  .ofText number ⟨"file"⟩ "fn main() {}"

/-- Requests on a known file, on a new one and again, and for a unit that depends on itself. -/
def sampleLater : List (String × SourceFile) :=
  [("twice", sampleFile 1), ("twice", sampleFile 7), ("loop", sampleFile 0), ("base", sampleFile 7)]

/-- Two files are run, and later requests ask for a known file, a new one and a unit that has no
plan. -/
theorem outcomes_as_without_memory_sample :
    ∃ run, sample.run ["top"] [sampleFile 0, sampleFile 1] [] = .ok run ∧
      KnownOrNew [sampleFile 0, sampleFile 1] (sampleLater.map Prod.snd) ∧
      List.Forall₂ (sample.Answers (sample.serve sampleLater run.state).2) sampleLater
        (sample.serve sampleLater run.state).1 := by
  have hclosure : sample.registry.closure [0] = [0, 1, 2] := by cbv
  have hplan : Plan.of sample.registry ["top"] = .ok ⟨[2, 1, 0], [0]⟩ :=
    Plan.of_eq_ok_iff.mpr ⟨[0], .cons rfl .nil, rfl, hclosure ▸ Plan.orderOf_sample⟩
  have hpure : ∀ u ∈ Plan.sampleUnits, u.IsPure := by
    intro u hu
    simp only [Plan.sampleUnits, List.mem_cons, List.not_mem_nil, or_false] at hu
    rcases hu with rfl | rfl | rfl | rfl <;> exact isPure_analysis _ rfl _ _ _ _
  have hlater : KnownOrNew [sampleFile 0, sampleFile 1] (sampleLater.map Prod.snd) := by
    simp [KnownOrNew, sampleLater, sampleFile, SourceFile.ofText]
  have hids : [sampleFile 0, sampleFile 1].Pairwise fun f g => f.id ≠ g.id := by
    simp [sampleFile, SourceFile.ofText]
  obtain ⟨run, hrun⟩ : ∃ run, sample.run ["top"] [sampleFile 0, sampleFile 1] [] = .ok run :=
    ⟨_, run_eq_ok_iff.mpr ⟨_, hplan, rfl⟩⟩
  have hbuild : Registry.build Plan.sampleUnits = .ok sample.registry := rfl
  exact ⟨run, hrun, hlater, (outcomes_as_without_memory hbuild hpure hids hrun hlater).2.2.1⟩

end SchemaLint.Session

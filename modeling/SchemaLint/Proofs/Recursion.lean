import SchemaLint.Proofs.History

/-!
# Resolving step by step

`Session.resolve` bounds its recursion by a depth.  Here the same recursion is taken step by step,
with the units that are being computed on a stack and without any bound.  Nothing in a step looks
for cycles: a unit that is asked for while it is being computed waits for itself, and there is no
next step.

A resolution that starts with a unit of a plan never gets there.  A stack of open units is a chain
of dependencies, and what is asked for at its top continues the chain, so a unit that were asked for
twice would depend on itself.  Such a resolution comes to its end, with the outcome that
`Session.resolve` gives.

* `Session.Machine`, `Session.step`: the recursion and its steps.
* `Session.Machine.Reenters`: a unit is asked for while it is being computed.
* `Session.Machine.Inv`, `Session.Machine.Inv.step`: the stack as a chain of dependencies.
* `Session.steps_resolve`: the steps lead to what `Session.resolve` gives.
* **`Session.resolution_never_reenters`**: every resolution that a session starts.
-/

namespace SchemaLint.Session

variable {s : Session} {file : SourceFile} {code : Option Code.CodeFile}

/-! ## The machine -/

/-- A unit that is being computed. -/
structure Frame where
  /-- The number of the unit. -/
  unit : Nat
  /-- The unit. -/
  entry : Entry
  /-- The dependencies that are still to be asked for, the next first. -/
  left : List Nat
  /-- The facts of the others, in order. -/
  facts : List (String × Fact)

/-- What is to be done next. -/
inductive Turn
  /-- Ask for the outcome of a unit. -/
  | ask (n : Nat)
  /-- Take an outcome to the unit that asked for it. -/
  | answer (n : Nat) (o : Outcome)
  /-- Go on with the unit that is being computed. -/
  | proceed

/-- A resolution on a file, under way. -/
structure Machine where
  /-- What is to be done next. -/
  turn : Turn
  /-- The units that are being computed on the file, the innermost first. -/
  frames : List Frame
  /-- The outcomes and the calls so far. -/
  state : EngineState

/-- The resolution of a unit, about to start. -/
def Machine.start (n : Nat) (st : EngineState) : Machine :=
  ⟨.ask n, [], st⟩

/-- The resolution of a unit, at its end. -/
def Machine.finished (n : Nat) (o : Outcome) (st : EngineState) : Machine :=
  ⟨.answer n o, [], st⟩

/-- The next step of a resolution, if there is one. -/
def step (s : Session) (file : SourceFile) (code : Option Code.CodeFile) (m : Machine) :
    Option Machine :=
  match m.turn, m.frames with
  | .ask n, frames =>
    match m.state.outcome? n file.id with
    | some o => some ⟨.answer n o, frames, m.state⟩
    | none =>
      -- a unit that is being computed would wait for itself
      if n ∈ frames.map Frame.unit then none
      else
        match s.registry.entries[n]? with
        | none => some ⟨.answer n (.error (.undeclared (s.registry.idOf n))), frames, m.state⟩
        | some entry => some ⟨.proceed, ⟨n, entry, entry.requires, []⟩ :: frames, m.state⟩
  | .answer n (.ok fact), f :: frames =>
    some ⟨.proceed, { f with facts := f.facts ++ [(s.registry.idOf n, fact)] } :: frames, m.state⟩
  | .answer n (.error _), f :: frames =>
    let o := .error (.dependencyFailed (s.registry.idOf n))
    some ⟨.answer f.unit o, frames, m.state.keep f.unit file.id o⟩
  | .proceed, f :: frames =>
    match f.left with
    | n :: left => some ⟨.ask n, { f with left := left } :: frames, m.state⟩
    | [] =>
      let (o, st) := s.call file code f.entry.unit f.facts m.state
      some ⟨.answer f.unit o, frames, st.keep f.unit file.id o⟩
  | .answer _ _, [] => none
  | .proceed, [] => none

/-- A resolution comes from one state to another in some number of steps. -/
def Steps (s : Session) (file : SourceFile) (code : Option Code.CodeFile) :
    Machine → Machine → Prop :=
  Relation.ReflTransGen fun m m' => s.step file code m = some m'

/-- A unit is asked for while it is being computed on the same file. -/
def Machine.Reenters (m : Machine) : Prop :=
  ∃ n, m.turn = .ask n ∧ n ∈ m.frames.map Frame.unit

/-! ## Open units -/

/-- The units that are being computed depend on those further in and on what is asked for, and their
dependencies have a bottom. -/
structure Machine.Inv (r : Registry) (depth : Nat) (m : Machine) : Prop where
  /-- Every unit on the stack depends on those above it. -/
  chain : m.frames.Pairwise fun inner outer => Relation.TransGen r.Depends outer.unit inner.unit
  /-- What is left to ask for are dependencies. -/
  left : ∀ f ∈ m.frames, ∀ n ∈ f.left, r.Depends f.unit n
  /-- The dependencies of the units on the stack have a bottom. -/
  within : ∀ f ∈ m.frames, r.DepthWithin depth f.unit
  /-- So have those of a unit that is asked for, and all units on the stack depend on it. -/
  asked : ∀ n, m.turn = .ask n → r.DepthWithin depth n ∧
    ∀ f ∈ m.frames, Relation.TransGen r.Depends f.unit n

namespace Machine

variable {r : Registry} {depth n : Nat} {m m' : Machine} {f : Frame} {frames : List Frame}
  {st : EngineState} {t : Turn}

/-- A machine that starts on one unit has a chain of one. -/
theorem inv_start (h : r.DepthWithin depth n) (st : EngineState) : (start n st).Inv r depth where
  chain := .nil
  left := fun _ hf => nomatch hf
  within := fun _ hf => nomatch hf
  asked := by
    intro k hk
    obtain rfl : n = k := Turn.ask.inj hk
    exact ⟨h, fun _ hf => nomatch hf⟩

/-- A unit that is asked for is not being computed. -/
theorem Inv.not_reenters (h : m.Inv r depth) : ¬ m.Reenters := by
  rintro ⟨n, hn, hopen⟩
  obtain ⟨f, hf, rfl⟩ := List.mem_map.mp hopen
  obtain ⟨hwithin, hdepends⟩ := h.asked _ hn
  exact hwithin.not_cyclic (hdepends f hf)

/-- **A step keeps the chain.** -/
theorem Inv.step (h : m.Inv s.registry depth) (hstep : s.step file code m = some m') :
    m'.Inv s.registry depth := by
  obtain ⟨turn, frames, st⟩ := m
  unfold Session.step at hstep
  cases turn with
  | ask n =>
      obtain ⟨hwithin, hdepends⟩ := h.asked n rfl
      simp only at hstep
      split at hstep
      · rw [← Option.some.inj hstep]
        exact ⟨h.chain, h.left, h.within, fun _ hn => nomatch hn⟩
      · split_ifs at hstep
        split at hstep
        · rw [← Option.some.inj hstep]
          exact ⟨h.chain, h.left, h.within, fun _ hn => nomatch hn⟩
        · rename_i entry hentry
          rw [← Option.some.inj hstep]
          refine ⟨.cons hdepends h.chain, ?_, List.forall_mem_cons.mpr ⟨hwithin, h.within⟩,
            fun _ hn => nomatch hn⟩
          refine List.forall_mem_cons.mpr ⟨?_, h.left⟩
          intro k hk
          unfold Registry.Depends
          rwa [Registry.requiresOf_eq hentry]
  | answer n o =>
      cases frames with
      | nil => cases o <;> cases hstep
      | cons f frames =>
          obtain ⟨hf, hchain⟩ := List.pairwise_cons.mp h.chain
          obtain ⟨hleft, hlefts⟩ := List.forall_mem_cons.mp h.left
          obtain ⟨hwithin, hwithins⟩ := List.forall_mem_cons.mp h.within
          cases o with
          | ok fact =>
              rw [← Option.some.inj hstep]
              exact ⟨.cons hf hchain, List.forall_mem_cons.mpr ⟨hleft, hlefts⟩,
                List.forall_mem_cons.mpr ⟨hwithin, hwithins⟩, fun _ hn => nomatch hn⟩
          | error e =>
              rw [← Option.some.inj hstep]
              exact ⟨hchain, hlefts, hwithins, fun _ hn => nomatch hn⟩
  | proceed =>
      cases frames with
      | nil => cases hstep
      | cons f frames =>
          obtain ⟨hf, hchain⟩ := List.pairwise_cons.mp h.chain
          obtain ⟨hleft, hlefts⟩ := List.forall_mem_cons.mp h.left
          obtain ⟨hwithin, hwithins⟩ := List.forall_mem_cons.mp h.within
          simp only at hstep
          split at hstep
          · rename_i n left hcons
            rw [hcons] at hleft
            obtain ⟨hn, hleft⟩ := List.forall_mem_cons.mp hleft
            rw [← Option.some.inj hstep]
            refine ⟨.cons hf hchain, List.forall_mem_cons.mpr ⟨hleft, hlefts⟩,
              List.forall_mem_cons.mpr ⟨hwithin, hwithins⟩, ?_⟩
            -- what is asked for continues the chain
            intro k hk
            obtain rfl : n = k := Turn.ask.inj hk
            refine ⟨hwithin.of_reaches (.single hn), List.forall_mem_cons.mpr ⟨.single hn, ?_⟩⟩
            intro g hg
            exact (hf g hg).tail hn
          · rw [← Option.some.inj hstep]
            exact ⟨hchain, hlefts, hwithins, fun _ hn => nomatch hn⟩

/-- The invariant holds after any number of steps. -/
theorem Inv.steps (h : m.Inv s.registry depth) (hsteps : s.Steps file code m m') :
    m'.Inv s.registry depth := by
  induction hsteps with
  | refl => exact h
  | tail _ hstep ih => exact ih.step hstep

end Machine

/-! ## Where the steps lead -/

variable {depth n : Nat} {frames : List Frame} {entry : Entry} {st : EngineState}

/-- A unit that is being computed, once its dependencies have been asked for: it has all their
facts, or it has failed with the first of them that did. -/
def Machine.gathered (file : SourceFile) (n : Nat) (entry : Entry) (facts : List (String × Fact))
    (frames : List Frame) : Except String (List (String × Fact)) × EngineState → Machine
  | (.ok more, st) => ⟨.proceed, ⟨n, entry, [], facts ++ more⟩ :: frames, st⟩
  | (.error id, st) =>
    ⟨.answer n (.error (.dependencyFailed id)), frames,
      st.keep n file.id (.error (.dependencyFailed id))⟩

/-- A unit that is being computed asks for its dependencies one after the other. -/
theorem steps_gather (st : EngineState) (left : List Nat) (facts : List (String × Fact))
    (hresolve : ∀ k ∈ left, ∀ left' facts' st, s.Steps file code
      ⟨.ask k, ⟨n, entry, left', facts'⟩ :: frames, st⟩
      ⟨.answer k (s.resolve file code depth k st).1, ⟨n, entry, left', facts'⟩ :: frames,
        (s.resolve file code depth k st).2⟩) :
    s.Steps file code ⟨.proceed, ⟨n, entry, left, facts⟩ :: frames, st⟩
      (.gathered file n entry facts frames (s.gather (s.resolve file code depth) left st)) := by
  induction left generalizing facts st with
  | nil =>
      rw [gather, Machine.gathered, List.append_nil]
      exact .refl
  | cons k left ih =>
      have hhere := hresolve k List.mem_cons_self left facts st
      rw [gather]
      rcases hk : s.resolve file code depth k st with ⟨o, st₁⟩
      rw [hk] at hhere
      refine .head (b := ⟨.ask k, ⟨n, entry, left, facts⟩ :: frames, st⟩) rfl (hhere.trans ?_)
      cases o with
      | error e => exact .single rfl
      | ok fact =>
          have hrest := ih st₁ (facts ++ [(s.registry.idOf k, fact)])
            fun j hj => hresolve j (List.mem_cons_of_mem k hj)
          refine .head (b := ⟨.proceed, ⟨n, entry, left,
            facts ++ [(s.registry.idOf k, fact)]⟩ :: frames, st₁⟩) rfl ?_
          simp only
          rcases hgather : s.gather (s.resolve file code depth) left st₁ with ⟨more | more, st₂⟩
          · rw [hgather] at hrest
            exact hrest
          · rw [hgather, Machine.gathered, List.append_assoc] at hrest
            exact hrest

/-- **The steps lead to what `Session.resolve` gives**, whatever is being computed besides, as long
as that depends on the unit. -/
theorem steps_resolve (h : s.registry.DepthWithin depth n) (frames : List Frame)
    (hframes : ∀ f ∈ frames, Relation.TransGen s.registry.Depends f.unit n) (st : EngineState) :
    s.Steps file code ⟨.ask n, frames, st⟩
      ⟨.answer n (s.resolve file code depth n st).1, frames,
        (s.resolve file code depth n st).2⟩ := by
  induction depth generalizing n frames st with
  | zero => exact h.elim
  | succ depth ih =>
      obtain ⟨entry, hentry⟩ := Registry.exists_entry h.1
      have hnot : n ∉ frames.map Frame.unit := by
        intro hmem
        obtain ⟨f, hf, rfl⟩ := List.mem_map.mp hmem
        exact h.not_cyclic (hframes f hf)
      rw [resolve]
      cases hkept : st.outcome? n file.id with
      | some o =>
          refine .single ?_
          unfold step
          simp only [hkept]
      | none =>
          -- The unit is not being computed already, or it would depend on itself.
          have hopen : s.step file code ⟨.ask n, frames, st⟩ =
              some ⟨.proceed, ⟨n, entry, entry.requires, []⟩ :: frames, st⟩ := by
            unfold step
            simp only [hkept, if_neg hnot, hentry]
          refine .head hopen ?_
          have hresolve : ∀ k ∈ entry.requires, ∀ left facts st', s.Steps file code
              ⟨.ask k, ⟨n, entry, left, facts⟩ :: frames, st'⟩
              ⟨.answer k (s.resolve file code depth k st').1, ⟨n, entry, left, facts⟩ :: frames,
                (s.resolve file code depth k st').2⟩ := by
            intro k hk left facts st'
            have hdepends : s.registry.Depends n k := by
              unfold Registry.Depends
              rwa [Registry.requiresOf_eq hentry]
            refine ih (h.2 k hdepends) _ (List.forall_mem_cons.mpr ⟨.single hdepends, ?_⟩) st'
            intro f hf
            exact (hframes f hf).tail hdepends
          have hgather := steps_gather st entry.requires [] hresolve
          simp only [hentry]
          generalize s.gather (s.resolve file code depth) entry.requires st = gathered at hgather
          rcases gathered with ⟨id | facts, st'⟩
          · exact hgather
          · exact hgather.tail rfl

/-! ## Resolutions that a session starts -/

/-- A machine that is finished makes no step. -/
theorem step_finished (n : Nat) (o : Outcome) (st : EngineState) :
    s.step file code (.finished n o st) = none := by
  cases o with
  | ok fact => rfl
  | error e => rfl

/-- The resolution of a unit on a file comes to an end, with an outcome and a state: whatever is
reached, the steps lead on to the end, and nowhere is a unit asked for while it is being
computed. -/
structure Completes (s : Session) (file : SourceFile) (n : Nat) (st : EngineState) (o : Outcome)
    (st' : EngineState) : Prop where
  /-- All ways lead to the end. -/
  ends : ∀ m, s.Steps file file.parse? (.start n st) m →
    s.Steps file file.parse? m (.finished n o st')
  /-- No unit waits for itself. -/
  never : ∀ m, s.Steps file file.parse? (.start n st) m → ¬ m.Reenters

/-- The recursion comes to the end that the machine comes to. -/
theorem completes_resolve (h : s.registry.DepthWithin s.depth n) (file : SourceFile)
    (st : EngineState) :
    s.Completes file n st (s.resolve file file.parse? s.depth n st).1
      (s.resolve file file.parse? s.depth n st).2 where
  ends := by
    intro m hm
    have hend : s.Steps file file.parse? (.start n st) (.finished n _ _) :=
      steps_resolve h [] (fun _ hf => nomatch hf) st
    have hunique : Relator.RightUnique fun m m' => s.step file file.parse? m = some m' := by
      intro a b c hb hc
      exact Option.some.inj (hb.symm.trans hc)
    rcases Relation.ReflTransGen.total_of_right_unique hunique hm hend with hon | hback
    · exact hon
    · -- from the end there is no step
      rcases Relation.ReflTransGen.cases_head hback with heq | ⟨next, hnext, -⟩
      · rw [← heq]
        exact .refl
      · cases hnext.symm.trans (step_finished n _ _)
  never := by
    intro m hm
    exact ((Machine.inv_start h st).steps hm).not_reenters

/-- Resolutions of units on files come to their ends, one after the other. -/
inductive CompletesAll (s : Session) :
    List (SourceFile × Nat) → EngineState → EngineState → Prop
  /-- There is nothing to resolve. -/
  | nil (st : EngineState) : CompletesAll s [] st st
  /-- The first resolution comes to its end, and then the others do. -/
  | cons {file : SourceFile} {n : Nat} {rest : List (SourceFile × Nat)} {o : Outcome}
      {st st' st'' : EngineState} (hfirst : s.Completes file n st o st')
      (hrest : CompletesAll s rest st' st'') : CompletesAll s ((file, n) :: rest) st st''

/-- Resolutions in two parts complete one part after the other. -/
theorem CompletesAll.append {front back : List (SourceFile × Nat)} {st st' st'' : EngineState}
    (hfront : s.CompletesAll front st st') (hback : s.CompletesAll back st' st'') :
    s.CompletesAll (front ++ back) st st'' := by
  induction hfront with
  | nil st => exact hback
  | cons hfirst _ ih => exact .cons hfirst (ih hback)

/-- A run on one file completes the resolutions of its units. -/
theorem completesAll_runUnits {units : List Nat}
    (hunits : ∀ n ∈ units, s.registry.DepthWithin s.depth n) (file : SourceFile)
    (st : EngineState) :
    s.CompletesAll (units.map fun n => (file, n)) st
      (s.runUnits file file.parse? units st).2 := by
  induction units generalizing st with
  | nil => exact .nil st
  | cons n rest ih =>
      obtain ⟨hn, hrest⟩ := List.forall_mem_cons.mp hunits
      exact .cons (completes_resolve hn file st) (ih hrest _)

/-- What a run of a plan resolves: its units in order, on one file after the other. -/
def resolutions (plan : Plan) (files : List SourceFile) : List (SourceFile × Nat) :=
  files.flatMap fun file => plan.order.map fun n => (file, n)

/-- A run completes the resolutions of its plan on all files. -/
theorem completesAll_runFiles {plan : Plan}
    (hplan : ∀ n ∈ plan.order, s.registry.DepthWithin s.depth n) (files : List SourceFile)
    (st : EngineState) :
    s.CompletesAll (resolutions plan files) st (s.runFiles plan files st).2 := by
  induction files generalizing st with
  | nil => exact .nil st
  | cons file rest ih =>
      unfold resolutions
      rw [List.flatMap_cons]
      exact (completesAll_runUnits hplan file st).append (ih _)

/-- **Resolution never re-enters itself.**  For any registry, a run and a later request resolve
units only if they can be planned.  Then the run resolves the units of its plan, and the request its
unit, and each of these resolutions comes to an end without asking for a unit that is being
computed.  For a request this is so in whatever state the run and the requests before it left. -/
theorem resolution_never_reenters {units : List AnalysisUnit}
    (hbuild : Registry.build units = .ok s.registry) :
    (∀ request files calls,
      (∀ e, Plan.of s.registry request = .error e → s.run request files calls = .error e) ∧
      ∀ plan, Plan.of s.registry request = .ok plan → ∃ run, s.run request files calls = .ok run ∧
        s.CompletesAll (resolutions plan files) (.after calls) run.state) ∧
    ∀ unit file st,
      (∀ e, Plan.of s.registry [unit] = .error e → s.resolveLater unit file st = .error e) ∧
      ∀ plan, Plan.of s.registry [unit] = .ok plan → ∃ n ∈ plan.order, ∃ o st',
        s.registry.lookup unit = some n ∧ s.resolveLater unit file st = .ok (o, st') ∧
        s.Completes file n st o st' := by
  have hwf := Registry.wellFormed_of_build hbuild
  refine ⟨?_, ?_⟩
  · intro request files calls
    refine ⟨?_, ?_⟩
    · intro e he
      unfold Session.run
      rw [he]
      rfl
    · intro plan hplan
      -- A plan has no circles, so the depth that a session allows is never used up.
      have hwithin : ∀ n ∈ plan.order, s.registry.DepthWithin s.depth n :=
        fun n hn => Plan.depthWithin hwf hplan hn
      exact ⟨_, run_eq_ok_iff.mpr ⟨plan, hplan, rfl⟩, completesAll_runFiles hwithin files _⟩
  · intro unit file st
    refine ⟨?_, ?_⟩
    · intro e he
      unfold resolveLater
      rw [he]
      rfl
    · intro plan hplan
      obtain ⟨n, hn, hlookup, hlater⟩ := resolveLater_eq file st hplan
      exact ⟨n, hn, _, _, hlookup, hlater,
        completes_resolve (Plan.depthWithin hwf hplan hn) file st⟩

/-- A unit that depends on itself cannot be planned, so neither a run nor a request starts with it;
the units of a plan are resolved. -/
theorem resolution_never_reenters_sample :
    (∃ e, sample.run ["loop"] [sampleFile 0] [] = .error e) ∧
    (∃ run, sample.run ["top"] [sampleFile 0] [] = .ok run ∧
      sample.CompletesAll [(sampleFile 0, 2), (sampleFile 0, 1), (sampleFile 0, 0)] (.after [])
        run.state) ∧
    ∃ o st', sample.resolveLater "base" (sampleFile 7) (.after []) = .ok (o, st') ∧
      sample.Completes (sampleFile 7) 2 (.after []) o st' := by
  have hbuild : Registry.build Plan.sampleUnits = .ok sample.registry := rfl
  obtain ⟨hrun, hlater⟩ := resolution_never_reenters hbuild
  refine ⟨?_, ?_, ?_⟩
  · obtain ⟨herror, -⟩ := hrun ["loop"] [sampleFile 0] []
    cases hplan : Plan.of sample.registry ["loop"] with
    | error e => exact ⟨e, herror e hplan⟩
    | ok plan =>
        have hmem := Plan.mem_order_of_lookup hplan List.mem_cons_self
          (show sample.registry.lookup "loop" = some 3 from rfl)
        have hwithin := Plan.depthWithin (Registry.wellFormed_of_build hbuild) hplan hmem
        have hself : sample.registry.Depends 3 3 := List.mem_cons_self
        exact absurd (.single hself) hwithin.not_cyclic
  · have hclosure : sample.registry.closure [0] = [0, 1, 2] := by cbv
    have hplan : Plan.of sample.registry ["top"] = .ok ⟨[2, 1, 0], [0]⟩ :=
      Plan.of_eq_ok_iff.mpr ⟨[0], .cons rfl .nil, rfl, hclosure ▸ Plan.orderOf_sample⟩
    exact (hrun ["top"] [sampleFile 0] []).2 _ hplan
  · have hplan : ∃ plan, Plan.of sample.registry ["base"] = .ok plan :=
      (Plan.exists_of_eq_ok_iff (Registry.wellFormed_of_build hbuild)).mpr
        (List.forall_mem_singleton.mpr ⟨2, rfl, by decide, by rintro _ ⟨⟩⟩)
    obtain ⟨plan, hplan⟩ := hplan
    obtain ⟨n, -, o, st', hn, hok, hcompletes⟩ :=
      (hlater "base" (sampleFile 7) (.after [])).2 plan hplan
    obtain rfl : 2 = n := Option.some.inj hn
    exact ⟨o, st', hok, hcompletes⟩

/-- Started without a plan, a unit that depends on itself is asked for while it is being
computed. -/
example : ∃ m, sample.Steps (sampleFile 0) none (.start 3 (.after [])) m ∧ m.Reenters :=
  ⟨_, .tail (.single rfl) rfl, 3, rfl, List.mem_cons_self⟩

end SchemaLint.Session

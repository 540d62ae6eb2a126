import SchemaLint.Proofs.History

/-!
# Every failure has a cause

In a run, a unit comes after the units it depends on, so when its turn comes their outcomes are kept
and it is either skipped, because one of them failed, or called once on their facts.  Nothing here
needs units to be pure: an outcome is traced to the one call that gave it.

* `Session.FirstFailing`, `Session.Called`: the two ways to an outcome.
* `Session.Ledger`: the invariant: every kept outcome came about in one of the two ways, and every
  new call is of a unit whose dependencies have facts.  One turn keeps it
  (`Session.Ledger.turn`), hence a whole run does (`Session.ledger_runFiles`).
* **`Session.failures_accounted`**: the failures of a run are those of its units, each is that of a
  call or names the first dependency that failed, and from every skipped unit the named dependencies
  lead to a call that failed.
-/

namespace SchemaLint

/-- A unit that never gives the failure of a dependency as its own. -/
def AnalysisUnit.NeverSkips (u : AnalysisUnit) : Prop :=
  ∀ cx e, u.run cx = .error e → e.isSkip = false

/-- An outcome without a fact. -/
def Outcome.Failed (o : Outcome) : Prop :=
  ∃ e, o = .error e

/-- A fact is no failure. -/
theorem Outcome.not_failed_ok (fact : Fact) : ¬ Outcome.Failed (.ok fact) :=
  fun ⟨_, h⟩ => nomatch h

namespace Session

variable {s : Session} {seen : List SourceFile} {calls : List UnitCall} {st st' : EngineState}
  {file : SourceFile} {outcome : Nat → Outcome} {n m : Nat} {o : Outcome}

/-! ## Two ways to an outcome -/

/-- The first dependency of a unit, in the declared order, that failed. -/
def FirstFailing (s : Session) (outcome : Nat → Outcome) (n m : Nat) : Prop :=
  ∃ before after, s.registry.requiresOf n = before ++ m :: after ∧ (outcome m).Failed ∧
    ∀ k ∈ before, ¬ (outcome k).Failed

/-- A unit was called on a file, since the calls of earlier runs, with the facts of the units it
depends on, and the outcome is what the call gave. -/
def Called (s : Session) (calls : List UnitCall) (st : EngineState) (file : SourceFile)
    (outcome : Nat → Outcome) (n : Nat) (o : Outcome) : Prop :=
  ∃ entry facts later earlier, s.registry.entries[n]? = some entry ∧
    factsOf s.registry outcome entry.requires = .ok facts ∧
    st.calls = later ++ ⟨entry.unit.id, file.id, file.path⟩ :: (earlier ++ calls) ∧
    o = entry.unit.run (s.context file file.parse? facts (earlier ++ calls))

/-- There are facts of all units unless one of them failed; then the first that did is named. -/
theorem factsOf_cases (r : Registry) (outcome : Nat → Outcome) (units : List Nat) :
    (∃ facts, factsOf r outcome units = .ok facts ∧ ∀ m ∈ units, ¬ (outcome m).Failed) ∨
      ∃ before m after, units = before ++ m :: after ∧ (outcome m).Failed ∧
        (∀ k ∈ before, ¬ (outcome k).Failed) ∧ factsOf r outcome units = .error (r.idOf m) := by
  induction units with
  | nil => exact .inl ⟨[], rfl, fun m hm => nomatch hm⟩
  | cons n rest ih =>
      unfold factsOf
      rcases hn : outcome n with e | fact
      · exact .inr ⟨[], n, rest, rfl, ⟨e, hn⟩, (fun _ hk => nomatch hk), rfl⟩
      · have hok : ¬ (outcome n).Failed := hn ▸ Outcome.not_failed_ok fact
        rcases ih with ⟨facts, hfacts, hrest⟩ | ⟨before, m, after, rfl, hm, hbefore, hfacts⟩
        · refine .inl ⟨(r.idOf n, fact) :: facts, by rw [hfacts], ?_⟩
          exact List.forall_mem_cons.mpr ⟨hok, hrest⟩
        · refine .inr ⟨n :: before, m, after, rfl, hm, ?_, by rw [hfacts]⟩
          exact List.forall_mem_cons.mpr ⟨hok, hbefore⟩

/-- The first failing unit is one of the dependencies. -/
theorem FirstFailing.depends (h : s.FirstFailing outcome n m) : s.registry.Depends n m := by
  obtain ⟨before, after, heq, -⟩ := h
  unfold Registry.Depends
  rw [heq]
  exact List.mem_append_right before List.mem_cons_self

/-- The first failing unit did fail. -/
theorem FirstFailing.failed (h : s.FirstFailing outcome n m) : (outcome m).Failed := by
  obtain ⟨_, _, -, hm, -⟩ := h
  exact hm

/-- No dependency of a unit that was called failed. -/
theorem Called.not_failed (h : s.Called calls st file outcome n o) (hm : s.registry.Depends n m) :
    ¬ (outcome m).Failed := by
  obtain ⟨entry, facts, _, _, hentry, hfacts, -⟩ := h
  unfold Registry.Depends at hm
  rw [Registry.requiresOf_eq hentry] at hm
  rcases factsOf_cases s.registry outcome entry.requires with
    ⟨_, -, hok⟩ | ⟨_, _, _, -, -, -, herror⟩
  · exact hok m hm
  · rw [hfacts] at herror
    cases herror

/-! ## The ledger -/

/-- How a kept outcome came about: the outcomes of the dependencies are kept, and the unit was
skipped for the first that failed or called on their facts. -/
def Settled (s : Session) (calls : List UnitCall) (st : EngineState) (file : SourceFile) (n : Nat)
    (o : Outcome) : Prop :=
  ∃ outcome : Nat → Outcome,
    (∀ m, s.registry.Depends n m → st.outcome? m file.id = some (outcome m)) ∧
      ((∃ m, s.FirstFailing outcome n m ∧ o = .error (.dependencyFailed (s.registry.idOf m))) ∨
        s.Called calls st file outcome n o)

/-- The invariant of a run, after the calls of earlier runs. -/
structure Ledger (s : Session) (seen : List SourceFile) (calls : List UnitCall)
    (st : EngineState) : Prop where
  /-- Every kept outcome came about on a file of that number. -/
  settled : ∀ n f o, st.outcome? n f = some o →
    n < s.registry.size ∧ ∃ file ∈ seen, file.id = f ∧ s.Settled calls st file n o
  /-- The new calls are all different and of units whose dependencies have facts. -/
  called : ∃ new, st.calls = new ++ calls ∧ (new.map UnitCall.key).Nodup ∧
    ∀ c ∈ new, ∃ n, c.unit = s.registry.idOf n ∧ (st.outcome? n c.fileId).isSome ∧
      ∀ m, s.registry.Depends n m → ∃ fact, st.outcome? m c.fileId = some (.ok fact)

/-- At the start of a run there are no outcomes to account for. -/
theorem ledger_after (s : Session) (seen : List SourceFile) (calls : List UnitCall) :
    s.Ledger seen calls (.after calls) where
  settled := fun _ _ _ h => nomatch h
  called := ⟨[], rfl, List.nodup_nil, fun _ h => nomatch h⟩

/-- How an outcome came about does not change when more outcomes and calls come. -/
theorem Settled.mono (h : s.Settled calls st file n o) (hkeeps : Keeps st st')
    (hcalls : ∃ more, st'.calls = more ++ st.calls) : s.Settled calls st' file n o := by
  obtain ⟨outcome, hbelow, hcause⟩ := h
  obtain ⟨more, hcalls⟩ := hcalls
  refine ⟨outcome, fun m hm => hkeeps m file.id _ (hbelow m hm), hcause.imp_right ?_⟩
  rintro ⟨entry, facts, later, earlier, hentry, hfacts, heq, ho⟩
  exact ⟨entry, facts, more ++ later, earlier, hentry, hfacts,
    by rw [hcalls, heq, List.append_assoc], ho⟩

/-- An outcome for a unit that has none leaves all others as they are. -/
theorem keeps_keep (st : EngineState) (hnone : st.outcome? n file.id = none) (o : Outcome) :
    Keeps st (st.keep n file.id o) := by
  have hgrows : EngineState.Grows file.id (fun _ => True) st (st.keep n file.id o) :=
    .keep trivial hnone o
  exact hgrows.keeps

/-- One more outcome that came about in one of the two ways keeps the outcomes accounted for. -/
theorem settled_keep (hsettled : ∀ n f o, st.outcome? n f = some o →
      n < s.registry.size ∧ ∃ file ∈ seen, file.id = f ∧ s.Settled calls st file n o)
    (hfile : file ∈ seen) (hn : n < s.registry.size) (hnone : st.outcome? n file.id = none)
    (ho : s.Settled calls st file n o) :
    ∀ m f p, (st.keep n file.id o).outcome? m f = some p →
      m < s.registry.size ∧
        ∃ file' ∈ seen, file'.id = f ∧ s.Settled calls (st.keep n file.id o) file' m p := by
  have hkeeps := keeps_keep st hnone o
  intro m f p hp
  rw [EngineState.outcome?_keep] at hp
  split_ifs at hp with h
  · obtain ⟨rfl, rfl⟩ := h
    cases hp
    exact ⟨hn, file, hfile, rfl, ho.mono hkeeps ⟨[], rfl⟩⟩
  · obtain ⟨hm, file', hfile', hid, hp⟩ := hsettled m f p hp
    exact ⟨hm, file', hfile', hid, hp.mono hkeeps ⟨[], rfl⟩⟩

/-- Keeping the outcome of a unit that was skipped. -/
theorem Ledger.skip (h : s.Ledger seen calls st) (hfile : file ∈ seen) (hn : n < s.registry.size)
    (hnone : st.outcome? n file.id = none)
    (hbelow : ∀ m, s.registry.Depends n m → st.outcome? m file.id = some (outcome m))
    (hm : s.FirstFailing outcome n m) :
    s.Ledger seen calls
      (st.keep n file.id (.error (.dependencyFailed (s.registry.idOf m)))) := by
  refine ⟨settled_keep h.settled hfile hn hnone ⟨outcome, hbelow, .inl ⟨m, hm, rfl⟩⟩, ?_⟩
  have hkeeps := keeps_keep st hnone (.error (.dependencyFailed (s.registry.idOf m)))
  obtain ⟨new, hcalls, hnodup, hcalled⟩ := h.called
  refine ⟨new, hcalls, hnodup, fun c hc => ?_⟩
  obtain ⟨k, hk, hsome, hfacts⟩ := hcalled c hc
  obtain ⟨p, hp⟩ := Option.isSome_iff_exists.mp hsome
  refine ⟨k, hk, Option.isSome_iff_exists.mpr ⟨p, hkeeps k c.fileId p hp⟩, fun i hi => ?_⟩
  obtain ⟨fact, hfact⟩ := hfacts i hi
  exact ⟨fact, hkeeps i c.fileId _ hfact⟩

/-- Keeping the outcome of a unit that was called.  An earlier call of it on the file would have
left an outcome. -/
theorem Ledger.call (h : s.Ledger seen calls st) (hr : s.registry.WellFormed) (hfile : file ∈ seen)
    (hnone : st.outcome? n file.id = none) {entry : Entry}
    (hentry : s.registry.entries[n]? = some entry) {facts : List (String × Fact)}
    (hbelow : ∀ m, s.registry.Depends n m → st.outcome? m file.id = some (outcome m))
    (hfacts : factsOf s.registry outcome entry.requires = .ok facts)
    (hok : ∀ m, s.registry.Depends n m → ¬ (outcome m).Failed) :
    s.Ledger seen calls
      ((st.log ⟨entry.unit.id, file.id, file.path⟩).keep n file.id
        (entry.unit.run (s.context file file.parse? facts st.calls))) := by
  have hn : n < s.registry.size := (List.getElem?_eq_some_iff.mp hentry).1
  obtain ⟨new, hcalls, hnodup, hcalled⟩ := h.called
  -- Settled outcomes name the calls made so far, and stay settled when a call is added.
  have hlogged : ∀ m f p, (st.log ⟨entry.unit.id, file.id, file.path⟩).outcome? m f = some p →
      m < s.registry.size ∧ ∃ file' ∈ seen, file'.id = f ∧
        s.Settled calls (st.log ⟨entry.unit.id, file.id, file.path⟩) file' m p := by
    intro m f p hp
    obtain ⟨hm, file', hfile', hid, hp⟩ := h.settled m f p hp
    exact ⟨hm, file', hfile', hid, hp.mono (fun _ _ _ ho => ho)
      ⟨[⟨entry.unit.id, file.id, file.path⟩], rfl⟩⟩
  have hkeeps := keeps_keep (st.log ⟨entry.unit.id, file.id, file.path⟩) hnone
    (entry.unit.run (s.context file file.parse? facts st.calls))
  refine ⟨settled_keep hlogged hfile hn hnone ⟨outcome, hbelow, .inr ?_⟩,
    ⟨entry.unit.id, file.id, file.path⟩ :: new, ?_, ?_, ?_⟩
  · refine ⟨entry, facts, [], new, hentry, hfacts, ?_, by rw [hcalls]⟩
    rw [← hcalls]
    rfl
  · show _ :: st.calls = _
    rw [hcalls, List.cons_append]
  · rw [List.map_cons, List.nodup_cons]
    refine ⟨fun hmem => ?_, hnodup⟩
    obtain ⟨c, hc, hkey⟩ := List.mem_map.mp hmem
    obtain ⟨k, hk, hsome, -⟩ := hcalled c hc
    obtain ⟨hunit, hid⟩ := Prod.mk.inj hkey
    obtain ⟨p, hp⟩ := Option.isSome_iff_exists.mp hsome
    have hkn : k = n := hr.idOf_inj (h.settled k c.fileId p hp).1 hn
      (by rw [← hk, hunit, Registry.idOf_eq hentry])
    rw [hkn, hid, hnone] at hp
    cases hp
  · intro c hc
    rcases List.mem_cons.mp hc with rfl | hc
    · refine ⟨n, (Registry.idOf_eq hentry).symm, ?_, fun m hm => ?_⟩
      · rw [EngineState.outcome?_keep, if_pos ⟨rfl, rfl⟩]
        rfl
      · rcases hom : outcome m with e | fact
        · exact absurd ⟨e, hom⟩ (hok m hm)
        · exact ⟨fact, hkeeps m file.id _ (hom ▸ hbelow m hm)⟩
    · obtain ⟨k, hk, hsome, hbelow'⟩ := hcalled c hc
      obtain ⟨p, hp⟩ := Option.isSome_iff_exists.mp hsome
      refine ⟨k, hk, Option.isSome_iff_exists.mpr ⟨p, hkeeps k c.fileId p hp⟩, fun i hi => ?_⟩
      obtain ⟨fact, hfact⟩ := hbelow' i hi
      exact ⟨fact, hkeeps i c.fileId _ hfact⟩

/-! ## One turn -/

/-- Gathering facts of units whose outcomes are kept looks them up. -/
theorem gather_kept {units : List Nat} {depth : Nat} {code : Option Code.CodeFile}
    (hdepth : ∀ m ∈ units, s.registry.DepthWithin depth m)
    (hkept : ∀ m ∈ units, st.outcome? m file.id = some (outcome m)) :
    s.gather (s.resolve file code depth) units st = (factsOf s.registry outcome units, st) := by
  induction units with
  | nil => rfl
  | cons n rest ih =>
      have hn : s.resolve file code depth n st = (outcome n, st) := by
        cases depth with
        | zero => exact (hdepth n List.mem_cons_self).elim
        | succ depth =>
            unfold resolve
            rw [hkept n List.mem_cons_self]
      have hrest := ih (fun m hm => hdepth m (List.mem_cons_of_mem n hm))
        (fun m hm => hkept m (List.mem_cons_of_mem n hm))
      unfold gather factsOf
      rw [hn]
      cases outcome n with
      | error e => rfl
      | ok fact =>
          simp only [hrest]
          cases factsOf s.registry outcome rest <;> rfl

/-- **One turn keeps the ledger**: when the outcomes of its dependencies are kept, resolving a unit
keeps its outcome, and no outcome changes. -/
theorem Ledger.turn (h : s.Ledger seen calls st) (hr : s.registry.WellFormed) (hfile : file ∈ seen)
    {depth : Nat} (hdepth : s.registry.DepthWithin depth n)
    (hbelow : ∀ m, s.registry.Depends n m → (st.outcome? m file.id).isSome) :
    s.Ledger seen calls (s.resolve file file.parse? depth n st).2 ∧
      Keeps st (s.resolve file file.parse? depth n st).2 ∧
      (s.resolve file file.parse? depth n st).2.outcome? n file.id =
        some (s.resolve file file.parse? depth n st).1 := by
  obtain ⟨depth, rfl⟩ : ∃ d, depth = d + 1 := by
    cases depth with
    | zero => exact hdepth.elim
    | succ d => exact ⟨d, rfl⟩
  unfold resolve
  rcases hkept : st.outcome? n file.id with _ | o
  · obtain ⟨entry, hentry⟩ := Registry.exists_entry hdepth.lt
    -- The value for units without an outcome is never used: all dependencies have one.
    let outcome (m : Nat) : Outcome := (st.outcome? m file.id).getD (.ok (.number 0))
    have hbelow' : ∀ m, s.registry.Depends n m → st.outcome? m file.id = some (outcome m) := by
      intro m hm
      obtain ⟨o, ho⟩ := Option.isSome_iff_exists.mp (hbelow m hm)
      simp [outcome, ho]
    have hrequires : ∀ m, m ∈ entry.requires ↔ s.registry.Depends n m := by
      intro m
      unfold Registry.Depends
      rw [Registry.requiresOf_eq hentry]
    have hgather : s.gather (s.resolve file file.parse? depth) entry.requires st =
        (factsOf s.registry outcome entry.requires, st) :=
      gather_kept (fun m hm => hdepth.2 m ((hrequires m).mp hm))
        (fun m hm => hbelow' m ((hrequires m).mp hm))
    simp only [hentry, hgather]
    rcases factsOf_cases s.registry outcome entry.requires with
      ⟨facts, hfacts, hok⟩ | ⟨before, m, after, heq, hm, hbefore, hfacts⟩
    · rw [hfacts]
      refine ⟨h.call hr hfile hkept hentry hbelow' hfacts
        (fun m hm => hok m ((hrequires m).mpr hm)), ?_, ?_⟩
      · exact keeps_keep (st.log ⟨entry.unit.id, file.id, file.path⟩) hkept _
      · exact (EngineState.outcome?_keep _ _ _ _ _ _).trans (if_pos ⟨rfl, rfl⟩)
    · rw [hfacts]
      have hfirst : s.FirstFailing outcome n m :=
        ⟨before, after, (Registry.requiresOf_eq hentry).trans heq, hm, hbefore⟩
      refine ⟨h.skip hfile hdepth.lt hkept hbelow' hfirst, keeps_keep st hkept _, ?_⟩
      exact (EngineState.outcome?_keep _ _ _ _ _ _).trans (if_pos ⟨rfl, rfl⟩)
  · exact ⟨h, fun _ _ _ ho => ho, hkept⟩

/-! ## Whole runs -/

/-- The turns of units on a file, dependencies first: by induction over the units whose turn is
still to come, with all earlier ones kept. -/
theorem ledger_runUnits (hr : s.registry.WellFormed) (hfile : file ∈ seen) (before units : List Nat)
    (hfirst : s.registry.DependenciesFirst (before ++ units))
    (hdepth : ∀ n ∈ units, s.registry.DepthWithin s.depth n)
    (hbefore : ∀ n ∈ before, (st.outcome? n file.id).isSome) (h : s.Ledger seen calls st) :
    s.Ledger seen calls (s.runUnits file file.parse? units st).2 ∧
      Keeps st (s.runUnits file file.parse? units st).2 ∧
      (s.runUnits file file.parse? units st).1.map Prod.fst = units ∧
      ∀ p ∈ (s.runUnits file file.parse? units st).1,
        (s.runUnits file file.parse? units st).2.outcome? p.1 file.id = some p.2 := by
  induction units generalizing before st with
  | nil => exact ⟨h, (fun _ _ _ ho => ho), rfl, fun p hp => nomatch hp⟩
  | cons n rest ih =>
      have hbelow : ∀ m, s.registry.Depends n m → (st.outcome? m file.id).isSome :=
        fun m hm => hbefore m (hfirst before n rest rfl m hm)
      obtain ⟨hledger, hkeeps, hkept⟩ := h.turn hr hfile (hdepth n List.mem_cons_self) hbelow
      have hbefore' : ∀ m ∈ before ++ [n],
          ((s.resolve file file.parse? s.depth n st).2.outcome? m file.id).isSome := by
        intro m hm
        rcases List.mem_append.mp hm with hm | hm
        · obtain ⟨o, ho⟩ := Option.isSome_iff_exists.mp (hbefore m hm)
          exact Option.isSome_iff_exists.mpr ⟨o, hkeeps m file.id o ho⟩
        · rw [List.mem_singleton] at hm
          rw [hm, hkept]
          rfl
      obtain ⟨hledger', hkeeps', hunits, hrest⟩ := ih (before ++ [n])
        (by rwa [List.append_assoc, List.singleton_append])
        (fun m hm => hdepth m (List.mem_cons_of_mem n hm)) hbefore' hledger
      unfold runUnits
      refine ⟨hledger', hkeeps.trans hkeeps', congrArg (n :: ·) hunits, ?_⟩
      exact List.forall_mem_cons.mpr ⟨hkeeps' n file.id _ hkept, hrest⟩

/-- The failures of the units of a plan on a file, in the order of the plan. -/
def failuresOn (s : Session) (plan : Plan) (st : EngineState) (file : SourceFile) :
    List UnitFailure :=
  plan.order.filterMap fun n => (st.outcome? n file.id).bind fun o => s.failureOf? file (n, o)

/-- Outcomes that are kept give the failures on the file. -/
theorem filterMap_failureOf? {plan : Plan} {outcomes : List (Nat × Outcome)}
    (hunits : outcomes.map Prod.fst = plan.order)
    (hkept : ∀ p ∈ outcomes, st.outcome? p.1 file.id = some p.2) :
    outcomes.filterMap (s.failureOf? file) = s.failuresOn plan st file := by
  rw [failuresOn, ← hunits, List.filterMap_map]
  refine List.filterMap_congr fun p hp => ?_
  rw [Function.comp_apply, hkept p hp]
  rfl

/-- **A run keeps the ledger**, keeps an outcome of every planned unit on every file, and its
failures are those that are kept. -/
theorem ledger_runFiles (hr : s.registry.WellFormed) {plan : Plan}
    (hfirst : s.registry.DependenciesFirst plan.order)
    (hdepth : ∀ n ∈ plan.order, s.registry.DepthWithin s.depth n) {files : List SourceFile}
    (hfiles : ∀ f ∈ files, f ∈ seen) (h : s.Ledger seen calls st) :
    s.Ledger seen calls (s.runFiles plan files st).2 ∧
      Keeps st (s.runFiles plan files st).2 ∧
      (∀ f ∈ files, ∀ n ∈ plan.order, ((s.runFiles plan files st).2.outcome? n f.id).isSome) ∧
      s.failuresOf (s.runFiles plan files st).1 =
        files.flatMap (s.failuresOn plan (s.runFiles plan files st).2) := by
  induction files generalizing st with
  | nil => exact ⟨h, (fun _ _ _ ho => ho), (fun _ hf => nomatch hf), rfl⟩
  | cons file rest ih =>
      obtain ⟨hledger, hkeeps, hunits, hkept⟩ := ledger_runUnits hr (hfiles file List.mem_cons_self)
        [] plan.order hfirst hdepth (fun n hn => nomatch hn) h
      obtain ⟨hledger', hkeeps', hkept', hfailures⟩ :=
        ih (fun f hf => hfiles f (List.mem_cons_of_mem file hf)) hledger
      have hfinal : ∀ p ∈ (s.runUnits file file.parse? plan.order st).1,
          (s.runFiles plan (file :: rest) st).2.outcome? p.1 file.id = some p.2 :=
        fun p hp => hkeeps' p.1 file.id _ (hkept p hp)
      refine ⟨hledger', hkeeps.trans hkeeps', ?_, ?_⟩
      · intro f hf n hn
        rcases List.mem_cons.mp hf with rfl | hf
        · obtain ⟨p, hp, rfl⟩ := List.mem_map.mp (hunits ▸ hn)
          rw [hfinal p hp]
          rfl
        · exact hkept' f hf n hn
      · rw [List.flatMap_cons, ← filterMap_failureOf? hunits hfinal]
        exact congrArg (_ ++ ·) hfailures

/-! ## What the ledger says of a file -/

/-- Which dependency failed first depends on the outcomes of the dependencies only. -/
theorem FirstFailing.congr {outcome' : Nat → Outcome} (h : s.FirstFailing outcome n m)
    (heq : ∀ k, s.registry.Depends n k → outcome k = outcome' k) :
    s.FirstFailing outcome' n m := by
  obtain ⟨before, after, hrequires, hm, hbefore⟩ := h
  have hmem : ∀ k ∈ before ++ m :: after, outcome k = outcome' k := by
    intro k hk
    refine heq k ?_
    unfold Registry.Depends
    rwa [hrequires]
  refine ⟨before, after, hrequires, ?_, fun k hk => ?_⟩
  · rwa [← hmem m (List.mem_append_right before List.mem_cons_self)]
  · rw [← hmem k (List.mem_append_left _ hk)]
    exact hbefore k hk

/-- So does what a unit is called on. -/
theorem Called.congr {outcome' : Nat → Outcome} (h : s.Called calls st file outcome n o)
    (heq : ∀ k, s.registry.Depends n k → outcome k = outcome' k) :
    s.Called calls st file outcome' n o := by
  obtain ⟨entry, facts, later, earlier, hentry, hfacts, hcalls, ho⟩ := h
  refine ⟨entry, facts, later, earlier, hentry, ?_, hcalls, ho⟩
  rw [← hfacts]
  refine (factsOf_congr fun k hk => heq k ?_).symm
  unfold Registry.Depends
  rwa [Registry.requiresOf_eq hentry]

/-- A unit is called at most once on a file, so its calls give one outcome. -/
theorem Ledger.called_unique (hledger : s.Ledger seen calls st) {o' : Outcome}
    (h : s.Called calls st file outcome n o) (h' : s.Called calls st file outcome n o') :
    o = o' := by
  obtain ⟨entry, facts, later, earlier, hentry, hfacts, hcalls, rfl⟩ := h
  obtain ⟨entry', facts', later', earlier', hentry', hfacts', hcalls', rfl⟩ := h'
  obtain rfl : entry = entry' := Option.some.inj (hentry.symm.trans hentry')
  obtain rfl : facts = facts' := Except.ok.inj (hfacts.symm.trans hfacts')
  obtain ⟨new, hnew, hnodup, -⟩ := hledger.called
  have hsplit : new = later ++ ⟨entry.unit.id, file.id, file.path⟩ :: earlier :=
    List.append_cancel_right (by rw [← hnew, hcalls]; simp)
  have hsplit' : new = later' ++ ⟨entry.unit.id, file.id, file.path⟩ :: earlier' :=
    List.append_cancel_right (by rw [← hnew, hcalls']; simp)
  have hnodup := hnodup.of_map
  rw [hsplit] at hnodup
  have hlater := (List.nodup_append'.mp hnodup).2.2
  have hearlier := (List.nodup_cons.mp (List.nodup_append'.mp hnodup).2.1).1
  have hlater : (⟨entry.unit.id, file.id, file.path⟩ : UnitCall) ∉ later :=
    fun hmem => hlater hmem List.mem_cons_self
  obtain ⟨-, -, rfl⟩ := (List.append_cons_inj_of_notMem hlater hearlier).mp
    (hsplit.symm.trans hsplit')
  rfl

/-- A unit that was skipped names one that failed. -/
def Names (s : Session) (outcome : Nat → Outcome) (n m : Nat) : Prop :=
  m < s.registry.size ∧ outcome n = .error (.dependencyFailed (s.registry.idOf m))

/-- Why the outcomes of the planned units on a file are failures. -/
structure Accounts (s : Session) (plan : Plan) (calls : List UnitCall) (st : EngineState)
    (file : SourceFile) (outcome : Nat → Outcome) : Prop where
  /-- Every planned unit has its outcome. -/
  kept : ∀ n ∈ plan.order, st.outcome? n file.id = some (outcome n)
  /-- The failures are those outcomes that are not facts, -/
  failure_iff : ∀ f, f ∈ s.failuresOn plan st file ↔
    ∃ n ∈ plan.order, ∃ e, outcome n = .error e ∧ f = ⟨s.registry.idOf n, file.relativePath, e⟩
  /-- at most one for each unit. -/
  units_nodup : ((s.failuresOn plan st file).map UnitFailure.unit).Nodup
  /-- A unit failed if a call of it did, or if one failed that it depends on in some steps. -/
  failed_iff : ∀ n ∈ plan.order, (outcome n).Failed ↔
    (∃ e, s.Called calls st file outcome n (.error e)) ∨
      ∃ m, Relation.TransGen s.registry.Depends n m ∧ (outcome m).Failed
  /-- It was skipped if one failed that it depends on directly; -/
  skipped_iff : ∀ n ∈ plan.order, (∃ id, outcome n = .error (.dependencyFailed id)) ↔
    ∃ m, s.registry.Depends n m ∧ (outcome m).Failed
  /-- then it names the first that did, -/
  named : ∀ n ∈ plan.order, ∀ id, outcome n = .error (.dependencyFailed id) →
    ∃ m, s.FirstFailing outcome n m ∧ s.registry.idOf m = id
  /-- and was not called. -/
  not_called : ∀ n ∈ plan.order, (∃ m, s.registry.Depends n m ∧ (outcome m).Failed) →
    ∀ new, st.calls = new ++ calls → ∀ c ∈ new, c.key ≠ (s.registry.idOf n, file.id)
  /-- The names lead from a unit that was skipped to one that was not. -/
  root : ∀ n ∈ plan.order, ∀ id, outcome n = .error (.dependencyFailed id) →
    ∃ k ∈ plan.order, Relation.TransGen (s.Names outcome) n k ∧
      ∃ e, outcome k = .error e ∧ e.isSkip = false

/-- The cause of an outcome: a dependency that failed, or a call. -/
def Caused (s : Session) (calls : List UnitCall) (st : EngineState) (file : SourceFile)
    (outcome : Nat → Outcome) (n : Nat) : Prop :=
  (∃ m, s.FirstFailing outcome n m ∧
    outcome n = .error (.dependencyFailed (s.registry.idOf m))) ∨
    s.Called calls st file outcome n (outcome n)

/-- A kept outcome is caused by the kept outcomes of the dependencies. -/
theorem Ledger.caused (h : s.Ledger seen calls st)
    (hfile : ∀ g ∈ seen, g.id = file.id → g = file)
    (hn : st.outcome? n file.id = some (outcome n))
    (hbelow : ∀ m, s.registry.Depends n m → st.outcome? m file.id = some (outcome m)) :
    s.Caused calls st file outcome n := by
  obtain ⟨-, g, hg, hid, outcome', hbelow', hcause⟩ := h.settled n file.id (outcome n) hn
  obtain rfl := hfile g hg hid
  have heq : ∀ k, s.registry.Depends n k → outcome' k = outcome k := by
    intro k hk
    have hsame := (hbelow' k hk).symm.trans (hbelow k hk)
    exact Option.some.inj hsame
  rcases hcause with ⟨m, hm, ho⟩ | hcalled
  · exact .inl ⟨m, hm.congr heq, ho⟩
  · exact .inr (hcalled.congr heq)

/-- A unit with a dependency that failed was skipped. -/
theorem Caused.skipped (h : s.Caused calls st file outcome n) (hm : s.registry.Depends n m)
    (hfailed : (outcome m).Failed) : ∃ id, outcome n = .error (.dependencyFailed id) := by
  rcases h with ⟨k, -, ho⟩ | hcalled
  · exact ⟨_, ho⟩
  · exact absurd hfailed (hcalled.not_failed hm)

/-- A unit that was skipped names the first dependency that failed: its own call would not have
said so. -/
theorem Caused.firstFailing (h : s.Caused calls st file outcome n)
    (hskip : ∀ e ∈ s.registry.entries, e.unit.NeverSkips) {id : String}
    (ho : outcome n = .error (.dependencyFailed id)) :
    ∃ m, s.FirstFailing outcome n m ∧ s.registry.idOf m = id := by
  rcases h with ⟨m, hm, hm'⟩ | ⟨entry, _, _, _, hentry, -, -, hrun⟩
  · rw [ho] at hm'
    injection hm' with hm'
    injection hm' with hm'
    exact ⟨m, hm, hm'.symm⟩
  · have hfalse := hskip entry (List.mem_of_getElem? hentry) _ _ (hrun.symm.trans ho)
    cases hfalse

section Plan

variable {plan : Plan}

/-- The failures on a file, by the outcomes that are kept. -/
theorem mem_failuresOn (hkept : ∀ n ∈ plan.order, st.outcome? n file.id = some (outcome n))
    (f : UnitFailure) : f ∈ s.failuresOn plan st file ↔
      ∃ n ∈ plan.order, ∃ e, outcome n = .error e ∧
        f = ⟨s.registry.idOf n, file.relativePath, e⟩ := by
  unfold failuresOn
  rw [List.mem_filterMap]
  refine exists_congr fun n => and_congr_right fun hn => ?_
  rw [hkept n hn, Option.bind_some]
  cases outcome n with
  | ok fact => simp [failureOf?]
  | error e => simp [failureOf?, eq_comm]

/-- A unit has at most one failure on a file. -/
theorem failuresOn_units_nodup (hr : s.registry.WellFormed) (hnodup : plan.order.Nodup)
    (hlt : ∀ n ∈ plan.order, n < s.registry.size) :
    ((s.failuresOn plan st file).map UnitFailure.unit).Nodup := by
  have hsub : ((s.failuresOn plan st file).map UnitFailure.unit).Sublist
      (plan.order.map s.registry.idOf) := by
    unfold failuresOn
    generalize plan.order = units
    induction units with
    | nil => exact .slnil
    | cons n rest ih =>
        rw [List.filterMap_cons, List.map_cons]
        rcases st.outcome? n file.id with _ | _ | fact
        · exact ih.cons _
        · exact ih.cons_cons _
        · exact ih.cons _
  refine hsub.nodup (hnodup.map_on ?_)
  exact fun n hn m hm => hr.idOf_inj (hlt n hn) (hlt m hm)

/-- A unit failed if one failed that it depends on in some steps: by induction along the chain, each
unit of which was skipped. -/
theorem failed_of_transGen (hclosed : ∀ n ∈ plan.order, ∀ m, s.registry.Depends n m → m ∈ plan.order)
    (hcaused : ∀ n ∈ plan.order, s.Caused calls st file outcome n)
    (h : Relation.TransGen s.registry.Depends n m) (hn : n ∈ plan.order)
    (hfailed : (outcome m).Failed) : (outcome n).Failed := by
  induction h using Relation.TransGen.head_induction_on with
  | single hnm =>
      obtain ⟨id, ho⟩ := (hcaused _ hn).skipped hnm hfailed
      exact ⟨_, ho⟩
  | head hnk _ ih =>
      obtain ⟨id, ho⟩ := (hcaused _ hn).skipped hnk (ih (hclosed _ hn _ hnk))
      exact ⟨_, ho⟩

/-- The names lead from a unit that was skipped to one that was not: by induction on the depth of
the unit, since a unit names one that it depends on. -/
theorem exists_root (hr : s.registry.WellFormed)
    (hskip : ∀ e ∈ s.registry.entries, e.unit.NeverSkips)
    (hclosed : ∀ n ∈ plan.order, ∀ m, s.registry.Depends n m → m ∈ plan.order)
    (hcaused : ∀ n ∈ plan.order, s.Caused calls st file outcome n) {depth : Nat}
    (hdepth : s.registry.DepthWithin depth n) (hn : n ∈ plan.order) {id : String}
    (ho : outcome n = .error (.dependencyFailed id)) :
    ∃ k ∈ plan.order, Relation.TransGen (s.Names outcome) n k ∧
      ∃ e, outcome k = .error e ∧ e.isSkip = false := by
  induction depth generalizing n id with
  | zero => exact hdepth.elim
  | succ depth ih =>
      obtain ⟨m, hm, rfl⟩ := (hcaused n hn).firstFailing hskip ho
      have hmem := hclosed n hn m hm.depends
      have hnames : s.Names outcome n m := ⟨hr.depends_lt hm.depends, ho⟩
      obtain ⟨e, he⟩ := hm.failed
      by_cases hskipped : e.isSkip = true
      · obtain ⟨id', rfl⟩ : ∃ id', e = .dependencyFailed id' := by
          cases e <;> simp_all [UnitError.isSkip]
        obtain ⟨k, hk, hpath, hroot⟩ := ih (hdepth.2 m hm.depends) hmem he
        exact ⟨k, hk, .head hnames hpath, hroot⟩
      · exact ⟨m, hmem, .single hnames, e, he, by simpa using hskipped⟩

/-- What the ledger says of a file: with the kept outcomes, all of the account. -/
theorem Ledger.accounts (h : s.Ledger seen calls st) (hr : s.registry.WellFormed)
    (hskip : ∀ e ∈ s.registry.entries, e.unit.NeverSkips) (hnodup : plan.order.Nodup)
    (hclosed : ∀ n ∈ plan.order, ∀ m, s.registry.Depends n m → m ∈ plan.order)
    (hdepth : ∀ n ∈ plan.order, s.registry.DepthWithin s.depth n)
    (hfile : ∀ g ∈ seen, g.id = file.id → g = file)
    (hkept : ∀ n ∈ plan.order, st.outcome? n file.id = some (outcome n)) :
    s.Accounts plan calls st file outcome := by
  have hcaused : ∀ n ∈ plan.order, s.Caused calls st file outcome n := fun n hn =>
    h.caused hfile (hkept n hn) fun m hm => hkept m (hclosed n hn m hm)
  refine ⟨hkept, mem_failuresOn hkept,
    failuresOn_units_nodup hr hnodup fun n hn => (hdepth n hn).lt, ?_, ?_, ?_, ?_, ?_⟩
  · intro n hn
    constructor
    · rintro ⟨e, ho⟩
      rcases hcaused n hn with ⟨m, hm, -⟩ | hcalled
      · exact .inr ⟨m, .single hm.depends, hm.failed⟩
      · rw [ho] at hcalled
        exact .inl ⟨e, hcalled⟩
    · rintro (⟨e, hcalled⟩ | ⟨m, hnm, hfailed⟩)
      · rcases hcaused n hn with ⟨m, -, ho⟩ | hcalled'
        · exact ⟨_, ho⟩
        · exact ⟨e, h.called_unique hcalled' hcalled⟩
      · exact failed_of_transGen hclosed hcaused hnm hn hfailed
  · intro n hn
    constructor
    · rintro ⟨id, ho⟩
      obtain ⟨m, hm, -⟩ := (hcaused n hn).firstFailing hskip ho
      exact ⟨m, hm.depends, hm.failed⟩
    · rintro ⟨m, hnm, hfailed⟩
      exact (hcaused n hn).skipped hnm hfailed
  · exact fun n hn id ho => (hcaused n hn).firstFailing hskip ho
  · rintro n hn ⟨m, hnm, e, hm⟩ new hnew c hc hkey
    -- a call needs facts of all dependencies, and one of them has none
    obtain ⟨new', hnew', -, hcalled⟩ := h.called
    obtain rfl : new = new' := List.append_cancel_right (hnew.symm.trans hnew')
    obtain ⟨k, hk, hsome, hfacts⟩ := hcalled c hc
    obtain ⟨hunit, hid⟩ := Prod.mk.inj hkey
    obtain ⟨p, hp⟩ := Option.isSome_iff_exists.mp hsome
    obtain rfl : k = n := hr.idOf_inj (h.settled k c.fileId p hp).1 (hdepth n hn).lt
      (hk.symm.trans hunit)
    obtain ⟨fact, hfact⟩ := hfacts m hnm
    rw [hid, hkept m (hclosed k hn m hnm), hm] at hfact
    cases hfact
  · exact fun n hn id ho => exists_root hr hskip hclosed hcaused (hdepth n hn) hn ho

end Plan

/-- **Every failure has a cause.**  In a run of units that never give a failed dependency as their
own error, the failures are those of the files, and on a file that is known by its number: every
planned unit has one outcome; it failed if its call did or one failed that it depends on in some
steps; it was skipped, and not called, if one failed that it depends on directly, and then it names
the first such in the declared order; and from a unit that was skipped the names lead to one that
failed in a call. -/
theorem failures_accounted {units : List AnalysisUnit}
    (hbuild : Registry.build units = .ok s.registry) (hskip : ∀ u ∈ units, u.NeverSkips)
    {request : List String} {files : List SourceFile} {run : Run}
    (hrun : s.run request files calls = .ok run) :
    (∀ n entry, s.registry.entries[n]? = some entry →
      (s.registry.requiresOf n).map s.registry.idOf = entry.unit.requires) ∧
    ∃ plan, Plan.of s.registry request = .ok plan ∧
      run.failures = sortFailures (files.flatMap (s.failuresOn plan run.state)) ∧
      ∀ file ∈ files, (∀ g ∈ files, g.id = file.id → g = file) →
        ∃ outcome, s.Accounts plan calls run.state file outcome := by
  refine ⟨fun n entry hentry => Registry.map_idOf_requiresOf hbuild hentry, ?_⟩
  have hwf := Registry.wellFormed_of_build hbuild
  have hskip' : ∀ e ∈ s.registry.entries, e.unit.NeverSkips :=
    Registry.forall_entries_of_build hbuild hskip
  obtain ⟨plan, hplan, rfl⟩ := run_eq_ok_iff.mp hrun
  obtain ⟨hnodup, -, hfirst⟩ := Plan.order_of_eq_ok hplan
  have hdepth : ∀ n ∈ plan.order, s.registry.DepthWithin s.depth n :=
    fun n hn => Plan.depthWithin hwf hplan hn
  have hclosed : ∀ n ∈ plan.order, ∀ m, s.registry.Depends n m → m ∈ plan.order :=
    fun n hn m hm => Plan.mem_order_of_depends hplan hn hm
  obtain ⟨hledger, -, hkept, hfailures⟩ := ledger_runFiles hwf hfirst hdepth
    (fun f hf => hf) (s.ledger_after files calls)
  refine ⟨plan, hplan, congrArg sortFailures hfailures, fun file hfile hid => ?_⟩
  -- Every planned unit has an outcome on the file, so the value given else is never used.
  let outcome (n : Nat) : Outcome :=
    ((s.runFiles plan files (.after calls)).2.outcome? n file.id).getD (.ok (.number 0))
  refine ⟨outcome, hledger.accounts hwf hskip' hnodup hclosed hdepth hid fun n hn => ?_⟩
  obtain ⟨o, ho⟩ := Option.isSome_iff_exists.mp (hkept file hfile n hn)
  show EngineState.outcome? _ n file.id = some (Option.getD _ _)
  rw [ho, Option.getD_some]

/-- A scripted unit that reads no facts never gives a failed dependency as its own error. -/
theorem neverSkips_analysis (script : Script) (hreads : script.reads = [])
    (hparses : script.parses = false) (id doc : String) (requires : List String) (number : Nat) :
    (script.analysis id doc requires (.constant number)).NeverSkips := by
  obtain ⟨fail, failOn, failFirst, reads, parses⟩ := script
  obtain rfl : reads = [] := hreads
  obtain rfl : parses = false := hparses
  intro cx e h
  cases fail with
  | some message =>
      cases h
      rfl
  | none =>
      by_cases hfailOn : (failOn == some cx.file.path.text) = true
      · simp only [Script.analysis, Script.play, hfailOn] at h
        cases h
        rfl
      · by_cases hfirst : (failFirst && !cx.earlier.any
            (fun c => c.unit == id && c.path == cx.file.path)) = true
        · simp only [Script.analysis, Script.play, hfailOn, hfirst] at h
          cases h
          rfl
        · simp only [Script.analysis, Script.play, hfailOn, hfirst] at h
          cases h

/-- Units in a diamond whose branches both fail, one of them because of a further unit. -/
def brokenUnits : List AnalysisUnit :=
  [Script.analysis {} "top" "" ["base", "left", "right"] (.constant 0),
    Script.analysis {} "left" "" ["base", "broken"] (.constant 0),
    Script.analysis { fail := some "no" } "right" "" ["base"] (.constant 0),
    Script.analysis {} "base" "" [] (.constant 0),
    Script.analysis { fail := some "no" } "broken" "" [] (.constant 0)]

/-- The diamond with the settings it has by default. -/
def broken : Session where
  registry := ⟨brokenUnits.zipWith Entry.mk [[3, 1, 2], [3, 4], [3], [], []]⟩
  settings := {}

/-- The diamond is run from its bottom up. -/
theorem orderOf_broken : broken.registry.orderOf [0, 1, 2, 3, 4] = .ok [3, 2, 4, 1, 0] := by
  have hsteps : Countdown.Steps broken.registry [0, 1, 2, 3, 4]
      (.start broken.registry [0, 1, 2, 3, 4])
      ⟨[(0, 0), (1, 0), (2, 0), (3, 0), (4, 0)], [], [3, 2, 4, 1, 0], []⟩ :=
    .head rfl (.head rfl (.head rfl (.head rfl (.head rfl (.head rfl (.head rfl (.head rfl
      (.head rfl (.head rfl (.head rfl .refl))))))))))
  exact Registry.orderOf_of_steps hsteps rfl rfl

/-- The top is skipped for its first failing dependency, although that one was skipped itself. -/
theorem failures_accounted_sample :
    ∃ run outcome, broken.run ["top"] [sampleFile 0] [] = .ok run ∧
      broken.Accounts ⟨[3, 2, 4, 1, 0], [0]⟩ [] run.state (sampleFile 0) outcome ∧
      outcome 0 = .error (.dependencyFailed "left") ∧
      outcome 1 = .error (.dependencyFailed "broken") := by
  have hclosure : broken.registry.closure [0] = [0, 1, 2, 3, 4] := by cbv
  have hplan : Plan.of broken.registry ["top"] = .ok ⟨[3, 2, 4, 1, 0], [0]⟩ :=
    Plan.of_eq_ok_iff.mpr ⟨[0], .cons rfl .nil, rfl, hclosure ▸ orderOf_broken⟩
  have hskip : ∀ u ∈ brokenUnits, u.NeverSkips := by
    intro u hu
    simp only [brokenUnits, List.mem_cons, List.not_mem_nil, or_false] at hu
    rcases hu with rfl | rfl | rfl | rfl | rfl <;> exact neverSkips_analysis _ rfl rfl _ _ _ _
  have hrun : broken.run ["top"] [sampleFile 0] [] = .ok _ := run_eq_ok_iff.mpr ⟨_, hplan, rfl⟩
  have hbuild : Registry.build brokenUnits = .ok broken.registry := rfl
  obtain ⟨-, plan, hplan', -, haccounts⟩ := failures_accounted hbuild hskip hrun
  obtain rfl : _ = plan := Except.ok.inj (hplan.symm.trans hplan')
  obtain ⟨outcome, hcounts⟩ := haccounts (sampleFile 0) List.mem_cons_self
    (fun g hg _ => List.mem_singleton.mp hg)
  refine ⟨_, outcome, hrun, hcounts, ?_, ?_⟩
  · have hkept := hcounts.kept 0 (by decide)
    exact (Option.some.inj hkept).symm
  · have hkept := hcounts.kept 1 (by decide)
    exact (Option.some.inj hkept).symm

end Session

end SchemaLint

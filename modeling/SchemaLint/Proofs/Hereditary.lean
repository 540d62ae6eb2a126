import SchemaLint.Proofs.History

/-!
# Properties that outcomes pass on

A property of outcomes holds of every outcome that a session ever keeps or answers, if a skipped
unit has it and a unit that is called on facts with the property has it.  Files need not be told
apart by their numbers here, and units need not be pure: an outcome that is kept for another file of
the same number has the property as well.

* `Session.Hereditary`: such a property.
* `Session.Hereditary.resolve`: what one request to resolve a unit keeps.
* `Session.Hereditary.yields`: what a unit yields without memory has the property too.
* **`Session.Hereditary.run`**, **`Session.Hereditary.serve`**: the property holds after a run and
  after all requests that follow it.
-/

namespace SchemaLint.Session

variable {s : Session} {P : Nat → Outcome → Prop} {st : EngineState} {file : SourceFile} {n : Nat}

/-- Facts of some units, each with its id and with a property. -/
def FactsWith (s : Session) (P : Nat → Outcome → Prop) (units : List Nat)
    (facts : List (String × Fact)) : Prop :=
  List.Forall₂ (fun m p => p.1 = s.registry.idOf m ∧ P m (.ok p.2)) units facts

/-- Facts carry the ids of the units they are of. -/
theorem FactsWith.map_fst {units : List Nat} {facts : List (String × Fact)}
    (h : s.FactsWith P units facts) : facts.map Prod.fst = units.map s.registry.idOf := by
  unfold FactsWith at h
  induction h with
  | nil => rfl
  | cons hhead _ ih => rw [List.map_cons, List.map_cons, hhead.1, ih]

/-- Each of the facts is of one of the units, and has the property. -/
theorem FactsWith.exists_unit {units : List Nat} {facts : List (String × Fact)}
    (h : s.FactsWith P units facts) {p : String × Fact} (hp : p ∈ facts) :
    ∃ m, p.1 = s.registry.idOf m ∧ P m (.ok p.2) := by
  unfold FactsWith at h
  induction h with
  | nil => cases hp
  | @cons m q _ _ hhead _ ih =>
      rcases List.mem_cons.mp hp with rfl | hp
      · exact ⟨m, hhead⟩
      · exact ih hp

/-- A property that skipped units have and that calls pass on. -/
structure Hereditary (s : Session) (P : Nat → Outcome → Prop) : Prop where
  /-- A unit that is skipped has it. -/
  skip : ∀ n id, P n (.error (.dependencyFailed id))
  /-- A unit that is called on facts with the property has it. -/
  call : ∀ n entry facts file earlier, s.registry.entries[n]? = some entry →
    s.FactsWith P entry.requires facts →
      P n (entry.unit.run (s.context file file.parse? facts earlier))

/-- All kept outcomes have a property. -/
def AllKept (P : Nat → Outcome → Prop) (st : EngineState) : Prop :=
  ∀ n f o, st.outcome? n f = some o → P n o

/-- Before the first outcome there is nothing to check. -/
theorem allKept_after (P : Nat → Outcome → Prop) (calls : List UnitCall) :
    AllKept P (.after calls) :=
  fun _ _ _ h => nomatch h

/-- One more outcome with the property keeps it for all. -/
theorem AllKept.keep (h : AllKept P st) (f : Nat) {o : Outcome} (ho : P n o) :
    AllKept P (st.keep n f o) := by
  intro m g p hp
  rw [EngineState.outcome?_keep] at hp
  split_ifs at hp with heq
  · obtain ⟨rfl, rfl⟩ := heq
    cases hp
    exact ho
  · exact h m g p hp

/-- Gathering facts of units whose outcomes have a property. -/
theorem gather_allKept {resolve : Nat → EngineState → Outcome × EngineState} {units : List Nat}
    (hres : ∀ m ∈ units, ∀ st, AllKept P st → P m (resolve m st).1 ∧ AllKept P (resolve m st).2)
    (hst : AllKept P st) :
    AllKept P (s.gather resolve units st).2 ∧
      ∀ facts, (s.gather resolve units st).1 = .ok facts → s.FactsWith P units facts := by
  induction units generalizing st with
  | nil =>
      refine ⟨hst, fun facts hfacts => ?_⟩
      cases hfacts
      exact .nil
  | cons n rest ih =>
      obtain ⟨ho, hst₁⟩ := hres n List.mem_cons_self st hst
      unfold gather
      rcases hpair : resolve n st with ⟨o, st₁⟩
      rw [hpair] at ho hst₁
      cases o with
      | error e =>
          refine ⟨hst₁, fun facts hfacts => ?_⟩
          cases hfacts
      | ok fact =>
          obtain ⟨hst₂, hrest⟩ := ih (fun m hm => hres m (List.mem_cons_of_mem n hm)) hst₁
          simp only
          rcases hgather : s.gather resolve rest st₁ with ⟨result, st₂⟩
          rw [hgather] at hst₂ hrest
          cases result with
          | error id =>
              refine ⟨hst₂, fun facts hfacts => ?_⟩
              cases hfacts
          | ok facts =>
              refine ⟨hst₂, fun facts' hfacts' => ?_⟩
              cases hfacts'
              exact .cons ⟨rfl, ho⟩ (hrest facts rfl)

/-- Facts of outcomes with a property. -/
theorem factsWith_of_factsOf {outcome : Nat → Outcome} {units : List Nat}
    {facts : List (String × Fact)} (hunits : ∀ m ∈ units, P m (outcome m))
    (h : factsOf s.registry outcome units = .ok facts) : s.FactsWith P units facts := by
  induction units generalizing facts with
  | nil =>
      cases h
      exact .nil
  | cons n rest ih =>
      have hn := hunits n List.mem_cons_self
      unfold factsOf at h
      rcases ho : outcome n with e | fact
      · rw [ho] at h
        cases h
      · rcases hrest : factsOf s.registry outcome rest with id | facts'
        · rw [ho, hrest] at h
          cases h
        · rw [ho, hrest] at h
          cases h
          rw [ho] at hn
          exact .cons ⟨rfl, hn⟩ (ih (fun m hm => hunits m (List.mem_cons_of_mem n hm)) hrest)

namespace Hereditary

/-- What a unit yields without memory has the property. -/
theorem yields (h : s.Hereditary P) {o : Outcome} (hy : s.Yields file n o) : P n o := by
  induction hy with
  | @intro n entry outcome found below ih =>
      unfold outcomeFrom
      rcases hfacts : factsOf s.registry outcome entry.requires with id | facts
      · exact h.skip n id
      · exact h.call n entry facts file [] found (factsWith_of_factsOf ih hfacts)

/-- **Resolving a unit passes the property on**: by induction on the depth. -/
theorem resolve (h : s.Hereditary P) {depth : Nat} (hdepth : s.registry.DepthWithin depth n)
    (file : SourceFile) (hst : AllKept P st) :
    P n (s.resolve file file.parse? depth n st).1 ∧
      AllKept P (s.resolve file file.parse? depth n st).2 := by
  induction depth generalizing n st with
  | zero => exact hdepth.elim
  | succ depth ih =>
      unfold Session.resolve
      rcases hkept : st.outcome? n file.id with _ | o
      · obtain ⟨entry, hentry⟩ := Registry.exists_entry hdepth.lt
        have hbelow : ∀ m ∈ entry.requires, s.registry.DepthWithin depth m := by
          intro m hm
          refine hdepth.2 m ?_
          unfold Registry.Depends
          rwa [Registry.requiresOf_eq hentry]
        obtain ⟨hst₁, hfacts⟩ := @gather_allKept s P st
          (s.resolve file file.parse? depth) entry.requires
          (fun m hm st' hst' => ih (hbelow m hm) hst') hst
        simp only [hentry]
        rcases hgather : s.gather (s.resolve file file.parse? depth) entry.requires st with
          ⟨result, st₁⟩
        rw [hgather] at hst₁ hfacts
        cases result with
        | error id => exact ⟨h.skip n id, hst₁.keep file.id (h.skip n id)⟩
        | ok facts =>
            have hcall := h.call n entry facts file st₁.calls hentry (hfacts facts rfl)
            exact ⟨hcall, AllKept.keep (fun m f o ho => hst₁ m f o ho) file.id hcall⟩
      · exact ⟨hst n file.id o hkept, hst⟩

/-- Running units on a file passes the property on. -/
theorem runUnits (h : s.Hereditary P) {units : List Nat}
    (hunits : ∀ n ∈ units, s.registry.DepthWithin s.depth n) (file : SourceFile)
    (hst : AllKept P st) :
    (∀ p ∈ (s.runUnits file file.parse? units st).1, P p.1 p.2) ∧
      AllKept P (s.runUnits file file.parse? units st).2 := by
  induction units generalizing st with
  | nil => exact ⟨(fun p hp => nomatch hp), hst⟩
  | cons n rest ih =>
      obtain ⟨ho, hst₁⟩ := h.resolve (hunits n List.mem_cons_self) file hst
      obtain ⟨hrest, hst₂⟩ := ih (fun m hm => hunits m (List.mem_cons_of_mem n hm)) hst₁
      exact ⟨List.forall_mem_cons.mpr ⟨ho, hrest⟩, hst₂⟩

/-- Running a plan on files passes the property on. -/
theorem runFiles (h : s.Hereditary P) {plan : Plan}
    (hplan : ∀ n ∈ plan.order, s.registry.DepthWithin s.depth n) (files : List SourceFile)
    (hst : AllKept P st) :
    (∀ entry ∈ (s.runFiles plan files st).1, ∀ p ∈ entry.2, P p.1 p.2) ∧
      AllKept P (s.runFiles plan files st).2 := by
  induction files generalizing st with
  | nil => exact ⟨(fun entry he => nomatch he), hst⟩
  | cons file rest ih =>
      obtain ⟨ho, hst₁⟩ := h.runUnits hplan file hst
      obtain ⟨hrest, hst₂⟩ := ih hst₁
      exact ⟨List.forall_mem_cons.mpr ⟨ho, hrest⟩, hst₂⟩

/-- **After a run, all kept outcomes have the property**, and all its failures are of units whose
outcomes had it. -/
theorem run (h : s.Hereditary P) (hr : s.registry.WellFormed) {request : List String}
    {files : List SourceFile} {calls : List UnitCall} {run : Run}
    (hrun : s.run request files calls = .ok run) :
    AllKept P run.state ∧ ∀ f ∈ run.failures, ∃ n, f.unit = s.registry.idOf n ∧
      P n (.error f.error) := by
  obtain ⟨plan, hplan, rfl⟩ := run_eq_ok_iff.mp hrun
  obtain ⟨hlisted, hst⟩ := h.runFiles (fun n hn => Plan.depthWithin hr hplan hn) files
    (allKept_after P calls)
  refine ⟨hst, fun f hf => ?_⟩
  obtain ⟨entry, hentry, hf⟩ := List.mem_flatMap.mp (List.mem_mergeSort.mp hf)
  obtain ⟨⟨n, o⟩, hp, hfailure⟩ := List.mem_filterMap.mp hf
  have ho := hlisted entry hentry (n, o) hp
  cases o with
  | ok fact => cases hfailure
  | error e =>
      cases hfailure
      exact ⟨n, rfl, ho⟩

/-- **Requests after a run keep the property**, and all their answers have it. -/
theorem serve (h : s.Hereditary P) (hr : s.registry.WellFormed)
    (later : List (String × SourceFile)) (hst : AllKept P st) :
    AllKept P (s.serve later st).2 ∧ ∀ o, .ok o ∈ (s.serve later st).1 → ∃ n, P n o := by
  induction later generalizing st with
  | nil => exact ⟨hst, fun o ho => nomatch ho⟩
  | cons request rest ih =>
      obtain ⟨unit, file⟩ := request
      rw [Session.serve]
      rcases hplan : Plan.of s.registry [unit] with e | plan
      · have hlater : s.resolveLater unit file st = .error e := by
          unfold resolveLater
          rw [hplan]
          rfl
        obtain ⟨hst', hanswers⟩ := ih hst
        rw [hlater]
        refine ⟨hst', fun o ho => ?_⟩
        rcases List.mem_cons.mp ho with ho | ho
        · cases ho
        · exact hanswers o ho
      · obtain ⟨n, hn, -, hlater⟩ := resolveLater_eq file st hplan
        obtain ⟨hresolved, hst₁⟩ := h.resolve (Plan.depthWithin hr hplan hn) file hst
        obtain ⟨hst', hanswers⟩ := ih hst₁
        rw [hlater]
        refine ⟨hst', fun o ho => ?_⟩
        rcases List.mem_cons.mp ho with ho | ho
        · cases ho
          exact ⟨n, hresolved⟩
        · exact hanswers o ho

end Hereditary

end SchemaLint.Session

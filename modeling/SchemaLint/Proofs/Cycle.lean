import Mathlib.Data.Fintype.Card
import Mathlib.Data.Set.Finite.List
import SchemaLint.Proofs.History

/-!
# Which units can never be taken

A countdown gets stuck on the units that lead to a circle of dependencies, and on no others.  Where
it ends, a unit that was not taken waits for one that was not taken either; there are finitely many,
so going on like this comes round (`Registry.leadsToCycle_of_blocked`).  A unit that was taken has a
bottom, and no circle can be reached from it.

* `Registry.OnCycle`, `Registry.LeadsToCycle`: units that depend on themselves, and units from which
  such a unit can be reached.
* **`Countdown.not_taken_iff`**: the units that a countdown leaves are those that lead to a circle.
* `Registry.orderOf_cases`: hence so are the units that cannot be ordered.
* `Registry.behaving`: the same units, doing something else when they are run; planning does not
  tell them apart (`Plan.of_behaving`).
* **`Plan.of_cycle_exact`**: a request fails for a circle exactly if it needs one, and then names
  what leads to it; it fails for an unknown id before anything else; and no unit is run in either
  case.
-/

namespace SchemaLint

/-! ## Circles -/

namespace Registry

variable {r : Registry} {units : List Nat} {n : Nat}

/-- A unit depends on itself in one or more steps. -/
def OnCycle (r : Registry) (n : Nat) : Prop :=
  Relation.TransGen r.Depends n n

/-- A circle of dependencies can be reached from a unit. -/
def LeadsToCycle (r : Registry) (n : Nat) : Prop :=
  ∃ m, r.Reaches n m ∧ r.OnCycle m

/-- **Where every unit waits for another, each leads to a circle.**  Otherwise going on from unit to
unit would be well founded, as there are finitely many, but the last one waits for another too. -/
theorem leadsToCycle_of_blocked (hblocked : ∀ n ∈ units, ∃ m ∈ units, r.Depends n m)
    (hn : n ∈ units) : r.LeadsToCycle n := by
  by_contra hacyclic
  let After (a b : {m // m ∈ units ∧ r.Reaches n m}) : Prop :=
    Relation.TransGen r.Depends b.1 a.1
  have : Finite {m // m ∈ units ∧ r.Reaches n m} :=
    (units.finite_toSet.subset fun m hm => hm.1).to_subtype
  have : IsTrans _ After := ⟨fun a b c hab hbc => hbc.trans hab⟩
  have : Std.Irrefl After := ⟨fun a ha => hacyclic ⟨a.1, a.2.2, ha⟩⟩
  obtain ⟨last, -, hlast⟩ := (Finite.wellFounded_of_trans_of_irrefl After).has_min Set.univ
    ⟨⟨n, hn, .refl⟩, Set.mem_univ _⟩
  obtain ⟨m, hm, hdepends⟩ := hblocked last.1 last.2.1
  exact hlast ⟨m, hm, last.2.2.tail hdepends⟩ (Set.mem_univ _) (.single hdepends)

/-- No circle can be reached from a unit of an order with dependencies first. -/
theorem DependenciesFirst.not_leadsToCycle {order : List Nat} (h : r.DependenciesFirst order)
    (hlt : ∀ n ∈ order, n < r.size) (hn : n ∈ order) : ¬ r.LeadsToCycle n := by
  rintro ⟨m, hreaches, hcycle⟩
  obtain ⟨before, after, heq⟩ := List.append_of_mem hn
  exact ((h.depthWithin hlt heq).of_reaches hreaches).not_cyclic hcycle

end Registry

/-! ## What a countdown leaves -/

section

variable {r : Registry} {units : List Nat}

/-- **A countdown leaves the units that lead to a circle**, if its units hold all they depend on. -/
theorem Countdown.not_taken_iff (hu : units.Pairwise (· < ·))
    (hclosed : ∀ n ∈ units, ∀ m, r.Depends n m → m ∈ units) (hlt : ∀ n ∈ units, n < r.size)
    {n : Nat} (hn : n ∈ units) :
    n ∉ (run r units (.start r units)).order ↔ r.LeadsToCycle n := by
  obtain ⟨hsteps, hdone⟩ := steps_run r units (.start r units)
  have hi := Inv.of_steps hu hsteps
  obtain ⟨huntold, hready⟩ := step_eq_none_iff.mp hdone
  generalize run r units (.start r units) = c at hi huntold hready
  constructor
  · intro hleft
    -- no unit is ready at the end, so one that is left misses a dependency that is left as well
    have hblocked : ∀ k ∈ units.filter (· ∉ c.order),
        ∃ m ∈ units.filter (· ∉ c.order), r.Depends k m := by
      intro k hk
      obtain ⟨hku, hkleft⟩ : k ∈ units ∧ k ∉ c.order := by simpa using hk
      have hmissing : missing r c.order k ≠ 0 := by
        intro hzero
        have hwaiting := hi.waiting k hku
        rw [hzero, huntold, List.count_nil] at hwaiting
        have hmem := (hi.ready k).mpr ⟨hku, hkleft, hwaiting⟩
        rw [hready] at hmem
        cases hmem
      rw [ne_eq, missing_eq_zero_iff] at hmissing
      push Not at hmissing
      obtain ⟨m, hdepends, hm⟩ := hmissing
      exact ⟨m, by simpa using ⟨hclosed k hku m hdepends, hm⟩, hdepends⟩
    exact Registry.leadsToCycle_of_blocked hblocked (by simpa using ⟨hn, hleft⟩)
  · intro hleads htaken
    exact hi.order_first.not_leadsToCycle (fun m hm => hlt m (hi.taken m hm).1) htaken hleads

/-- **Units can be ordered unless some lead to a circle**; those are named then, in the order of
registration. -/
theorem Registry.orderOf_cases (hu : units.Pairwise (· < ·))
    (hclosed : ∀ n ∈ units, ∀ m, r.Depends n m → m ∈ units) (hlt : ∀ n ∈ units, n < r.size) :
    (∃ order, r.orderOf units = .ok order ∧ ∀ n ∈ units, ¬ r.LeadsToCycle n) ∨
      ∃ stuck, r.orderOf units = .error stuck ∧ stuck ≠ [] ∧ stuck.Pairwise (· < ·) ∧
        ∀ n, n ∈ stuck ↔ n ∈ units ∧ r.LeadsToCycle n := by
  have hi := Countdown.Inv.of_steps hu (Countdown.steps_run r units (.start r units)).1
  have hleft : ∀ n ∈ units, n ∉ (Countdown.run r units (.start r units)).order ↔
      r.LeadsToCycle n := fun n hn => Countdown.not_taken_iff hu hclosed hlt hn
  unfold orderOf
  generalize Countdown.run r units (.start r units) = c at hi hleft
  have hsub := hi.order_nodup.subperm fun n hn => (hi.taken n hn).1
  by_cases hlen : c.order.length = units.length
  · refine .inl ⟨c.order, if_pos hlen, fun n hn hleads => ?_⟩
    exact (hleft n hn).mpr hleads ((hsub.perm_of_length_le hlen.ge).mem_iff.mpr hn)
  · have hmem : ∀ n, n ∈ units.filter (fun n => !c.order.contains n) ↔
        n ∈ units ∧ r.LeadsToCycle n := by
      intro n
      rw [List.mem_filter, Bool.not_eq_true', List.contains_eq_mem, decide_eq_false_iff_not]
      exact and_congr_right (hleft n)
    refine .inr ⟨_, if_neg hlen, fun hnil => hlen ?_, hu.filter _, hmem⟩
    rw [List.filter_eq_nil_iff] at hnil
    have hnodup : units.Nodup := hu.imp Nat.ne_of_lt
    have hall : units ⊆ c.order := fun n hn => by simpa using hnil n hn
    exact Nat.le_antisymm hsub.length_le (hnodup.subperm hall).length_le

end

/-! ## Units that behave differently -/

/-- The same units, each doing what is given when it is run. -/
def Registry.behaving (r : Registry)
    (behaviour : AnalysisUnit → UnitContext → Except UnitError Fact) : Registry :=
  ⟨r.entries.map fun e => { e with unit := { e.unit with run := behaviour e.unit } }⟩

section

variable (r : Registry) (behaviour : AnalysisUnit → UnitContext → Except UnitError Fact)

/-- What units do when they are run does not change what they depend on. -/
theorem Registry.requiresOf_behaving (n : Nat) :
    (r.behaving behaviour).requiresOf n = r.requiresOf n := by
  unfold requiresOf behaving
  rw [List.getElem?_map]
  cases r.entries[n]? <;> rfl

/-- What units do when they are run does not change their ids. -/
theorem Registry.idOf_behaving (n : Nat) : (r.behaving behaviour).idOf n = r.idOf n := by
  unfold idOf behaving
  rw [List.getElem?_map]
  cases r.entries[n]? <;> rfl

/-- What units do when they are run does not change which unit an id denotes. -/
theorem Registry.lookup_behaving (id : String) :
    (r.behaving behaviour).lookup id = r.lookup id := by
  unfold lookup behaving
  rw [List.findIdx?_map, List.findIdx?_map]
  rfl

/-- The search for dependencies finds the same units, since they are reached in the same way. -/
theorem Registry.closure_behaving (roots : List Nat) :
    (r.behaving behaviour).closure roots = r.closure roots := by
  have hdepends : (r.behaving behaviour).Depends = r.Depends := by
    funext n m
    rw [Depends, Depends, requiresOf_behaving]
  have hperm := (List.perm_ext_iff_of_nodup
    (((r.behaving behaviour).closure_sorted roots).imp Nat.ne_of_lt)
    ((r.closure_sorted roots).imp Nat.ne_of_lt)).mpr fun n => by
      rw [mem_closure_iff, mem_closure_iff, Reaches, Reaches, hdepends]
  refine hperm.eq_of_pairwise (fun a b _ _ hab hba => ?_)
    ((r.behaving behaviour).closure_sorted roots) (r.closure_sorted roots)
  omega

/-- What units do when they are run does not change the order in which they are run. -/
theorem Registry.orderOf_behaving (units : List Nat) :
    (r.behaving behaviour).orderOf units = r.orderOf units := by
  have hstep : ∀ c : Countdown, c.step (r.behaving behaviour) units = c.step r units := by
    intro c
    simp only [Countdown.step, dependents, requiresOf_behaving]
  have hstart : Countdown.start (r.behaving behaviour) units = .start r units := by
    simp only [Countdown.start, requiresOf_behaving]
  obtain ⟨hsteps, hend⟩ := Countdown.steps_run r units (.start r units)
  have hrun : Countdown.run (r.behaving behaviour) units (.start (r.behaving behaviour) units) =
      Countdown.run r units (.start r units) := by
    refine Countdown.run_of_steps ?_ (by rw [hstep, hend])
    rw [Countdown.Steps, hstart]
    simp only [hstep]
    exact hsteps
  unfold orderOf
  rw [hrun]

/-- **Planning does not look at what units do.** -/
theorem Plan.of_behaving (request : List String) :
    of (r.behaving behaviour) request = of r request := by
  have hfind : find (r.behaving behaviour) = find r := by
    funext id
    rw [find, find, Registry.lookup_behaving]
  have hids : (r.behaving behaviour).idOf = r.idOf := funext (r.idOf_behaving behaviour)
  unfold of
  simp only [hfind, Registry.closure_behaving, Registry.orderOf_behaving, hids]

end

/-! ## Requests without a plan -/

namespace Plan

variable {r : Registry} {request : List String}

/-- A unit is reached from one that the request denotes. -/
def Needs (r : Registry) (request : List String) (n : Nat) : Prop :=
  ∃ id ∈ request, ∃ root, r.lookup id = some root ∧ r.Reaches root n

/-- What a request needs is registered. -/
theorem Needs.lt (hr : r.WellFormed) {n : Nat} (h : Needs r request n) : n < r.size := by
  obtain ⟨id, -, root, hroot, hreaches⟩ := h
  exact hr.reaches_lt (Registry.lookup_lt hroot) hreaches

/-- The units that cannot be ordered are named in the error. -/
theorem of_eq_cycle {found stuck : List Nat} (hfound : request.mapM (find r) = .ok found)
    (hstuck : r.orderOf (r.closure found.eraseDups) = .error stuck) :
    of r request = .error (.cycle (stuck.map r.idOf)) := by
  simp only [of, hfound, bind, Except.bind, hstuck]

/-- **A request of registered units has a plan unless it needs units that lead to a circle**; those
are named then. -/
theorem of_cases (hr : r.WellFormed) (hrequest : ∀ id ∈ request, (r.lookup id).isSome) :
    (∃ plan, of r request = .ok plan ∧ ∀ n, Needs r request n → ¬ r.LeadsToCycle n) ∨
      ∃ stuck : List Nat, of r request = .error (.cycle (stuck.map r.idOf)) ∧ stuck ≠ [] ∧
        stuck.Pairwise (· < ·) ∧ ∀ n, n ∈ stuck ↔ Needs r request n ∧ r.LeadsToCycle n := by
  obtain ⟨found, hfound⟩ : ∃ found, request.mapM (find r) = .ok found := by
    refine exists_mapM_eq_ok fun id hid => ?_
    obtain ⟨n, hn⟩ := Option.isSome_iff_exists.mp (hrequest id hid)
    exact ⟨n, find_eq_ok_iff.mpr hn⟩
  have hdenoted : List.Forall₂ (fun id n => r.lookup id = some n) request found :=
    (mapM_eq_ok_iff.mp hfound).imp fun id n => find_eq_ok_iff.mp
  have hclosure : ∀ n, n ∈ r.closure found.eraseDups ↔ Needs r request n := by
    intro n
    rw [Registry.mem_closure_iff]
    simp only [List.mem_eraseDups, mem_found_iff hdenoted]
    constructor
    · rintro ⟨root, ⟨id, hid, hroot⟩, hreaches⟩
      exact ⟨id, hid, root, hroot, hreaches⟩
    · rintro ⟨id, hid, root, hroot, hreaches⟩
      exact ⟨root, ⟨id, hid, hroot⟩, hreaches⟩
  have hcases := Registry.orderOf_cases (r.closure_sorted found.eraseDups)
    (fun n hn m hm => Registry.mem_closure_of_depends hn hm)
    (fun n hn => ((hclosure n).mp hn).lt hr)
  simp only [hclosure] at hcases
  rcases hcases with ⟨order, horder, hnone⟩ | ⟨stuck, hstuck, hne, hsorted, hmem⟩
  · exact .inl ⟨⟨order, found.eraseDups⟩, of_eq_ok_iff.mpr ⟨found, hdenoted, rfl, horder⟩, hnone⟩
  · exact .inr ⟨stuck, of_eq_cycle hfound hstuck, hne, hsorted, hmem⟩

/-- An unknown id fails a request that knows all ids before it. -/
theorem of_eq_unknownUnit {before after : List String} {id : String}
    (hbefore : ∀ known ∈ before, (r.lookup known).isSome) (hid : r.lookup id = none) :
    of r (before ++ id :: after) = .error (.unknownUnit id) := by
  have hfirst : (before ++ id :: after).mapM (find r) = .error (.unknownUnit id) := by
    refine mapM_eq_error_of_first (fun known hknown => ?_) (by rw [find, hid])
    obtain ⟨n, hn⟩ := Option.isSome_iff_exists.mp (hbefore known hknown)
    exact ⟨n, find_eq_ok_iff.mpr hn⟩
  unfold of
  rw [hfirst]
  rfl

/-- A request without a plan is not run. -/
theorem run_eq_error {s : Session} {e : ConfigurationError} (h : of s.registry request = .error e)
    (files : List SourceFile) (calls : List UnitCall) : s.run request files calls = .error e := by
  unfold Session.run
  rw [h]
  rfl

/-- **Circles are found exactly.**  For any registry that was built and any request of registered
ids, planning fails for a circle if and only if a unit that the request needs lies on one; the error
then names the needed units from which a circle can be reached, each once and in the order of
registration.  A request with an unknown id fails for the first such, whatever circles there are.
In neither case is a unit run: the run of the request fails with the same error on all files, and it
would if the units did anything else. -/
theorem of_cycle_exact {units : List AnalysisUnit} (hr : Registry.build units = .ok r)
    (request : List String) :
    ((∀ id ∈ request, (r.lookup id).isSome) →
      ((∃ ids, of r request = .error (.cycle ids)) ↔ ∃ n, Needs r request n ∧ r.OnCycle n) ∧
      ∀ ids, of r request = .error (.cycle ids) → ids.Nodup ∧ ∃ stuck : List Nat,
        ids = stuck.map r.idOf ∧ stuck.Pairwise (· < ·) ∧
          ∀ n, n ∈ stuck ↔ Needs r request n ∧ r.LeadsToCycle n) ∧
    (∀ before id after, request = before ++ id :: after →
      (∀ known ∈ before, (r.lookup known).isSome) → r.lookup id = none →
        of r request = .error (.unknownUnit id)) ∧
    ∀ e, of r request = .error e → ∀ settings faultOf files calls,
      Session.run ⟨r, settings, faultOf⟩ request files calls = .error e ∧
        ∀ behaviour, Session.run ⟨r.behaving behaviour, settings, faultOf⟩ request files calls =
          .error e := by
  have hwf := Registry.wellFormed_of_build hr
  refine ⟨fun hrequest => ⟨⟨?_, ?_⟩, ?_⟩, ?_, ?_⟩
  · -- Planning fails: the stuck units lead to a circle, and the request needs what they lead to.
    rintro ⟨ids, hids⟩
    rcases of_cases hwf hrequest with ⟨plan, hplan, -⟩ | ⟨stuck, -, hne, -, hmem⟩
    · rw [hplan] at hids
      cases hids
    · obtain ⟨n, hn⟩ := List.exists_mem_of_ne_nil stuck hne
      obtain ⟨⟨id, hid, root, hroot, hreaches⟩, m, hm, hcycle⟩ := (hmem n).mp hn
      exact ⟨m, ⟨id, hid, root, hroot, hreaches.trans hm⟩, hcycle⟩
  · rintro ⟨n, hn, hcycle⟩
    rcases of_cases hwf hrequest with ⟨-, -, hnone⟩ | ⟨stuck, hstuck, -⟩
    · exact absurd ⟨n, .refl, hcycle⟩ (hnone n hn)
    · exact ⟨_, hstuck⟩
  · intro ids hids
    rcases of_cases hwf hrequest with ⟨plan, hplan, -⟩ | ⟨stuck, hstuck, -, hsorted, hmem⟩
    · rw [hplan] at hids
      cases hids
    · rw [hstuck] at hids
      cases hids
      refine ⟨?_, stuck, rfl, hsorted, hmem⟩
      refine (List.nodup_map_iff_inj_on (hsorted.imp Nat.ne_of_lt)).mpr fun n hn m hm heq => ?_
      exact hwf.idOf_inj (((hmem n).mp hn).1.lt hwf) (((hmem m).mp hm).1.lt hwf) heq
  · rintro before id after rfl hbefore hid
    exact of_eq_unknownUnit hbefore hid
  · -- Planning reads no unit, so units that do anything else are planned alike.
    intro e he settings faultOf files calls
    refine ⟨run_eq_error he files calls, fun behaviour => run_eq_error ?_ files calls⟩
    rw [of_behaving]
    exact he

/-- Two units in a circle, one that leads to it, one that the circle leads to, and one that depends
on itself. -/
def circleUnits : List AnalysisUnit :=
  [Script.analysis {} "before" "" ["left"] .successor,
    Script.analysis {} "below" "" [] (.constant 1),
    Script.analysis {} "left" "" ["below", "right"] .successor,
    Script.analysis {} "right" "" ["left"] .successor,
    Script.analysis {} "self" "" ["self"] .successor]

/-- The registry of these units. -/
def circleRegistry : Registry :=
  ⟨circleUnits.zipWith Entry.mk [[2], [], [1, 3], [2], [4]]⟩

/-- The unit without dependencies is taken, and the circle and what leads to it are left. -/
theorem orderOf_circle : circleRegistry.orderOf [0, 1, 2, 3] = .error [0, 2, 3] := by
  have hsteps : Countdown.Steps circleRegistry [0, 1, 2, 3] (.start circleRegistry [0, 1, 2, 3])
      ⟨[(0, 1), (1, 0), (2, 1), (3, 1)], [], [1], []⟩ :=
    .head rfl (.head rfl .refl)
  unfold Registry.orderOf
  rw [Countdown.run_of_steps hsteps rfl]
  rfl

/-- A request that leads into the circle is refused with the stuck units in order, and an unknown id
is told before any circle. -/
theorem of_cycle_exact_sample :
    Registry.build circleUnits = .ok circleRegistry ∧
      of circleRegistry ["before", "below"] = .error (.cycle ["before", "left", "right"]) ∧
      (∃ n, Needs circleRegistry ["before", "below"] n ∧ circleRegistry.OnCycle n) ∧
      of circleRegistry ["self", "other"] = .error (.unknownUnit "other") := by
  have hbuild : Registry.build circleUnits = .ok circleRegistry := rfl
  have hfound : ["before", "below"].mapM (find circleRegistry) = .ok [0, 1] := rfl
  have hclosure : circleRegistry.closure [0, 1] = [0, 1, 2, 3] := by cbv
  have hplan : of circleRegistry ["before", "below"] =
      .error (.cycle ["before", "left", "right"]) := by
    have hstuck : circleRegistry.orderOf (circleRegistry.closure [0, 1]) = .error [0, 2, 3] := by
      rw [hclosure, orderOf_circle]
    exact of_eq_cycle hfound hstuck
  have hrequest : ∀ id ∈ ["before", "below"], (circleRegistry.lookup id).isSome := by decide
  have hknown : ∀ id ∈ ["self"], (circleRegistry.lookup id).isSome := by decide
  obtain ⟨hcycle, -, -⟩ := of_cycle_exact hbuild ["before", "below"]
  obtain ⟨-, hunknown, -⟩ := of_cycle_exact hbuild ["self", "other"]
  exact ⟨hbuild, hplan, (hcycle hrequest).1.mp ⟨_, hplan⟩,
    hunknown ["self"] "other" [] rfl hknown rfl⟩

end Plan

end SchemaLint

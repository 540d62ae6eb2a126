import Mathlib.Data.List.Perm.Subperm
import SchemaLint.Engine.Scripted
import SchemaLint.Proofs.Closure

/-!
# The order of a plan

`Countdown.run` takes units one by one while it counts, for every unit, the dependencies that have
not been taken.  The invariant `Countdown.Inv` says what the counts are at every moment, also while
the dependents of the last unit are still being told: a count is the number of dependencies that
have not been taken plus the number of times the unit is still to be told.  Each step keeps it
(`Countdown.Inv.step`), so every run does.

* **`Countdown.waiting_pos`**: a unit that is told of a dependency has a count to lower, however
  often it names that dependency.
* `Registry.DependenciesFirst`: an order in which everything a unit depends on comes before it.
* `Registry.orderOf_eq_ok`: an order that was found has all units, each once, dependencies first.
* `Plan.of_eq_ok_iff`: when a request has a plan.
* **`Plan.of_dependencies_first`**: what a plan holds, and that finding it never leaves the registry
  or lowers a count of zero.
-/

namespace SchemaLint

/-- Everything that a unit of the list depends on stands before it. -/
def Registry.DependenciesFirst (r : Registry) (order : List Nat) : Prop :=
  ∀ before n after, order = before ++ n :: after → ∀ m, r.Depends n m → m ∈ before

/-- One more unit after all it depends on. -/
theorem Registry.DependenciesFirst.concat {r : Registry} {order : List Nat} {n : Nat}
    (h : r.DependenciesFirst order) (hn : ∀ m, r.Depends n m → m ∈ order) :
    r.DependenciesFirst (order ++ [n]) :=
  (inTurn_concat_iff (P := fun before k => ∀ m, r.Depends k m → m ∈ before)).mpr ⟨h, hn⟩

/-! ## Dependents -/

/-- A unit is told of a dependency as often as it names it. -/
theorem Registry.count_dependents {r : Registry} {units : List Nat} (hu : units.Nodup) {m : Nat}
    (hm : m ∈ units) (n : Nat) :
    (r.dependents units n).count m = (r.requiresOf m).count n := by
  induction units with
  | nil => cases hm
  | cons k rest ih =>
      obtain ⟨hk, hrest⟩ := List.nodup_cons.mp hu
      have hcons : r.dependents (k :: rest) n =
          ((r.requiresOf k).filter (· == n)).map (fun _ => k) ++ r.dependents rest n := rfl
      rw [hcons, List.count_append, List.map_const', List.count_replicate]
      rcases List.mem_cons.mp hm with rfl | hm
      · have hnone : (r.dependents rest n).count m = 0 := by
          rw [List.count_eq_zero]
          intro hmem
          simp only [Registry.dependents, List.mem_flatMap, List.mem_map] at hmem
          obtain ⟨l, hl, -, -, rfl⟩ := hmem
          exact hk hl
        rw [hnone, if_pos (beq_self_eq_true m), List.count, List.countP_eq_length_filter]
        rfl
      · have hne : ¬ (k == m) = true := by
          intro heq
          rw [beq_iff_eq] at heq
          exact hk (heq ▸ hm)
        rw [if_neg hne, ih hrest hm, Nat.zero_add]

/-- The dependents of a unit are looked for among given units. -/
theorem Registry.mem_of_mem_dependents {r : Registry} {units : List Nat} {n m : Nat}
    (h : m ∈ r.dependents units n) : m ∈ units := by
  simp only [Registry.dependents, List.mem_flatMap, List.mem_map] at h
  obtain ⟨k, hk, -, -, rfl⟩ := h
  exact hk

namespace Countdown

variable {r : Registry} {units : List Nat} {c c' : Countdown}

/-! ## Steps -/

/-- The steps of a countdown from one state to another. -/
def Steps (r : Registry) (units : List Nat) : Countdown → Countdown → Prop :=
  Relation.ReflTransGen fun c c' => c.step r units = some c'

/-- A countdown is run step by step until no step is left. -/
theorem steps_run (r : Registry) (units : List Nat) (c : Countdown) :
    Steps r units c (run r units c) ∧ (run r units c).step r units = none := by
  fun_induction run r units c with
  | case1 c h => exact ⟨.refl, h⟩
  | case2 c c' h ih => exact ⟨.head h ih.1, ih.2⟩

/-- Where steps lead that cannot go on, there the run ends. -/
theorem run_of_steps (h : Steps r units c c') (hend : c'.step r units = none) :
    run r units c = c' := by
  induction h using Relation.ReflTransGen.head_induction_on with
  | refl =>
      rw [run]
      split
      · rfl
      · rename_i hstep
        rw [hend] at hstep
        cases hstep
  | head hstep _ ih =>
      rw [run]
      split
      · rename_i hnone
        rw [hstep] at hnone
        cases hnone
      · rename_i next hnext
        rw [hstep] at hnext
        cases hnext
        exact ih

/-- What one step can do. -/
theorem step_cases (h : c.step r units = some c') :
    (∃ n untold, c.untold = n :: untold ∧ c' = { c.release n with untold := untold }) ∨
      ∃ n ready, c.untold = [] ∧ c.ready = n :: ready ∧
        c' = { c with
          ready := ready
          order := c.order ++ [n]
          untold := r.dependents units n } := by
  unfold step at h
  split at h
  · rename_i n untold huntold
    exact .inl ⟨n, untold, huntold, (Option.some.inj h).symm⟩
  · rename_i n ready huntold hready
    exact .inr ⟨n, ready, huntold, hready, (Option.some.inj h).symm⟩
  · cases h

/-- A countdown ends when nobody is left to be told and no unit is ready. -/
theorem step_eq_none_iff : c.step r units = none ↔ c.untold = [] ∧ c.ready = [] := by
  unfold step
  split <;> simp_all

/-- Lowering the count of one unit leaves the others. -/
theorem lookup_lower (n m : Nat) (waiting : List (Nat × Nat)) :
    (lower n waiting).lookup m =
      if m = n then (waiting.lookup m).map (· - 1) else waiting.lookup m := by
  induction waiting with
  | nil => simp [lower]
  | cons entry rest ih =>
      obtain ⟨k, count⟩ := entry
      have hcons : lower n ((k, count) :: rest) =
          (k, if k = n then count - 1 else count) :: lower n rest := rfl
      rw [hcons, List.lookup_cons, List.lookup_cons, ih]
      by_cases hmk : m = k
      · subst hmk
        simp only [beq_self_eq_true]
        split_ifs <;> simp
      · have hne : (m == k) = false := by simpa using hmk
        simp only [hne]

/-- The effect of telling a unit that has a count to lower. -/
theorem release_eq {n left : Nat} (h : c.waiting.lookup n = some (left + 1)) :
    c.release n =
      { c with
        waiting := lower n c.waiting
        ready := if left = 0 then insertUnit n c.ready else c.ready } := by
  unfold release
  rw [h]

/-! ## The invariant -/

/-- The dependencies of a unit that have not been taken, counted as often as it names them. -/
def missing (r : Registry) (order : List Nat) (n : Nat) : Nat :=
  (r.requiresOf n).countP (· ∉ order)

/-- Nothing is missing exactly if everything the unit depends on has been taken. -/
theorem missing_eq_zero_iff {order : List Nat} {n : Nat} :
    missing r order n = 0 ↔ ∀ m, r.Depends n m → m ∈ order := by
  unfold missing Registry.Depends
  rw [List.countP_eq_zero]
  simp

/-- Taking a new unit takes its occurrences from what is missing. -/
theorem missing_concat {order : List Nat} {n : Nat} (hn : n ∉ order) (m : Nat) :
    missing r (order ++ [n]) m + (r.requiresOf m).count n = missing r order m := by
  unfold missing
  induction r.requiresOf m with
  | nil => rfl
  | cons k rest ih =>
      rw [List.countP_cons, List.countP_cons, List.count_cons]
      by_cases hk : k = n
      · subst hk
        simp only [List.mem_append, List.mem_singleton, hn, or_true, not_true_eq_false,
          decide_false, decide_true, beq_self_eq_true, if_true, not_false_eq_true] at ih ⊢
        simp only [Bool.false_eq_true, if_false]
        omega
      · have hne : (k == n) = false := by simpa using hk
        simp only [List.mem_append, List.mem_singleton, hk, or_false, hne, Bool.false_eq_true,
          if_false] at ih ⊢
        omega

/-- The invariant of a countdown over some units. -/
structure Inv (r : Registry) (units : List Nat) (c : Countdown) : Prop where
  /-- A unit waits for what is missing and for what it is still to be told of. -/
  waiting : ∀ n ∈ units, c.waiting.lookup n = some (missing r c.order n + c.untold.count n)
  /-- The ready units are those that wait for nothing and have not been taken. -/
  ready : ∀ n, n ∈ c.ready ↔ n ∈ units ∧ n ∉ c.order ∧ c.waiting.lookup n = some 0
  /-- The ready units stand in the order of registration, each once. -/
  ready_sorted : c.ready.Pairwise (· < ·)
  /-- The units that have been taken wait for nothing. -/
  taken : ∀ n ∈ c.order, n ∈ units ∧ c.waiting.lookup n = some 0
  /-- No unit is taken twice. -/
  order_nodup : c.order.Nodup
  /-- Every unit was taken after all it depends on. -/
  order_first : r.DependenciesFirst c.order
  /-- Only units of the countdown are told. -/
  untold_mem : ∀ n ∈ c.untold, n ∈ units

/-- The counts at the start. -/
theorem lookup_start (r : Registry) {units : List Nat} {n : Nat} (hn : n ∈ units) :
    (start r units).waiting.lookup n = some (r.requiresOf n).length := by
  unfold start
  induction units with
  | nil => cases hn
  | cons m rest ih =>
      rw [List.map_cons, List.lookup_cons]
      by_cases hm : n = m
      · subst hm
        simp
      · have hne : (n == m) = false := by simpa using hm
        simp only [hne]
        exact ih ((List.mem_cons.mp hn).resolve_left hm)

/-- The invariant holds at the start. -/
theorem inv_start (r : Registry) {units : List Nat} (hu : units.Pairwise (· < ·)) :
    Inv r units (start r units) where
  waiting := by
    intro n hn
    rw [lookup_start r hn]
    simp [start, missing]
  ready := by
    intro n
    have hready : n ∈ (start r units).ready ↔ n ∈ units ∧ (r.requiresOf n).length = 0 := by
      simp [start]
    rw [hready]
    constructor
    · rintro ⟨hn, hlen⟩
      exact ⟨hn, by simp [start], by rw [lookup_start r hn, hlen]⟩
    · rintro ⟨hn, -, hlook⟩
      rw [lookup_start r hn] at hlook
      exact ⟨hn, Option.some.inj hlook⟩
  ready_sorted := hu.filter _
  taken := fun n hn => nomatch hn
  order_nodup := .nil
  order_first := fun before n after h => by simp [start] at h
  untold_mem := fun n hn => nomatch hn

/-- A unit that is to be told of a dependency has a count to lower. -/
theorem Inv.lookup_untold (hi : Inv r units c) {n : Nat} {untold : List Nat}
    (h : c.untold = n :: untold) :
    c.waiting.lookup n = some (missing r c.order n + untold.count n + 1) := by
  rw [hi.waiting n (hi.untold_mem n (by rw [h]; exact List.mem_cons_self)), h,
    List.count_cons_self, Nat.add_assoc]

/-- Telling a unit keeps the invariant. -/
theorem Inv.tell (hi : Inv r units c) {n : Nat} {untold : List Nat}
    (h : c.untold = n :: untold) : Inv r units { c.release n with untold := untold } := by
  have hlook := hi.lookup_untold h
  have hn : n ∈ units := hi.untold_mem n (by rw [h]; exact List.mem_cons_self)
  have htaken : n ∉ c.order := by
    intro hmem
    have hzero := (hi.taken n hmem).2
    rw [hlook] at hzero
    cases hzero
  -- Only the count of the unit that is told changes, and only it can become ready.
  have hother : ∀ m, m ≠ n → (lower n c.waiting).lookup m = c.waiting.lookup m := by
    intro m hm
    rw [lookup_lower, if_neg hm]
  have hself : (lower n c.waiting).lookup n = some (missing r c.order n + untold.count n) := by
    rw [lookup_lower, if_pos rfl, hlook]
    rfl
  rw [release_eq hlook]
  refine ⟨?_, ?_, ?_, ?_, hi.order_nodup, hi.order_first, ?_⟩
  · intro m hm
    by_cases hmn : m = n
    · subst hmn
      exact hself
    · show (lower n c.waiting).lookup m = _
      rw [hother m hmn, hi.waiting m hm, h, List.count_cons_of_ne (Ne.symm hmn)]
  · intro m
    show m ∈ (if missing r c.order n + untold.count n = 0 then insertUnit n c.ready else c.ready) ↔
      m ∈ units ∧ m ∉ c.order ∧ (lower n c.waiting).lookup m = some 0
    by_cases hmn : m = n
    · subst hmn
      have hnot : m ∉ c.ready := by
        intro hmem
        have hzero := ((hi.ready m).mp hmem).2.2
        rw [hlook] at hzero
        cases hzero
      rw [hself, Option.some.injEq]
      split_ifs with hleft
      · simp [mem_insertUnit, hn, htaken, hleft]
      · exact iff_of_false hnot fun hm => hleft hm.2.2
    · rw [hother m hmn, ← hi.ready m]
      split_ifs
      · rw [mem_insertUnit, or_iff_right hmn]
      · rfl
  · show (if missing r c.order n + untold.count n = 0 then insertUnit n c.ready
      else c.ready).Pairwise (· < ·)
    split_ifs
    · exact pairwise_insertUnit hi.ready_sorted
    · exact hi.ready_sorted
  · intro m hm
    obtain ⟨hmu, hzero⟩ := hi.taken m hm
    refine ⟨hmu, ?_⟩
    show (lower n c.waiting).lookup m = some 0
    rw [hother m (fun heq => htaken (heq ▸ hm)), hzero]
  · intro m hm
    exact hi.untold_mem m (by rw [h]; exact List.mem_cons_of_mem n hm)

/-- Taking the first ready unit keeps the invariant. -/
theorem Inv.take (hi : Inv r units c) (hu : units.Nodup) {n : Nat} {ready : List Nat}
    (huntold : c.untold = []) (h : c.ready = n :: ready) :
    Inv r units { c with
      ready := ready
      order := c.order ++ [n]
      untold := r.dependents units n } := by
  obtain ⟨hn, hnew, hzero⟩ := (hi.ready n).mp (by rw [h]; exact List.mem_cons_self)
  obtain ⟨hless, hsorted⟩ := List.pairwise_cons.mp (h ▸ hi.ready_sorted)
  refine ⟨?_, ?_, hsorted, ?_, ?_, ?_, fun m hm => Registry.mem_of_mem_dependents hm⟩
  · -- what leaves the missing dependencies of a unit is what it is now to be told of
    intro m hm
    show c.waiting.lookup m = _
    rw [hi.waiting m hm, huntold, Registry.count_dependents hu hm, missing_concat hnew]
    rfl
  · intro m
    show m ∈ ready ↔ m ∈ units ∧ m ∉ c.order ++ [n] ∧ c.waiting.lookup m = some 0
    rw [List.mem_append, List.mem_singleton]
    have hm := hi.ready m
    rw [h, List.mem_cons] at hm
    have hne : m ∈ ready → m ≠ n := fun hmem heq => absurd (hless m hmem) (by omega)
    tauto
  · intro m hm
    rcases List.mem_append.mp hm with hm | hm
    · exact hi.taken m hm
    · rw [List.mem_singleton] at hm
      subst hm
      exact ⟨hn, hzero⟩
  · rw [List.nodup_append]
    refine ⟨hi.order_nodup, List.nodup_singleton n, ?_⟩
    intro a ha b hb heq
    rw [List.mem_singleton] at hb
    exact hnew (hb ▸ heq ▸ ha)
  · refine hi.order_first.concat (missing_eq_zero_iff.mp ?_)
    have hwait := hi.waiting n hn
    rw [hzero, huntold, List.count_nil, Nat.add_zero, Option.some.injEq] at hwait
    exact hwait.symm

/-- **Every step keeps the invariant.** -/
theorem Inv.step (hi : Inv r units c) (hu : units.Nodup) (h : c.step r units = some c') :
    Inv r units c' := by
  obtain ⟨n, untold, huntold, rfl⟩ | ⟨n, ready, huntold, hready, rfl⟩ := step_cases h
  · exact hi.tell huntold
  · exact hi.take hu huntold hready

/-- Every state that a countdown comes to has the invariant. -/
theorem Inv.of_steps (hu : units.Pairwise (· < ·)) (h : Steps r units (start r units) c) :
    Inv r units c := by
  induction h with
  | refl => exact inv_start r hu
  | tail _ hstep ih => exact ih.step (hu.imp Nat.ne_of_lt) hstep

/-- **No count is ever lowered below zero**: whenever a unit is about to be told of a dependency,
it waits for at least one. -/
theorem waiting_pos (hu : units.Pairwise (· < ·)) (h : Steps r units (start r units) c) {n : Nat}
    {untold : List Nat} (huntold : c.untold = n :: untold) :
    ∃ left, c.waiting.lookup n = some (left + 1) :=
  ⟨_, (Inv.of_steps hu h).lookup_untold huntold⟩

end Countdown

/-! ## Plans -/

/-- **An order that was found is one of all the units**, each once, dependencies first. -/
theorem Registry.orderOf_eq_ok {r : Registry} {units order : List Nat}
    (hu : units.Pairwise (· < ·)) (h : r.orderOf units = .ok order) :
    order.Nodup ∧ (∀ n, n ∈ order ↔ n ∈ units) ∧ r.DependenciesFirst order := by
  have hi := Countdown.Inv.of_steps hu (Countdown.steps_run r units (.start r units)).1
  unfold orderOf at h
  simp only at h
  split at h
  · rename_i hlen
    cases h
    have hsub : (Countdown.run r units (.start r units)).order ⊆ units :=
      fun n hn => (hi.taken n hn).1
    have hperm := (hi.order_nodup.subperm hsub).perm_of_length_le (Nat.le_of_eq hlen.symm)
    exact ⟨hi.order_nodup, fun n => hperm.mem_iff, hi.order_first⟩
  · cases h

/-- Steps that take all units find an order. -/
theorem Registry.orderOf_of_steps {r : Registry} {units : List Nat} {c : Countdown}
    (h : Countdown.Steps r units (.start r units) c) (hend : c.step r units = none)
    (hall : c.order.length = units.length) : r.orderOf units = .ok c.order := by
  unfold orderOf
  rw [Countdown.run_of_steps h hend]
  exact if_pos hall

namespace Plan

variable {r : Registry} {request : List String} {plan : Plan}

/-- A unit that is asked for is found if it is registered. -/
theorem find_eq_ok_iff {id : String} {n : Nat} : find r id = .ok n ↔ r.lookup id = some n := by
  unfold find
  rcases r.lookup id with _ | m
  · simp
  · simp

/-- A request has a plan exactly if every id is registered and the units that are needed can be
ordered. -/
theorem of_eq_ok_iff :
    of r request = .ok plan ↔
      ∃ found, List.Forall₂ (fun id n => r.lookup id = some n) request found ∧
        plan.requested = found.eraseDups ∧
        r.orderOf (r.closure plan.requested) = .ok plan.order := by
  have hfound : ∀ found, request.mapM (find r) = .ok found ↔
      List.Forall₂ (fun id n => r.lookup id = some n) request found := by
    intro found
    rw [mapM_eq_ok_iff]
    simp only [find_eq_ok_iff]
  simp only [← hfound]
  unfold of
  rcases request.mapM (find r) with e | found
  · simp [bind, Except.bind]
  · obtain ⟨order, requested⟩ := plan
    rcases ho : r.orderOf (r.closure found.eraseDups) with stuck | order'
    · simp only [bind, Except.bind, ho, reduceCtorEq, Except.ok.injEq, false_iff]
      rintro ⟨found', rfl, rfl, horder⟩
      rw [ho] at horder
      cases horder
    · simp only [bind, Except.bind, ho, Except.ok.injEq, Plan.mk.injEq]
      constructor
      · rintro ⟨rfl, rfl⟩
        exact ⟨found, rfl, rfl, ho⟩
      · rintro ⟨found', rfl, rfl, horder⟩
        rw [ho] at horder
        exact ⟨Except.ok.inj horder, rfl⟩

/-- The order of a plan: the units that are reached from the requested ones, each once,
dependencies first. -/
theorem order_of_eq_ok (h : of r request = .ok plan) :
    plan.order.Nodup ∧ (∀ n, n ∈ plan.order ↔ n ∈ r.closure plan.requested) ∧
      r.DependenciesFirst plan.order := by
  obtain ⟨_, _, _, horder⟩ := of_eq_ok_iff.mp h
  exact Registry.orderOf_eq_ok (r.closure_sorted _) horder

/-- A plan has what its units depend on. -/
theorem mem_order_of_depends (h : of r request = .ok plan) {n m : Nat} (hn : n ∈ plan.order)
    (hm : r.Depends n m) : m ∈ plan.order := by
  rw [(order_of_eq_ok h).2.1] at hn ⊢
  exact Registry.mem_closure_of_depends hn hm

/-- The units that are found are those that the request denotes. -/
theorem map_lookup_of_found {found : List Nat}
    (h : List.Forall₂ (fun id n => r.lookup id = some n) request found) :
    request.map r.lookup = found.map some := by
  rw [← List.forall₂_eq_eq_eq, List.forall₂_map_left_iff, List.forall₂_map_right_iff]
  exact h

/-- What is found is what the ids denote. -/
theorem mem_found_iff {found : List Nat} {n : Nat}
    (h : List.Forall₂ (fun id n => r.lookup id = some n) request found) :
    n ∈ found ↔ ∃ id ∈ request, r.lookup id = some n := by
  have hmem : n ∈ found ↔ some n ∈ found.map some := by simp
  rw [hmem, ← map_lookup_of_found h, List.mem_map]

/-- What is looked up is registered. -/
theorem lt_of_found {found : List Nat}
    (h : List.Forall₂ (fun id n => r.lookup id = some n) request found) :
    ∀ n ∈ found.eraseDups, n < r.size := by
  intro n hn
  rw [List.mem_eraseDups, mem_found_iff h] at hn
  obtain ⟨id, -, hid⟩ := hn
  exact Registry.lookup_lt hid

/-- Every id of a planned request denotes a unit. -/
theorem exists_lookup (h : of r request = .ok plan) {id : String} (hid : id ∈ request) :
    ∃ n, r.lookup id = some n := by
  obtain ⟨found, hfound, -, -⟩ := of_eq_ok_iff.mp h
  have hmem : r.lookup id ∈ found.map some := by
    rw [← map_lookup_of_found hfound]
    exact List.mem_map_of_mem hid
  obtain ⟨n, -, hn⟩ := List.mem_map.mp hmem
  exact ⟨n, hn.symm⟩

/-- The requested units of a plan are those that the ids denote. -/
theorem mem_requested_iff (h : of r request = .ok plan) {n : Nat} :
    n ∈ plan.requested ↔ ∃ id ∈ request, r.lookup id = some n := by
  obtain ⟨found, hfound, hrequested, -⟩ := of_eq_ok_iff.mp h
  rw [hrequested, List.mem_eraseDups, mem_found_iff hfound]

/-- The units of a plan are those that the denoted units reach. -/
theorem mem_order_iff (h : of r request = .ok plan) {n : Nat} :
    n ∈ plan.order ↔ ∃ id ∈ request, ∃ root, r.lookup id = some root ∧ r.Reaches root n := by
  rw [(order_of_eq_ok h).2.1, Registry.mem_closure_iff]
  constructor
  · rintro ⟨root, hroot, hreaches⟩
    obtain ⟨id, hid, hlookup⟩ := (mem_requested_iff h).mp hroot
    exact ⟨id, hid, root, hlookup, hreaches⟩
  · rintro ⟨id, hid, root, hlookup, hreaches⟩
    exact ⟨root, (mem_requested_iff h).mpr ⟨id, hid, hlookup⟩, hreaches⟩

/-- Planning from some roots reads only entries of registered units and lowers only counts that
are not zero. -/
structure Safe (r : Registry) (roots : List Nat) : Prop where
  /-- Every unit whose entry the search reads is registered. -/
  queue_lt : ∀ s, Search.Steps r ⟨[], roots⟩ s → ∀ n ∈ s.queue, n < r.size
  /-- Every unit whose entry the countdown reads is registered. -/
  closure_lt : ∀ n ∈ r.closure roots, n < r.size
  /-- Every count that the countdown lowers is there and is not zero. -/
  waiting_pos : ∀ c, Countdown.Steps r (r.closure roots) (.start r (r.closure roots)) c →
    ∀ n untold, c.untold = n :: untold → ∃ left, c.waiting.lookup n = some (left + 1)

/-- **A plan holds what is needed, dependencies first.**  For any registry that was built, cyclic or
not, and any request: looking for a plan never reads past the registry and never lowers a count of
zero; and if a plan is found, its order lists the units that the requested ones reach, each once,
everything a unit depends on before it, and the requested units are those that the ids denote,
without later repeats. -/
theorem of_dependencies_first {units : List AnalysisUnit} (hr : Registry.build units = .ok r)
    (request : List String) :
    (∀ found, List.Forall₂ (fun id n => r.lookup id = some n) request found →
      Safe r found.eraseDups) ∧
    ∀ plan, of r request = .ok plan →
      plan.order.Nodup ∧
      (∀ n, n ∈ plan.order ↔ ∃ root ∈ plan.requested, r.Reaches root n) ∧
      r.DependenciesFirst plan.order ∧
      ∃ found, List.Forall₂ (fun id n => r.lookup id = some n) request found ∧
        plan.requested = found.eraseDups := by
  have hwf := Registry.wellFormed_of_build hr
  refine ⟨?_, ?_⟩
  · intro found hfound
    have hroots := lt_of_found hfound
    exact ⟨fun s hs => Search.queue_lt hwf hroots hs, hwf.closure_lt hroots,
      fun c hc n untold => Countdown.waiting_pos (r.closure_sorted _) hc⟩
  · intro plan hplan
    obtain ⟨found, hfound, hrequested, -⟩ := of_eq_ok_iff.mp hplan
    obtain ⟨hnodup, hmem, hfirst⟩ := order_of_eq_ok hplan
    refine ⟨hnodup, ?_, hfirst, found, hfound, hrequested⟩
    intro n
    rw [hmem, Registry.mem_closure_iff]

/-- Units of which one names a dependency twice, two share one, and one depends on itself. -/
def sampleUnits : List AnalysisUnit :=
  [Script.analysis {} "top" "" ["twice", "base"] .successor,
    Script.analysis {} "twice" "" ["base", "base"] .successor,
    Script.analysis {} "base" "" [] (.constant 1),
    Script.analysis {} "loop" "" ["loop", "base"] .successor]

/-- The registry of the sample units. -/
def sampleRegistry : Registry :=
  ⟨sampleUnits.zipWith Entry.mk [[1, 2], [2, 2], [], [3, 2]]⟩

/-- The unit without dependencies comes first; the one that names it twice is told of it twice. -/
theorem orderOf_sample : sampleRegistry.orderOf [0, 1, 2] = .ok [2, 1, 0] := by
  have hsteps : Countdown.Steps sampleRegistry [0, 1, 2] (.start sampleRegistry [0, 1, 2])
      ⟨[(0, 0), (1, 0), (2, 0)], [], [2, 1, 0], []⟩ :=
    .head rfl (.head rfl (.head rfl (.head rfl (.head rfl (.head rfl (.head rfl .refl))))))
  exact Registry.orderOf_of_steps hsteps rfl rfl

/-- A request with a repeated unit, and a unit that names a dependency twice. -/
theorem of_dependencies_first_sample :
    Registry.build sampleUnits = .ok sampleRegistry ∧
      of sampleRegistry ["top", "top", "base"] = .ok ⟨[2, 1, 0], [0, 2]⟩ ∧
      sampleRegistry.DependenciesFirst [2, 1, 0] ∧ Safe sampleRegistry [0, 2] := by
  have hbuild : Registry.build sampleUnits = .ok sampleRegistry := rfl
  have hfound : List.Forall₂ (fun id n => sampleRegistry.lookup id = some n)
      ["top", "top", "base"] [0, 0, 2] := .cons rfl (.cons rfl (.cons rfl .nil))
  have hclosure : sampleRegistry.closure [0, 2] = [0, 1, 2] := by cbv
  have hplan : of sampleRegistry ["top", "top", "base"] = .ok ⟨[2, 1, 0], [0, 2]⟩ :=
    of_eq_ok_iff.mpr ⟨_, hfound, rfl, by rw [hclosure, orderOf_sample]⟩
  obtain ⟨hsafe, hok⟩ := of_dependencies_first hbuild ["top", "top", "base"]
  exact ⟨hbuild, hplan, (hok _ hplan).2.2.1, hsafe _ hfound⟩

end Plan

end SchemaLint

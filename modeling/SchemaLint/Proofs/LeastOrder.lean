import Mathlib.Data.List.Lex
import Mathlib.Order.Bounds.Basic
import SchemaLint.Proofs.Cycle

/-!
# The order of a plan is the least one

Among the units that could be taken next a countdown takes the one that was registered first
(`Registry.Greedy`).  Where an order with dependencies first departs from a greedy one, the unit that
it has instead could have been taken too, so it was registered later: of all such orders, compared
unit by unit, a greedy one is the least (`Registry.Greedy.isLeast`).  Leaving out units that the rest
does not depend on leaves an order greedy (`Registry.Greedy.filter`), whatever else was ready at each
moment; and since there is only one least order, a plan is part of every larger one.

* `Registry.Available`, `Registry.Greedy`: units that could be taken next, and orders in which the
  first registered of them always is.
* **`Countdown.greedy_of_steps`**: every order that a countdown comes to is greedy.
* `Registry.Orders`: orders of some units, each once, dependencies first.
* **`Plan.of_least`**: a plan has the least order of what it needs, and a smaller plan has the same
  order restricted to what that needs.
-/

namespace SchemaLint

namespace Registry

variable {r : Registry} {needed : Nat → Prop} {order : List Nat}

/-! ## Greedy orders -/

/-- A unit that is needed and can be taken next, after the units that have been taken. -/
structure Available (r : Registry) (needed : Nat → Prop) (taken : List Nat) (n : Nat) : Prop where
  /-- It is one of those that are needed. -/
  needed : needed n
  /-- It has not been taken. -/
  new : n ∉ taken
  /-- All it depends on has been taken. -/
  dependencies : ∀ m, r.Depends n m → m ∈ taken

/-- No unit was available at the turn of another that was registered after it. -/
def Greedy (r : Registry) (needed : Nat → Prop) (order : List Nat) : Prop :=
  InTurn (fun before n => ∀ m, r.Available needed before m → n ≤ m) order

/-- An order of the units that are needed, each once, dependencies first. -/
structure Orders (r : Registry) (needed : Nat → Prop) (order : List Nat) : Prop where
  /-- No unit stands twice. -/
  nodup : order.Nodup
  /-- The units are those that are needed. -/
  mem_iff : ∀ n, n ∈ order ↔ needed n
  /-- Everything a unit depends on stands before it. -/
  first : r.DependenciesFirst order

/-- At its turn every unit of an order is available. -/
theorem Orders.available (h : r.Orders needed order) {before after : List Nat} {n : Nat}
    (heq : order = before ++ n :: after) : r.Available needed before n where
  needed := (h.mem_iff n).mp (by simp [heq])
  new := by
    have hnodup := h.nodup
    rw [heq, List.nodup_append] at hnodup
    exact fun hmem => hnodup.2.2 n hmem n List.mem_cons_self rfl
  dependencies := h.first before n after heq

/-- Two orders of the same units have the same length. -/
theorem Orders.length_eq {other : List Nat} (h : r.Orders needed order)
    (hother : r.Orders needed other) : order.length = other.length := by
  have hperm := (List.perm_ext_iff_of_nodup h.nodup hother.nodup).mpr fun n => by
    rw [h.mem_iff, hother.mem_iff]
  exact hperm.length_eq

/-- Lists are compared where they first differ. -/
theorem le_of_first_difference {l l' : List Nat} (hlen : l.length = l'.length)
    (h : ∀ before n after m after', l = before ++ n :: after → l' = before ++ m :: after' → n ≤ m) :
    l ≤ l' := by
  induction l generalizing l' with
  | nil =>
      rw [List.eq_nil_of_length_eq_zero hlen.symm]
  | cons n l ih =>
      obtain ⟨m, l', rfl⟩ := List.exists_cons_of_length_eq_add_one hlen.symm
      rcases Nat.lt_or_eq_of_le (h [] n l m l' rfl rfl) with hlt | rfl
      · exact le_of_lt (List.Lex.rel hlt)
      · refine List.cons_le_cons n (ih (Nat.succ.inj hlen) ?_)
        rintro before k after m after' rfl rfl
        exact h (n :: before) k after m after' rfl rfl

/-- **A greedy order is the least of all orders of its units.** -/
theorem Greedy.isLeast (h : r.Greedy needed order) (horder : r.Orders needed order) :
    IsLeast {other | r.Orders needed other} order := by
  refine ⟨horder, fun other hother => ?_⟩
  refine le_of_first_difference (horder.length_eq hother) ?_
  intro before n after m after' hn hm
  exact h before n after hn m (Orders.available hother hm)

/-! ## Some of the units -/

/-- Where a unit stands among those that are kept, it stands among all after the kept ones before
it. -/
theorem exists_split_of_filter {keep : Nat → Prop} [DecidablePred keep] {before after : List Nat}
    {n : Nat} (h : order.filter keep = before ++ n :: after) :
    keep n ∧ ∃ front back, order = front ++ n :: back ∧ front.filter keep = before := by
  obtain ⟨front, rest, rfl, hfront, hrest⟩ := List.filter_eq_append_iff.mp h
  obtain ⟨idle, back, rfl, hidle, hn, -⟩ := List.filter_eq_cons_iff.mp hrest
  refine ⟨by simpa using hn, front ++ idle, back, by simp, ?_⟩
  rw [List.filter_append, hfront, List.filter_eq_nil_iff.mpr hidle, List.append_nil]

section

variable {keep : Nat → Prop} [DecidablePred keep]

/-- Units that depend on none that is left out stay ordered. -/
theorem Orders.filter (h : r.Orders needed order) (hsub : ∀ n, keep n → needed n)
    (hclosed : ∀ n, keep n → ∀ m, r.Depends n m → keep m) :
    r.Orders keep (order.filter keep) where
  nodup := h.nodup.filter _
  mem_iff := by
    intro n
    rw [List.mem_filter, decide_eq_true_iff, h.mem_iff]
    exact and_iff_right_of_imp (hsub n)
  first := by
    intro before n after heq m hm
    obtain ⟨hn, front, back, hsplit, rfl⟩ := exists_split_of_filter heq
    exact List.mem_filter.mpr
      ⟨h.first front n back hsplit m hm, decide_eq_true (hclosed n hn m hm)⟩

/-- **Leaving out units leaves an order greedy**: one that is kept and available among the kept ones
was available among all. -/
theorem Greedy.filter (h : r.Greedy needed order) (hsub : ∀ n, keep n → needed n) :
    r.Greedy keep (order.filter keep) := by
  intro before n after heq m hm
  obtain ⟨-, front, back, hsplit, rfl⟩ := exists_split_of_filter heq
  refine h front n back hsplit m ⟨hsub m hm.needed, fun hmem => hm.new ?_, fun k hk => ?_⟩
  · exact List.mem_filter.mpr ⟨hmem, decide_eq_true hm.needed⟩
  · exact List.mem_of_mem_filter (hm.dependencies k hk)

end

end Registry

/-! ## Countdowns -/

namespace Countdown

variable {r : Registry} {units : List Nat} {c c' : Countdown}

/-- Telling one dependent that a unit is done does not take up any unit. -/
theorem order_release (c : Countdown) (n : Nat) : (c.release n).order = c.order := by
  unfold release
  split <;> rfl

/-- When all are told, the ready units are those that are available. -/
theorem Inv.mem_ready_iff (hi : Inv r units c) (huntold : c.untold = []) {n : Nat} :
    n ∈ c.ready ↔ r.Available (· ∈ units) c.order n := by
  have hzero : ∀ n ∈ units, c.waiting.lookup n = some 0 ↔ ∀ m, r.Depends n m → m ∈ c.order := by
    intro n hn
    rw [hi.waiting n hn, huntold, List.count_nil, Nat.add_zero, Option.some.injEq,
      missing_eq_zero_iff]
  rw [hi.ready n]
  constructor
  · rintro ⟨hn, hnew, hlookup⟩
    exact ⟨hn, hnew, (hzero n hn).mp hlookup⟩
  · rintro ⟨hn, hnew, hdependencies⟩
    exact ⟨hn, hnew, (hzero n hn).mpr hdependencies⟩

/-- Every step leaves the order greedy: the unit that is taken is the first of the ready ones. -/
theorem greedy_step (hi : Inv r units c) (hg : r.Greedy (· ∈ units) c.order)
    (h : c.step r units = some c') : r.Greedy (· ∈ units) c'.order := by
  obtain ⟨n, untold, -, rfl⟩ | ⟨n, ready, huntold, hready, rfl⟩ := step_cases h
  · show r.Greedy (· ∈ units) (c.release n).order
    rw [order_release]
    exact hg
  · refine inTurn_concat_iff.mpr ⟨hg, fun m hm => ?_⟩
    have hmem := (hi.mem_ready_iff huntold).mpr hm
    obtain ⟨hless, -⟩ := List.pairwise_cons.mp (hready ▸ hi.ready_sorted)
    rw [hready, List.mem_cons] at hmem
    rcases hmem with rfl | hmem
    · exact le_rfl
    · exact Nat.le_of_lt (hless m hmem)

/-- **Every order that a countdown comes to is greedy.** -/
theorem greedy_of_steps (hu : units.Pairwise (· < ·)) (h : Steps r units (start r units) c) :
    r.Greedy (· ∈ units) c.order := by
  induction h with
  | refl => exact inTurn_nil
  | tail hsteps hstep ih => exact greedy_step (Inv.of_steps hu hsteps) ih hstep

end Countdown

/-- An order that was found is greedy. -/
theorem Registry.greedy_of_orderOf {r : Registry} {units order : List Nat}
    (hu : units.Pairwise (· < ·)) (h : r.orderOf units = .ok order) :
    r.Greedy (· ∈ units) order := by
  have hgreedy := Countdown.greedy_of_steps hu (Countdown.steps_run r units (.start r units)).1
  unfold orderOf at h
  simp only at h
  split at h
  · cases h
    exact hgreedy
  · cases h

/-! ## Plans -/

namespace Plan

variable {r : Registry} {request : List String} {plan : Plan}

/-- The order of a plan is one of the needed units. -/
theorem orders_of_eq_ok (h : of r request = .ok plan) :
    r.Orders (Needs r request) plan.order := by
  obtain ⟨hnodup, -, hfirst⟩ := order_of_eq_ok h
  exact ⟨hnodup, fun n => mem_order_iff h, hfirst⟩

/-- The order of a plan is greedy. -/
theorem greedy_of_eq_ok (h : of r request = .ok plan) :
    r.Greedy (Needs r request) plan.order := by
  obtain ⟨_, _, _, horder⟩ := of_eq_ok_iff.mp h
  have hgreedy := Registry.greedy_of_orderOf (r.closure_sorted _) horder
  have hneeds : (· ∈ r.closure plan.requested) = Needs r request := by
    funext n
    rw [← (order_of_eq_ok h).2.1 n]
    exact propext (mem_order_iff h)
  rwa [hneeds] at hgreedy

/-- What a needed unit depends on is needed. -/
theorem Needs.of_depends {n m : Nat} (h : Needs r request n) (hm : r.Depends n m) :
    Needs r request m := by
  obtain ⟨id, hid, root, hroot, hreaches⟩ := h
  exact ⟨id, hid, root, hroot, hreaches.tail hm⟩

/-- A request that asks for needed units only needs nothing else. -/
theorem Needs.mono {larger : List String} (h : of r request = .ok plan)
    (hsub : ∀ n ∈ plan.requested, Needs r larger n) {n : Nat} (hn : Needs r request n) :
    Needs r larger n := by
  obtain ⟨id, hid, root, hroot, hreaches⟩ := hn
  obtain ⟨id', hid', root', hroot', hreaches'⟩ :=
    hsub root ((mem_requested_iff h).mpr ⟨id, hid, hroot⟩)
  exact ⟨id', hid', root', hroot', hreaches'.trans hreaches⟩

open Classical in
/-- **A plan has the least order, and larger requests keep it.**  For any registry and any two
requests that have plans, where all units that the first asks for are needed by the second: the order
of the first plan is that of the second restricted to the units that the first request needs.  And
the order of the second plan is the least, compared unit by unit by their numbers, of all orders of
the units it needs that have each once and dependencies first. -/
theorem of_least {larger : List String} {largerPlan : Plan} (h : of r request = .ok plan)
    (hlarger : of r larger = .ok largerPlan) (hsub : ∀ n ∈ plan.requested, Needs r larger n) :
    plan.order = largerPlan.order.filter (Needs r request) ∧
      IsLeast {order | r.Orders (Needs r larger) order} largerPlan.order := by
  have horders := orders_of_eq_ok hlarger
  have hgreedy := greedy_of_eq_ok hlarger
  have hneeds : ∀ n, Needs r request n → Needs r larger n := fun n => Needs.mono h hsub
  refine ⟨?_, hgreedy.isLeast horders⟩
  have hpart := (hgreedy.filter hneeds).isLeast
    (horders.filter hneeds fun n hn m => hn.of_depends)
  exact ((greedy_of_eq_ok h).isLeast (orders_of_eq_ok h)).unique hpart

/-- A unit that is registered before the one it depends on, and one that nothing depends on. -/
def turnUnits : List AnalysisUnit :=
  [Script.analysis {} "late" "" ["early"] .successor,
    Script.analysis {} "alone" "" [] (.constant 1),
    Script.analysis {} "early" "" [] (.constant 1)]

/-- The registry of these units. -/
def turnRegistry : Registry :=
  ⟨turnUnits.zipWith Entry.mk [[2], [], []]⟩

open Classical in
/-- The unit that nothing depends on comes first where it is asked for, and makes no difference to
the others. -/
theorem of_least_sample :
    Registry.build turnUnits = .ok turnRegistry ∧
      of turnRegistry ["late"] = .ok ⟨[2, 0], [0]⟩ ∧
      of turnRegistry ["alone", "late"] = .ok ⟨[1, 2, 0], [1, 0]⟩ ∧
      [2, 0] = [1, 2, 0].filter (Needs turnRegistry ["late"]) ∧
      IsLeast {order | turnRegistry.Orders (Needs turnRegistry ["alone", "late"]) order}
        [1, 2, 0] := by
  have hsteps : Countdown.Steps turnRegistry [0, 2] (.start turnRegistry [0, 2])
      ⟨[(0, 0), (2, 0)], [], [2, 0], []⟩ :=
    .head rfl (.head rfl (.head rfl .refl))
  have hlargerSteps : Countdown.Steps turnRegistry [0, 1, 2] (.start turnRegistry [0, 1, 2])
      ⟨[(0, 0), (1, 0), (2, 0)], [], [1, 2, 0], []⟩ :=
    .head rfl (.head rfl (.head rfl (.head rfl .refl)))
  have hclosure : turnRegistry.closure [0] = [0, 2] := by cbv
  have hlargerClosure : turnRegistry.closure [1, 0] = [0, 1, 2] := by cbv
  have hplan : of turnRegistry ["late"] = .ok ⟨[2, 0], [0]⟩ :=
    of_eq_ok_iff.mpr ⟨[0], .cons rfl .nil, rfl, by
      rw [hclosure, Registry.orderOf_of_steps hsteps rfl rfl]⟩
  have hlargerPlan : of turnRegistry ["alone", "late"] = .ok ⟨[1, 2, 0], [1, 0]⟩ :=
    of_eq_ok_iff.mpr ⟨[1, 0], .cons rfl (.cons rfl .nil), rfl, by
      rw [hlargerClosure, Registry.orderOf_of_steps hlargerSteps rfl rfl]⟩
  have hneeds : ∀ n ∈ [0], Needs turnRegistry ["alone", "late"] n := by
    intro n hn
    rw [List.mem_singleton] at hn
    subst hn
    exact ⟨"late", by decide, 0, rfl, .refl⟩
  exact ⟨rfl, hplan, hlargerPlan, of_least hplan hlargerPlan hneeds⟩

end Plan

end SchemaLint

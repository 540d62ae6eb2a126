import SchemaLint.Engine.Registry

/-!
# Plans

A plan is an order in which the requested units and all they depend on can be run: each unit comes
after the units it depends on, and of several that could come next the one that was registered
first.

* `Search`: looking for the requested units and all they depend on, one unit at a time.
* `Registry.closure`: what the search finds.
* `Countdown`: taking units one at a time while counting the dependencies that others still wait
  for.
* `Registry.orderOf`: the order of all units, or the units that can never be taken.
* `Plan.of`: the plan of a request.
-/

namespace SchemaLint

/-- A unit put at its place among units in the order of registration, unless it is there. -/
def insertUnit (n : Nat) : List Nat → List Nat
  | [] => [n]
  | m :: rest =>
    if n < m then n :: m :: rest
    else if n = m then m :: rest
    else m :: insertUnit n rest

/-- Inserting a unit adds it and keeps the others. -/
theorem mem_insertUnit {n m : Nat} {units : List Nat} :
    m ∈ insertUnit n units ↔ m = n ∨ m ∈ units := by
  fun_induction insertUnit n units <;> grind

/-- At most one unit more is there after an insertion. -/
theorem length_insertUnit_le (n : Nat) (units : List Nat) :
    (insertUnit n units).length ≤ units.length + 1 := by
  fun_induction insertUnit n units <;> simp_all

/-! ## Closure -/

/-- A search for units and all they depend on. -/
structure Search where
  /-- The units found so far, in the order of registration. -/
  found : List Nat
  /-- The units still to be looked at. -/
  queue : List Nat
deriving DecidableEq, Repr

namespace Search

/-- One step of a search: the next unit of the queue is found, and if it is new, what it depends
on joins the queue. -/
def step (r : Registry) (s : Search) : Option Search :=
  match s.queue with
  | [] => none
  | n :: queue =>
    if s.found.contains n then some ⟨s.found, queue⟩
    else some ⟨insertUnit n s.found, queue ++ r.requiresOf n⟩

/-- The units that have not been found. -/
def unfound (r : Registry) (s : Search) : List Nat :=
  (List.range r.size).filter fun n => !s.found.contains n

/-- Finding a unit leaves the others. -/
theorem unfound_insertUnit (r : Registry) (s : Search) (n : Nat) (queue : List Nat) :
    unfound r ⟨insertUnit n s.found, queue⟩ = (s.unfound r).filter (· != n) := by
  unfold unfound
  rw [List.filter_filter]
  refine List.filter_congr fun m _ => ?_
  rw [Bool.eq_iff_iff]
  simp [mem_insertUnit]

/-- Each step finds a new unit or shortens the queue: a unit that is not registered depends on
nothing. -/
theorem step_decreases {r : Registry} {s s' : Search} (h : s.step r = some s') :
    (s'.unfound r).length < (s.unfound r).length ∨
      (s'.unfound r).length = (s.unfound r).length ∧ s'.queue.length < s.queue.length := by
  unfold step at h
  split at h
  · simp at h
  · rename_i n queue hqueue
    split at h
    · simp only [Option.some.injEq] at h
      subst h
      exact .inr ⟨rfl, by simp [hqueue]⟩
    · rename_i hnew
      simp only [Option.some.injEq] at h
      subst h
      rw [unfound_insertUnit]
      by_cases hn : n < r.size
      · left
        rw [List.length_filter_lt_length_iff_exists]
        exact ⟨n, by simpa [unfound, hn] using hnew, by simp⟩
      · have hnone : r.entries[n]? = none := by simpa [Registry.size] using hn
        have hempty : r.requiresOf n = [] := by simp [Registry.requiresOf, hnone]
        refine .inr ⟨?_, by simp [hqueue, hempty]⟩
        rw [List.length_filter_eq_length_iff]
        intro m hm
        have hlt : m < r.size := (by simpa [unfound] using hm : m < r.size ∧ _).1
        have hne : m ≠ n := by omega
        simpa using hne

/-- The search when it has come to its end. -/
def run (r : Registry) (s : Search) : Search :=
  match _h : s.step r with
  | none => s
  | some s' => run r s'
termination_by ((s.unfound r).length, s.queue.length)
decreasing_by
  rcases step_decreases _h with hlt | ⟨heq, hlt⟩
  · exact Prod.Lex.left _ _ hlt
  · rw [heq]
    exact Prod.Lex.right _ hlt

end Search

/-- Some units and all they depend on, in the order of registration. -/
def Registry.closure (r : Registry) (units : List Nat) : List Nat :=
  (Search.run r ⟨[], units⟩).found

/-! ## Order -/

/-- The units among `units` that depend on a unit, each as often as it names it. -/
def Registry.dependents (r : Registry) (units : List Nat) (n : Nat) : List Nat :=
  units.flatMap fun m => ((r.requiresOf m).filter (· == n)).map fun _ => m

/-- Units that are taken one by one, each when all it depends on has been taken. -/
structure Countdown where
  /-- Every unit with the number of dependencies that it still waits for. -/
  waiting : List (Nat × Nat)
  /-- The units that wait for nothing and have not been taken, in the order of registration. -/
  ready : List Nat
  /-- The units that have been taken, in order. -/
  order : List Nat
  /-- The dependents of the last unit taken that are still to be told of it. -/
  untold : List Nat
deriving DecidableEq, Repr

namespace Countdown

/-- The start: each unit waits for all its dependencies. -/
def start (r : Registry) (units : List Nat) : Countdown where
  waiting := units.map fun n => (n, (r.requiresOf n).length)
  ready := units.filter fun n => (r.requiresOf n).length == 0
  order := []
  untold := []

/-- One less for a unit to wait for. -/
def lower (n : Nat) (waiting : List (Nat × Nat)) : List (Nat × Nat) :=
  waiting.map fun (m, count) => (m, if m = n then count - 1 else count)

/-- A unit waits for one dependency less; it is ready if that was the last. -/
def release (c : Countdown) (n : Nat) : Countdown :=
  match c.waiting.lookup n with
  | some (left + 1) =>
    { c with
      waiting := lower n c.waiting
      ready := if left = 0 then insertUnit n c.ready else c.ready }
  | _ => c

/-- One step of a countdown: a dependent of the last unit is told of it; when all are told, the
first ready unit is taken. -/
def step (r : Registry) (units : List Nat) (c : Countdown) : Option Countdown :=
  match c.untold, c.ready with
  | n :: untold, _ => some { c.release n with untold := untold }
  | [], n :: ready =>
    some { c with
      ready := ready
      order := c.order ++ [n]
      untold := r.dependents units n }
  | [], [] => none

/-- Number of dependencies that units wait for. -/
def total : List (Nat × Nat) → Nat
  | [] => 0
  | (_, count) :: rest => count + total rest

/-- Lowering one count does not raise the sum of all. -/
theorem total_lower_le (n : Nat) (waiting : List (Nat × Nat)) :
    total (lower n waiting) ≤ total waiting := by
  induction waiting with
  | nil => simp [lower]
  | cons entry rest ih =>
    obtain ⟨m, count⟩ := entry
    simp only [lower, List.map_cons, total] at ih ⊢
    split
    · exact Nat.add_le_add (Nat.sub_le count 1) ih
    · exact Nat.add_le_add_left ih count

/-- Lowering a count that is not zero lowers the sum; the countdown ends because of it. -/
theorem total_lower_lt {n left : Nat} {waiting : List (Nat × Nat)}
    (h : waiting.lookup n = some (left + 1)) : total (lower n waiting) < total waiting := by
  induction waiting with
  | nil => simp at h
  | cons entry rest ih =>
    obtain ⟨m, count⟩ := entry
    have hle := total_lower_le n rest
    by_cases hm : n = m
    · subst hm
      simp only [List.lookup_cons_self, Option.some.injEq] at h
      simp only [lower, List.map_cons, total, if_true] at hle ⊢
      omega
    · have hne : (n == m) = false := by simpa using hm
      rw [List.lookup_cons, hne] at h
      have hlt := ih h
      simp only [lower, List.map_cons, total, if_neg (Ne.symm hm)] at hlt ⊢
      omega

/-- A unit becomes ready only when a count drops, so counting each wait twice makes every step go
down, except for those that only tell a unit what it did not wait for. -/
theorem step_decreases {r : Registry} {units : List Nat} {c c' : Countdown}
    (h : c.step r units = some c') :
    2 * total c'.waiting + c'.ready.length < 2 * total c.waiting + c.ready.length ∨
      2 * total c'.waiting + c'.ready.length = 2 * total c.waiting + c.ready.length ∧
        c'.untold.length < c.untold.length := by
  unfold step at h
  split at h
  · rename_i n untold huntold
    simp only [Option.some.injEq] at h
    subst h
    unfold release
    split
    · rename_i left hlookup
      have htotal := total_lower_lt hlookup
      have hready := length_insertUnit_le n c.ready
      left
      simp only
      split <;> omega
    · exact .inr ⟨rfl, by simp [huntold]⟩
  · rename_i n ready huntold hready
    simp only [Option.some.injEq] at h
    subst h
    left
    simp [hready]
  · simp at h

/-- The countdown when no step is left. -/
def run (r : Registry) (units : List Nat) (c : Countdown) : Countdown :=
  match _h : c.step r units with
  | none => c
  | some c' => run r units c'
termination_by (2 * total c.waiting + c.ready.length, c.untold.length)
decreasing_by
  rcases step_decreases _h with hlt | ⟨heq, hlt⟩
  · exact Prod.Lex.left _ _ hlt
  · rw [heq]
    exact Prod.Lex.right _ hlt

end Countdown

/-- The order in which units can be taken; if some can never be, those. -/
def Registry.orderOf (r : Registry) (units : List Nat) : Except (List Nat) (List Nat) :=
  let order := (Countdown.run r units (.start r units)).order
  if order.length = units.length then .ok order
  else .error (units.filter fun n => !order.contains n)

/-! ## Plans -/

/-- The units of a run in the order in which they run. -/
structure Plan where
  /-- The requested units and all they depend on. -/
  order : List Nat
  /-- The requested units, in the order of the request. -/
  requested : List Nat
deriving DecidableEq, Repr

namespace Plan

/-- The unit that a requested id denotes. -/
def find (r : Registry) (id : String) : Except ConfigurationError Nat :=
  match r.lookup id with
  | some n => .ok n
  | none => .error (.unknownUnit id)

/-- The plan of a request. -/
def of (r : Registry) (request : List String) : Except ConfigurationError Plan := do
  let found ← request.mapM (find r)
  let requested := found.eraseDups
  match r.orderOf (r.closure requested) with
  | .ok order => .ok ⟨order, requested⟩
  | .error stuck => .error (.cycle (stuck.map r.idOf))

end Plan

end SchemaLint

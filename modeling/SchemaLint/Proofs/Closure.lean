import Mathlib.Data.List.Pairwise
import SchemaLint.Engine.Plan
import SchemaLint.Proofs.Registry

/-!
# What the search for dependencies finds

The search of `Search.run` takes one unit at a time from its queue.  Its invariant `Search.Inv`
says that everything found or queued is reached from the roots, and that everything a found unit
depends on is found or queued; each step keeps it (`Search.Inv.step`), so every run does.

* **`Registry.mem_closure_iff`**: the search finds exactly the units that are reached from the
  roots, whatever cycles there are.
* `Registry.closure_sorted`: in the order of registration, and each once.
* `Search.queue_lt`: every unit that is ever queued is registered.
-/

namespace SchemaLint

/-- Putting a unit at its place keeps the order of registration. -/
theorem pairwise_insertUnit {n : Nat} {units : List Nat} (h : units.Pairwise (· < ·)) :
    (insertUnit n units).Pairwise (· < ·) := by
  induction units with
  | nil => simp [insertUnit]
  | cons m rest ih =>
      obtain ⟨hm, hrest⟩ := List.pairwise_cons.mp h
      unfold insertUnit
      split_ifs with hlt heq
      · refine List.pairwise_cons.mpr ⟨?_, h⟩
        intro k hk
        rcases List.mem_cons.mp hk with rfl | hk
        · exact hlt
        · exact Nat.lt_trans hlt (hm k hk)
      · exact h
      · refine List.pairwise_cons.mpr ⟨?_, ih hrest⟩
        intro k hk
        rcases mem_insertUnit.mp hk with rfl | hk
        · omega
        · exact hm k hk

namespace Search

variable {r : Registry} {roots : List Nat} {s s' : Search}

/-- The steps of a search from one state to another. -/
def Steps (r : Registry) : Search → Search → Prop :=
  Relation.ReflTransGen fun s s' => s.step r = some s'

/-- A search is run step by step until no step is left. -/
theorem steps_run (r : Registry) (s : Search) :
    Steps r s (run r s) ∧ (run r s).step r = none := by
  fun_induction run r s with
  | case1 s h => exact ⟨.refl, h⟩
  | case2 s s' h ih => exact ⟨.head h ih.1, ih.2⟩

/-- What one step can do. -/
theorem step_cases (h : s.step r = some s') :
    ∃ n queue, s.queue = n :: queue ∧
      (n ∈ s.found ∧ s' = ⟨s.found, queue⟩ ∨
        n ∉ s.found ∧ s' = ⟨insertUnit n s.found, queue ++ r.requiresOf n⟩) := by
  unfold step at h
  split at h
  · cases h
  · rename_i n queue hqueue
    refine ⟨n, queue, hqueue, ?_⟩
    split at h
    · rename_i hn
      exact .inl ⟨by simpa using hn, (Option.some.inj h).symm⟩
    · rename_i hn
      exact .inr ⟨by simpa using hn, (Option.some.inj h).symm⟩

/-- The invariant of a search from some roots. -/
structure Inv (r : Registry) (roots : List Nat) (s : Search) : Prop where
  /-- What is found stands in the order of registration, each unit once. -/
  sorted : s.found.Pairwise (· < ·)
  /-- The roots are found or queued. -/
  started : ∀ n ∈ roots, n ∈ s.found ∨ n ∈ s.queue
  /-- Nothing is found or queued that the roots do not reach. -/
  reached : ∀ n, n ∈ s.found ∨ n ∈ s.queue → ∃ root ∈ roots, r.Reaches root n
  /-- What a found unit depends on is found or queued. -/
  closed : ∀ n ∈ s.found, ∀ m, r.Depends n m → m ∈ s.found ∨ m ∈ s.queue

/-- The invariant holds at the start. -/
theorem inv_start (r : Registry) (roots : List Nat) : Inv r roots ⟨[], roots⟩ where
  sorted := .nil
  started := fun n hn => .inr hn
  reached := by
    intro n hn
    rcases hn with hn | hn
    · cases hn
    · exact ⟨n, hn, .refl⟩
  closed := fun n hn => nomatch hn

/-- **Every step keeps the invariant.** -/
theorem Inv.step (hi : Inv r roots s) (h : s.step r = some s') : Inv r roots s' := by
  obtain ⟨n, queue, hqueue, ⟨hn, rfl⟩ | ⟨hn, rfl⟩⟩ := step_cases h
  · -- the unit was found before: it only leaves the queue
    have hdrop : ∀ m, m ∈ s.found ∨ m ∈ s.queue → m ∈ s.found ∨ m ∈ queue := by
      intro m hm
      rw [hqueue, List.mem_cons] at hm
      rcases hm with hm | rfl | hm
      · exact .inl hm
      · exact .inl hn
      · exact .inr hm
    refine ⟨hi.sorted, fun m hm => hdrop m (hi.started m hm), ?_,
      fun m hm k hk => hdrop k (hi.closed m hm k hk)⟩
    intro m hm
    apply hi.reached m
    rw [hqueue]
    exact hm.imp_right (List.mem_cons_of_mem n)
  · -- the unit is new: it is found and its dependencies are queued
    have hmove : ∀ m, m ∈ s.found ∨ m ∈ s.queue →
        m ∈ insertUnit n s.found ∨ m ∈ queue ++ r.requiresOf n := by
      intro m hm
      rw [hqueue, List.mem_cons] at hm
      rw [mem_insertUnit, List.mem_append]
      tauto
    refine ⟨pairwise_insertUnit hi.sorted, fun m hm => hmove m (hi.started m hm), ?_, ?_⟩
    · intro m hm
      have hnq : n ∈ s.found ∨ n ∈ s.queue := .inr (by rw [hqueue]; exact List.mem_cons_self)
      rw [mem_insertUnit, List.mem_append] at hm
      rcases hm with (rfl | hm) | hm | hm
      · exact hi.reached m hnq
      · exact hi.reached m (.inl hm)
      · exact hi.reached m (.inr (by rw [hqueue]; exact List.mem_cons_of_mem n hm))
      · obtain ⟨root, hroot, hreach⟩ := hi.reached n hnq
        exact ⟨root, hroot, hreach.tail hm⟩
    · intro m hm k hk
      rcases mem_insertUnit.mp hm with rfl | hm
      · exact .inr (List.mem_append_right queue hk)
      · exact hmove k (hi.closed m hm k hk)

/-- Every state that a search comes to has the invariant. -/
theorem Inv.of_steps (h : Steps r ⟨[], roots⟩ s) : Inv r roots s := by
  induction h with
  | refl => exact inv_start r roots
  | tail _ hstep ih => exact ih.step hstep

/-- Every unit that is ever queued is registered, if the roots are. -/
theorem queue_lt (hr : r.WellFormed) (hroots : ∀ n ∈ roots, n < r.size)
    (h : Steps r ⟨[], roots⟩ s) : ∀ n ∈ s.queue, n < r.size := by
  intro n hn
  obtain ⟨root, hroot, hreach⟩ := (Inv.of_steps h).reached n (.inr hn)
  exact hr.reaches_lt (hroots root hroot) hreach

end Search

namespace Registry

variable {r : Registry} {roots : List Nat}

/-- A closure is sorted by the numbers of its units. -/
theorem closure_sorted (r : Registry) (roots : List Nat) :
    (r.closure roots).Pairwise (· < ·) :=
  (Search.Inv.of_steps (Search.steps_run r ⟨[], roots⟩).1).sorted

/-- **The search finds exactly what the roots reach.** -/
theorem mem_closure_iff {n : Nat} :
    n ∈ r.closure roots ↔ ∃ root ∈ roots, r.Reaches root n := by
  obtain ⟨hsteps, hend⟩ := Search.steps_run r ⟨[], roots⟩
  have hi := Search.Inv.of_steps hsteps
  have hqueue : (Search.run r ⟨[], roots⟩).queue = [] := by
    rcases hq : (Search.run r ⟨[], roots⟩).queue with _ | ⟨m, queue⟩
    · rfl
    · unfold Search.step at hend
      rw [hq] at hend
      simp only at hend
      split at hend <;> cases hend
  constructor
  · exact fun hn => hi.reached n (.inl hn)
  · rintro ⟨root, hroot, hreach⟩
    -- the queue is empty, so what is found contains the roots and is closed
    have hfound : ∀ m, m ∈ (Search.run r ⟨[], roots⟩).found ∨
        m ∈ (Search.run r ⟨[], roots⟩).queue → m ∈ r.closure roots := by
      intro m hm
      rw [hqueue] at hm
      exact hm.resolve_right List.not_mem_nil
    induction hreach with
    | refl => exact hfound root (hi.started root hroot)
    | tail _ hdep ih => exact hfound _ (hi.closed _ ih _ hdep)

/-- What is found is closed under dependencies. -/
theorem mem_closure_of_depends {n m : Nat} (hn : n ∈ r.closure roots) (h : r.Depends n m) :
    m ∈ r.closure roots := by
  obtain ⟨root, hroot, hreach⟩ := mem_closure_iff.mp hn
  exact mem_closure_iff.mpr ⟨root, hroot, hreach.tail h⟩

/-- In a registry that is well formed a closure has registered units only. -/
theorem WellFormed.closure_lt (hr : r.WellFormed) (hroots : ∀ n ∈ roots, n < r.size) :
    ∀ n ∈ r.closure roots, n < r.size := by
  intro n hn
  obtain ⟨root, hroot, hreach⟩ := mem_closure_iff.mp hn
  exact hr.reaches_lt (hroots root hroot) hreach

end Registry

end SchemaLint

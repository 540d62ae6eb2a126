import SchemaLint.Engine.Session
import SchemaLint.Proofs.Order

/-!
# Outcomes without memory

What the outcome of a unit on a file is if nothing is kept: the outcomes of its dependencies are
resolved in the declared order, the first that failed makes the unit fail, and otherwise the unit is
run on exactly their facts.

* `Session.outcomeFrom`: one level of that recursion, given the outcomes of the dependencies.
* `Session.Yields`: the recursion as a relation, which no cycle and no bound enters; a unit yields
  at most one outcome (`Session.Yields.unique`).
* `Session.plain`: the recursion as a function, down to a given depth.
* `Registry.DepthWithin`: all chains of dependencies from a unit fit a depth.  Then the function
  reaches the bottom (`Session.yields_plain`), and no unit depends on itself
  (`Registry.DepthWithin.not_cyclic`).  The units of a plan fit the depth of a session
  (**`Plan.depthWithin`**), and units that fit it have a plan (**`Plan.exists_of_eq_ok_iff`**).
-/

namespace SchemaLint

/-- A unit whose outcome depends on nothing but the file, the settings and the facts of the units
it depends on. -/
def AnalysisUnit.IsPure (u : AnalysisUnit) : Prop :=
  ∀ cx calls, u.run { cx with earlier := calls } = u.run cx

namespace Session

variable {s : Session} {file : SourceFile}

/-! ## The recursion -/

/-- The facts of some units whose outcomes are known, each with its id; or the id of the first that
failed. -/
def factsOf (r : Registry) (outcome : Nat → Outcome) :
    List Nat → Except String (List (String × Fact))
  | [] => .ok []
  | n :: rest =>
    match outcome n with
    | .error _ => .error (r.idOf n)
    | .ok fact =>
      match factsOf r outcome rest with
      | .error id => .error id
      | .ok facts => .ok ((r.idOf n, fact) :: facts)

/-- The outcome of a unit on a file, given those of the units it depends on. -/
def outcomeFrom (s : Session) (file : SourceFile) (entry : Entry) (outcome : Nat → Outcome) :
    Outcome :=
  match factsOf s.registry outcome entry.requires with
  | .error id => .error (.dependencyFailed id)
  | .ok facts => entry.unit.run (s.context file file.parse? facts [])

/-- A unit yields an outcome on a file: the one that follows from what the units it depends on
yield. -/
inductive Yields (s : Session) (file : SourceFile) : Nat → Outcome → Prop
  /-- The outcome follows from those of the dependencies. -/
  | intro {n : Nat} {entry : Entry} {outcome : Nat → Outcome}
      (found : s.registry.entries[n]? = some entry)
      (below : ∀ m ∈ entry.requires, Yields s file m (outcome m)) :
      Yields s file n (s.outcomeFrom file entry outcome)

/-- The facts of some units depend on their outcomes only. -/
theorem factsOf_congr {r : Registry} {outcome outcome' : Nat → Outcome} {units : List Nat}
    (h : ∀ n ∈ units, outcome n = outcome' n) :
    factsOf r outcome units = factsOf r outcome' units := by
  induction units with
  | nil => rfl
  | cons n rest ih =>
      unfold factsOf
      rw [h n List.mem_cons_self, ih fun m hm => h m (List.mem_cons_of_mem n hm)]

/-- A unit yields at most one outcome. -/
theorem Yields.unique {n : Nat} {o o' : Outcome} (h : s.Yields file n o)
    (h' : s.Yields file n o') : o = o' := by
  induction h generalizing o' with
  | @intro n entry outcome found below ih =>
      rcases h' with ⟨found', below'⟩
      rw [found] at found'
      cases found'
      unfold outcomeFrom
      rw [factsOf_congr fun m hm => ih m hm (below' m hm)]

/-- What yields an outcome is registered. -/
theorem Yields.lt {n : Nat} {o : Outcome} (h : s.Yields file n o) : n < s.registry.size := by
  rcases h with ⟨found, -⟩
  exact (List.getElem?_eq_some_iff.mp found).1

/-- The outcome of a unit on a file, resolved without memory down to a depth. -/
def plain (s : Session) (file : SourceFile) : Nat → Nat → Outcome
  | 0, n => .error (.undeclared (s.registry.idOf n))
  | depth + 1, n =>
    match s.registry.entries[n]? with
    | none => .error (.undeclared (s.registry.idOf n))
    | some entry => s.outcomeFrom file entry (s.plain file depth)

end Session

/-! ## Depth -/

namespace Registry

variable {r : Registry} {n m depth : Nat}

/-- No chain of dependencies from a unit has more units than a depth. -/
def DepthWithin (r : Registry) : Nat → Nat → Prop
  | 0, _ => False
  | depth + 1, n => n < r.size ∧ ∀ m, r.Depends n m → r.DepthWithin depth m

/-- A unit of some depth is registered. -/
theorem DepthWithin.lt (h : r.DepthWithin depth n) : n < r.size := by
  cases depth with
  | zero => exact h.elim
  | succ depth => exact h.1

/-- A greater depth does as well. -/
theorem DepthWithin.mono {depth' : Nat} (h : r.DepthWithin depth n) (hle : depth ≤ depth') :
    r.DepthWithin depth' n := by
  induction depth generalizing n depth' with
  | zero => exact h.elim
  | succ depth ih =>
      obtain ⟨depth', rfl⟩ : ∃ k, depth' = k + 1 := ⟨depth' - 1, by omega⟩
      exact ⟨h.1, fun m hm => ih (h.2 m hm) (by omega)⟩

/-- What a unit reaches is no deeper than the unit. -/
theorem DepthWithin.of_reaches (h : r.DepthWithin depth n) (hm : r.Reaches n m) :
    r.DepthWithin depth m := by
  induction hm with
  | refl => exact h
  | @tail k m _ hkm ih =>
      cases depth with
      | zero => exact ih.elim
      | succ depth => exact (ih.2 m hkm).mono (Nat.le_succ depth)

/-- A unit whose dependencies have a bottom does not depend on itself. -/
theorem DepthWithin.not_cyclic (h : r.DepthWithin depth n) : ¬ Relation.TransGen r.Depends n n := by
  induction depth generalizing n with
  | zero => exact h.elim
  | succ depth ih =>
      intro hcycle
      -- the cycle also goes round from the next unit on it
      obtain ⟨m, hm, hback⟩ := Relation.TransGen.head'_iff.mp hcycle
      exact ih (h.2 m hm) (Relation.TransGen.tail' hback hm)

/-- In an order with dependencies first, a unit is no deeper than its place. -/
theorem DependenciesFirst.depthWithin {order : List Nat} (h : r.DependenciesFirst order)
    (hlt : ∀ n ∈ order, n < r.size) {before after : List Nat}
    (heq : order = before ++ n :: after) : r.DepthWithin (before.length + 1) n := by
  induction hlen : before.length using Nat.strongRecOn generalizing n before after with
  | _ len ih =>
      refine ⟨hlt n (by rw [heq]; simp), ?_⟩
      intro m hm
      obtain ⟨before', after', rfl⟩ := List.append_of_mem (h before n after heq m hm)
      rw [List.length_append, List.length_cons] at hlen
      have heq' : order = before' ++ m :: (after' ++ n :: after) := by rw [heq]; simp
      exact (ih before'.length (by omega) heq' rfl).mono (by omega)

/-- **Units with a bottom can be ordered**: if the units hold all they depend on, and all chains of
dependencies from them end, none is left waiting. -/
theorem exists_orderOf_eq_ok {units : List Nat} (hu : units.Pairwise (· < ·))
    (hclosed : ∀ n ∈ units, ∀ m, r.Depends n m → m ∈ units)
    (hdepth : ∀ n ∈ units, r.DepthWithin depth n) : ∃ order, r.orderOf units = .ok order := by
  obtain ⟨hsteps, hdone⟩ := Countdown.steps_run r units (.start r units)
  have hi := Countdown.Inv.of_steps hu hsteps
  obtain ⟨huntold, hready⟩ := Countdown.step_eq_none_iff.mp hdone
  -- by depth: once everything below has been taken, a unit waits for nothing
  have htaken : ∀ depth, ∀ n ∈ units, r.DepthWithin depth n →
      n ∈ (Countdown.run r units (.start r units)).order := by
    intro depth
    induction depth with
    | zero => exact fun n _ hn => hn.elim
    | succ depth ih =>
        intro n hn hwithin
        by_contra hnot
        have hmissing := Countdown.missing_eq_zero_iff.mpr
          fun m hm => ih m (hclosed n hn m hm) (hwithin.2 m hm)
        have hwaiting := hi.waiting n hn
        rw [hmissing, huntold, List.count_nil] at hwaiting
        have hmem := (hi.ready n).mpr ⟨hn, hnot, hwaiting⟩
        rw [hready] at hmem
        cases hmem
  have hperm := (List.perm_ext_iff_of_nodup hi.order_nodup (hu.imp Nat.ne_of_lt)).mpr fun n =>
    ⟨fun hn => (hi.taken n hn).1, fun hn => htaken depth n hn (hdepth n hn)⟩
  unfold orderOf
  simp only [if_pos hperm.length_eq]
  exact ⟨_, rfl⟩

end Registry

/-- Down to a depth that its dependencies fit, a unit yields its plain outcome. -/
theorem Session.yields_plain {s : Session} {file : SourceFile} {depth n : Nat}
    (h : s.registry.DepthWithin depth n) : s.Yields file n (s.plain file depth n) := by
  induction depth generalizing n with
  | zero => exact h.elim
  | succ depth ih =>
      obtain ⟨entry, hentry⟩ := Registry.exists_entry h.1
      unfold plain
      rw [hentry]
      refine .intro hentry fun m hm => ih (h.2 m ?_)
      unfold Registry.Depends
      rwa [Registry.requiresOf_eq hentry]

/-! ## Plans -/

namespace Plan

variable {r : Registry} {request : List String} {plan : Plan}

/-- A plan has registered units only. -/
theorem order_lt (hr : r.WellFormed) (h : of r request = .ok plan) :
    ∀ n ∈ plan.order, n < r.size := by
  obtain ⟨found, hfound, hrequested, -⟩ := of_eq_ok_iff.mp h
  intro n hn
  rw [(order_of_eq_ok h).2.1] at hn
  exact hr.closure_lt (by rw [hrequested]; exact lt_of_found hfound) n hn

/-- **The units of a plan fit the number of registered units.** -/
theorem depthWithin (hr : r.WellFormed) (h : of r request = .ok plan) {n : Nat}
    (hn : n ∈ plan.order) : r.DepthWithin r.size n := by
  obtain ⟨hnodup, -, hfirst⟩ := order_of_eq_ok h
  have hlt := order_lt hr h
  have hlen : plan.order.length ≤ r.size := by
    have hsub : plan.order ⊆ List.range r.size := fun m hm => List.mem_range.mpr (hlt m hm)
    simpa using (hnodup.subperm hsub).length_le
  obtain ⟨before, after, heq⟩ := List.append_of_mem hn
  refine (hfirst.depthWithin hlt heq).mono ?_
  rw [heq, List.length_append, List.length_cons] at hlen
  omega

/-- A planned request holds what it denotes. -/
theorem mem_order_of_lookup {id : String} {n : Nat} (h : of r request = .ok plan)
    (hid : id ∈ request) (hn : r.lookup id = some n) : n ∈ plan.order :=
  (mem_order_iff h).mpr ⟨id, hid, n, hn, .refl⟩

/-- The requested units of a plan, in the order in which they run. -/
theorem mem_filter_requested_iff {n : Nat} (h : of r request = .ok plan) :
    n ∈ plan.order.filter plan.requested.contains ↔ ∃ id ∈ request, r.lookup id = some n := by
  rw [List.mem_filter, List.contains_iff_mem, mem_requested_iff h]
  refine and_iff_right_of_imp ?_
  rintro ⟨id, hid, hlookup⟩
  exact mem_order_of_lookup h hid hlookup

/-- **Whether there is a plan is decided id by id**: there is one exactly if every id denotes a unit
whose chains of dependencies fit the number of registered units. -/
theorem exists_of_eq_ok_iff (hr : r.WellFormed) :
    (∃ plan, of r request = .ok plan) ↔
      ∀ id ∈ request, ∃ n, r.lookup id = some n ∧ r.DepthWithin r.size n := by
  constructor
  · rintro ⟨plan, hplan⟩ id hid
    obtain ⟨n, hn⟩ := exists_lookup hplan hid
    exact ⟨n, hn, depthWithin hr hplan (mem_order_of_lookup hplan hid hn)⟩
  · intro h
    have hfound : List.Forall₂ (fun id n => r.lookup id = some n) request
        (request.map fun id => (r.lookup id).getD 0) := by
      rw [List.forall₂_map_right_iff, List.forall₂_same]
      intro id hid
      obtain ⟨n, hn, -⟩ := h id hid
      rw [hn]
      rfl
    have hroots : ∀ root ∈ (request.map fun id => (r.lookup id).getD 0).eraseDups,
        r.DepthWithin r.size root := by
      intro root hroot
      rw [List.mem_eraseDups, mem_found_iff hfound] at hroot
      obtain ⟨id, hid, hlookup⟩ := hroot
      obtain ⟨n, hn, hdepth⟩ := h id hid
      rw [hlookup] at hn
      exact Option.some.inj hn ▸ hdepth
    have hdepth : ∀ n ∈ r.closure (request.map fun id => (r.lookup id).getD 0).eraseDups,
        r.DepthWithin r.size n := by
      intro n hn
      obtain ⟨root, hroot, hreaches⟩ := r.mem_closure_iff.mp hn
      exact (hroots root hroot).of_reaches hreaches
    obtain ⟨order, horder⟩ := Registry.exists_orderOf_eq_ok (r.closure_sorted _)
      (fun n hn m hm => Registry.mem_closure_of_depends hn hm) hdepth
    exact ⟨⟨order, _⟩, of_eq_ok_iff.mpr ⟨_, hfound, rfl, horder⟩⟩

end Plan

end SchemaLint

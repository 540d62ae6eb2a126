import SchemaLint.Proofs.Outcome

/-!
# Kept outcomes are the plain ones

A session keeps every outcome and resolves a unit on a file only if nothing is kept for it.  The
invariant `Session.Sound` says that every kept outcome is the one that the unit yields without
memory on the file of that number, and that the calls since the start are of different units or on
different files, each of a unit and file for which an outcome is kept.

* `EngineState.Grows`: what resolving may change: no kept outcome, and nothing about other files
  or about units that are not reached.
* **`Session.resolve_spec`**: resolving a unit whose dependencies have a bottom gives what the unit
  yields, keeps it, and keeps the invariant.
-/

namespace SchemaLint

/-- The unit and the file of a call. -/
def UnitCall.key (c : UnitCall) : String × Nat :=
  (c.unit, c.fileId)

/-! ## States -/

namespace EngineState

variable {st st' st'' : EngineState} {n m f g file : Nat} {o : Outcome}

/-- At the start no outcome is known. -/
@[simp] theorem outcome?_after (calls : List UnitCall) (n f : Nat) :
    (after calls).outcome? n f = none := rfl

/-- A call changes no outcome. -/
@[simp] theorem outcome?_log (st : EngineState) (c : UnitCall) (n f : Nat) :
    (st.log c).outcome? n f = st.outcome? n f := rfl

/-- Keeping an outcome changes that of its unit and file only. -/
theorem outcome?_keep (st : EngineState) (n f : Nat) (o : Outcome) (m g : Nat) :
    (st.keep n f o).outcome? m g = if m = n ∧ g = f then some o else st.outcome? m g := by
  unfold outcome? keep
  rw [List.lookup_cons]
  by_cases h : m = n ∧ g = f
  · obtain ⟨rfl, rfl⟩ := h
    simp
  · have hne : ((m, g) == (n, f)) = false := by
      rw [beq_eq_false_iff_ne]
      intro heq
      exact h (Prod.mk.inj heq)
    rw [hne, if_neg h]

/-- What resolving on a file may change: every outcome stays, and new ones are about that file and
about units of a given kind. -/
structure Grows (file : Nat) (touched : Nat → Prop) (st st' : EngineState) : Prop where
  /-- Every outcome stays. -/
  keeps : ∀ n f o, st.outcome? n f = some o → st'.outcome? n f = some o
  /-- Nothing else is added. -/
  adds : ∀ n f o, st'.outcome? n f = some o → st.outcome? n f = some o ∨ f = file ∧ touched n

/-- Nothing is added by doing nothing. -/
theorem Grows.refl (file : Nat) (touched : Nat → Prop) (st : EngineState) :
    Grows file touched st st :=
  ⟨fun _ _ _ h => h, fun _ _ _ h => .inl h⟩

/-- What is added in two steps is added by both together. -/
theorem Grows.trans {touched : Nat → Prop} (h : Grows file touched st st')
    (h' : Grows file touched st' st'') : Grows file touched st st'' := by
  refine ⟨fun n f o ho => h'.keeps n f o (h.keeps n f o ho), ?_⟩
  intro n f o ho
  rcases h'.adds n f o ho with ho | hnew
  · exact h.adds n f o ho
  · exact .inr hnew

/-- What is added for some units is added for more units as well. -/
theorem Grows.mono {touched touched' : Nat → Prop} (h : Grows file touched st st')
    (hle : ∀ n, touched n → touched' n) : Grows file touched' st st' :=
  ⟨h.keeps, fun n f o ho => (h.adds n f o ho).imp_right fun ⟨hf, hn⟩ => ⟨hf, hle n hn⟩⟩

/-- Keeping an outcome where there was none. -/
theorem Grows.keep {touched : Nat → Prop} (hn : touched n) (hnone : st.outcome? n file = none)
    (o : Outcome) : Grows file touched st (st.keep n file o) := by
  refine ⟨?_, ?_⟩
  · intro m f p hp
    rw [outcome?_keep, if_neg]
    · exact hp
    · rintro ⟨rfl, rfl⟩
      rw [hnone] at hp
      cases hp
  · intro m f p hp
    rw [outcome?_keep] at hp
    split_ifs at hp with h
    · exact .inr ⟨h.2, h.1 ▸ hn⟩
    · exact .inl hp

end EngineState

namespace Session

variable {s : Session} {seen : List SourceFile} {calls : List UnitCall} {st : EngineState}
  {file : SourceFile} {n : Nat} {o : Outcome}

/-! ## The invariant -/

/-- The invariant of a session that has seen some files, after the calls of earlier runs. -/
structure Sound (s : Session) (seen : List SourceFile) (calls : List UnitCall)
    (st : EngineState) : Prop where
  /-- What is kept is what the unit yields on the file of that number. -/
  outcomes : ∀ n f o, st.outcome? n f = some o → ∃ file ∈ seen, file.id = f ∧ s.Yields file n o
  /-- The new calls are all different, and their outcomes are kept. -/
  called : ∃ new, st.calls = new ++ calls ∧ (new.map UnitCall.key).Nodup ∧
    ∀ c ∈ new, ∃ n, c.unit = s.registry.idOf n ∧ (st.outcome? n c.fileId).isSome

/-- At the start no outcome can be wrong. -/
theorem sound_after (s : Session) (seen : List SourceFile) (calls : List UnitCall) :
    s.Sound seen calls (.after calls) where
  outcomes := fun _ _ _ h => nomatch h
  called := ⟨[], rfl, List.nodup_nil, fun _ h => nomatch h⟩

/-- Keeping what a unit yields keeps the invariant. -/
theorem Sound.keep (hs : s.Sound seen calls st) (hfile : file ∈ seen)
    (hy : s.Yields file n o) : s.Sound seen calls (st.keep n file.id o) := by
  refine ⟨?_, ?_⟩
  · intro m f p hp
    rw [EngineState.outcome?_keep] at hp
    split_ifs at hp with h
    · obtain ⟨rfl, rfl⟩ := h
      cases hp
      exact ⟨file, hfile, rfl, hy⟩
    · exact hs.outcomes m f p hp
  · obtain ⟨new, hcalls, hnodup, hkept⟩ := hs.called
    refine ⟨new, hcalls, hnodup, ?_⟩
    intro c hc
    obtain ⟨m, hm, hsome⟩ := hkept c hc
    refine ⟨m, hm, ?_⟩
    rw [EngineState.outcome?_keep]
    split_ifs
    · rfl
    · exact hsome

/-- A call of a unit on a file for which nothing is kept, and keeping what it yields, keep the
invariant: an earlier call of that unit on that file would have left an outcome. -/
theorem Sound.call (hs : s.Sound seen calls st) (hr : s.registry.WellFormed) (hfile : file ∈ seen)
    (hnone : st.outcome? n file.id = none) (hy : s.Yields file n o) :
    s.Sound seen calls
      ((st.log ⟨s.registry.idOf n, file.id, file.path⟩).keep n file.id o) := by
  obtain ⟨houtcomes, new, hcalls, hnodup, hkept⟩ := hs.keep hfile hy
  refine ⟨houtcomes, ⟨s.registry.idOf n, file.id, file.path⟩ :: new, ?_, ?_, ?_⟩
  · show _ :: st.calls = _
    rw [show st.calls = new ++ calls from hcalls, List.cons_append]
  · rw [List.map_cons, List.nodup_cons]
    refine ⟨?_, hnodup⟩
    intro hmem
    obtain ⟨new', hcalls', -, hkept'⟩ := hs.called
    have hsame : new' = new := List.append_cancel_right (hcalls'.symm.trans hcalls)
    obtain ⟨c, hc, hkey⟩ := List.mem_map.mp hmem
    obtain ⟨m, hm, hsome⟩ := hkept' c (hsame ▸ hc)
    obtain ⟨hunit, hid⟩ := Prod.mk.inj hkey
    obtain ⟨p, hp⟩ := Option.isSome_iff_exists.mp hsome
    obtain ⟨_, _, _, hym⟩ := hs.outcomes m c.fileId p hp
    have hmn : m = n := hr.idOf_inj hym.lt hy.lt (by rw [← hm, hunit])
    rw [hid, hmn, hnone] at hsome
    cases hsome
  · intro c hc
    rcases List.mem_cons.mp hc with rfl | hc
    · refine ⟨n, rfl, ?_⟩
      rw [EngineState.outcome?_keep, if_pos ⟨rfl, rfl⟩]
      rfl
    · exact hkept c hc

/-! ## Resolving -/

/-- What resolving a unit on a file promises of its result. -/
structure Resolves (s : Session) (seen : List SourceFile) (calls : List UnitCall)
    (file : SourceFile) (n : Nat) (st : EngineState) (result : Outcome × EngineState) : Prop where
  /-- The outcome is what the unit yields. -/
  yields : s.Yields file n result.1
  /-- The invariant holds afterwards. -/
  sound : s.Sound seen calls result.2
  /-- Only units that are reached got outcomes, and only on the file. -/
  grows : EngineState.Grows file.id (s.registry.Reaches n) st result.2
  /-- The outcome is kept. -/
  kept : result.2.outcome? n file.id = some result.1

/-- Gathering facts gives those of the outcomes that the units yield, if resolving does. -/
theorem gather_spec {resolve : Nat → EngineState → Outcome × EngineState}
    {outcome : Nat → Outcome} {units : List Nat}
    (hres : ∀ m ∈ units, ∀ st, s.Sound seen calls st →
      s.Resolves seen calls file m st (resolve m st))
    (hout : ∀ m ∈ units, s.Yields file m (outcome m)) (hs : s.Sound seen calls st) :
    (s.gather resolve units st).1 = factsOf s.registry outcome units ∧
      s.Sound seen calls (s.gather resolve units st).2 ∧
      EngineState.Grows file.id (fun k => ∃ m ∈ units, s.registry.Reaches m k) st
        (s.gather resolve units st).2 := by
  induction units generalizing st with
  | nil => exact ⟨rfl, hs, .refl _ _ _⟩
  | cons n rest ih =>
      obtain ⟨hy, hsound, hgrows, -⟩ := hres n List.mem_cons_self st hs
      have hhead : EngineState.Grows file.id
          (fun k => ∃ m ∈ n :: rest, s.registry.Reaches m k) st (resolve n st).2 :=
        hgrows.mono fun k hk => ⟨n, List.mem_cons_self, hk⟩
      -- The first unit gives what it yields, so the others are gathered only if that is no error.
      have heq := hy.unique (hout n List.mem_cons_self)
      unfold gather factsOf
      rw [← heq]
      rcases hpair : resolve n st with ⟨o, st₁⟩
      rw [hpair] at hsound hhead
      cases o with
      | error e => exact ⟨rfl, hsound, hhead⟩
      | ok fact =>
          obtain ⟨hfacts, hsound', hgrows'⟩ := ih
            (fun m hm => hres m (List.mem_cons_of_mem n hm))
            (fun m hm => hout m (List.mem_cons_of_mem n hm)) hsound
          have htail : EngineState.Grows file.id
              (fun k => ∃ m ∈ n :: rest, s.registry.Reaches m k) st₁
              (s.gather resolve rest st₁).2 := by
            refine hgrows'.mono ?_
            rintro k ⟨m, hm, hk⟩
            exact ⟨m, List.mem_cons_of_mem n hm, hk⟩
          simp only
          rw [← hfacts]
          rcases hrest : s.gather resolve rest st₁ with ⟨facts, st₂⟩
          rw [hrest] at hsound' htail
          cases facts with
          | error id => exact ⟨rfl, hsound', hhead.trans htail⟩
          | ok facts => exact ⟨rfl, hsound', hhead.trans htail⟩

/-- **Resolving a unit gives what it yields**, whatever is kept already.  By induction on the depth;
that the unit does not depend on itself shows that resolving its dependencies leaves its own place
empty. -/
theorem resolve_spec (hr : s.registry.WellFormed)
    (hpure : ∀ e ∈ s.registry.entries, e.unit.IsPure)
    (hseen : ∀ f ∈ seen, ∀ g ∈ seen, f.id = g.id → f = g) (hfile : file ∈ seen) {depth : Nat}
    (hdepth : s.registry.DepthWithin depth n) (hs : s.Sound seen calls st) :
    s.Resolves seen calls file n st (s.resolve file file.parse? depth n st) := by
  induction depth generalizing n st with
  | zero => exact hdepth.elim
  | succ depth ih =>
      unfold resolve
      rcases hkept : st.outcome? n file.id with _ | o
      · obtain ⟨entry, hentry⟩ := Registry.exists_entry hdepth.lt
        have hrequires : ∀ m ∈ entry.requires, s.registry.Depends n m := by
          intro m hm
          unfold Registry.Depends
          rwa [Registry.requiresOf_eq hentry]
        have hbelow : ∀ m ∈ entry.requires, s.registry.DepthWithin depth m :=
          fun m hm => hdepth.2 m (hrequires m hm)
        have hplain : ∀ m ∈ entry.requires, s.Yields file m (s.plain file depth m) :=
          fun m hm => yields_plain (hbelow m hm)
        have hyields := Yields.intro hentry hplain
        obtain ⟨hfacts, hsound, hgrows⟩ :=
          gather_spec (fun m hm st' hs' => ih (hbelow m hm) hs') hplain hs
        simp only [hentry]
        rcases hpair : s.gather (s.resolve file file.parse? depth) entry.requires st with
          ⟨facts, st₁⟩
        rw [hpair] at hfacts hsound hgrows
        -- nothing is kept for the unit yet, since no dependency leads back to it
        have hnone : st₁.outcome? n file.id = none := by
          rcases hst₁ : st₁.outcome? n file.id with _ | p
          · rfl
          · rcases hgrows.adds n file.id p hst₁ with hold | ⟨-, m, hm, hreach⟩
            · rw [hkept] at hold
              cases hold
            · exact absurd (Relation.TransGen.head' (hrequires m hm) hreach) hdepth.not_cyclic
        have hreached : EngineState.Grows file.id (s.registry.Reaches n) st st₁ :=
          hgrows.mono fun k ⟨m, hm, hk⟩ => Relation.ReflTransGen.head (hrequires m hm) hk
        have hself : s.registry.Reaches n n := Relation.ReflTransGen.refl
        unfold outcomeFrom at hyields
        rw [← hfacts] at hyields
        cases facts with
        | error id =>
            refine ⟨hyields, hsound.keep hfile hyields,
              hreached.trans (.keep hself hnone _), ?_⟩
            rw [EngineState.outcome?_keep, if_pos ⟨rfl, rfl⟩]
        | ok facts =>
            have hrun : entry.unit.run (s.context file file.parse? facts st₁.calls) =
                entry.unit.run (s.context file file.parse? facts []) :=
              hpure entry (List.mem_of_getElem? hentry) (s.context file file.parse? facts [])
                st₁.calls
            have hcalled : s.Yields file n
                (entry.unit.run (s.context file file.parse? facts st₁.calls)) := by
              rw [hrun]
              exact hyields
            have hlogged : EngineState.Grows file.id (s.registry.Reaches n) st
                (st₁.log ⟨entry.unit.id, file.id, file.path⟩) := ⟨hreached.keeps, hreached.adds⟩
            have hempty : (st₁.log ⟨entry.unit.id, file.id, file.path⟩).outcome? n file.id = none :=
              hnone
            have hsound' := hsound.call hr hfile hnone hcalled
            rw [Registry.idOf_eq hentry] at hsound'
            refine ⟨hcalled, hsound', hlogged.trans (.keep hself hempty _), ?_⟩
            show EngineState.outcome? _ n file.id = _
            rw [EngineState.outcome?_keep, if_pos ⟨rfl, rfl⟩]
      · -- the outcome is kept: it is about this file, since no other has its number
        obtain ⟨file', hfile', hid, hy⟩ := hs.outcomes n file.id o hkept
        have hsame := hseen file' hfile' file hfile hid
        subst hsame
        exact ⟨hy, hs, .refl _ _ _, hkept⟩

end Session

end SchemaLint

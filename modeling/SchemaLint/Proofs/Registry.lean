import Mathlib.Data.List.Forall2
import Mathlib.Data.List.Induction
import Mathlib.Data.List.Nodup
import Mathlib.Logic.Relation
import SchemaLint.Engine.Registry

/-!
# Well-formed registries and their dependency graph

What a registry that was built promises to everything that plans and runs its units.

* `InTurn`: properties of the elements of a list that depend on those before them; either all have
  one, or there is a first that has not (`inTurn_or_exists_first`).
* `mapM_eq_ok_iff`: a list of checks succeeds exactly if each of them does.
* `Registry.Distinct`, `Registry.findDuplicate?_eq_none_iff`: units that are told apart by their ids
  and codes.
* `Registry.WellFormed`: no id is registered twice, and every dependency is registered.
* **`Registry.wellFormed_of_build`**: a built registry is well formed.
* `Registry.Depends`, `Registry.Reaches`: the direct and the transitive dependencies of a unit;
  in a well-formed registry neither leads out of it (`Registry.WellFormed.reaches_lt`).
-/

namespace SchemaLint

/-! ## Elements in turn -/

section

variable {α : Type} {P : List α → α → Prop} {l : List α} {x : α}

/-- Every element of the list has a property, given the elements before it. -/
def InTurn (P : List α → α → Prop) (l : List α) : Prop :=
  ∀ before x after, l = before ++ x :: after → P before x

/-- Nothing is always in turn. -/
theorem inTurn_nil : InTurn P [] := by
  intro before x after heq
  simp at heq

/-- With one more element at the end, that one has the property given all others. -/
theorem inTurn_concat_iff : InTurn P (l ++ [x]) ↔ InTurn P l ∧ P l x := by
  constructor
  · intro h
    refine ⟨?_, h l x [] rfl⟩
    rintro before y after rfl
    exact h before y (after ++ [x]) (by simp)
  · rintro ⟨h, hx⟩ before y after heq
    rcases List.eq_nil_or_concat after with rfl | ⟨after', z, rfl⟩
    · obtain ⟨rfl, hy⟩ := List.append_inj' heq rfl
      cases hy
      exact hx
    · have heq' : l ++ [x] = (before ++ y :: after') ++ [z] := by simpa using heq
      obtain ⟨hl, -⟩ := List.append_inj' heq' rfl
      exact h before y after' hl

/-- A property that does not depend on the elements before. -/
theorem inTurn_iff_forall_mem {p : α → Prop} : InTurn (fun _ x => p x) l ↔ ∀ x ∈ l, p x := by
  constructor
  · intro h x hx
    obtain ⟨before, after, heq⟩ := List.append_of_mem hx
    exact h before x after heq
  · rintro h before x after rfl
    exact h x (by simp)

/-- **Either all elements have the property, or there is a first that has not.** -/
theorem inTurn_or_exists_first (P : List α → α → Prop) (l : List α) :
    InTurn P l ∨ ∃ before x after, l = before ++ x :: after ∧ InTurn P before ∧ ¬ P before x := by
  induction l using List.reverseRecOn with
  | nil => exact .inl inTurn_nil
  | append_singleton l x ih =>
      rcases ih with hall | ⟨before, y, after, rfl, hbefore, hy⟩
      · by_cases hx : P l x
        · exact .inl (inTurn_concat_iff.mpr ⟨hall, hx⟩)
        · exact .inr ⟨l, x, [], rfl, hall, hx⟩
      · exact .inr ⟨before, y, after ++ [x], by simp, hbefore, hy⟩

end

/-! ## Lists of checks -/

/-- What succeeds in two steps succeeds in each of them. -/
theorem exists_of_bind_eq_ok {α β ε : Type} {x : Except ε α} {next : α → Except ε β} {b : β}
    (h : x >>= next = .ok b) : ∃ a, x = .ok a ∧ next a = .ok b := by
  rcases x with e | a
  · cases h
  · exact ⟨a, rfl, h⟩

/-- A list of checks succeeds exactly if each check does, with the results in order. -/
theorem mapM_eq_ok_iff {α β ε : Type} {f : α → Except ε β} {xs : List α} {ys : List β} :
    xs.mapM f = .ok ys ↔ List.Forall₂ (fun x y => f x = .ok y) xs ys := by
  induction xs generalizing ys with
  | nil =>
      rw [List.mapM_nil, List.forall₂_nil_left_iff]
      exact ⟨fun h => (Except.ok.inj h).symm, fun h => by rw [h]; rfl⟩
  | cons x xs ih =>
      rw [List.mapM_cons, List.forall₂_cons_left_iff]
      rcases hx : f x with e | y
      · simp [bind, Except.bind]
      · rcases hxs : xs.mapM f with e | rest
        · have hnone : ∀ zs, ¬ List.Forall₂ (fun x y => f x = .ok y) xs zs := by
            intro zs hzs
            rw [← ih, hxs] at hzs
            cases hzs
          simp [bind, Except.bind, hnone]
        · have hrest : ∀ zs, List.Forall₂ (fun x y => f x = .ok y) xs zs ↔ rest = zs := by
            intro zs
            rw [← ih, hxs, Except.ok.injEq]
          simp [bind, Except.bind, pure, Except.pure, hrest, eq_comm]

/-- A list of checks that each succeed succeeds. -/
theorem exists_mapM_eq_ok {α β ε : Type} {f : α → Except ε β} {xs : List α}
    (h : ∀ x ∈ xs, ∃ y, f x = .ok y) : ∃ ys, xs.mapM f = .ok ys := by
  induction xs with
  | nil => exact ⟨[], rfl⟩
  | cons x xs ih =>
      obtain ⟨⟨y, hy⟩, hxs⟩ := List.forall_mem_cons.mp h
      obtain ⟨ys, hys⟩ := ih hxs
      exact ⟨y :: ys, mapM_eq_ok_iff.mpr (.cons hy (mapM_eq_ok_iff.mp hys))⟩

/-- A list of checks fails with the first error. -/
theorem mapM_eq_error_of_first {α β ε : Type} {f : α → Except ε β} {before after : List α} {x : α}
    {e : ε} (hbefore : ∀ y ∈ before, ∃ b, f y = .ok b) (hx : f x = .error e) :
    (before ++ x :: after).mapM f = .error e := by
  induction before with
  | nil =>
      rw [List.nil_append, List.mapM_cons, hx]
      rfl
  | cons y before ih =>
      obtain ⟨⟨b, hb⟩, hrest⟩ := List.forall_mem_cons.mp hbefore
      rw [List.cons_append, List.mapM_cons, hb, ih hrest]
      rfl

/-- Every result of a list of checks is that of one of them. -/
theorem exists_of_mem_mapM {α β ε : Type} {f : α → Except ε β} {xs : List α} {ys : List β}
    (h : xs.mapM f = .ok ys) {y : β} (hy : y ∈ ys) : ∃ x ∈ xs, f x = .ok y := by
  have h₂ := mapM_eq_ok_iff.mp h
  induction h₂ with
  | nil => cases hy
  | @cons x z xs ys hx hxs ih =>
      rcases List.mem_cons.mp hy with rfl | hy
      · exact ⟨x, List.mem_cons_self, hx⟩
      · obtain ⟨x', hx', hfx⟩ := ih (mapM_eq_ok_iff.mpr hxs) hy
        exact ⟨x', List.mem_cons_of_mem _ hx', hfx⟩

namespace Registry

/-! ## Ids and codes -/

section

variable {units before rest : List AnalysisUnit} {u : AnalysisUnit}

/-- The codes of the rules among some units. -/
def codesOf (units : List AnalysisUnit) : List String :=
  units.filterMap fun u => u.rule.map RuleInfo.code

/-- Units that are told apart by their ids and codes. -/
structure Distinct (units : List AnalysisUnit) : Prop where
  /-- No id is that of two units. -/
  ids : (units.map AnalysisUnit.id).Nodup
  /-- No code is that of two rules. -/
  codes : (codesOf units).Nodup

/-- A unit whose id and code are none of those of some units. -/
structure IsNew (units : List AnalysisUnit) (u : AnalysisUnit) : Prop where
  /-- No unit has its id. -/
  id : u.id ∉ units.map AnalysisUnit.id
  /-- No rule has its code. -/
  code : ∀ info, u.rule = some info → info.code ∉ codesOf units

/-- The codes of two lists of units, one after the other. -/
theorem codesOf_append (units rest : List AnalysisUnit) :
    codesOf (units ++ rest) = codesOf units ++ codesOf rest :=
  List.filterMap_append

/-- Which codes there are does not depend on the order of the units. -/
theorem mem_codesOf_reverse {code : String} : code ∈ codesOf units.reverse ↔ code ∈ codesOf units := by
  simp [codesOf]

/-- One more unit keeps units distinct if it is new. -/
theorem distinct_concat_iff : Distinct (units ++ [u]) ↔ Distinct units ∧ IsNew units u := by
  have hids : ((units ++ [u]).map AnalysisUnit.id).Nodup ↔
      (units.map AnalysisUnit.id).Nodup ∧ u.id ∉ units.map AnalysisUnit.id := by
    rw [List.map_append, List.map_singleton, ← List.concat_eq_append, List.nodup_concat, and_comm]
  have hcodes : (codesOf (units ++ [u])).Nodup ↔
      (codesOf units).Nodup ∧ ∀ info, u.rule = some info → info.code ∉ codesOf units := by
    rw [codesOf_append]
    rcases hrule : u.rule with _ | info
    · simp [codesOf, hrule]
    · have hsingle : codesOf [u] = [info.code] := by simp [codesOf, hrule]
      rw [hsingle, ← List.concat_eq_append, List.nodup_concat, and_comm]
      simp
  constructor
  · rintro ⟨h, h'⟩
    exact ⟨⟨(hids.mp h).1, (hcodes.mp h').1⟩, ⟨(hids.mp h).2, (hcodes.mp h').2⟩⟩
  · rintro ⟨⟨h, h'⟩, ⟨hid, hcode⟩⟩
    exact ⟨hids.mpr ⟨h, hid⟩, hcodes.mpr ⟨h', hcode⟩⟩

/-- Units are distinct if each is new after those before it. -/
theorem distinct_iff_inTurn : Distinct units ↔ InTurn IsNew units := by
  induction units using List.reverseRecOn with
  | nil => exact ⟨fun _ => inTurn_nil, fun _ => ⟨.nil, .nil⟩⟩
  | append_singleton units u ih => rw [distinct_concat_iff, inTurn_concat_iff, ih]

/-- A new unit is passed over, and its id and code are kept. -/
theorem findDuplicate?_cons_of_isNew (h : IsNew units u) :
    findDuplicate? (units.map AnalysisUnit.id) (codesOf units) (u :: rest) =
      findDuplicate? ((u :: units).map AnalysisUnit.id) (codesOf (u :: units)) rest := by
  rw [findDuplicate?, if_neg (by simpa using h.id)]
  rcases hrule : u.rule with _ | info
  · simp [codesOf, hrule]
  · have hcode := h.code info hrule
    simp only
    rw [if_neg (by simpa using hcode)]
    simp [codesOf, hrule]

/-- Distinct units are passed over one by one, and what comes after them is compared with all. -/
theorem findDuplicate?_append (h : Distinct before) (rest : List AnalysisUnit) :
    findDuplicate? [] [] (before ++ rest) =
      findDuplicate? (before.reverse.map AnalysisUnit.id) (codesOf before.reverse) rest := by
  induction before using List.reverseRecOn generalizing rest with
  | nil => rfl
  | append_singleton before u ih =>
      obtain ⟨hbefore, hid, hcode⟩ := distinct_concat_iff.mp h
      have hnew : IsNew before.reverse u :=
        ⟨by simpa using hid, fun info hinfo => by rw [mem_codesOf_reverse]; exact hcode info hinfo⟩
      rw [List.append_assoc, List.singleton_append, ih hbefore, findDuplicate?_cons_of_isNew hnew,
        List.reverse_concat]

/-- The first id that occurs again is found. -/
theorem findDuplicate?_of_id {after : List AnalysisUnit} (h : Distinct before)
    (hid : u.id ∈ before.map AnalysisUnit.id) :
    findDuplicate? [] [] (before ++ u :: after) = some u.id := by
  rw [findDuplicate?_append h, findDuplicate?, if_pos (by simpa using hid)]

/-- The first code that occurs again is found, if the id of its rule is new. -/
theorem findDuplicate?_of_code {after : List AnalysisUnit} {info : RuleInfo} (h : Distinct before)
    (hid : u.id ∉ before.map AnalysisUnit.id) (hinfo : u.rule = some info)
    (hcode : info.code ∈ codesOf before) :
    findDuplicate? [] [] (before ++ u :: after) = some info.code := by
  rw [findDuplicate?_append h, findDuplicate?, if_neg (by simpa using hid)]
  simp only [hinfo]
  rw [if_pos (by simpa [mem_codesOf_reverse] using hcode)]

/-- A unit that is not new has the id of another, or else the code of another. -/
theorem cases_of_not_isNew (h : ¬ IsNew units u) :
    u.id ∈ units.map AnalysisUnit.id ∨
      u.id ∉ units.map AnalysisUnit.id ∧ ∃ info, u.rule = some info ∧ info.code ∈ codesOf units := by
  by_cases hid : u.id ∈ units.map AnalysisUnit.id
  · exact .inl hid
  · refine .inr ⟨hid, ?_⟩
    by_contra hnone
    push Not at hnone
    exact h ⟨hid, hnone⟩

/-- **Nothing is found twice exactly if units are distinct.** -/
theorem findDuplicate?_eq_none_iff : findDuplicate? [] [] units = none ↔ Distinct units := by
  constructor
  · intro hnone
    rw [distinct_iff_inTurn]
    refine (inTurn_or_exists_first IsNew units).resolve_right ?_
    rintro ⟨before, u, after, rfl, hbefore, hu⟩
    rw [← distinct_iff_inTurn] at hbefore
    rcases cases_of_not_isNew hu with hid | ⟨hid, info, hinfo, hcode⟩
    · rw [findDuplicate?_of_id hbefore hid] at hnone
      cases hnone
    · rw [findDuplicate?_of_code hbefore hid hinfo hcode] at hnone
      cases hnone
  · intro h
    have happend := findDuplicate?_append h []
    rwa [List.append_nil] at happend

end

/-! ## Building -/

/-- What building checks of a registry. -/
structure WellFormed (r : Registry) : Prop where
  /-- No two units have the same id. -/
  ids_nodup : (r.entries.map fun e => e.unit.id).Nodup
  /-- Every dependency is the number of a registered unit. -/
  requires_lt : ∀ e ∈ r.entries, ∀ m ∈ e.requires, m < r.size

/-- A dependency that was found has a number among those of the units. -/
theorem dependency_lt {units : List AnalysisUnit} {number m : Nat} {u : AnalysisUnit} {id : String}
    (h : dependency units number u id = .ok m) : m < units.length := by
  unfold dependency at h
  split at h
  · cases h
  · rename_i n hn
    have hlt : n < units.length := (List.findIdx?_eq_some_iff_getElem.mp hn).1
    split at h
    · cases h
    · cases h
      exact hlt

/-- Entries stand in the order of their units and name dependencies by numbers of units. -/
theorem entriesFrom_eq_ok {units : List AnalysisUnit} {number : Nat} {rest : List AnalysisUnit}
    {entries : List Entry} (h : entriesFrom units number rest = .ok entries) :
    entries.map Entry.unit = rest ∧ ∀ e ∈ entries, ∀ m ∈ e.requires, m < units.length := by
  induction rest generalizing number entries with
  | nil =>
      cases h
      simp
  | cons u rest ih =>
      unfold entriesFrom at h
      rcases hreq : u.requires.mapM (dependency units number u) with e | requires
      · rw [hreq] at h
        cases h
      rcases hent : entriesFrom units (number + 1) rest with e | entries'
      · rw [hreq, hent] at h
        cases h
      rw [hreq, hent] at h
      cases h
      obtain ⟨hunits, hlt⟩ := ih hent
      refine ⟨by simp [hunits], ?_⟩
      intro e he m hm
      rcases List.mem_cons.mp he with rfl | he
      · obtain ⟨id, _, hid⟩ := exists_of_mem_mapM hreq hm
        exact dependency_lt hid
      · exact hlt e he m hm

/-- What is behind a registry that was built. -/
theorem build_eq_ok {units : List AnalysisUnit} {r : Registry} (h : build units = .ok r) :
    findDuplicate? [] [] units = none ∧ entriesFrom units 0 units = .ok r.entries := by
  unfold build at h
  split at h
  · cases h
  · rename_i hdup
    refine ⟨hdup, ?_⟩
    rcases hent : entriesFrom units 0 units with e | entries
    · rw [hent] at h
      cases h
    rw [hent] at h
    cases h
    rfl

/-- The entries of a built registry are those of the units, in order. -/
theorem map_unit_of_build {units : List AnalysisUnit} {r : Registry} (h : build units = .ok r) :
    r.entries.map Entry.unit = units :=
  (entriesFrom_eq_ok (build_eq_ok h).2).1

/-- A registered unit is one of those that were given. -/
theorem unit_mem_of_build {units : List AnalysisUnit} {r : Registry} (h : build units = .ok r)
    {n : Nat} {e : Entry} (he : r.entries[n]? = some e) : e.unit ∈ units := by
  rw [← map_unit_of_build h]
  exact List.mem_map_of_mem (List.mem_of_getElem? he)

/-- What holds of all given units holds of all registered ones. -/
theorem forall_entries_of_build {units : List AnalysisUnit} {r : Registry}
    (h : build units = .ok r) {P : AnalysisUnit → Prop} (hunits : ∀ u ∈ units, P u) :
    ∀ e ∈ r.entries, P e.unit := by
  rw [← map_unit_of_build h] at hunits
  exact List.forall_mem_map.mp hunits

/-- **A built registry is well formed.** -/
theorem wellFormed_of_build {units : List AnalysisUnit} {r : Registry}
    (h : build units = .ok r) : r.WellFormed := by
  obtain ⟨hdup, hent⟩ := build_eq_ok h
  have hunits := map_unit_of_build h
  refine ⟨?_, ?_⟩
  · have hids := (findDuplicate?_eq_none_iff.mp hdup).ids
    rw [← hunits, List.map_map] at hids
    exact hids
  · intro e he m hm
    rw [size, ← List.length_map Entry.unit, hunits]
    exact (entriesFrom_eq_ok hent).2 e he m hm

/-! ## Reading -/

/-- What a unit requires is in its entry. -/
theorem requiresOf_eq {r : Registry} {n : Nat} {e : Entry} (h : r.entries[n]? = some e) :
    r.requiresOf n = e.requires := by
  unfold requiresOf
  rw [h]

/-- The id of a unit is in its entry. -/
theorem idOf_eq {r : Registry} {n : Nat} {e : Entry} (h : r.entries[n]? = some e) :
    r.idOf n = e.unit.id := by
  unfold idOf
  rw [h]

/-- A dependency that was found is the unit of that id. -/
theorem id_of_dependency {units : List AnalysisUnit} {number m : Nat} {u : AnalysisUnit}
    {id : String} (h : dependency units number u id = .ok m) :
    units[m]?.map AnalysisUnit.id = some id := by
  unfold dependency at h
  split at h
  · cases h
  · rename_i n hn
    obtain ⟨hlt, hid, -⟩ := List.findIdx?_eq_some_iff_getElem.mp hn
    split at h
    · cases h
    · cases h
      rw [List.getElem?_eq_getElem hlt, Option.map_some, beq_iff_eq.mp hid]

/-- The dependencies of an entry are the units of the declared ids, in the declared order. -/
theorem requires_of_entriesFrom {units : List AnalysisUnit} {number : Nat}
    {rest : List AnalysisUnit} {entries : List Entry}
    (h : entriesFrom units number rest = .ok entries) :
    ∀ e ∈ entries, List.Forall₂ (fun id m => units[m]?.map AnalysisUnit.id = some id)
      e.unit.requires e.requires := by
  induction rest generalizing number entries with
  | nil =>
      cases h
      exact fun e he => nomatch he
  | cons u rest ih =>
      unfold entriesFrom at h
      rcases hreq : u.requires.mapM (dependency units number u) with e | requires
      · rw [hreq] at h
        cases h
      rcases hent : entriesFrom units (number + 1) rest with e | entries'
      · rw [hreq, hent] at h
        cases h
      rw [hreq, hent] at h
      cases h
      refine List.forall_mem_cons.mpr ⟨?_, ih hent⟩
      exact (mapM_eq_ok_iff.mp hreq).imp fun id m hm => id_of_dependency hm

/-- The dependencies of a unit of a built registry are those it declares, in order. -/
theorem map_idOf_requiresOf {units : List AnalysisUnit} {r : Registry} (h : build units = .ok r)
    {n : Nat} {e : Entry} (he : r.entries[n]? = some e) :
    (r.requiresOf n).map r.idOf = e.unit.requires := by
  have hreq := requires_of_entriesFrom (build_eq_ok h).2 e (List.mem_of_getElem? he)
  rw [requiresOf_eq he]
  generalize e.unit.requires = ids, e.requires = ms at hreq ⊢
  induction hreq with
  | nil => rfl
  | @cons id m ids ms hm _ ih =>
      rw [← map_unit_of_build h, List.getElem?_map, Option.map_map] at hm
      obtain ⟨e', he', hid⟩ := Option.map_eq_some_iff.mp hm
      rw [List.map_cons, ih, idOf_eq he']
      exact congrArg (· :: ids) hid

/-- A number below the size is that of a registered unit. -/
theorem exists_entry {r : Registry} {n : Nat} (h : n < r.size) :
    ∃ e, r.entries[n]? = some e :=
  ⟨r.entries[n], List.getElem?_eq_getElem h⟩

/-- What is looked up is registered. -/
theorem lookup_lt {r : Registry} {id : String} {n : Nat} (h : r.lookup id = some n) :
    n < r.size := by
  unfold lookup at h
  rcases Option.or_eq_some_iff.mp h with h | ⟨-, h⟩
  · exact (List.findIdx?_eq_some_iff_getElem.mp h).1
  · exact (List.findIdx?_eq_some_iff_getElem.mp h).1

/-- Registered units are told apart by their ids. -/
theorem WellFormed.idOf_inj {r : Registry} (hr : r.WellFormed) {n m : Nat} (hn : n < r.size)
    (hm : m < r.size) (h : r.idOf n = r.idOf m) : n = m := by
  rw [idOf_eq (List.getElem?_eq_getElem hn), idOf_eq (List.getElem?_eq_getElem hm)] at h
  have hn' : n < (r.entries.map fun e => e.unit.id).length := by rwa [List.length_map]
  have hm' : m < (r.entries.map fun e => e.unit.id).length := by rwa [List.length_map]
  apply (@List.Nodup.getElem_inj_iff _ _ hr.ids_nodup n hn' m hm').mp
  rw [List.getElem_map, List.getElem_map]
  exact h

/-- A unit is found by its id. -/
theorem WellFormed.lookup_idOf {r : Registry} (hr : r.WellFormed) {n : Nat}
    (hn : n < r.size) : r.lookup (r.idOf n) = some n := by
  obtain ⟨entry, hentry⟩ := exists_entry hn
  have hid := idOf_eq hentry
  obtain ⟨m, hm⟩ : ∃ m, (r.entries.findIdx? fun e => e.unit.id == r.idOf n) = some m := by
    refine Option.isSome_iff_exists.mp (List.findIdx?_isSome.trans ?_)
    rw [List.any_eq_true]
    exact ⟨entry, List.mem_of_getElem? hentry, by simp [hid]⟩
  obtain ⟨hlt, hsame, -⟩ := List.findIdx?_eq_some_iff_getElem.mp hm
  have hmid : r.idOf m = r.idOf n := by
    rw [idOf_eq (List.getElem?_eq_getElem hlt)]
    simpa using hsame
  rw [lookup, hm, hr.idOf_inj hlt hn hmid]
  rfl

/-! ## The dependency graph -/

/-- A unit depends directly on another. -/
def Depends (r : Registry) (n m : Nat) : Prop :=
  m ∈ r.requiresOf n

/-- A unit is another or depends on it in some number of steps. -/
def Reaches (r : Registry) : Nat → Nat → Prop :=
  Relation.ReflTransGen r.Depends

/-- A dependency is registered. -/
theorem WellFormed.depends_lt {r : Registry} (hr : r.WellFormed) {n m : Nat}
    (h : r.Depends n m) : m < r.size := by
  unfold Depends requiresOf at h
  split at h
  · rename_i e he
    exact hr.requires_lt e (List.mem_of_getElem? he) m h
  · cases h

/-- Dependencies do not lead out of a well-formed registry. -/
theorem WellFormed.reaches_lt {r : Registry} (hr : r.WellFormed) {n m : Nat} (hn : n < r.size)
    (h : r.Reaches n m) : m < r.size := by
  induction h with
  | refl => exact hn
  | tail _ hdep _ => exact hr.depends_lt hdep

end Registry

end SchemaLint

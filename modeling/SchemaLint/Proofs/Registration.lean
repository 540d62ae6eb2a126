import SchemaLint.Engine.Scripted
import SchemaLint.Proofs.Registry

/-!
# Which units can be registered

Building a registry goes through the units twice: first for ids and codes that occur again, then for
dependencies that are not there.  What each round accepts of a unit depends on the units before it
only, so either all units pass in turn or there is a first fault, and that is the one reported.

* `Registry.Admissible`: units that can be registered.
* `Registry.FirstFault`: the first thing wrong with units, in the order in which it is looked for.
* `Registry.exists_entryOf`, `Registry.entriesFrom_eq_error`: what the second round accepts, and what
  it reports.
* **`Registry.build_exact`**: a registry is built exactly from admissible units, and holds them with
  the numbers of their dependencies; otherwise the first fault is reported.
* **`Registry.lookup_rule`**: a rule is found by its name, and by its code unless that is the id of
  another unit.
-/

namespace SchemaLint

/-- A unit that is registered under the name of its rule, if it is one. -/
def AnalysisUnit.IsNamed (u : AnalysisUnit) : Prop :=
  ∀ info, u.rule = some info → u.id = info.name

namespace Registry

variable {units before : List AnalysisUnit} {u : AnalysisUnit} {id : String}

/-! ## Faults -/

/-- A dependency that a unit may have after the units before it. -/
structure IsMet (units before : List AnalysisUnit) (u : AnalysisUnit) (id : String) : Prop where
  /-- It is the id of a unit. -/
  known : id ∈ units.map AnalysisUnit.id
  /-- For a rule, it is the id of a unit before it. -/
  registered : u.rule.isSome → id ∈ before.map AnalysisUnit.id

/-- Among all units, every dependency of some first ones is met. -/
def AllMet (units first : List AnalysisUnit) : Prop :=
  InTurn (fun before u => ∀ id ∈ u.requires, IsMet units before u id) first

/-- Units that can be registered: their ids and codes are distinct, what they depend on is
registered, and what rules depend on is registered before them. -/
structure Admissible (units : List AnalysisUnit) : Prop extends Distinct units where
  /-- Every dependency is met. -/
  met : AllMet units units

/-- The first thing that is wrong with units.  Ids and codes that occur again come before
dependencies, the id of a unit before its code, and dependencies in the order in which they are
declared. -/
inductive FirstFault (units : List AnalysisUnit) : ConfigurationError → Prop
  /-- The id of a unit is that of one before it. -/
  | repeatedId {before after : List AnalysisUnit} {u : AnalysisUnit}
      (split : units = before ++ u :: after) (distinct : Distinct before)
      (repeated : u.id ∈ before.map AnalysisUnit.id) : FirstFault units (.duplicateUnit u.id)
  /-- The code of a rule is that of one before it. -/
  | repeatedCode {before after : List AnalysisUnit} {u : AnalysisUnit} {info : RuleInfo}
      (split : units = before ++ u :: after) (distinct : Distinct before)
      (new : u.id ∉ before.map AnalysisUnit.id) (rule : u.rule = some info)
      (repeated : info.code ∈ codesOf before) : FirstFault units (.duplicateUnit info.code)
  /-- A dependency is not the id of any unit. -/
  | unknownDependency {before after : List AnalysisUnit} {u : AnalysisUnit}
      {earlier later : List String} {id : String} (distinct : Distinct units)
      (split : units = before ++ u :: after) (met : AllMet units before)
      (declared : u.requires = earlier ++ id :: later)
      (metEarlier : ∀ d ∈ earlier, IsMet units before u d)
      (unknown : id ∉ units.map AnalysisUnit.id) :
      FirstFault units (.unknownDependency u.id id)
  /-- A dependency of a rule is the id of the rule itself or of a unit after it. -/
  | forwardReference {before after : List AnalysisUnit} {u : AnalysisUnit}
      {earlier later : List String} {id : String} (distinct : Distinct units)
      (split : units = before ++ u :: after) (met : AllMet units before)
      (declared : u.requires = earlier ++ id :: later)
      (metEarlier : ∀ d ∈ earlier, IsMet units before u d)
      (rule : u.rule.isSome) (known : id ∈ units.map AnalysisUnit.id)
      (late : id ∉ before.map AnalysisUnit.id) :
      FirstFault units (.forwardReference u.id id)

/-! ## Repeated ids and codes -/

/-- Among units that are not distinct there is a first fault. -/
theorem distinct_or_firstFault (units : List AnalysisUnit) :
    Distinct units ∨ ∃ e, FirstFault units e := by
  rw [distinct_iff_inTurn]
  refine (inTurn_or_exists_first IsNew units).imp_right ?_
  rintro ⟨before, u, after, hsplit, hbefore, hnew⟩
  rw [← distinct_iff_inTurn] at hbefore
  rcases cases_of_not_isNew hnew with hid | ⟨hid, info, hinfo, hcode⟩
  · exact ⟨_, .repeatedId hsplit hbefore hid⟩
  · exact ⟨_, .repeatedCode hsplit hbefore hid hinfo hcode⟩

/-! ## Dependencies -/

/-- An id has no number if no unit has it. -/
theorem numberOf?_eq_none_iff : numberOf? units id = none ↔ id ∉ units.map AnalysisUnit.id := by
  rw [numberOf?, List.findIdx?_eq_none_iff, List.mem_map]
  simp

/-- Every id of a unit has a number. -/
theorem exists_numberOf? (h : id ∈ units.map AnalysisUnit.id) : ∃ n, numberOf? units id = some n :=
  Option.ne_none_iff_exists'.mp fun hnone => numberOf?_eq_none_iff.mp hnone h

/-- The number of an id tells whether one of the first units has it. -/
theorem numberOf?_lt_iff (hbefore : before <+: units) {n : Nat} (h : numberOf? units id = some n) :
    n < before.length ↔ id ∈ before.map AnalysisUnit.id := by
  obtain ⟨rest, rfl⟩ := hbefore
  rw [numberOf?, List.findIdx?_append] at h
  by_cases hid : id ∈ before.map AnalysisUnit.id
  · obtain ⟨m, hm⟩ := exists_numberOf? hid
    obtain ⟨hlt, -⟩ := List.findIdx?_eq_some_iff_getElem.mp hm
    rw [numberOf?] at hm
    rw [hm, Option.some_or, Option.some.injEq] at h
    exact iff_of_true (h ▸ hlt) hid
  · have hnone := numberOf?_eq_none_iff.mpr hid
    rw [numberOf?] at hnone
    rw [hnone, Option.none_or] at h
    obtain ⟨m, -, rfl⟩ := Option.map_eq_some_iff.mp h
    exact iff_of_false (by omega) hid

/-- What is not the id of any unit is no dependency. -/
theorem dependency_of_unknown {number : Nat} (h : id ∉ units.map AnalysisUnit.id) :
    dependency units number u id = .error (.unknownDependency u.id id) := by
  rw [dependency, numberOf?_eq_none_iff.mpr h]

/-- A rule does not depend on what is registered with it or after it. -/
theorem dependency_of_late (hbefore : before <+: units) (hrule : u.rule.isSome)
    (hknown : id ∈ units.map AnalysisUnit.id) (hlate : id ∉ before.map AnalysisUnit.id) :
    dependency units before.length u id = .error (.forwardReference u.id id) := by
  obtain ⟨n, hn⟩ := exists_numberOf? hknown
  have hle : before.length ≤ n :=
    Nat.le_of_not_lt fun hlt => hlate ((numberOf?_lt_iff hbefore hn).mp hlt)
  simp [dependency, hn, hrule, hle]

/-- A dependency that is met has a number. -/
theorem exists_dependency (hbefore : before <+: units) (h : IsMet units before u id) :
    ∃ n, dependency units before.length u id = .ok n := by
  obtain ⟨n, hn⟩ := exists_numberOf? h.known
  refine ⟨n, ?_⟩
  have hgood : ¬ (u.rule.isSome && decide (before.length ≤ n)) = true := by
    rw [Bool.and_eq_true, decide_eq_true_iff, not_and]
    intro hrule
    exact Nat.not_le.mpr ((numberOf?_lt_iff hbefore hn).mpr (h.registered hrule))
  rw [dependency, hn]
  exact if_neg hgood

/-- The entry of a unit with its number. -/
def entryOf (units : List AnalysisUnit) (numbered : AnalysisUnit × Nat) :
    Except ConfigurationError Entry := do
  let requires ← numbered.1.requires.mapM (dependency units numbered.2 numbered.1)
  return ⟨numbered.1, requires⟩

/-- The second round makes the entry of one unit after the other. -/
theorem entriesFrom_eq_mapM (units : List AnalysisUnit) (number : Nat) (rest : List AnalysisUnit) :
    entriesFrom units number rest = (rest.zipIdx number).mapM (entryOf units) := by
  induction rest generalizing number with
  | nil => rfl
  | cons u rest ih =>
      rw [entriesFrom, List.zipIdx_cons, List.mapM_cons, ih, entryOf, bind_assoc]
      rfl

/-- The number of a unit is the number of units before it. -/
theorem exists_split_of_mem_zipIdx {n : Nat} (h : (u, n) ∈ units.zipIdx) :
    ∃ before after, units = before ++ u :: after ∧ before.length = n := by
  obtain ⟨hlt, rfl⟩ := List.getElem?_eq_some_iff.mp (List.mk_mem_zipIdx_iff_getElem?.mp h)
  refine ⟨units.take n, units.drop (n + 1), ?_, List.length_take_of_le (Nat.le_of_lt hlt)⟩
  rw [← List.drop_eq_getElem_cons hlt, List.take_append_drop]

/-- **Units whose dependencies are met have entries.** -/
theorem exists_entryOf (hbefore : before <+: units) (hmet : AllMet units before) :
    ∀ numbered ∈ before.zipIdx, ∃ e, entryOf units numbered = .ok e := by
  rintro ⟨u, n⟩ hmem
  obtain ⟨front, back, hsplit, rfl⟩ := exists_split_of_mem_zipIdx hmem
  have hfront : front <+: units := .trans ⟨u :: back, hsplit.symm⟩ hbefore
  obtain ⟨requires, hrequires⟩ := exists_mapM_eq_ok fun id hid =>
    exists_dependency hfront (hmet front u back hsplit id hid)
  exact ⟨⟨u, requires⟩, by rw [entryOf, hrequires]; rfl⟩

/-- The second round comes to the first unit with a dependency that has no number, and reports the
first of these. -/
theorem entriesFrom_eq_error {after : List AnalysisUnit} {earlier later : List String}
    {e : ConfigurationError} (hsplit : units = before ++ u :: after) (hmet : AllMet units before)
    (hdeclared : u.requires = earlier ++ id :: later)
    (hearlier : ∀ d ∈ earlier, IsMet units before u d)
    (hid : dependency units before.length u id = .error e) :
    entriesFrom units 0 units = .error e := by
  have hbefore : before <+: units := ⟨u :: after, hsplit.symm⟩
  have hfirst : u.requires.mapM (dependency units before.length u) = .error e := by
    rw [hdeclared]
    exact mapM_eq_error_of_first (fun d hd => exists_dependency hbefore (hearlier d hd)) hid
  have hentry : entryOf units (u, before.length) = .error e := by
    rw [entryOf, hfirst]
    rfl
  have hnumbered : units.zipIdx =
      before.zipIdx ++ (u, before.length) :: after.zipIdx (before.length + 1) := by
    rw [hsplit, List.zipIdx_append, List.zipIdx_cons, Nat.zero_add]
  rw [entriesFrom_eq_mapM, hnumbered]
  exact mapM_eq_error_of_first (exists_entryOf hbefore hmet) hentry

/-- Among distinct units that do not have all dependencies met there is a first fault. -/
theorem allMet_or_firstFault (h : Distinct units) :
    AllMet units units ∨ ∃ e, FirstFault units e := by
  refine (inTurn_or_exists_first _ units).imp_right ?_
  rintro ⟨before, u, after, hsplit, hbefore, hu⟩
  rcases inTurn_or_exists_first (fun _ id => IsMet units before u id) u.requires with
    hall | ⟨earlier, id, later, hdeclared, hearlier, hid⟩
  · exact absurd (inTurn_iff_forall_mem.mp hall) hu
  · rw [inTurn_iff_forall_mem] at hearlier
    by_cases hknown : id ∈ units.map AnalysisUnit.id
    · obtain ⟨hrule, hlate⟩ : u.rule.isSome ∧ id ∉ before.map AnalysisUnit.id := by
        by_contra hnone
        push Not at hnone
        exact hid ⟨hknown, hnone⟩
      exact ⟨_, .forwardReference h hsplit hbefore hdeclared hearlier hrule hknown hlate⟩
    · exact ⟨_, .unknownDependency h hsplit hbefore hdeclared hearlier hknown⟩

/-! ## Building -/

/-- An id or code that occurs again is told first. -/
theorem build_of_duplicate (h : findDuplicate? [] [] units = some id) :
    build units = .error (.duplicateUnit id) := by
  rw [build, h]

/-- With distinct ids and codes only dependencies decide. -/
theorem build_of_distinct (h : Distinct units) :
    build units = (entriesFrom units 0 units).map Registry.mk := by
  rw [build, findDuplicate?_eq_none_iff.mpr h]

/-- Admissible units are registered. -/
theorem Admissible.exists_build (h : Admissible units) : ∃ r, build units = .ok r := by
  obtain ⟨entries, hentries⟩ := exists_mapM_eq_ok (exists_entryOf List.prefix_rfl h.met)
  refine ⟨⟨entries⟩, ?_⟩
  rw [build_of_distinct h.toDistinct, entriesFrom_eq_mapM, hentries]
  rfl

/-- **The first fault is the one that is reported.** -/
theorem FirstFault.build_eq {e : ConfigurationError} (h : FirstFault units e) :
    build units = .error e := by
  cases h with
  | repeatedId hsplit hdistinct hid =>
      rw [hsplit]
      exact build_of_duplicate (findDuplicate?_of_id hdistinct hid)
  | repeatedCode hsplit hdistinct hid hinfo hcode =>
      rw [hsplit]
      exact build_of_duplicate (findDuplicate?_of_code hdistinct hid hinfo hcode)
  | unknownDependency hdistinct hsplit hmet hdeclared hearlier hunknown =>
      rw [build_of_distinct hdistinct,
        entriesFrom_eq_error hsplit hmet hdeclared hearlier (dependency_of_unknown hunknown)]
      rfl
  | forwardReference hdistinct hsplit hmet hdeclared hearlier hrule hknown hlate =>
      have hlater := dependency_of_late ⟨_, hsplit.symm⟩ hrule hknown hlate
      rw [build_of_distinct hdistinct,
        entriesFrom_eq_error hsplit hmet hdeclared hearlier hlater]
      rfl

/-- Units are admissible or there is a first fault. -/
theorem admissible_or_firstFault (units : List AnalysisUnit) :
    Admissible units ∨ ∃ e, FirstFault units e := by
  rcases distinct_or_firstFault units with hdistinct | hfault
  · rcases allMet_or_firstFault hdistinct with hmet | hfault
    · exact .inl ⟨hdistinct, hmet⟩
    · exact .inr hfault
  · exact .inr hfault

/-- A registry is built exactly if the units are admissible. -/
theorem exists_build_iff : (∃ r, build units = .ok r) ↔ Admissible units := by
  refine ⟨?_, Admissible.exists_build⟩
  rintro ⟨r, hr⟩
  rcases admissible_or_firstFault units with h | ⟨e, he⟩
  · exact h
  · rw [he.build_eq] at hr
    cases hr

/-- Otherwise the error is the first fault. -/
theorem build_eq_error_iff {e : ConfigurationError} :
    build units = .error e ↔ FirstFault units e := by
  refine ⟨fun he => ?_, FirstFault.build_eq⟩
  rcases admissible_or_firstFault units with h | ⟨e', he'⟩
  · obtain ⟨r, hr⟩ := h.exists_build
    rw [hr] at he
    cases he
  · rw [he'.build_eq] at he
    cases he
    exact he'

/-- The entry of a unit holds the numbers of its dependencies in the declared order. -/
theorem exists_entry_of_build {r : Registry} (h : build units = .ok r) {i : Nat}
    (hu : units[i]? = some u) :
    ∃ requires, r.entries[i]? = some ⟨u, requires⟩ ∧
      List.Forall₂ (fun id n => units[n]?.map AnalysisUnit.id = some id) u.requires requires := by
  rw [← map_unit_of_build h, List.getElem?_map, Option.map_eq_some_iff] at hu
  obtain ⟨⟨_, requires⟩, hentry, rfl⟩ := hu
  exact ⟨requires, hentry,
    requires_of_entriesFrom (build_eq_ok h).2 _ (List.mem_of_getElem? hentry)⟩

/-- **A registry is built exactly from admissible units.**  For any units in the order of
registration, a registry is built if and only if ids are distinct, codes are distinct, every
dependency is the id of a registered unit, and that of a rule the id of one before it.  The registry
then has the units under their numbers, each with the numbers of the units it depends on, in the
declared order and all registered.  Otherwise the error is the first fault: the first id or code that
occurs again, of a unit the id before the code, and only where there is none the first dependency
that is not met. -/
theorem build_exact (units : List AnalysisUnit) :
    ((∃ r, build units = .ok r) ↔ Admissible units) ∧
    (∀ r : Registry, build units = .ok r → r.size = units.length ∧
      ∀ (i : Nat) (u : AnalysisUnit), units[i]? = some u →
        ∃ requires, r.entries[i]? = some ⟨u, requires⟩ ∧ (∀ n ∈ requires, n < r.size) ∧
          List.Forall₂ (fun id n => units[n]?.map AnalysisUnit.id = some id) u.requires requires) ∧
    ∀ e, build units = .error e ↔ FirstFault units e := by
  refine ⟨exists_build_iff, fun r hr => ⟨?_, fun i u hu => ?_⟩, fun e => build_eq_error_iff⟩
  · rw [size, ← List.length_map Entry.unit, map_unit_of_build hr]
  · obtain ⟨requires, hentry, hrequires⟩ := exists_entry_of_build hr hu
    exact ⟨requires, hentry,
      (wellFormed_of_build hr).requires_lt _ (List.mem_of_getElem? hentry), hrequires⟩

/-- Units with several faults: the first depends on none of them, a rule depends on a unit after it,
and another rule has its code. -/
def faultyUnits : List AnalysisUnit :=
  [Script.analysis {} "lost" "" ["missing"] .successor,
    Script.rule {} ⟨"early", "X1", "", .error⟩ ["late"] {},
    Script.analysis {} "late" "" [] (.constant 1),
    Script.rule {} ⟨"other", "X1", "", .error⟩ ["late"] {}]

/-- Units without a fault, of which one depends on a later one. -/
def soundUnits : List AnalysisUnit :=
  [Script.analysis {} "top" "" ["base", "base"] .successor,
    Script.analysis {} "base" "" [] (.constant 1),
    Script.rule {} ⟨"rule", "X1", "", .error⟩ ["base", "top"] {}]

/-- Units with several faults at once, and units without any. -/
theorem build_exact_sample :
    build faultyUnits = .error (.duplicateUnit "X1") ∧
      FirstFault faultyUnits (.duplicateUnit "X1") ∧
      build soundUnits = .ok ⟨soundUnits.zipWith Entry.mk [[1, 1], [], [1, 0]]⟩ ∧
      Admissible soundUnits := by
  have hfaulty : build faultyUnits = .error (.duplicateUnit "X1") := rfl
  have hsound : build soundUnits = .ok ⟨soundUnits.zipWith Entry.mk [[1, 1], [], [1, 0]]⟩ := rfl
  exact ⟨hfaulty, ((build_exact faultyUnits).2.2 _).mp hfaulty, hsound,
    (build_exact soundUnits).1.mp ⟨_, hsound⟩⟩

/-! ## Rules by name and code -/

section

variable {r : Registry} {n : Nat} {e : Entry} {info : RuleInfo}

/-- The entry that was looked up is that of the rule. -/
theorem rule?_of_lookup (h : r.lookup id = some n) (he : r.entries[n]? = some e) :
    r.rule? id = e.unit.rule := by
  rw [rule?, h, Option.bind_some, he, Option.bind_some]

/-- In a built registry no two rules have one code. -/
theorem code_inj_of_build (hr : build units = .ok r) {m : Nat} {e' : Entry} {info' : RuleInfo}
    (he : r.entries[n]? = some e) (hinfo : e.unit.rule = some info)
    (he' : r.entries[m]? = some e') (hinfo' : e'.unit.rule = some info')
    (hcode : info'.code = info.code) : m = n := by
  have hcodes := (exists_build_iff.mp ⟨r, hr⟩).codes
  rw [← map_unit_of_build hr, codesOf, List.filterMap_map, List.Nodup, List.pairwise_filterMap,
    List.pairwise_iff_getElem] at hcodes
  obtain ⟨hn, rfl⟩ := List.getElem?_eq_some_iff.mp he
  obtain ⟨hm, rfl⟩ := List.getElem?_eq_some_iff.mp he'
  rcases Nat.lt_trichotomy m n with hlt | heq | hlt
  · exact absurd hcode (hcodes m n hm hn hlt _ (by simp [hinfo']) _ (by simp [hinfo]))
  · exact heq
  · exact absurd hcode.symm (hcodes n m hn hm hlt _ (by simp [hinfo]) _ (by simp [hinfo']))

/-- A code that is no id is looked up among the rules. -/
theorem lookup_code (hr : build units = .ok r) (he : r.entries[n]? = some e)
    (hinfo : e.unit.rule = some info) (hfree : ∀ m < r.size, r.idOf m ≠ info.code) :
    r.lookup info.code = some n := by
  have hnone : (r.entries.findIdx? fun e => e.unit.id == info.code) = none := by
    rw [List.findIdx?_eq_none_iff]
    intro e' he'
    obtain ⟨m, hm⟩ := List.getElem?_of_mem he'
    have hne := hfree m (List.getElem?_eq_some_iff.mp hm).1
    rw [idOf_eq hm] at hne
    simpa using hne
  obtain ⟨m, hm⟩ : ∃ m, (r.entries.findIdx? fun e =>
      e.unit.rule.any fun info' => info'.code == info.code) = some m := by
    refine Option.isSome_iff_exists.mp (List.findIdx?_isSome.trans ?_)
    exact List.any_eq_true.mpr ⟨e, List.mem_of_getElem? he, by simp [hinfo]⟩
  obtain ⟨hlt, hany, -⟩ := List.findIdx?_eq_some_iff_getElem.mp hm
  obtain ⟨info', hinfo', hcode⟩ := (Option.any_eq_true _ _).mp hany
  have hcode' : info'.code = info.code := by simpa using hcode
  rw [lookup, hnone, Option.none_or, hm,
    code_inj_of_build hr he hinfo (List.getElem?_eq_getElem hlt) hinfo' hcode']

/-- **A rule is found by its name, and by its code unless another unit has it as its id.**  In any
registry that was built, of units that are registered under their names where they are rules: the
name of a rule is that of its own unit and of no other rule, and so is its code, provided that no
other unit has the code as its id.  If one has, the code denotes that unit, and the rule cannot be
asked for by its code. -/
theorem lookup_rule (hr : build units = .ok r) (hnamed : ∀ u ∈ units, u.IsNamed)
    (he : r.entries[n]? = some e) (hinfo : e.unit.rule = some info) :
    r.lookup info.name = some n ∧ r.rule? info.name = some info ∧
    ((∀ m < r.size, r.idOf m = info.code → m = n) →
      r.lookup info.code = some n ∧ r.rule? info.code = some info) ∧
    ∀ m < r.size, r.idOf m = info.code → m ≠ n →
      r.lookup info.code = some m ∧ r.rule? info.code ≠ some info := by
  have hwf := wellFormed_of_build hr
  have hlt : n < r.size := (List.getElem?_eq_some_iff.mp he).1
  have hname : ∀ {k : Nat} {e' : Entry}, r.entries[k]? = some e' → e'.unit.rule = some info →
      r.idOf k = info.name := by
    intro k e' hk hinfo'
    rw [idOf_eq hk]
    exact hnamed e'.unit (unit_mem_of_build hr hk) info hinfo'
  have hlookup : r.lookup info.name = some n := by
    rw [← hname he hinfo]
    exact hwf.lookup_idOf hlt
  refine ⟨hlookup, by rw [rule?_of_lookup hlookup he, hinfo], fun hfree => ?_, ?_⟩
  · have hcode : r.lookup info.code = some n := by
      by_cases hown : r.idOf n = info.code
      · rw [← hown]
        exact hwf.lookup_idOf hlt
      · refine lookup_code hr he hinfo fun m hm heq => hown ?_
        rw [← hfree m hm heq]
        exact heq
    exact ⟨hcode, by rw [rule?_of_lookup hcode he, hinfo]⟩
  · intro m hm heq hne
    have hcode : r.lookup info.code = some m := by
      rw [← heq]
      exact hwf.lookup_idOf hm
    refine ⟨hcode, fun hrule => hne ?_⟩
    -- if the other unit were this rule, it would have its name too
    obtain ⟨e', he'⟩ := exists_entry hm
    rw [rule?_of_lookup hcode he'] at hrule
    exact hwf.idOf_inj hm hlt ((hname he' hrule).trans (hname he hinfo).symm)

/-- A unit whose id is the code of a rule, that rule, and another one. -/
def clashUnits : List AnalysisUnit :=
  [Script.analysis {} "T001" "" [] (.constant 1),
    Script.rule {} ⟨"hidden", "T001", "", .error⟩ ["T001"] {},
    Script.rule {} ⟨"open", "T002", "", .error⟩ ["hidden"] {}]

/-- The registry of these units. -/
def clashRegistry : Registry :=
  ⟨clashUnits.zipWith Entry.mk [[], [0], [1]]⟩

/-- A rule is found by its name and by its code, where no id is that code. -/
theorem lookup_rule_sample :
    build clashUnits = .ok clashRegistry ∧ (∀ u ∈ clashUnits, u.IsNamed) ∧
      clashRegistry.lookup "open" = some 2 ∧ clashRegistry.lookup "T002" = some 2 ∧
      clashRegistry.rule? "T002" = some ⟨"open", "T002", "", .error⟩ := by
  have hbuild : build clashUnits = .ok clashRegistry := rfl
  have hnamed : ∀ u ∈ clashUnits, u.IsNamed := by
    intro u hu info hinfo
    simp only [clashUnits, List.mem_cons, List.not_mem_nil, or_false] at hu
    rcases hu with rfl | rfl | rfl
    · cases hinfo
    · cases hinfo
      rfl
    · cases hinfo
      rfl
  have hfree : ∀ m < clashRegistry.size, clashRegistry.idOf m = "T002" → m = 2 := by decide
  have hrule := lookup_rule hbuild hnamed (n := 2) rfl rfl
  exact ⟨hbuild, hnamed, hrule.1, hrule.2.2.1 hfree⟩

/-- **A code that is the id of another unit hides its rule**: the code denotes the other unit, and no
rule is found by it. -/
theorem rule_hidden_by_id :
    build clashUnits = .ok clashRegistry ∧
      clashRegistry.rules = [⟨"hidden", "T001", "", .error⟩, ⟨"open", "T002", "", .error⟩] ∧
      clashRegistry.lookup "hidden" = some 1 ∧ clashRegistry.lookup "T001" = some 0 ∧
      clashRegistry.rule? "T001" = none :=
  ⟨rfl, rfl, rfl, rfl, rfl⟩

end

end Registry

end SchemaLint

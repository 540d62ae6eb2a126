import Mathlib.Data.List.Forall2
import SchemaLint.Proofs.Cycle
import SchemaLint.Proofs.Registration
import SchemaLint.Proofs.Selection

/-!
# The rules that are chosen

An analysis is given words, each the name or the code of a rule, and a configuration.  It looks the
words up, leaves out the rules that are disabled, and hands the names of the others to the planner,
which looks them up again.  Names and codes of one rule come to the same name, and a name always
leads back to its rule, so the planner knows all that it is given.

* `Registry.Denotes`: the rule that a word stands for; `Registry.rule?_eq_some_iff`.
* `Config.Disables`: a configuration switches a rule off; `Config.isRuleEnabled_iff`.
* `pairwise_eraseDups_filter`: dropping repeats leaves things in the order in which they come first.
* `Plan.exists_requested`: the planner requests the rules of the names that it is given.
* **`Analyzer.selectedRules_exact`**: the first word without a rule is reported; otherwise the
  chosen rules are the enabled ones among those that are asked for, in the order of the request, and
  they are what is planned.
-/

namespace SchemaLint

/-! ## Lists without repeats -/

section

variable {α β : Type} [DecidableEq β] {f : α → β}

/-- A list without repeats has none to erase. -/
theorem eraseDups_eq_self {l : List β} (h : l.Nodup) : l.eraseDups = l := by
  induction l with
  | nil => rfl
  | cons a l ih =>
      obtain ⟨ha, hl⟩ := List.nodup_cons.mp h
      have hothers : l.filter (fun b => !b == a) = l := by
        refine List.filter_eq_self.mpr fun b hb => ?_
        have hne : b ≠ a := fun heq => ha (heq ▸ hb)
        simpa using hne
      rw [List.eraseDups_cons, hothers, ih hl]

/-- With one more element at the end, that one is kept if it is new. -/
theorem eraseDups_concat (l : List β) (b : β) :
    (l ++ [b]).eraseDups = l.eraseDups ++ if b ∈ l then [] else [b] := by
  rw [List.eraseDups_append]
  by_cases hb : b ∈ l
  · simp [List.removeAll, hb]
  · simp [List.removeAll, hb, List.eraseDups_cons]

/-- **Where only some elements are kept, their values stand in the order in which they come first
among the values of all**, if elements of one value are the same: by induction from the end, where a
value is new to those that are kept only if it is new to all. -/
theorem pairwise_eraseDups_filter (p : α → Bool) {l : List α}
    (hinj : ∀ x ∈ l, ∀ y ∈ l, f x = f y → x = y) :
    ((l.filter p).map f).eraseDups.Pairwise fun a b => (l.map f).idxOf a < (l.map f).idxOf b := by
  induction l using List.reverseRecOn with
  | nil => exact .nil
  | append_singleton l x ih =>
      have hinj' : ∀ y ∈ l, ∀ z ∈ l, f y = f z → y = z := fun y hy z hz =>
        hinj y (List.mem_append_left _ hy) z (List.mem_append_left _ hz)
      have hkept : ∀ {b}, b ∈ ((l.filter p).map f).eraseDups → b ∈ l.map f := by
        intro b hb
        obtain ⟨y, hy, rfl⟩ := List.mem_map.mp (List.mem_eraseDups.mp hb)
        exact List.mem_map_of_mem (List.mem_of_mem_filter hy)
      have hsame : ((l.filter p).map f).eraseDups.Pairwise fun a b =>
          ((l ++ [x]).map f).idxOf a < ((l ++ [x]).map f).idxOf b := by
        refine (ih hinj').imp_of_mem fun ha hb hlt => ?_
        rw [List.map_append, List.idxOf_append_of_mem (hkept ha),
          List.idxOf_append_of_mem (hkept hb)]
        exact hlt
      rw [List.filter_append]
      by_cases hx : p x
      · have hvalues : ((l.filter p ++ [x]).map f).eraseDups =
            ((l.filter p).map f).eraseDups ++ if f x ∈ (l.filter p).map f then [] else [f x] := by
          rw [List.map_append, List.map_singleton, eraseDups_concat]
        rw [List.filter_cons_of_pos hx, List.filter_nil, hvalues]
        split_ifs with hold
        · rwa [List.append_nil]
        · refine List.pairwise_append.mpr ⟨hsame, List.pairwise_singleton _ _, fun a ha b hb => ?_⟩
          obtain rfl := List.mem_singleton.mp hb
          have hnew : f x ∉ l.map f := by
            intro hmem
            obtain ⟨y, hy, heq⟩ := List.mem_map.mp hmem
            obtain rfl := hinj y (List.mem_append_left _ hy) x (by simp) heq
            exact hold (List.mem_map_of_mem (List.mem_filter.mpr ⟨hy, hx⟩))
          rw [List.map_append, List.idxOf_append_of_mem (hkept ha),
            List.idxOf_append_of_notMem hnew]
          exact (List.idxOf_lt_length_of_mem (hkept ha)).trans_le (Nat.le_add_right _ _)
      · rwa [List.filter_cons_of_neg hx, List.filter_nil, List.append_nil]

end

/-! ## Words and rules -/

namespace Registry

variable {units : List AnalysisUnit} {r : Registry} {word : String} {info : RuleInfo}

/-- A word stands for a rule: it is the id of its unit, or else the id of no unit and its code. -/
def Denotes (r : Registry) (word : String) (info : RuleInfo) : Prop :=
  ∃ e ∈ r.entries, e.unit.rule = some info ∧
    (e.unit.id = word ∨ info.code = word ∧ ∀ other ∈ r.entries, other.unit.id ≠ word)

/-- **A word is looked up as the rule that it stands for.** -/
theorem rule?_eq_some_iff (hr : build units = .ok r) :
    r.rule? word = some info ↔ r.Denotes word info := by
  have hwf := wellFormed_of_build hr
  constructor
  · intro h
    obtain ⟨n, hlookup, hn⟩ := Option.bind_eq_some_iff.mp h
    obtain ⟨e, he, hinfo⟩ := Option.bind_eq_some_iff.mp hn
    refine ⟨e, List.mem_of_getElem? he, hinfo, ?_⟩
    rcases Option.or_eq_some_iff.mp hlookup with hid | ⟨hnone, hcode⟩
    · obtain ⟨hlt, hfound, -⟩ := List.findIdx?_eq_some_iff_getElem.mp hid
      obtain rfl := Option.some.inj ((List.getElem?_eq_getElem hlt).symm.trans he)
      exact .inl (beq_iff_eq.mp hfound)
    · obtain ⟨hlt, hfound, -⟩ := List.findIdx?_eq_some_iff_getElem.mp hcode
      obtain rfl := Option.some.inj ((List.getElem?_eq_getElem hlt).symm.trans he)
      rw [hinfo] at hfound
      refine .inr ⟨beq_iff_eq.mp hfound, fun other hother heq => ?_⟩
      have hne := List.findIdx?_eq_none_iff.mp hnone other hother
      simp [heq] at hne
  · rintro ⟨e, hmem, hinfo, hword⟩
    obtain ⟨n, he⟩ := List.getElem?_of_mem hmem
    have hlookup : r.lookup word = some n := by
      rcases hword with hid | ⟨hcode, hfree⟩
      · rw [← hid, ← idOf_eq he]
        exact hwf.lookup_idOf (List.getElem?_eq_some_iff.mp he).1
      · rw [← hcode] at hfree ⊢
        refine lookup_code hr he hinfo fun m hm => ?_
        rw [idOf_eq (List.getElem?_eq_getElem hm)]
        exact hfree _ (List.getElem_mem hm)
    rw [rule?_of_lookup hlookup he, hinfo]

/-- The name of a rule leads back to its unit. -/
theorem exists_lookup_name (hr : build units = .ok r) (hnamed : ∀ u ∈ units, u.IsNamed)
    (hinfo : info ∈ r.rules) :
    ∃ n e, r.lookup info.name = some n ∧ r.idOf n = info.name ∧ r.entries[n]? = some e ∧
      e.unit.rule = some info := by
  obtain ⟨e, hmem, hrule⟩ := List.mem_filterMap.mp hinfo
  obtain ⟨n, he⟩ := List.getElem?_of_mem hmem
  have hid : r.idOf n = info.name := by
    rw [idOf_eq he]
    exact hnamed e.unit (unit_mem_of_build hr he) info hrule
  refine ⟨n, e, ?_, hid, he, hrule⟩
  rw [← hid]
  exact (wellFormed_of_build hr).lookup_idOf (List.getElem?_eq_some_iff.mp he).1

/-- Registered rules are told apart by their names. -/
theorem rule_inj_of_name (hr : build units = .ok r) (hnamed : ∀ u ∈ units, u.IsNamed)
    {other : RuleInfo} (hinfo : info ∈ r.rules) (hother : other ∈ r.rules)
    (h : info.name = other.name) : info = other := by
  obtain ⟨n, e, hn, -, he, hrule⟩ := exists_lookup_name hr hnamed hinfo
  obtain ⟨m, e', hm, -, he', hrule'⟩ := exists_lookup_name hr hnamed hother
  rw [h, hm] at hn
  obtain rfl := Option.some.inj hn
  obtain rfl := Option.some.inj (he.symm.trans he')
  exact Option.some.inj (hrule.symm.trans hrule')

end Registry

/-! ## Disabled rules -/

/-- A configuration switches a rule off: what it says under the name of the rule, or if nothing is
said there what it says under the code, is that the rule is not enabled. -/
def Config.Disables (c : Config) (info : RuleInfo) : Prop :=
  ∃ said : RuleSettings, said.enabled = some false ∧
    (c.rules.lookup info.name = some said ∨
      c.rules.lookup info.name = none ∧ c.rules.lookup info.code = some said)

/-- A rule is enabled unless the configuration disables it. -/
theorem Config.isRuleEnabled_iff {c : Config} {info : RuleInfo} :
    c.isRuleEnabled info.name info.code ↔ ¬ c.Disables info := by
  have hsaid : ∀ said, c.ruleSettings? info.name info.code = some said ↔
      c.rules.lookup info.name = some said ∨
        c.rules.lookup info.name = none ∧ c.rules.lookup info.code = some said := by
    intro said
    rw [ruleSettings?, Option.or_eq_some_iff]
  simp only [Disables, ← hsaid]
  unfold isRuleEnabled
  cases c.ruleSettings? info.name info.code with
  | none => simp
  | some said =>
      rcases said with ⟨_ | _ | _, severity⟩ <;> simp

/-! ## The plan of a selection -/

namespace Plan

variable {units : List AnalysisUnit} {r : Registry} {names : List String}

/-- A number is that of the rule of a name. -/
def IsRuleOf (r : Registry) (name : String) (n : Nat) : Prop :=
  ∃ e info, r.entries[n]? = some e ∧ e.unit.rule = some info ∧ info.name = name

/-- **Names of rules are requested as they are.** -/
theorem exists_requested (hr : Registry.build units = .ok r) (hnamed : ∀ u ∈ units, u.IsNamed)
    (hnodup : names.Nodup) (hnames : ∀ name ∈ names, ∃ info ∈ r.rules, info.name = name)
    {plan : Plan} (hplan : of r names = .ok plan) :
    List.Forall₂ (IsRuleOf r) names plan.requested := by
  obtain ⟨found, hfound, hrequested, -⟩ := of_eq_ok_iff.mp hplan
  have hrules : List.Forall₂ (fun name n => r.idOf n = name ∧ IsRuleOf r name n) names found := by
    refine ((List.forall₂_and_left _ _).mpr ⟨hnames, hfound⟩).imp fun name n h => ?_
    obtain ⟨⟨info, hinfo, rfl⟩, hn⟩ := h
    obtain ⟨m, e, hm, hid, he, hrule⟩ := Registry.exists_lookup_name hr hnamed hinfo
    obtain rfl : m = n := Option.some.inj (hm.symm.trans hn)
    exact ⟨hid, e, info, he, hrule, rfl⟩
  have hids : found.map r.idOf = names := by
    rw [← List.forall₂_eq_eq_eq, List.forall₂_map_left_iff]
    exact (hrules.imp fun name n h => h.1).flip
  rw [hrequested, eraseDups_eq_self (List.Nodup.of_map r.idOf (hids ▸ hnodup))]
  exact hrules.imp fun name n h => h.2

end Plan

/-! ## Choosing rules -/

namespace Analyzer

variable {units : List AnalysisUnit} {a : Analyzer} {infos : List RuleInfo}

/-- The rules that an analysis is asked for: those that its words stand for, one for each word, or
all rules if there are no words. -/
def AskedFor (a : Analyzer) (infos : List RuleInfo) : Prop :=
  if a.rules = [] then infos = a.registry.rules
  else List.Forall₂ a.registry.Denotes a.rules infos

/-- The candidates are the rules that are asked for, in order. -/
theorem candidates_eq_ok_iff (hr : Registry.build units = .ok a.registry) :
    a.candidates = .ok infos ↔ a.AskedFor infos := by
  unfold candidates AskedFor
  by_cases hrules : a.rules = []
  · simp [hrules, eq_comm]
  · rw [if_neg (by simpa using hrules), if_neg hrules, mapM_eq_ok_iff]
    simp only [requestedRule_eq_ok_iff, Registry.rule?_eq_some_iff hr]

/-- Words that all stand for rules have rules to choose from. -/
theorem exists_candidates_of_denotes (hr : Registry.build units = .ok a.registry)
    (hwords : ∀ word ∈ a.rules, ∃ info, a.registry.Denotes word info) :
    ∃ infos, a.candidates = .ok infos := by
  unfold candidates
  split_ifs
  · exact ⟨_, rfl⟩
  · refine exists_mapM_eq_ok fun word hword => ?_
    obtain ⟨info, hinfo⟩ := hwords word hword
    exact ⟨info, requestedRule_eq_ok_iff.mpr ((Registry.rule?_eq_some_iff hr).mpr hinfo)⟩

/-- A word that stands for no rule fails the selection, if all words before it stand for rules. -/
theorem selectedRules_eq_error (hr : Registry.build units = .ok a.registry)
    {before after : List String} {word : String} (hrules : a.rules = before ++ word :: after)
    (hbefore : ∀ known ∈ before, ∃ info, a.registry.Denotes known info)
    (hword : ¬ ∃ info, a.registry.Denotes word info) :
    a.selectedRules = .error (.unknownUnit word) := by
  have hunknown : a.requestedRule word = .error (.unknownUnit word) := by
    unfold requestedRule
    cases hrule : a.registry.rule? word with
    | none => rfl
    | some info => exact absurd ⟨info, (Registry.rule?_eq_some_iff hr).mp hrule⟩ hword
  have hcandidates : a.candidates = .error (.unknownUnit word) := by
    unfold candidates
    rw [if_neg (by simp [hrules]), hrules]
    refine mapM_eq_error_of_first (fun known hknown => ?_) hunknown
    obtain ⟨info, hinfo⟩ := hbefore known hknown
    exact ⟨info, requestedRule_eq_ok_iff.mpr ((Registry.rule?_eq_some_iff hr).mpr hinfo)⟩
  rw [selectedRules_eq, hcandidates]
  rfl

/-- What is selected can be planned: the planner knows every name and requests its rule, so only
rules that lead to a circle have no plan. -/
theorem plan_cases (hr : Registry.build units = .ok a.registry) (hnamed : ∀ u ∈ units, u.IsNamed)
    {selected : List String} (hnodup : selected.Nodup)
    (hselected : ∀ name ∈ selected, ∃ info ∈ a.registry.rules, info.name = name) :
    (∃ plan, Plan.of a.registry selected = .ok plan ∧
      List.Forall₂ (Plan.IsRuleOf a.registry) selected plan.requested) ∨
    ∃ ids, Plan.of a.registry selected = .error (.cycle ids) ∧
      ∃ n, Plan.Needs a.registry selected n ∧ a.registry.LeadsToCycle n := by
  have hknown : ∀ name ∈ selected, (a.registry.lookup name).isSome := by
    intro name hname
    obtain ⟨info, hinfo, rfl⟩ := hselected name hname
    obtain ⟨n, -, hn, -⟩ := Registry.exists_lookup_name hr hnamed hinfo
    exact Option.isSome_iff_exists.mpr ⟨n, hn⟩
  rcases Plan.of_cases (Registry.wellFormed_of_build hr) hknown with
    ⟨plan, hplan, -⟩ | ⟨stuck, hplan, hne, -, hstuck⟩
  · exact .inl ⟨plan, hplan, Plan.exists_requested hr hnamed hnodup hselected hplan⟩
  · obtain ⟨n, hn⟩ := List.exists_mem_of_ne_nil stuck hne
    exact .inr ⟨_, hplan, n, (hstuck n).mp hn⟩

/-- **The rules of an analysis are the enabled ones among those that it is asked for.**  For every
list of words, every registry that was built, of units that are registered under their names where
they are rules, and every configuration: the first word that stands for no rule is reported as
unknown.  If all stand for rules, the selection succeeds with the names of the rules asked for that
the configuration does not switch off, each of them once and in the order in which they are first
asked for.  The planner knows these names: unless the rules need units that lead to a circle, it
plans just these rules in this order. -/
theorem selectedRules_exact (hr : Registry.build units = .ok a.registry)
    (hnamed : ∀ u ∈ units, u.IsNamed) :
    (∀ before word after, a.rules = before ++ word :: after →
      (∀ known ∈ before, ∃ info, a.registry.Denotes known info) →
      (¬ ∃ info, a.registry.Denotes word info) →
      a.selectedRules = .error (.unknownUnit word)) ∧
    ((∀ word ∈ a.rules, ∃ info, a.registry.Denotes word info) →
      ∃ infos selected, a.AskedFor infos ∧ a.selectedRules = .ok selected ∧ selected.Nodup ∧
        (∀ name, name ∈ selected ↔ ∃ info ∈ infos, info.name = name ∧ ¬ a.config.Disables info) ∧
        (selected.Pairwise fun n m =>
          (infos.map RuleInfo.name).idxOf n < (infos.map RuleInfo.name).idxOf m) ∧
        (∀ word, Plan.of a.registry selected ≠ .error (.unknownUnit word)) ∧
        ((∃ plan, Plan.of a.registry selected = .ok plan ∧
            List.Forall₂ (Plan.IsRuleOf a.registry) selected plan.requested) ∨
          ∃ ids, Plan.of a.registry selected = .error (.cycle ids) ∧
            ∃ n, Plan.Needs a.registry selected n ∧ a.registry.LeadsToCycle n)) := by
  refine ⟨fun before word after => selectedRules_eq_error hr, fun hwords => ?_⟩
  obtain ⟨infos, hinfos⟩ := exists_candidates_of_denotes hr hwords
  have hrules : ∀ info ∈ infos, info ∈ a.registry.rules := fun info =>
    mem_rules_of_candidates hinfos
  obtain ⟨selected, hselected⟩ : ∃ selected, a.selectedRules = .ok selected := by
    rw [selectedRules_eq, hinfos]
    exact ⟨_, rfl⟩
  have hmem : ∀ name, name ∈ selected ↔
      ∃ info ∈ infos, info.name = name ∧ ¬ a.config.Disables info := by
    intro name
    rw [mem_selected_iff hinfos hselected]
    simp only [Config.isRuleEnabled_iff, and_comm]
  -- Two rules asked for with one name are the same rule, so removing repetitions by name keeps
  -- the order of the first requests.
  have horder : selected.Pairwise fun n m =>
      (infos.map RuleInfo.name).idxOf n < (infos.map RuleInfo.name).idxOf m := by
    rw [selectedRules_eq, hinfos] at hselected
    rw [← Except.ok.inj hselected]
    exact pairwise_eraseDups_filter _ fun info hinfo other hother =>
      Registry.rule_inj_of_name hr hnamed (hrules info hinfo) (hrules other hother)
  have hnodup : selected.Nodup := horder.imp fun hlt heq => (heq ▸ hlt).false
  have hplan := plan_cases hr hnamed hnodup fun name hname => by
    obtain ⟨info, hinfo, hname, -⟩ := (hmem name).mp hname
    exact ⟨info, hrules info hinfo, hname⟩
  refine ⟨infos, selected, (candidates_eq_ok_iff hr).mp hinfos, hselected, hnodup, hmem, horder,
    fun word hword => ?_, hplan⟩
  rcases hplan with ⟨plan, hok, -⟩ | ⟨ids, hcycle, -⟩
  · rw [hword] at hok
    cases hok
  · rw [hword] at hcycle
    cases hcycle

/-- An analysis that is asked for some words.  Its configuration switches off one rule by its code,
and another one by its code but not by its name. -/
def choosing (words : List String) : Analyzer where
  root := ⟨"."⟩
  registry := Registry.clashRegistry
  rules := words
  patterns := []
  config :=
    { rules := [("T001", ⟨some false, none⟩), ("T002", ⟨some false, none⟩),
        ("open", ⟨some true, none⟩)] }

/-- A request by name, by code and by a code that another id hides. -/
theorem selectedRules_exact_sample :
    (choosing ["T002", "T001", "other"]).selectedRules = .error (.unknownUnit "T001") ∧
    ∃ infos selected, (choosing ["T002", "hidden", "open"]).AskedFor infos ∧
      (choosing ["T002", "hidden", "open"]).selectedRules = .ok selected ∧ selected = ["open"] ∧
      (∀ name, name ∈ selected ↔ ∃ info ∈ infos, info.name = name ∧
        ¬ (choosing ["T002", "hidden", "open"]).config.Disables info) ∧
      ∃ plan, Plan.of Registry.clashRegistry selected = .ok plan ∧
        List.Forall₂ (Plan.IsRuleOf Registry.clashRegistry) selected plan.requested := by
  have hbuild : Registry.build Registry.clashUnits = .ok Registry.clashRegistry := rfl
  have hnamed : ∀ u ∈ Registry.clashUnits, u.IsNamed := by
    intro u hu info hinfo
    simp only [Registry.clashUnits, List.mem_cons, List.not_mem_nil, or_false] at hu
    rcases hu with rfl | rfl | rfl
    · cases hinfo
    · cases hinfo
      rfl
    · cases hinfo
      rfl
  have hdenotes : ∀ word, (Registry.clashRegistry.rule? word).isSome →
      ∃ info, Registry.clashRegistry.Denotes word info := by
    intro word hsome
    obtain ⟨info, hinfo⟩ := Option.isSome_iff_exists.mp hsome
    exact ⟨info, (Registry.rule?_eq_some_iff hbuild).mp hinfo⟩
  constructor
  · refine (selectedRules_exact (a := choosing ["T002", "T001", "other"]) hbuild hnamed).1
      ["T002"] "T001" ["other"] rfl ?_ ?_
    · intro known hknown
      exact hdenotes known (by rw [List.mem_singleton.mp hknown]; decide)
    · rintro ⟨info, hinfo⟩
      have hnone : Registry.clashRegistry.rule? "T001" = none := rfl
      cases hnone.symm.trans ((Registry.rule?_eq_some_iff hbuild).mpr hinfo)
  · have hwords : ∀ word ∈ ["T002", "hidden", "open"],
        (Registry.clashRegistry.rule? word).isSome := by decide
    obtain ⟨infos, selected, hasked, hselected, -, hmem, -, -, hplan⟩ :=
      (selectedRules_exact (a := choosing ["T002", "hidden", "open"]) hbuild hnamed).2
        fun word hword => hdenotes word (hwords word hword)
    have heq : (choosing ["T002", "hidden", "open"]).selectedRules = .ok ["open"] := by decide
    obtain rfl : selected = ["open"] := Except.ok.inj (hselected.symm.trans heq)
    refine ⟨infos, _, hasked, hselected, rfl, hmem, ?_⟩
    have hplanned : Plan.of Registry.clashRegistry ["open"] = .ok ⟨[0, 1, 2], [2]⟩ := by cbv
    rcases hplan with hok | ⟨ids, hcycle, -⟩
    · exact hok
    · cases hcycle.symm.trans hplanned

end Analyzer

end SchemaLint

import Mathlib.Data.List.Forall2
import SchemaLint.Proofs.Scoping

/-!
# Bindings without a type

A parameter or a `let` that names what it binds, without a type, hides an outer binding of that
name: no call on it is a setter call, whatever the outer one was.  The collector only sees patterns
that are a name themselves.  A name that is bound inside a larger pattern, by a loop, in a match arm
or in a condition leaves the outer binding in sight.

* `Walk.Related`: two walks meet the same calls, in environments that are related name by name; so
  do any two walks whose patterns bind the same names to related values (`walk_related`).
* `untyped`: what patterns bind, with whether there is no type.
* **`collect_hides_untyped`**: no setter call is made on a name whose innermost binding is untyped.
* `collect_past_patterns`: calls in the scope of other patterns that are taken for setter calls on
  the outer binding.
-/

namespace SchemaLint.SetterCall

open Code

/-! ## Walks with related environments -/

section

variable {R : Bool → Bool → Prop}

/-- The same call in environments that are related name by name. -/
structure Site.Related (R : Bool → Bool → Prop) (site site' : Site) : Prop where
  /-- The receiver is the same. -/
  receiver : site.receiver = site'.receiver
  /-- So is the method. -/
  method : site.method = site'.method
  /-- So are the arguments. -/
  args : site.args = site'.args
  /-- The environments are related. -/
  env : ∀ name, R (site.env name) (site'.env name)

/-- The same calls, and environments that are related at each of them and at the end. -/
structure Walk.Related (R : Bool → Bool → Prop) (w w' : Walk) : Prop where
  /-- The calls are related one by one. -/
  sites : List.Forall₂ (Site.Related R) w.sites w'.sites
  /-- The environments at the end are related. -/
  env : ∀ name, R (w.env name) (w'.env name)

/-- Related walks that go on with related walks stay related. -/
theorem Walk.Related.next {w w' : Walk} {go go' : Environment → Walk} (h : Walk.Related R w w')
    (hgo : ∀ {env env' : Environment}, (∀ name, R (env name) (env' name)) →
      Walk.Related R (go env) (go' env')) :
    Walk.Related R (w.next go) (w'.next go') :=
  ⟨List.rel_append h.sites (hgo h.env).sites, (hgo h.env).env⟩

/-- Two bindings of one name to related values. -/
def BindsRelated (R : Bool → Bool → Prop) (binding binding' : String × Bool) : Prop :=
  binding.1 = binding'.1 ∧ R binding.2 binding'.2

/-- Related bindings of the same names keep environments related. -/
theorem Environment.related_bindAll {env env' : Environment}
    (henv : ∀ name, R (env name) (env' name)) {bindings bindings' : List (String × Bool)}
    (h : List.Forall₂ (BindsRelated R) bindings bindings') (name : String) :
    R (env.bindAll bindings name) (env'.bindAll bindings' name) := by
  induction h generalizing env env' with
  | nil => exact henv name
  | @cons binding binding' bindings bindings' hbinding _ ih =>
      refine ih fun other => ?_
      obtain ⟨bound, tracked⟩ := binding
      obtain ⟨bound', tracked'⟩ := binding'
      obtain ⟨rfl, htracked⟩ := hbinding
      by_cases hother : other = bound
      · subst hother
        simpa using htracked
      · simpa [Function.update_of_ne hother] using henv other

variable {binds binds' : Node → Option (String × Bool)}

/-- The parameters of a function bind related values. -/
theorem related_params (hbinds : ∀ n, Option.Rel (BindsRelated R) (binds n) (binds' n))
    (params : List Node) :
    List.Forall₂ (BindsRelated R) (params.filterMap binds) (params.filterMap binds') :=
  List.rel_filterMap (R := Eq) (fun n _ hn => hn ▸ hbinds n) (List.forall₂_refl params)

/-- A binding that may be missing is related as a list. -/
theorem related_toList {binding binding' : Option (String × Bool)}
    (h : Option.Rel (BindsRelated R) binding binding') :
    List.Forall₂ (BindsRelated R) binding.toList binding'.toList := by
  cases h with
  | none => exact .nil
  | some h => exact .cons h .nil

mutual

/-- Two walks whose patterns bind the same names to related values meet the same calls, in related
environments. -/
theorem walk_related (hbinds : ∀ n, Option.Rel (BindsRelated R) (binds n) (binds' n)) (n : Node)
    {env env' : Environment} (henv : ∀ name, R (env name) (env' name)) :
    Walk.Related R (walk .whole binds env n) (walk .whole binds' env' n) := by
  cases n with
  | tokens ts => exact ⟨.nil, henv⟩
  | group delimiter place inner => exact walkAll_related hbinds inner henv
  | seq parts => exact walkAll_related hbinds parts henv
  | conditioned parts conditions =>
      exact .next (walkAll_related hbinds conditions henv) (walkAll_related hbinds parts)
  | bodied front attributes body =>
      exact .next (.next (walkAll_related hbinds attributes henv) (walkAll_related hbinds front))
        (walk_related hbinds body)
  | arranged ts parts => exact walkAll_related hbinds parts henv
  | attributed attributes inner =>
      exact .next (walkAll_related hbinds attributes henv) (walk_related hbinds inner)
  | literal ts => exact ⟨.nil, henv⟩
  | path name parts => exact walkAll_related hbinds parts henv
  | paren place inner => exact walk_related hbinds inner henv
  | reference mark inner =>
      exact .next (walkAll_related hbinds mark henv) (walk_related hbinds inner)
  | deref mark inner => exact walk_related hbinds inner henv
  | operation left mark right =>
      exact .next (walk_related hbinds left henv) (walk_related hbinds right)
  | call callee place args trailing =>
      exact .next (walk_related hbinds callee henv) (walkAll_related hbinds args)
  | methodCall attributes receiver dot method generics place args trailing =>
      rw [walk, walk]
      refine .next (.next (.next (.next ?_ (walkAll_related hbinds attributes))
        (walk_related hbinds receiver)) (walkAll_related hbinds generics))
        (walkAll_related hbinds args)
      exact ⟨.cons ⟨rfl, rfl, rfl, henv⟩ .nil, henv⟩
  | record attributes name head place fields trailing dots rest =>
      exact .next (.next (.next (walkAll_related hbinds attributes henv)
        (walkAll_related hbinds head)) (walkAll_related hbinds fields))
        (walkAll_related hbinds rest)
  | field attributes member shorthand value =>
      exact .next (walkAll_related hbinds attributes henv) (walk_related hbinds value)
  -- Bindings made inside a scope or a block are not seen after it, so the environment is the one
  -- before.
  | scope params parts =>
      have hinside := walkAll_related hbinds parts
        (Environment.related_bindAll henv (related_params hbinds params))
      exact ⟨hinside.sites, henv⟩
  | block place statements =>
      exact ⟨(walkAll_related hbinds statements henv).sites, henv⟩
  | binding attributes pattern init =>
      have hinit := walkAll_related hbinds init henv
      exact ⟨hinit.sites, Environment.related_bindAll hinit.env (related_toList (hbinds pattern))⟩
  | binder mark name sub =>
      exact .next (walkAll_related hbinds mark henv) (walkAll_related hbinds sub)
  | typed pattern type =>
      exact .next (walk_related hbinds pattern henv) (walk_related hbinds type)
  | use tree parts => exact walkAll_related hbinds parts henv
  | macroCall parts arguments => exact walkAll_related hbinds arguments henv

/-- So do walks through several pieces of code. -/
theorem walkAll_related (hbinds : ∀ n, Option.Rel (BindsRelated R) (binds n) (binds' n))
    (ns : List Node) {env env' : Environment} (henv : ∀ name, R (env name) (env' name)) :
    Walk.Related R (walkAll .whole binds env ns) (walkAll .whole binds' env' ns) := by
  cases ns with
  | nil => exact ⟨.nil, henv⟩
  | cons n rest => exact .next (walk_related hbinds n henv) (walkAll_related hbinds rest)

end

end

/-! ## Untyped bindings -/

/-- The binding that a pattern makes if it names one directly, with whether no type is written for
it. -/
def untyped : Node → Option (String × Bool)
  | .attributed _ inner => untyped inner
  | .binder _ name _ => some (name.name, true)
  | .typed pattern _ => (untyped pattern).map fun binding => (binding.1, false)
  | _ => none

/-- A pattern binds a name, and is untyped unless it has a type. -/
theorem untyped_eq_some_iff {pattern : Node} {name : String} {b : Bool} :
    untyped pattern = some (name, b) ↔ ∃ type, Names pattern name type ∧ b = type.isNone := by
  fun_induction untyped pattern generalizing b with
  | case1 attributes inner ih =>
      rw [ih]
      exact exists_congr fun type => and_congr_left fun _ =>
        ⟨.attributed, fun | .attributed h => h⟩
  | case2 mark ident sub =>
      constructor
      · rintro ⟨⟩
        exact ⟨none, .binder, rfl⟩
      · rintro ⟨_, ⟨⟩, rfl⟩
        rfl
  | case3 pattern type ih =>
      rw [Option.map_eq_some_iff]
      constructor
      · rintro ⟨⟨name, inner⟩, hinner, ⟨⟩⟩
        obtain ⟨type', hnames, -⟩ := ih.mp hinner
        exact ⟨_, .typed hnames, rfl⟩
      · rintro ⟨_, @⟨⟩, rfl⟩
        rename_i inner hinner
        exact ⟨(name, inner.isNone), ih.mpr ⟨inner, hinner, rfl⟩, rfl⟩
  | case4 pattern hattributed hbinder htyped =>
      refine iff_of_false (by simp) ?_
      rintro ⟨_, _ | _ | _, -⟩
      · exact hbinder _ _ _ rfl
      · exact htyped _ _ rfl
      · exact hattributed _ _ rfl

/-- An untyped pattern binds its name to what is given for that case. -/
theorem related_untyped (imports : ImportTable) (settings : SchemaSettings) (tracked : Bool)
    (pattern : Node) :
    Option.Rel (BindsRelated fun value isUntyped => isUntyped = true → value = tracked)
      (bindingOf? imports settings tracked pattern) (untyped pattern) := by
  induction tracked, pattern using bindingOf?.induct imports settings with
  | case1 tracked attributes inner ih =>
      rw [bindingOf?, untyped]
      exact ih
  | case2 tracked mark name sub =>
      rw [bindingOf?, untyped]
      exact .some ⟨rfl, fun _ => rfl⟩
  | case3 tracked pattern type ih =>
      rw [bindingOf?, untyped]
      generalize bindingOf? imports settings (isResourceData imports settings type) pattern = inner,
        untyped pattern = inner' at ih ⊢
      cases ih with
      | none => exact .none
      | some h =>
          refine .some ⟨h.1, fun hfalse => ?_⟩
          cases hfalse
  | case4 tracked pattern hattributed hbinder htyped =>
      rw [bindingOf?, untyped]
      · exact .none
      all_goals assumption

/-- What is found at a call, seen from the environment that says which names are untyped. -/
structure Site.Finds (site : Site) (found : Option SetterCall) : Prop where
  /-- A setter call that is found is the call at hand. -/
  call {c : SetterCall} (h : found = some c) : RefersTo site.receiver c.receiver ∧
    c.start = site.receiver.place ∧ c.method = site.method.name ∧
    c.methodPosition = site.method.place ∧ c.args = site.args.map argument
  /-- None is found on an untyped name. -/
  hidden {name : String} (h : RefersTo site.receiver name) (hname : site.env name = true) :
    found = none

/-- A call at a site is told by the related site, and there is none where that one binds the receiver
without a type. -/
theorem Site.Related.finds {settings : SchemaSettings} {site site' : Site}
    (h : Site.Related (fun tracked isUntyped => isUntyped = true → tracked = false) site site') :
    site'.Finds (site.call? settings) where
  call {c} hc := by
    obtain ⟨-, name, hrefers, -, rfl⟩ := call?_eq_some_iff.mp hc
    exact ⟨h.receiver ▸ hrefers, by rw [h.receiver], by rw [h.method], by rw [h.method],
      by rw [h.args]⟩
  hidden {name} hrefers hname := by
    rw [Option.eq_none_iff_forall_ne_some]
    intro c hc
    obtain ⟨-, name', hrefers', htracked, -⟩ := call?_eq_some_iff.mp hc
    rw [h.receiver] at hrefers'
    have hsame : some name = some name' := by
      rw [← receiverName?_eq_some_iff.mpr hrefers, ← receiverName?_eq_some_iff.mpr hrefers']
    cases hsame
    rw [h.env name hname] at htracked
    cases htracked

/-- **Untyped bindings hide outer ones.**  The method calls of a file are met with an environment
that says for each name whether its innermost binding, among the parameters of functions and closures
and the `let` statements that are that name, has no type.  The setter calls of the file are found at
these calls, and none is found where the receiver is such a name. -/
theorem collect_hides_untyped (imports : ImportTable) (settings : SchemaSettings)
    (items : List Node) :
    (∃ found : List (Option SetterCall),
      List.Forall₂ Site.Finds (walkAll .whole untyped (fun _ => false) items).sites found ∧
      collect imports settings items = found.reduceOption) ∧
    ∀ (pattern : Node) (name : String) (isUntyped : Bool),
      untyped pattern = some (name, isUntyped) ↔
        ∃ type, Names pattern name type ∧ isUntyped = type.isNone := by
  refine ⟨?_, fun _ _ _ => untyped_eq_some_iff⟩
  let tracked := walkAll .whole (bindingOf? imports settings false) (fun _ => false) items
  have hrelated : Walk.Related (fun value isUntyped => isUntyped = true → value = false) tracked
      (walkAll .whole untyped (fun _ => false) items) :=
    walkAll_related (related_untyped imports settings false) items fun _ _ => rfl
  refine ⟨tracked.sites.map (Site.call? settings), ?_, ?_⟩
  · exact List.forall₂_map_right_iff.mpr (hrelated.sites.flip.imp fun _ _ h => h.finds)
  · rw [collect_eq]
    show _ = (tracked.sites.map (Site.call? settings)).filterMap id
    rw [List.filterMap_map]
    rfl

/-- Calls on a name that a larger pattern, a loop, a match arm or a condition binds anew. -/
def unhidden : List String :=
  ["fn f(d: tfschema::ResourceData) { let (d, e) = pair; d.set(k, 1); }",
    "fn f(d: tfschema::ResourceData) { fn g((d, e): (A, B)) { d.set(k, 1); } }",
    "fn f(d: tfschema::ResourceData) { let g = |(d, e)| d.set(k, 1); }",
    "fn f(d: tfschema::ResourceData) { for d in xs { d.set(k, 1); } }",
    "fn f(d: tfschema::ResourceData) { match x { d => d.set(k, 1) } }",
    "fn f(d: tfschema::ResourceData) { if let Some(d) = x { d.set(k, 1); } }",
    "fn f(d: tfschema::ResourceData) { while let Some(d) = x { d.set(k, 1); } }"]

set_option maxRecDepth 4000 in
/-- Such calls are taken for setter calls on the outer binding. -/
theorem collect_past_patterns :
    (unhidden.map fun text => (Code.parseFile? text).map fun code =>
      (collect (ImportTable.ofNodes code.nodes) {} code.nodes).map (·.receiver)) =
      unhidden.map fun _ => some ["d"] := by
  decide +kernel

end SchemaLint.SetterCall

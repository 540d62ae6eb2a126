import Mathlib.Data.List.Induction
import SchemaLint.Code.Grammar
import SchemaLint.SetterCall

/-!
# Setter calls follow lexical scoping

The collector of setter calls keeps a stack of scopes that it changes as it goes through the code.
Here the same calls are found by a walk that is given an environment, a function from names to
whether they are resource data, and hands on the environment that holds afterwards: a `let` extends
it, and blocks, functions and closures give back the one they were entered with.

* `ResourceType`, `RefersTo`, `Names`: which types, receivers and patterns count, as relations.
* `walk`: the method calls of a piece of code, each with the environment at the call.
* `Collector.Follows`: the collector goes along with the walk; one node does (`visit_follows`), hence
  the whole file does.
* **`collect_follows_scoping`**: the setter calls of a file are the method calls of the walk whose
  method is a setter and whose receiver the environment maps to true.
* `collect_parameters_beyond_body`: parameters are bound outside of the body, too.
-/

namespace SchemaLint.SetterCall

open Code

variable {imports : ImportTable} {settings : SchemaSettings}

/-! ## What counts -/

/-- A type that denotes resource data, through references and brackets. -/
inductive ResourceType (imports : ImportTable) (settings : SchemaSettings) : Node → Prop
  /-- A path that resolves to a configured type. -/
  | path {name : PathName} {parts : List Node} (hname : name.qualified = false)
      {candidate pattern : String} (hcandidate : candidate ∈ imports.resolve name)
      (hpattern : pattern ∈ settings.resourceData)
      (hmatch : PathPattern.matchesType candidate pattern) :
      ResourceType imports settings (.path name parts)
  /-- A reference. -/
  | reference {mark : List Node} {inner : Node} (h : ResourceType imports settings inner) :
      ResourceType imports settings (.reference mark inner)
  /-- Brackets. -/
  | paren {place : Position} {inner : Node} (h : ResourceType imports settings inner) :
      ResourceType imports settings (.paren place inner)

/-- A type is that of resource data if its path resolves to a configured one. -/
theorem isResourceData_iff (type : Node) :
    isResourceData imports settings type ↔ ResourceType imports settings type := by
  fun_induction isResourceData imports settings type with
  | case1 mark inner ih =>
      rw [ih]
      exact ⟨.reference, fun | .reference h => h⟩
  | case2 place inner ih =>
      rw [ih]
      exact ⟨.paren, fun | .paren h => h⟩
  | case3 name parts =>
      simp only [PathPattern.anyMatchesType, Bool.and_eq_true, Bool.not_eq_true', List.any_eq_true]
      constructor
      · rintro ⟨hname, candidate, hcandidate, pattern, hpattern, hmatch⟩
        exact .path hname hcandidate hpattern hmatch
      · rintro (⟨hname, hcandidate, hpattern, hmatch⟩)
        exact ⟨hname, _, hcandidate, _, hpattern, hmatch⟩
  | case4 type hreference hparen hpath =>
      refine iff_of_false (by simp) ?_
      rintro (_ | _ | _)
      · exact hpath _ _ rfl
      · exact hreference _ _ rfl
      · exact hparen _ _ rfl

/-- A receiver that is a name, through brackets, references and dereferences. -/
inductive RefersTo : Node → String → Prop
  /-- A path of one plain identifier. -/
  | path {ident : Ident} {parts : List Node} :
      RefersTo (.path ⟨false, false, false, [ident]⟩ parts) ident.name
  /-- Brackets. -/
  | paren {place : Position} {inner : Node} {name : String} (h : RefersTo inner name) :
      RefersTo (.paren place inner) name
  /-- A reference. -/
  | reference {mark : List Node} {inner : Node} {name : String} (h : RefersTo inner name) :
      RefersTo (.reference mark inner) name
  /-- A dereference. -/
  | deref {mark : List Token} {inner : Node} {name : String} (h : RefersTo inner name) :
      RefersTo (.deref mark inner) name
  /-- Attributes do not matter. -/
  | attributed {attributes : List Node} {inner : Node} {name : String} (h : RefersTo inner name) :
      RefersTo (.attributed attributes inner) name

/-- The receiver of a call that refers to a variable. -/
theorem receiverName?_eq_some_iff {receiver : Node} {name : String} :
    receiverName? receiver = some name ↔ RefersTo receiver name := by
  fun_induction receiverName? receiver with
  | case1 attributes inner ih =>
      rw [ih]
      exact ⟨.attributed, fun | .attributed h => h⟩
  | case2 place inner ih =>
      rw [ih]
      exact ⟨.paren, fun | .paren h => h⟩
  | case3 mark inner ih =>
      rw [ih]
      exact ⟨.reference, fun | .reference h => h⟩
  | case4 mark inner ih =>
      rw [ih]
      exact ⟨.deref, fun | .deref h => h⟩
  | case5 path parts hqualified =>
      refine iff_of_false (by simp) ?_
      rintro ⟨⟩
      cases hqualified
  | case6 path parts hqualified =>
      obtain ⟨rooted, qualified, generic, segments⟩ := path
      constructor
      · intro h
        obtain ⟨ident, hident, rfl⟩ := Option.map_eq_some_iff.mp h
        unfold PathName.ident? at hident
        split at hident
        · rename_i i hsegments
          cases rooted <;> cases generic <;> simp_all
          exact .path
        · cases hident
      · rintro ⟨⟩
        rfl
  | case7 receiver hattributed hparen hreference hderef hpath =>
      refine iff_of_false (by simp) ?_
      rintro (_ | _ | _ | _ | _)
      · exact hpath _ _ rfl
      · exact hparen _ _ rfl
      · exact hreference _ _ rfl
      · exact hderef _ _ rfl
      · exact hattributed _ _ rfl

/-- A pattern that directly names what it binds, with the type that is written for it. -/
inductive Names : Node → String → Option Node → Prop
  /-- A name. -/
  | binder {mark : List Node} {name : Ident} {sub : List Node} :
      Names (.binder mark name sub) name.name none
  /-- A name with a type; of several types the innermost counts. -/
  | typed {pattern type : Node} {name : String} {inner : Option Node}
      (h : Names pattern name inner) : Names (.typed pattern type) name (some (inner.getD type))
  /-- Attributes do not matter. -/
  | attributed {attributes : List Node} {pattern : Node} {name : String} {type : Option Node}
      (h : Names pattern name type) : Names (.attributed attributes pattern) name type

/-- What a pattern binds: the name it gives, and whether the type written for it denotes resource
data; without a type, what is given for that case. -/
theorem bindingOf?_eq_some_iff {tracked : Bool} {pattern : Node} {name : String} {b : Bool} :
    bindingOf? imports settings tracked pattern = some (name, b) ↔
      ∃ type, Names pattern name type ∧
        b = type.elim tracked (isResourceData imports settings) := by
  induction tracked, pattern using bindingOf?.induct imports settings with
  | case1 tracked attributes inner ih =>
      rw [bindingOf?, ih]
      exact exists_congr fun type => and_congr_left fun _ =>
        ⟨.attributed, fun | .attributed h => h⟩
  | case2 tracked mark ident sub =>
      rw [bindingOf?]
      constructor
      · rintro ⟨⟩
        exact ⟨none, .binder, rfl⟩
      · rintro ⟨_, ⟨⟩, rfl⟩
        rfl
  | case3 tracked pattern type ih =>
      rw [bindingOf?, ih]
      constructor
      · rintro ⟨inner, hinner, rfl⟩
        refine ⟨some (inner.getD type), .typed hinner, ?_⟩
        cases inner <;> rfl
      · rintro ⟨_, @⟨⟩, rfl⟩
        rename_i inner hinner
        refine ⟨inner, hinner, ?_⟩
        cases inner <;> rfl
  | case4 tracked pattern hattributed hbinder htyped =>
      rw [bindingOf?]
      · refine iff_of_false (by simp) ?_
        rintro ⟨_, _ | _ | _, -⟩
        · exact hbinder _ _ _ rfl
        · exact htyped _ _ rfl
        · exact hattributed _ _ rfl
      all_goals assumption

/-! ## The walk -/

/-- Whether a name is resource data. -/
abbrev Environment := String → Bool

/-- An environment in which some names are bound, one after the other. -/
def Environment.bindAll (env : Environment) (bindings : List (String × Bool)) : Environment :=
  bindings.foldl (fun env (name, tracked) => Function.update env name tracked) env

/-- A method call, with the environment there. -/
structure Site where
  /-- What names mean at the call. -/
  env : Environment
  /-- What the method is called on. -/
  receiver : Node
  /-- The method. -/
  method : Ident
  /-- The arguments. -/
  args : List Node

/-- The calls of a walk in order, and the environment after it. -/
structure Walk where
  /-- The calls. -/
  sites : List Site
  /-- The environment. -/
  env : Environment

/-- A walk that goes on from where another ends. -/
def Walk.next (w : Walk) (go : Environment → Walk) : Walk :=
  ⟨w.sites ++ (go w.env).sites, (go w.env).env⟩

/-- How far the parameters of a function or closure reach. -/
inductive Reach
  /-- Over the whole function or closure: its attributes, its signature and its body. -/
  | whole
  /-- Over its body, which is its last part without what belongs to the head of it. -/
  | body
deriving DecidableEq, Repr

mutual

/-- The method calls of a piece of code in an environment, where patterns bind what they are said
to. -/
def walk (reach : Reach) (binds : Node → Option (String × Bool)) (env : Environment) : Node → Walk
  | .tokens _ => ⟨[], env⟩
  | .group _ _ inner => walkAll reach binds env inner
  | .seq parts => walkAll reach binds env parts
  | .conditioned parts conditions =>
    (walkAll reach binds env conditions).next fun env => walkAll reach binds env parts
  | .bodied front attributes body =>
    ((walkAll reach binds env attributes).next fun env => walkAll reach binds env front).next
      fun env => walk reach binds env body
  | .arranged _ parts => walkAll reach binds env parts
  | .attributed attributes inner =>
    (walkAll reach binds env attributes).next fun env => walk reach binds env inner
  | .literal _ => ⟨[], env⟩
  | .path _ parts => walkAll reach binds env parts
  | .paren _ inner => walk reach binds env inner
  | .reference mark inner =>
    (walkAll reach binds env mark).next fun env => walk reach binds env inner
  | .deref _ inner => walk reach binds env inner
  | .operation left _ right =>
    (walk reach binds env left).next fun env => walk reach binds env right
  | .call callee _ args _ =>
    (walk reach binds env callee).next fun env => walkAll reach binds env args
  | .methodCall attributes receiver _ method generics _ args _ =>
    let call : Walk := ⟨[⟨env, receiver, method, args⟩], env⟩
    ((((call.next fun env => walkAll reach binds env attributes).next
      fun env => walk reach binds env receiver).next
      fun env => walkAll reach binds env generics).next
      fun env => walkAll reach binds env args)
  | .record attributes _ head _ fields _ _ rest =>
    ((((walkAll reach binds env attributes).next
      fun env => walkAll reach binds env head).next
      fun env => walkAll reach binds env fields).next
      fun env => walkAll reach binds env rest)
  | .field attributes _ _ value =>
    (walkAll reach binds env attributes).next fun env => walk reach binds env value
  | .scope params parts =>
    let inside := env.bindAll (params.filterMap binds)
    match reach with
    | .whole => ⟨(walkAll reach binds inside parts).sites, env⟩
    | .body => ⟨walkBody reach binds env inside parts, env⟩
  | .block _ statements => ⟨(walkAll reach binds env statements).sites, env⟩
  | .binding _ pattern init =>
    let w := walkAll reach binds env init
    ⟨w.sites, w.env.bindAll (binds pattern).toList⟩
  | .binder mark _ sub =>
    (walkAll reach binds env mark).next fun env => walkAll reach binds env sub
  | .typed pattern type =>
    (walk reach binds env pattern).next fun env => walk reach binds env type
  | .use _ parts => walkAll reach binds env parts
  | .macroCall _ arguments => walkAll reach binds env arguments

/-- The method calls of several pieces of code, each in the environment that the ones before it
leave. -/
def walkAll (reach : Reach) (binds : Node → Option (String × Bool)) (env : Environment) :
    List Node → Walk
  | [] => ⟨[], env⟩
  | n :: rest => (walk reach binds env n).next fun env => walkAll reach binds env rest

/-- The method calls of a function or closure whose body alone is inside: the last part, or the
body that the last part ends in. -/
def walkBody (reach : Reach) (binds : Node → Option (String × Bool))
    (outside inside : Environment) : List Node → List Site
  | [] => []
  | [.bodied front attributes body] =>
    (walkAll reach binds outside attributes).sites ++ (walkAll reach binds outside front).sites ++
      (walk reach binds inside body).sites
  | n :: rest =>
    if rest.isEmpty then (walk reach binds inside n).sites
    else (walk reach binds outside n).sites ++ walkBody reach binds outside inside rest

end

/-- The method calls of a file. -/
def visited (reach : Reach) (imports : ImportTable) (settings : SchemaSettings)
    (items : List Node) : List Site :=
  (walkAll reach (bindingOf? imports settings false) (fun _ => false) items).sites

/-- The setter call that a method call is, if it is one. -/
def Site.call? (settings : SchemaSettings) (site : Site) : Option SetterCall :=
  if settings.setterMethods.contains site.method.name then
    (receiverName? site.receiver).bind fun name =>
      if site.env name then
        some ⟨site.method.name, name, site.receiver.place, site.method.place,
          site.args.map argument⟩
      else none
  else none

/-- A site is a call if the method is a setter and the receiver a tracked variable. -/
theorem Site.call?_eq_some_iff {site : Site} {c : SetterCall} :
    site.call? settings = some c ↔ site.method.name ∈ settings.setterMethods ∧
      ∃ name, RefersTo site.receiver name ∧ site.env name ∧
        c = ⟨site.method.name, name, site.receiver.place, site.method.place,
          site.args.map argument⟩ := by
  unfold call?
  by_cases hmethod : settings.setterMethods.contains site.method.name = true
  · have hmem : site.method.name ∈ settings.setterMethods := by simpa using hmethod
    rw [if_pos hmethod, Option.bind_eq_some_iff]
    simp only [hmem, true_and, ← receiverName?_eq_some_iff]
    refine exists_congr fun name => and_congr_right fun _ => ?_
    by_cases htracked : site.env name = true
    · simp [htracked, eq_comm]
    · simp [htracked]
  · have hmem : site.method.name ∉ settings.setterMethods := by simpa using hmethod
    simp [hmem]

/-! ## The stack of scopes as an environment -/

/-- Of several bindings of a name the last one counts. -/
theorem Environment.bindAll_apply (env : Environment) (bindings : List (String × Bool))
    (name : String) :
    env.bindAll bindings name = (bindings.reverse.lookup name).getD (env name) := by
  induction bindings using List.reverseRecOn with
  | nil => rfl
  | append_singleton bindings binding ih =>
      obtain ⟨bound, tracked⟩ := binding
      have hlast : env.bindAll (bindings ++ [(bound, tracked)]) =
          Function.update (env.bindAll bindings) bound tracked := by
        simp [bindAll]
      rw [hlast, List.reverse_append, List.reverse_singleton, List.singleton_append,
        List.lookup_cons]
      by_cases hname : name = bound
      · subst hname
        simp
      · have hne : (name == bound) = false := by simpa using hname
        rw [Function.update_of_ne hname, hne, ih]

namespace Collector

variable {s s' s'' : Collector}

/-- Entering a scope binds the names of the scope. -/
theorem isTracked_enter (s : Collector) (bindings : List (String × Bool)) :
    (s.enter bindings).isTracked = Environment.bindAll s.isTracked bindings := by
  funext name
  rw [Environment.bindAll_apply]
  unfold isTracked enter
  rw [List.findSome?_cons]
  rcases bindings.reverse.lookup name with _ | tracked
  · rfl
  · rfl

/-- A binding in a scope is one more binding of its name. -/
theorem isTracked_bind (hs : s.scopes ≠ []) (binding : Option (String × Bool)) :
    (s.bind binding).isTracked = Environment.bindAll s.isTracked binding.toList := by
  obtain ⟨scopes, found⟩ := s
  cases scopes with
  | nil => exact absurd rfl hs
  | cons scope outer =>
      cases binding with
      | none => rfl
      | some binding =>
          obtain ⟨bound, tracked⟩ := binding
          funext name
          rw [Environment.bindAll_apply]
          simp only [isTracked, bind, Option.toList_some, List.reverse_singleton,
            List.findSome?_cons, List.lookup_cons, List.lookup_nil]
          cases name == bound <;> rfl

/-- A collector has gone along with a walk: outer scopes are as before, the setter calls of the walk
are found, and names mean what they do after the walk. -/
structure Follows (settings : SchemaSettings) (s : Collector) (w : Walk) (s' : Collector) : Prop
    where
  /-- Only the innermost scope may have changed. -/
  outer : s'.scopes.tail = s.scopes.tail
  /-- There still is one. -/
  ne_nil : s'.scopes ≠ []
  /-- The setter calls of the walk were found. -/
  found : s'.found = (w.sites.filterMap (Site.call? settings)).reverse ++ s.found
  /-- Names mean what they do after the walk. -/
  env : s'.isTracked = w.env

/-- Nothing was walked. -/
theorem Follows.refl (hs : s.scopes ≠ []) : Follows settings s ⟨[], s.isTracked⟩ s :=
  ⟨rfl, hs, rfl, rfl⟩

/-- One walk after the other. -/
theorem Follows.next {w : Walk} {go : Environment → Walk} (h : Follows settings s w s')
    (h' : s'.scopes ≠ [] → Follows settings s' (go s'.isTracked) s'') :
    Follows settings s (w.next go) s'' := by
  replace h' := h' h.ne_nil
  rw [h.env] at h'
  refine ⟨h'.outer.trans h.outer, h'.ne_nil, ?_, h'.env⟩
  rw [h'.found, h.found, Walk.next, List.filterMap_append, List.reverse_append, List.append_assoc]

/-- A walk inside a scope of its own: leaving it restores the environment. -/
theorem Follows.inside {bindings : List (String × Bool)} {w : Walk} (hs : s.scopes ≠ [])
    (h : Follows settings (s.enter bindings) w s') :
    Follows settings s ⟨w.sites, s.isTracked⟩ s'.leave := by
  have hscopes : s'.leave.scopes = s.scopes := by
    unfold Collector.leave
    rw [List.drop_one]
    exact h.outer
  refine ⟨by rw [hscopes], by rwa [hscopes], h.found, ?_⟩
  unfold isTracked
  rw [hscopes]

/-- A binding made after a walk. -/
theorem Follows.bind {w : Walk} (h : Follows settings s w s') (binding : Option (String × Bool)) :
    Follows settings s ⟨w.sites, w.env.bindAll binding.toList⟩ (s'.bind binding) := by
  have hscopes : (s'.bind binding).scopes.tail = s'.scopes.tail ∧ (s'.bind binding).scopes ≠ [] := by
    unfold Collector.bind
    split
    · exact ⟨rfl, h.ne_nil⟩
    · split
      · exact ⟨rfl, h.ne_nil⟩
      · rename_i scope outer heq
        exact ⟨by rw [heq]; rfl, List.cons_ne_nil _ _⟩
  have hfound : (s'.bind binding).found = s'.found := by
    unfold Collector.bind
    split
    · rfl
    · split <;> rfl
  refine ⟨hscopes.1.trans h.outer, hscopes.2, hfound.trans h.found, ?_⟩
  rw [isTracked_bind h.ne_nil, h.env]

/-- A call that is looked at before its parts. -/
theorem Follows.call (hs : s.scopes ≠ []) (receiver : Node) (method : Ident) (args : List Node) :
    Follows settings s ⟨[⟨s.isTracked, receiver, method, args⟩], s.isTracked⟩
      { s with found := (ofMethodCall? settings s receiver method args).toList ++ s.found } := by
  have hcall : ofMethodCall? settings s receiver method args =
      Site.call? settings ⟨s.isTracked, receiver, method, args⟩ := by
    unfold ofMethodCall? Site.call?
    cases receiverName? receiver <;> rfl
  refine ⟨rfl, hs, ?_, rfl⟩
  rw [hcall]
  cases hsite : Site.call? settings ⟨s.isTracked, receiver, method, args⟩ <;> simp [hsite]

end Collector

/-! ## The collector follows the walk -/

mutual

/-- **One piece of code**: the collector follows the walk, form by form. -/
theorem visit_follows (n : Node) (s : Collector) (hs : s.scopes ≠ []) :
    Collector.Follows settings s
      (walk .whole (bindingOf? imports settings false) s.isTracked n)
      (visit imports settings s n) := by
  cases n with
  | tokens ts => exact .refl hs
  | group delimiter place inner => exact visitAll_follows inner s hs
  | seq parts => exact visitAll_follows parts s hs
  | conditioned parts conditions =>
      exact .next (visitAll_follows conditions s hs) (visitAll_follows parts _)
  | bodied front attributes body =>
      exact .next (.next (visitAll_follows attributes s hs) (visitAll_follows front _))
        (visit_follows body _)
  | arranged ts parts => exact visitAll_follows parts s hs
  | attributed attributes inner =>
      exact .next (visitAll_follows attributes s hs) (visit_follows inner _)
  | literal ts => exact .refl hs
  | path name parts => exact visitAll_follows parts s hs
  | paren place inner => exact visit_follows inner s hs
  | reference mark inner => exact .next (visitAll_follows mark s hs) (visit_follows inner _)
  | deref mark inner => exact visit_follows inner s hs
  | operation left mark right => exact .next (visit_follows left s hs) (visit_follows right _)
  | call callee place args trailing =>
      exact .next (visit_follows callee s hs) (visitAll_follows args _)
  -- A call is told before its own parts are visited, on both sides.
  | methodCall attributes receiver dot method generics place args trailing =>
      rw [walk, visit]
      exact .next (.next (.next (.next (.call hs receiver method args)
        (visitAll_follows attributes _)) (visit_follows receiver _))
        (visitAll_follows generics _)) (visitAll_follows args _)
  | record attributes name head place fields trailing dots rest =>
      rw [walk, visit]
      exact .next (.next (.next (visitAll_follows attributes s hs) (visitAll_follows head _))
        (visitAll_follows fields _)) (visitAll_follows rest _)
  | field attributes member shorthand value =>
      exact .next (visitAll_follows attributes s hs) (visit_follows value _)
  | scope params parts =>
      have hinside := visitAll_follows parts
        (s.enter (params.filterMap (bindingOf? imports settings false))) (List.cons_ne_nil _ _)
      rw [Collector.isTracked_enter] at hinside
      exact hinside.inside hs
  | block place statements =>
      exact (visitAll_follows statements (s.enter []) (List.cons_ne_nil _ _)).inside hs
  | binding attributes pattern init => exact (visitAll_follows init s hs).bind _
  | binder mark name sub => exact .next (visitAll_follows mark s hs) (visitAll_follows sub _)
  | typed pattern type => exact .next (visit_follows pattern s hs) (visit_follows type _)
  | use tree parts => exact visitAll_follows parts s hs
  | macroCall parts arguments => exact visitAll_follows arguments s hs

/-- Several pieces of code, one after the other. -/
theorem visitAll_follows (ns : List Node) (s : Collector) (hs : s.scopes ≠ []) :
    Collector.Follows settings s
      (walkAll .whole (bindingOf? imports settings false) s.isTracked ns)
      (visitAll imports settings s ns) := by
  cases ns with
  | nil => exact .refl hs
  | cons n rest => exact .next (visit_follows n s hs) (visitAll_follows rest _)

end

/-- The setter calls of a file are those of the walk through it. -/
theorem collect_eq (items : List Node) : collect imports settings items =
    (visited .whole imports settings items).filterMap (Site.call? settings) := by
  have hfollows : Collector.Follows settings ⟨[[]], []⟩
      (walkAll .whole (bindingOf? imports settings false) (fun _ => false) items)
      (visitAll imports settings ⟨[[]], []⟩ items) :=
    visitAll_follows items ⟨[[]], []⟩ (List.cons_ne_nil _ _)
  rw [collect, hfollows.found, List.append_nil, List.reverse_reverse]
  rfl

/-- **Setter calls follow lexical scoping.**  The setter calls of any code are, in order, those
method calls of a walk with environments whose method is a configured setter and whose receiver is
one name that the environment at the call maps to true.  In that walk the parameters of functions,
methods and closures are bound over their whole extent, a `let` binds after its initialiser and its
alternative and is itself not looked into, and what blocks, functions and closures bind ends with
them.  A pattern binds a name to whether the type written for it denotes resource data. -/
theorem collect_follows_scoping (imports : ImportTable) (settings : SchemaSettings)
    (items : List Node) :
    collect imports settings items =
      (visited .whole imports settings items).filterMap (Site.call? settings) ∧
    (∀ (site : Site) (c : SetterCall), site.call? settings = some c ↔
      site.method.name ∈ settings.setterMethods ∧
        ∃ name, RefersTo site.receiver name ∧ site.env name ∧
          c = ⟨site.method.name, name, site.receiver.place, site.method.place,
            site.args.map argument⟩) ∧
    ∀ (pattern : Node) (name : String) (tracked : Bool),
      bindingOf? imports settings false pattern = some (name, tracked) ↔
        ∃ type, Names pattern name type ∧
          (tracked ↔ ∃ t, type = some t ∧ ResourceType imports settings t) := by
  refine ⟨?_, fun site c => Site.call?_eq_some_iff, fun pattern name tracked => ?_⟩
  · have hfollows : Collector.Follows settings ⟨[[]], []⟩
        (walkAll .whole (bindingOf? imports settings false) (fun _ => false) items)
        (visitAll imports settings ⟨[[]], []⟩ items) :=
      visitAll_follows items ⟨[[]], []⟩ (List.cons_ne_nil _ _)
    unfold collect visited
    rw [hfollows.found, List.append_nil, List.reverse_reverse]
  · rw [bindingOf?_eq_some_iff]
    refine exists_congr fun type => and_congr_right fun _ => ?_
    rw [Bool.eq_iff_iff]
    cases type with
    | none => simp
    | some t => simp [isResourceData_iff]

/-- A function in whose return type a method is called on its parameter. -/
def signatureCall : String :=
  "fn f(d: tfschema::ResourceData) -> [u8; d.set(k, 1)] {}"

set_option maxRecDepth 4000 in
/-- Parameters are bound outside of the body, too: a call in the signature is a setter call,
although only the body would be inside the function if parameters reached no further. -/
theorem collect_parameters_beyond_body :
    ¬ ∀ text code, Code.parseFile? text = some code → ∀ settings,
      collect (ImportTable.ofNodes code.nodes) settings code.nodes =
        (visited .body (ImportTable.ofNodes code.nodes) settings code.nodes).filterMap
          (Site.call? settings) := by
  intro h
  have hcounts : (Code.parseFile? signatureCall).map (fun code =>
      ((collect (ImportTable.ofNodes code.nodes) {} code.nodes).length,
        ((visited .body (ImportTable.ofNodes code.nodes) {} code.nodes).filterMap
          (Site.call? {})).length)) = some (1, 0) := by
    decide +kernel
  obtain ⟨code, hcode, hlengths⟩ := Option.map_eq_some_iff.mp hcounts
  rw [h signatureCall code hcode {}] at hlengths
  injection hlengths with hone hnone
  rw [hone] at hnone
  cases hnone

end SchemaLint.SetterCall

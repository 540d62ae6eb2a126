import SchemaLint.Proofs.MacroBody
import SchemaLint.SetterCall

/-!
# The collectors keep their stacks

The collector of schema literals keeps the fields that it stands in, the collector of setter calls
the scopes that are open.  Both come out of a piece of code with the stack that they went in with,
except that the innermost scope may have more bindings, and neither forgets what it has found.

* `SchemaLiteral.Collector.Grows`: the enclosing fields are as before and literals were added; a
  piece of code does that (`SchemaLiteral.visit_grows`), by induction on its size.
* `SetterCall.Collector.Balanced`: the scopes are as before but for the innermost, and calls were
  added; a piece of code does that (`SetterCall.visit_balanced`), form by form.
* **`visits_balanced_and_end`**: both, and why the visits come to an end although macro bodies are
  parsed again.
-/

namespace SchemaLint

open Code

/-! ## Schema literals -/

namespace SchemaLiteral

/-- The enclosing fields are as before, and literals were added. -/
def Collector.Grows (s s' : Collector) : Prop :=
  ∃ literals, s' = ⟨s.enclosing, literals ++ s.found⟩

/-- No call is lost by doing nothing. -/
theorem Collector.Grows.refl (s : Collector) : s.Grows s :=
  ⟨[], rfl⟩

/-- Two steps that lose no call lose none together. -/
theorem Collector.Grows.trans {s s' s'' : Collector} (h : s.Grows s') (h' : s'.Grows s'') :
    s.Grows s'' := by
  obtain ⟨literals, rfl⟩ := h
  obtain ⟨more, rfl⟩ := h'
  exact ⟨more ++ literals, by rw [List.append_assoc]⟩

/-- Enclosing fields that are changed for a while and then restored do not matter. -/
theorem Collector.Grows.restore {s s' : Collector} {enclosing : List String}
    (h : Collector.Grows ⟨enclosing, s.found⟩ s') :
    s.Grows { s' with enclosing := s.enclosing } := by
  obtain ⟨literals, rfl⟩ := h
  exact ⟨literals, rfl⟩

/-- Steps that each keep the enclosing fields keep them together. -/
theorem grows_foldl {α : Type} {step : Collector → α → Collector} {xs : List α}
    (h : ∀ x ∈ xs, ∀ s : Collector, s.Grows (step s x)) (s : Collector) :
    s.Grows (xs.foldl step s) := by
  induction xs generalizing s with
  | nil => exact .refl s
  | cons x xs ih =>
      have hx := h x List.mem_cons_self s
      have hxs := ih (fun y hy => h y (List.mem_cons_of_mem x hy)) (step s x)
      exact hx.trans hxs

variable {imports : ImportTable} {settings : SchemaSettings}

/-- **One piece of code**: record literals of configured types, of other types, and all other code,
each by way of its parts. -/
theorem visit_grows (n : Node) (s : Collector) : s.Grows (visit imports settings s n) := by
  induction hsize : sizeOf n using Nat.strongRecOn generalizing n s with
  | _ size ih =>
      subst hsize
      have hpart : ∀ p ∈ n.parts, ∀ t : Collector, t.Grows (visit imports settings t p.2) :=
        fun p hp t => ih (sizeOf p.2) (Node.sizeOf_of_mem_parts hp) p.2 t rfl
      have hparts : ∀ t : Collector,
          t.Grows (visitAll imports settings t (n.parts.map Prod.snd)) := by
        intro t
        rw [visitAll_eq_foldl, List.foldl_map]
        exact grows_foldl hpart t
      by_cases hrecord : n.recordName? = none
      · rw [visit_of_no_record hrecord]
        exact hparts s
      by_cases hschema : IsSchemaRecord imports settings n
      · obtain ⟨l, -, hvisit⟩ := visit_of_schema hschema s
        rw [hvisit]
        have hfound : s.Grows (s.add [l]) := ⟨[l], rfl⟩
        refine hfound.trans (grows_foldl ?_ _)
        rintro ⟨seat, m⟩ hm t
        have hvalue := fun t => hpart (seat, m) hm t
        cases seat with
        | aside => exact .refl t
        | field name =>
            -- the field is pushed for its value and popped again
            obtain ⟨literals, hliterals⟩ := hvalue { t with enclosing := name :: t.enclosing }
            refine ⟨literals, ?_⟩
            simp only [visitPart]
            rw [hliterals]
            rfl
        | inner | rest => exact hvalue t
      · rw [visit_of_foreign (Option.isSome_iff_ne_none.mpr hrecord) hschema]
        exact (hparts { s with enclosing := [] }).restore

end SchemaLiteral

/-! ## Setter calls -/

namespace SetterCall

/-- There are as many scopes as before, those outside of the innermost are the same, and calls were
added. -/
structure Collector.Balanced (s s' : Collector) : Prop where
  /-- There are as many scopes. -/
  length : s'.scopes.length = s.scopes.length
  /-- Only the innermost may have changed. -/
  outer : s'.scopes.tail = s.scopes.tail
  /-- No call is forgotten. -/
  found : ∃ calls, s'.found = calls ++ s.found

namespace Collector

variable {s s' s'' : Collector}

/-- Doing nothing leaves the scopes as they are. -/
theorem Balanced.refl (s : Collector) : s.Balanced s :=
  ⟨rfl, rfl, [], rfl⟩

/-- Two steps that leave the scopes as they are do so together. -/
theorem Balanced.trans (h : s.Balanced s') (h' : s'.Balanced s'') : s.Balanced s'' := by
  obtain ⟨calls, hcalls⟩ := h.found
  obtain ⟨more, hmore⟩ := h'.found
  refine ⟨h'.length.trans h.length, h'.outer.trans h.outer, more ++ calls, ?_⟩
  rw [hmore, hcalls, List.append_assoc]

/-- What happens in a scope of its own leaves all scopes as they were. -/
theorem Balanced.inside {bindings : List (String × Bool)} (h : (s.enter bindings).Balanced s') :
    s.Balanced s'.leave := by
  have hscopes : s'.leave.scopes = s.scopes := by
    unfold leave
    rw [List.drop_one]
    exact h.outer
  refine ⟨by rw [hscopes], by rw [hscopes], ?_⟩
  exact h.found

/-- A binding is made in the innermost scope, if there is one. -/
theorem balanced_bind (s : Collector) (binding : Option (String × Bool)) :
    s.Balanced (s.bind binding) := by
  unfold bind
  split
  · exact .refl s
  · split
    · exact .refl s
    · rename_i scope outer hscopes
      refine ⟨?_, ?_, [], rfl⟩
      · rw [hscopes, List.length_cons, List.length_cons]
      · rw [hscopes, List.tail_cons, List.tail_cons]

/-- Finding calls does not touch the scopes. -/
theorem balanced_found (s : Collector) (calls : List SetterCall) :
    s.Balanced { s with found := calls ++ s.found } :=
  ⟨rfl, rfl, calls, rfl⟩

end Collector

variable {imports : ImportTable} {settings : SchemaSettings}

mutual

/-- **One piece of code**, form by form. -/
theorem visit_balanced (n : Node) (s : Collector) : s.Balanced (visit imports settings s n) := by
  cases n with
  | tokens ts => exact .refl s
  | group delimiter place inner => exact visitAll_balanced inner s
  | seq parts => exact visitAll_balanced parts s
  | conditioned parts conditions =>
      exact (visitAll_balanced conditions s).trans (visitAll_balanced parts _)
  | bodied front attributes body =>
      exact ((visitAll_balanced attributes s).trans (visitAll_balanced front _)).trans
        (visit_balanced body _)
  | arranged ts parts => exact visitAll_balanced parts s
  | attributed attributes inner =>
      exact (visitAll_balanced attributes s).trans (visit_balanced inner _)
  | literal ts => exact .refl s
  | path name parts => exact visitAll_balanced parts s
  | paren place inner => exact visit_balanced inner s
  | reference mark inner => exact (visitAll_balanced mark s).trans (visit_balanced inner _)
  | deref mark inner => exact visit_balanced inner s
  | operation left mark right =>
      exact (visit_balanced left s).trans (visit_balanced right _)
  | call callee place args trailing =>
      exact (visit_balanced callee s).trans (visitAll_balanced args _)
  | methodCall attributes receiver dot method generics place args trailing =>
      have hcall := s.balanced_found (ofMethodCall? settings s receiver method args).toList
      have hreceiver := (hcall.trans (visitAll_balanced attributes _)).trans
        (visit_balanced receiver _)
      exact (hreceiver.trans (visitAll_balanced generics _)).trans (visitAll_balanced args _)
  | record attributes name head place fields trailing dots rest =>
      have hhead := (visitAll_balanced attributes s).trans (visitAll_balanced head _)
      exact (hhead.trans (visitAll_balanced fields _)).trans (visitAll_balanced rest _)
  | field attributes member shorthand value =>
      exact (visitAll_balanced attributes s).trans (visit_balanced value _)
  | scope params parts => exact (visitAll_balanced parts (s.enter _)).inside
  | block place statements => exact (visitAll_balanced statements (s.enter [])).inside
  | binding attributes pattern init =>
      exact (visitAll_balanced init s).trans (Collector.balanced_bind _ _)
  | binder mark name sub => exact (visitAll_balanced mark s).trans (visitAll_balanced sub _)
  | typed pattern type => exact (visit_balanced pattern s).trans (visit_balanced type _)
  | use tree parts => exact visitAll_balanced parts s
  | macroCall parts arguments => exact visitAll_balanced arguments s

/-- Several pieces of code, one after the other. -/
theorem visitAll_balanced (ns : List Node) (s : Collector) :
    s.Balanced (visitAll imports settings s ns) := by
  cases ns with
  | nil => exact .refl s
  | cons n rest => exact (visit_balanced n s).trans (visitAll_balanced rest _)

end

end SetterCall

/-! ## Both -/

/-- **The visits of both collectors leave their stacks balanced and come to an end.**  Whatever the
code and the state are, the collector of schema literals comes out with the enclosing fields that it
went in with, and the collector of setter calls with as many scopes and the same ones outside of the
innermost; both only add to what was found.

Visits go on to the parts of a piece of code and, from a macro call, to the expressions that its
body is parsed to again; there is no endless chain of these.  They are what a loop finds that reads
one expression after the other while there are tokens left, each from at least one token, and each
from fewer tokens than the macro call has.  The arguments that the visits find in the code of a file
are those of its macro bodies. -/
theorem visits_balanced_and_end :
    (∀ imports settings (s : SchemaLiteral.Collector) (n : Node), ∃ literals,
      SchemaLiteral.visit imports settings s n = ⟨s.enclosing, literals ++ s.found⟩) ∧
    (∀ imports settings (s : SetterCall.Collector) (n : Node),
      (SetterCall.visit imports settings s n).scopes.length = s.scopes.length ∧
        (SetterCall.visit imports settings s n).scopes.tail = s.scopes.tail ∧
        ∃ calls, (SetterCall.visit imports settings s n).found = calls ++ s.found) ∧
    WellFounded Enters ∧
    (∀ depth body ns, macroArguments (grammar depth) body = ns ↔
      Items (argument (grammar depth)) body ns ∨
        ns = [] ∧ ∀ ms, ¬ Items (argument (grammar depth)) body ms) ∧
    (∀ depth parts arguments, ∀ m ∈ macroArguments (grammar depth) (Node.macroBody parts),
      ∃ taken, ReadFrom depth (Node.macroBody parts) taken m ∧
        Token.countAll taken < Token.countAll (Node.macroCall parts arguments).shown) ∧
    ∀ source file, parseFile? source = some file → ∀ address around n,
      Reached file.nodes address around n → ∀ p ∈ n.parts, Enters p.2 n := by
  refine ⟨fun imports settings s n => SchemaLiteral.visit_grows n s, ?_, wellFounded_enters,
    fun depth body ns => macroArguments_eq_iff, ?_, ?_⟩
  · intro imports settings s n
    have hbalanced : s.Balanced (SetterCall.visit imports settings s n) :=
      SetterCall.visit_balanced n s
    exact ⟨hbalanced.length, hbalanced.outer, hbalanced.found⟩
  · intro depth parts arguments m hm
    obtain ⟨taken, htaken⟩ := exists_taken_of_mem_macroArguments hm
    exact ⟨taken, htaken, htaken.countAll_lt arguments⟩
  · intro source file hfile address around n hn p hp
    exact enters_of_reached hfile hn hp

end SchemaLint

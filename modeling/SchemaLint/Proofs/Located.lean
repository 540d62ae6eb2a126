import SchemaLint.Proofs.Grammar.Ground
import SchemaLint.Proofs.Literals
import SchemaLint.Proofs.Nesting
import SchemaLint.Proofs.Scoping

/-!
# Where collected code stands

The collectors go into all code of a file, and so reach record literals and method calls whose
tokens are known to stand in the source.  A schema literal is reported at the last name of its path,
and the key of a setter call at the first token of an argument.

* `Reached.grounded`: what is said about the code of a file holds of all pieces of it.
* `SchemaLiteral.exists_reached`: a schema literal is read off a record literal of the file.
* `SetterCall.exists_reached`: a setter call is read off a method call of the file.
* **`SchemaLiteral.reportPosition_stands`**, **`SetterCall.position_stands`**: the tokens they are
  reported at.
-/

namespace SchemaLint

namespace Code

section

variable [Source]

/-- The parts of a node in its fields stand in the text if the node does. -/
theorem Node.Grounded.of_mem_fieldParts {n : Node} (h : n.Grounded) {p : Seat × Node}
    (hp : p ∈ fieldParts n) : p.2.Grounded := by
  cases n
  case field attributes member shorthand value =>
    rw [Node.Grounded, Node.groundedAll_iff] at h
    simp only [fieldParts, List.mem_append, List.mem_map, List.mem_singleton] at hp
    rcases hp with ⟨a, ha, rfl⟩ | rfl
    · exact h.1 a ha
    · exact h.2
  all_goals
    simp only [fieldParts, List.mem_singleton] at hp
    rw [hp]
    exact h

/-- What is said about a piece of code is said about its parts. -/
theorem Node.Grounded.of_mem_parts {n : Node} (h : n.Grounded) {p : Seat × Node}
    (hp : p ∈ n.parts) : p.2.Grounded := by
  have hmap : ∀ (seat : Seat) {ns : List Node}, GroundedAll ns → p ∈ ns.map (seat, ·) →
      p.2.Grounded := by
    intro seat ns hns hp
    obtain ⟨m, hm, rfl⟩ := List.mem_map.mp hp
    exact (groundedAll_iff ns).mp hns m hm
  cases n
  case record attributes name head place fields trailing dots rest =>
    obtain ⟨-, hattributes, hhead, hfields, hrest⟩ := h
    simp only [parts, List.mem_append] at hp
    rcases hp with (hp | hp) | hp
    · exact hmap _ ((groundedAll_append _ _).mpr ⟨hattributes, hhead⟩) hp
    · obtain ⟨m, hm, hp⟩ := List.mem_flatMap.mp hp
      exact ((groundedAll_iff _).mp hfields m hm).of_mem_fieldParts hp
    · exact hmap _ hrest hp
  all_goals
    simp only [Node.Grounded] at h
    simp only [parts, List.not_mem_nil, List.mem_cons, or_false] at hp
  case paren | deref =>
    rw [hp]
    exact h
  case typed | operation =>
    rcases hp with rfl | rfl
    · exact h.1
    · exact h.2
  all_goals exact hmap _ (by simp_all) hp

/-- **All pieces of a file** have what is said about its code. -/
theorem Reached.grounded {items : List Node} (h : Node.GroundedAll items) {address : List Nat}
    {around : List (Node × Seat)} {n : Node} (hn : Reached items address around n) :
    n.Grounded := by
  induction hn with
  | item hi => exact (Node.groundedAll_iff items).mp h _ (List.mem_of_getElem? hi)
  | part _ hpart ih => exact ih.of_mem_parts (List.mem_of_getElem? hpart)

end

end Code

open Code

/-! ## Schema literals -/

namespace SchemaLiteral

variable {imports : ImportTable} {settings : SchemaSettings} {items : List Node}

/-- A schema literal is read off a record literal of the file, whose path is that of a configured
type. -/
theorem exists_reached {l : SchemaLiteral} (hl : l ∈ collect imports settings items) :
    ∃ address around n name, Reached items address around n ∧ n.recordName? = some name ∧
      IsSchemaType imports settings name ∧
      l.typeToken = (name.segments.getLast?.map (·.place)).getD Position.unknown := by
  rw [← map_snd_entries] at hl
  obtain ⟨⟨o, l⟩, hentry, rfl⟩ := List.mem_map.mp hl
  obtain ⟨hreached, hpiece⟩ := mem_entries_iff.mp hentry
  obtain ⟨address, around, n⟩ := o
  have hnode : ∃ enclosing, ofNode? imports settings enclosing n = some l := by
    unfold ofPiece? at hpiece
    split at hpiece
    · exact ⟨_, hpiece⟩
    · cases hpiece
  obtain ⟨enclosing, hnode⟩ := hnode
  cases n
  case record attributes name head place fields trailing dots rest =>
    rw [ofNode?] at hnode
    split at hnode
    · rename_i hpath
      cases hnode
      exact ⟨address, around, _, name, hreached, rfl, (isSchemaPath_iff ..).mp hpath, rfl⟩
    · cases hnode
  all_goals cases hnode

/-- **A schema literal is reported at the last identifier of its path**, which stands there. -/
theorem reportPosition_stands [Source] {source : String} {file : CodeFile}
    (h : parseFile? source = some file) (hground : Node.GroundedAll file.nodes) {l : SchemaLiteral}
    (hl : l ∈ collect imports settings file.nodes) :
    ∃ address around n name i, Reached file.nodes address around n ∧
      n.recordName? = some name ∧ IsSchemaType imports settings name ∧
      i ∈ name.segments.getLast? ∧ i.Stands ∧ l.reportPosition = i.place := by
  obtain ⟨address, around, n, name, hreached, hname, htype, htoken⟩ := exists_reached hl
  have hlast : LastStands name.segments := by
    have hn := hreached.grounded hground
    cases n
    case record =>
      cases hname
      exact hn.1
    all_goals cases hname
  obtain ⟨i, hi, hstands⟩ := hlast
  refine ⟨address, around, n, name, i, hreached, hname, htype, hi, hstands, ?_⟩
  rw [(reportPosition_eq h hl).1, htoken, Option.mem_def.mp hi]
  rfl

end SchemaLiteral

/-! ## Setter calls -/

namespace SetterCall

variable {imports : ImportTable} {settings : SchemaSettings} {items : List Node}
  {binds : Node → Option (String × Bool)} {site : Site}

/-- A piece of code is the method call that a walk came to. -/
def IsSite (site : Site) : Node → Prop
  | .methodCall _ receiver _ _ _ _ args _ => receiver = site.receiver ∧ args = site.args
  | _ => False

variable (binds site) in
/-- A walk through a piece of code, in some environment, comes to a method call. -/
def Visits (n : Node) : Prop :=
  ∃ env, site ∈ (walk .whole binds env n).sites

/-- What a walk over nodes comes to, it comes to at one of them. -/
theorem visits_of_mem_walkAll {env : Environment} {ns : List Node}
    (h : site ∈ (walkAll .whole binds env ns).sites) : ∃ n ∈ ns, Visits binds site n := by
  induction ns generalizing env with
  | nil => cases h
  | cons n rest ih =>
      rw [walkAll] at h
      rcases List.mem_append.mp h with hn | hrest
      · exact ⟨n, List.mem_cons_self, env, hn⟩
      · obtain ⟨m, hm, hvisits⟩ := ih hrest
        exact ⟨m, List.mem_cons_of_mem n hm, hvisits⟩

/-- What two walks in a row come to, one of them comes to. -/
theorem visits_of_mem_next {w : Walk} {go : Environment → Walk} (h : site ∈ (w.next go).sites) :
    site ∈ w.sites ∨ site ∈ (go w.env).sites :=
  List.mem_append.mp h

/-- A walk through a field of a record literal goes through its parts. -/
theorem Visits.exists_fieldPart {n : Node} (h : Visits binds site n) :
    ∃ p ∈ fieldParts n, Visits binds site p.2 := by
  cases n
  case field attributes member shorthand value =>
    obtain ⟨env, h⟩ := h
    rw [walk] at h
    rcases visits_of_mem_next h with h | h
    · obtain ⟨m, hm, hvisits⟩ := visits_of_mem_walkAll h
      exact ⟨_, List.mem_append_left _ (List.mem_map_of_mem hm), hvisits⟩
    · exact ⟨_, List.mem_append_right _ List.mem_cons_self, _, h⟩
  all_goals exact ⟨_, List.mem_singleton_self _, h⟩

/-- **One piece of code**: a walk comes to the piece itself or goes through one of its parts. -/
theorem Visits.isSite_or_exists_part {n : Node} (h : Visits binds site n) :
    IsSite site n ∨ ∃ p ∈ n.parts, Visits binds site p.2 := by
  obtain ⟨env, h⟩ := h
  have hall : ∀ {env ns}, site ∈ (walkAll .whole binds env ns).sites →
      ∃ m ∈ ns, Visits binds site m := visits_of_mem_walkAll
  have hone : ∀ {env n}, site ∈ (walk .whole binds env n).sites → Visits binds site n :=
    fun h => ⟨_, h⟩
  cases n
  -- Only a method call is a site, and only a record has parts of parts; every other form is its
  -- parts one after the other.
  all_goals
    simp only [walk, Walk.next, List.mem_append, List.mem_cons, List.not_mem_nil, or_false] at h
  case methodCall attributes receiver dot method generics place args trailing =>
    rcases h with (((rfl | h) | h) | h) | h
    · exact .inl ⟨rfl, rfl⟩
    · obtain ⟨m, hm, hvisits⟩ := hall h
      exact .inr ⟨(.inner, m), by simp [Node.parts, hm], hvisits⟩
    · exact .inr ⟨(.inner, receiver), by simp [Node.parts], hone h⟩
    · obtain ⟨m, hm, hvisits⟩ := hall h
      exact .inr ⟨(.inner, m), by simp [Node.parts, hm], hvisits⟩
    · obtain ⟨m, hm, hvisits⟩ := hall h
      exact .inr ⟨(.inner, m), by simp [Node.parts, hm], hvisits⟩
  case record attributes name head place fields trailing dots rest =>
    rcases h with ((h | h) | h) | h
    · obtain ⟨m, hm, hvisits⟩ := hall h
      exact .inr ⟨(.aside, m), by simp [Node.parts, hm], hvisits⟩
    · obtain ⟨m, hm, hvisits⟩ := hall h
      exact .inr ⟨(.aside, m), by simp [Node.parts, hm], hvisits⟩
    · obtain ⟨m, hm, hvisits⟩ := hall h
      obtain ⟨p, hp, hvisits⟩ := hvisits.exists_fieldPart
      refine .inr ⟨p, ?_, hvisits⟩
      exact List.mem_append_left _ (List.mem_append_right _ (List.mem_flatMap.mpr ⟨m, hm, hp⟩))
    · obtain ⟨m, hm, hvisits⟩ := hall h
      exact .inr ⟨(.rest, m), by simp [Node.parts, hm], hvisits⟩
  all_goals
    refine .inr ?_
    simp only [Node.parts, List.mem_map, exists_exists_and_eq_and, List.mem_append, List.mem_cons,
      List.not_mem_nil, or_false, exists_eq_left, exists_eq_left', or_and_right, exists_or]
  case group | seq | arranged | path | scope | block | use | macroCall => exact hall h
  case paren | deref => exact hone h
  case conditioned | binder => exact h.imp hall hall
  case bodied => exact h.imp (Or.imp hall hall) hone
  case attributed | reference | field => exact h.imp hall hone
  case call => exact h.imp hone hall
  case typed | operation => exact h.imp hone hone
  case binding => exact .inr (.inr (hall h))

/-- **All pieces of code**: what a walk comes to is a piece inside the one it goes through. -/
theorem Visits.exists_mem_all {o : Code.Piece} (h : Visits binds site o.node) :
    ∃ p ∈ o.all, IsSite site p.node := by
  induction o using Code.Piece.induction with
  | h o ih =>
      rcases h.isSite_or_exists_part with hsite | ⟨⟨seat, m⟩, hm, hvisits⟩
      · refine ⟨o, ?_, hsite⟩
        rw [Code.Piece.all_eq]
        exact List.mem_cons_self
      · obtain ⟨i, hi⟩ := List.mem_iff_getElem?.mp hm
        have hpart : ⟨o.address ++ [i], (o.node, seat) :: o.around, m⟩ ∈ o.parts :=
          Code.Piece.mem_parts_iff.mpr ⟨i, seat, hi, rfl, rfl⟩
        obtain ⟨p, hp, hsite⟩ := ih _ hpart hvisits
        refine ⟨p, ?_, hsite⟩
        rw [Code.Piece.all_eq]
        exact List.mem_cons_of_mem o (List.mem_flatMap.mpr ⟨_, hpart, hp⟩)

/-- A setter call is read off a method call of the file. -/
theorem exists_reached {c : SetterCall} (hc : c ∈ collect imports settings items) :
    ∃ address around attributes receiver dot method generics place args trailing,
      Reached items address around
        (.methodCall attributes receiver dot method generics place args trailing) ∧
      c.start = receiver.place ∧ c.args = args.map argument := by
  rw [collect_eq] at hc
  obtain ⟨site, hsite, hcall⟩ := List.mem_filterMap.mp hc
  obtain ⟨-, name, -, -, rfl⟩ := Site.call?_eq_some_iff.mp hcall
  obtain ⟨n, hn, hvisits⟩ := visits_of_mem_walkAll hsite
  obtain ⟨i, hi⟩ := List.mem_iff_getElem?.mp hn
  obtain ⟨p, hp, hsite⟩ := Visits.exists_mem_all (o := ⟨[i], [], n⟩) hvisits
  have hreached := Reached.of_mem_all (o := ⟨[i], [], n⟩) (.item hi) hp
  obtain ⟨address, around, m⟩ := p
  cases m
  case methodCall attributes receiver dot method generics place args trailing =>
    obtain ⟨rfl, rfl⟩ := hsite
    exact ⟨address, around, attributes, site.receiver, dot, method, generics, place, site.args,
      trailing, hreached, rfl, rfl⟩
  all_goals cases hsite

/-- **The key of a setter call is reported at its first token**, which stands there. -/
theorem position_stands [Source] (hground : Node.GroundedAll items) {c : SetterCall}
    (hc : c ∈ collect imports settings items) {key : CallArgument} {others : List CallArgument}
    (hargs : c.args = key :: others) :
    ∃ address around attributes receiver dot method generics place n ns trailing t,
      Reached items address around
        (.methodCall attributes receiver dot method generics place (n :: ns) trailing) ∧
      key = argument n ∧ others = ns.map argument ∧ t ∈ n.shown.head? ∧ t.Stands ∧
      key.position = t.place := by
  obtain ⟨address, around, attributes, receiver, dot, method, generics, place, args, trailing,
    hreached, -, hcall⟩ := exists_reached hc
  obtain ⟨n, ns, rfl, rfl, rfl⟩ := List.map_eq_cons_iff.mp (hcall.symm.trans hargs)
  obtain ⟨-, -, -, -, -, hbegin⟩ := hreached.grounded hground
  obtain ⟨t, ht, hstands⟩ := hbegin n List.mem_cons_self
  refine ⟨address, around, attributes, receiver, dot, method, generics, place, n, ns,
    trailing, t, hreached, rfl, rfl, ht, hstands, ?_⟩
  obtain ⟨ts, hts⟩ := List.head?_eq_some_iff.mp (Option.mem_def.mp ht)
  show n.place = t.place
  rw [Node.place, hts]

/-- A setter call begins with the first token of its receiver, which stands there. -/
theorem start_stands [Source] (hground : Node.GroundedAll items) {c : SetterCall}
    (hc : c ∈ collect imports settings items) : ∃ t : Token, t.Stands ∧ c.start = t.place := by
  obtain ⟨address, around, attributes, receiver, dot, method, generics, place, args, trailing,
    hreached, hstart, -⟩ := exists_reached hc
  obtain ⟨-, -, -, -, ⟨t, ht, hstands⟩, -⟩ := hreached.grounded hground
  refine ⟨t, hstands, hstart.trans ?_⟩
  obtain ⟨ts, hts⟩ := List.head?_eq_some_iff.mp (Option.mem_def.mp ht)
  rw [Node.place, hts]

end SetterCall

end SchemaLint

import Mathlib.Data.List.Lex
import SchemaLint.SchemaLiteral

/-!
# Schema literals and what is around them

A piece of code has parts, and a part has a seat in it: for a record literal, whether the part lies
in a field, in what fills the other fields, or aside of both.  A piece of a file is known by its
address, the numbers of the parts on the way to it, and has pieces around it.  The pieces of a file
are read in the order of their addresses, so that a piece comes before the pieces inside it.

* `Node.parts`, `Seat`: the parts of a piece of code.
* `Reached`: a piece of a file with its address and what is around it.
* `pieces`: all pieces of a file; `mem_pieces_iff` and `pairwise_pieces` say which they are and in
  which order.
* `SchemaLiteral.visit_eq`: what the collector finds in a piece of code, by induction on its size.
* **`SchemaLiteral.collect_places`**: the collected literals are the schema literals of the file
  that are not aside of another one, one each, and the field around each is that of the nearest
  record literal around it.
-/

namespace SchemaLint.Code

/-! ## Parts -/

/-- Where a part stands in the code around it. -/
inductive Seat
  /-- In code that is no record literal. -/
  | inner
  /-- In an attribute of a record literal or of one of its fields, or in its path. -/
  | aside
  /-- In the value of a field of a record literal. -/
  | field (name : String)
  /-- In what fills the other fields of a record literal. -/
  | rest
deriving DecidableEq, Repr

/-- The parts of a field of a record literal. -/
def fieldParts : Node → List (Seat × Node)
  | .field attributes member _ value =>
    attributes.map (Seat.aside, ·) ++ [(Seat.field member.plain, value)]
  | n => [(Seat.aside, n)]

/-- The parts of a piece of code in the order in which they are read.  Those of a macro call are its
arguments. -/
def Node.parts : Node → List (Seat × Node)
  | .tokens _ | .literal _ => []
  | .group _ _ ns | .seq ns | .arranged _ ns | .path _ ns | .scope _ ns | .block _ ns | .use _ ns
  | .macroCall _ ns => ns.map (Seat.inner, ·)
  | .conditioned ns conditions => (conditions ++ ns).map (Seat.inner, ·)
  | .bodied front attributes n => (attributes ++ front ++ [n]).map (Seat.inner, ·)
  | .attributed ns n | .reference ns n | .field ns _ _ n => (ns ++ [n]).map (Seat.inner, ·)
  | .paren _ n | .deref _ n => [(Seat.inner, n)]
  | .operation left _ right => [(Seat.inner, left), (Seat.inner, right)]
  | .call callee _ args _ => (callee :: args).map (Seat.inner, ·)
  | .methodCall attributes receiver _ _ generics _ args _ =>
    (attributes ++ receiver :: (generics ++ args)).map (Seat.inner, ·)
  | .record attributes _ head _ fields _ _ rest =>
    (attributes ++ head).map (Seat.aside, ·) ++ fields.flatMap fieldParts ++
      rest.map (Seat.rest, ·)
  | .binding attributes pattern init => (attributes ++ pattern :: init).map (Seat.inner, ·)
  | .binder mark _ sub => (mark ++ sub).map (Seat.inner, ·)
  | .typed pattern type => [(Seat.inner, pattern), (Seat.inner, type)]

/-- The path of a record literal. -/
def Node.recordName? : Node → Option PathName
  | .record _ name _ _ _ _ _ _ => some name
  | _ => none

/-- A part of a node in its fields is no larger than the node. -/
theorem sizeOf_of_mem_fieldParts {n : Node} {p : Seat × Node} (h : p ∈ fieldParts n) :
    sizeOf p.2 ≤ sizeOf n := by
  cases n
  case field attributes member shorthand value =>
    simp only [fieldParts, List.mem_append, List.mem_map, List.mem_singleton] at h
    rcases h with ⟨a, ha, rfl⟩ | rfl
    · have := List.sizeOf_lt_of_mem ha
      simp only [Node.field.sizeOf_spec]
      omega
    · simp only [Node.field.sizeOf_spec]
      omega
  all_goals
    simp only [fieldParts, List.mem_singleton] at h
    rw [h]

/-- A part is smaller than the whole. -/
theorem Node.sizeOf_of_mem_parts {n : Node} {p : Seat × Node} (h : p ∈ n.parts) :
    sizeOf p.2 < sizeOf n := by
  have hlist : ∀ ns : List Node, ∀ m ∈ ns, sizeOf m < sizeOf ns :=
    fun _ _ hm => List.sizeOf_lt_of_mem hm
  cases n <;> simp only [parts] at h <;> simp <;> grind [→ sizeOf_of_mem_fieldParts]

/-! ## Pieces -/

/-- A piece of a file. -/
structure Piece where
  /-- The number of the item and, from there on, the numbers of the parts on the way. -/
  address : List Nat
  /-- The code around the piece, the innermost first, with the seat of what lies in it. -/
  around : List (Node × Seat)
  /-- The piece itself. -/
  node : Node

/-- A piece of code that is an item of a file or a part of another piece. -/
inductive Reached (items : List Node) : List Nat → List (Node × Seat) → Node → Prop
  /-- An item. -/
  | item {i : Nat} {n : Node} (h : items[i]? = some n) : Reached items [i] [] n
  /-- A part of another piece. -/
  | part {address : List Nat} {around : List (Node × Seat)} {n : Node} {i : Nat} {seat : Seat}
      {m : Node} (h : Reached items address around n) (hpart : n.parts[i]? = some (seat, m)) :
      Reached items (address ++ [i]) ((n, seat) :: around) m

namespace Piece

/-- The parts of a piece. -/
def parts (o : Piece) : List Piece :=
  o.node.parts.zipIdx.map fun p => ⟨o.address ++ [p.2], (o.node, p.1.1) :: o.around, p.1.2⟩

/-- The parts of a piece are the children of its node, each with its number at the end of its
address. -/
theorem mem_parts_iff {o p : Piece} : p ∈ o.parts ↔
    ∃ i seat, o.node.parts[i]? = some (seat, p.node) ∧ p.address = o.address ++ [i] ∧
      p.around = (o.node, seat) :: o.around := by
  obtain ⟨address, around, node⟩ := p
  simp only [parts, List.mem_map, List.mem_zipIdx_iff_getElem?]
  constructor
  · rintro ⟨⟨⟨seat, m⟩, i⟩, hpart, heq⟩
    cases heq
    exact ⟨i, seat, hpart, rfl, rfl⟩
  · rintro ⟨i, seat, hpart, rfl, rfl⟩
    exact ⟨((seat, node), i), hpart, rfl⟩

/-- A part is smaller than its piece, so pieces can be taken apart to the end. -/
theorem sizeOf_of_mem_parts {o p : Piece} (h : p ∈ o.parts) : sizeOf p.node < sizeOf o.node := by
  obtain ⟨i, seat, hpart, -⟩ := mem_parts_iff.mp h
  exact Node.sizeOf_of_mem_parts (List.mem_of_getElem? hpart)

/-- A piece and all pieces inside it, in the order in which they are read. -/
def all (o : Piece) : List Piece :=
  o :: o.parts.attach.flatMap fun p => p.1.all
termination_by sizeOf o.node
decreasing_by exact sizeOf_of_mem_parts p.2

/-- All that is in a piece is the piece itself and what is in its parts. -/
theorem all_eq (o : Piece) : o.all = o :: o.parts.flatMap all := by
  rw [all, List.flatMap_subtype (g := all) fun _ _ => rfl, List.unattach_attach]

/-- Induction over a piece from all its parts. -/
theorem induction {P : Piece → Prop} (h : ∀ o, (∀ p ∈ o.parts, P p) → P o) (o : Piece) : P o := by
  induction hsize : sizeOf o.node using Nat.strongRecOn generalizing o with
  | _ size ih =>
      subst hsize
      exact h o fun p hp => ih (sizeOf p.node) (sizeOf_of_mem_parts hp) p rfl

/-- The pieces inside a piece have addresses and surroundings that go on from its own. -/
theorem extends_of_mem_all {o p : Piece} (h : p ∈ o.all) :
    o.address <+: p.address ∧ o.around <:+ p.around := by
  induction o using induction with
  | h o ih =>
      rw [all_eq, List.mem_cons, List.mem_flatMap] at h
      rcases h with rfl | ⟨q, hq, hp⟩
      · exact ⟨List.prefix_rfl, List.suffix_rfl⟩
      · obtain ⟨haddress, haround⟩ := ih q hq hp
        obtain ⟨i, seat, -, hi, hseat⟩ := mem_parts_iff.mp hq
        rw [hi] at haddress
        rw [hseat] at haround
        exact ⟨(List.prefix_append _ _).trans haddress, (List.suffix_cons _ _).trans haround⟩

/-- Pieces stand in the order of their addresses: a piece before its parts, and a part before the
next one. -/
theorem pairwise_all (o : Piece) : o.all.Pairwise fun p q => p.address < q.address := by
  induction o using induction with
  | h o ih =>
      have hnumbers : o.parts.Pairwise fun p q =>
          ∃ i j, i < j ∧ p.address = o.address ++ [i] ∧ q.address = o.address ++ [j] := by
        rw [parts, List.pairwise_map]
        have hindices : (o.node.parts.zipIdx.map Prod.snd).Pairwise (· < ·) := by
          rw [List.zipIdx_map_snd]
          exact List.pairwise_lt_range'
        exact (List.pairwise_map.mp hindices).imp fun hlt => ⟨_, _, hlt, rfl, rfl⟩
      rw [all_eq, List.pairwise_cons, List.pairwise_flatMap]
      refine ⟨fun p hp => ?_, ih, hnumbers.imp ?_⟩
      · obtain ⟨q, hq, hp⟩ := List.mem_flatMap.mp hp
        obtain ⟨i, -, -, hi, -⟩ := mem_parts_iff.mp hq
        obtain ⟨rest, hrest⟩ := (extends_of_mem_all hp).1
        rw [← hrest, hi, List.append_assoc]
        nth_rewrite 1 [← List.append_nil o.address]
        exact List.append_left_lt List.Lex.nil
      · rintro p q ⟨i, j, hij, hp, hq⟩ p' hp' q' hq'
        obtain ⟨rest, hrest⟩ := (extends_of_mem_all hp').1
        obtain ⟨rest', hrest'⟩ := (extends_of_mem_all hq').1
        rw [← hrest, ← hrest', hp, hq, List.append_assoc, List.append_assoc]
        exact List.append_left_lt (List.Lex.rel hij)

end Piece

/-- What goes on from an address does not come before it. -/
theorem not_append_lt (address way : List Nat) : ¬ address ++ way < address := by
  induction address with
  | nil => exact List.not_lt_nil _
  | cons i address ih => simpa [List.cons_lt_cons_iff] using ih

/-- The pieces of a file in the order in which they are read. -/
def pieces (items : List Node) : List Piece :=
  items.zipIdx.flatMap fun p => Piece.all ⟨[p.2], [], p.1⟩

/-- The pieces of a file come in the order of their addresses. -/
theorem pairwise_pieces (items : List Node) :
    (pieces items).Pairwise fun p q => p.address < q.address := by
  have hindices : (items.zipIdx.map Prod.snd).Pairwise (· < ·) := by
    rw [List.zipIdx_map_snd]
    exact List.pairwise_lt_range'
  rw [pieces, List.pairwise_flatMap]
  refine ⟨fun p _ => Piece.pairwise_all _, (List.pairwise_map.mp hindices).imp ?_⟩
  intro p q hlt p' hp' q' hq'
  obtain ⟨rest, hrest⟩ := (Piece.extends_of_mem_all hp').1
  obtain ⟨rest', hrest'⟩ := (Piece.extends_of_mem_all hq').1
  rw [← hrest, ← hrest']
  exact List.Lex.rel hlt

/-- What is in a piece that is reached is reached as well. -/
theorem Reached.of_mem_all {items : List Node} {o p : Piece}
    (ho : Reached items o.address o.around o.node) (h : p ∈ o.all) :
    Reached items p.address p.around p.node := by
  induction o using Piece.induction with
  | h o ih =>
      rw [Piece.all_eq, List.mem_cons, List.mem_flatMap] at h
      rcases h with rfl | ⟨q, hq, hp⟩
      · exact ho
      · refine ih q hq ?_ hp
        obtain ⟨i, seat, hpart, haddress, haround⟩ := Piece.mem_parts_iff.mp hq
        rw [haddress, haround]
        exact ho.part hpart

/-- The parts of what is in a piece are in the piece. -/
theorem Piece.mem_all_trans {o p q : Piece} (hp : p ∈ o.all) (hq : q ∈ p.parts) : q ∈ o.all := by
  induction o using Piece.induction with
  | h o ih =>
      rw [Piece.all_eq, List.mem_cons, List.mem_flatMap] at hp ⊢
      rcases hp with rfl | ⟨r, hr, hp⟩
      · exact .inr ⟨q, hq, by rw [Piece.all_eq]; exact List.mem_cons_self⟩
      · exact .inr ⟨r, hr, ih r hr hp⟩

/-- The pieces of a file are those that can be reached. -/
theorem mem_pieces_iff {items : List Node} {o : Piece} :
    o ∈ pieces items ↔ Reached items o.address o.around o.node := by
  constructor
  · intro h
    obtain ⟨⟨n, i⟩, hi, ho⟩ := List.mem_flatMap.mp h
    exact .of_mem_all (.item (List.mem_zipIdx_iff_getElem?.mp hi)) ho
  · obtain ⟨address, around, node⟩ := o
    intro h
    simp only at h
    induction h with
    | @item i n hi =>
        refine List.mem_flatMap.mpr ⟨(n, i), List.mem_zipIdx_iff_getElem?.mpr hi, ?_⟩
        rw [Piece.all_eq]
        exact List.mem_cons_self
    | @part address around n i seat m h hpart ih =>
        obtain ⟨p, hp, ho⟩ := List.mem_flatMap.mp ih
        exact List.mem_flatMap.mpr ⟨p, hp, Piece.mem_all_trans ho
          (Piece.mem_parts_iff.mpr ⟨i, seat, hpart, rfl, rfl⟩)⟩

/-- What lies around a piece is reached as well, on the way to the piece. -/
theorem Reached.around {items : List Node} {address : List Nat} {around : List (Node × Seat)}
    {m : Node} (h : Reached items address around m) {inside outer : List (Node × Seat)} {n : Node}
    {seat : Seat} (heq : around = inside ++ (n, seat) :: outer) :
    ∃ way more, address = way ++ more ∧ more.length = inside.length + 1 ∧
      Reached items way outer n ∧ seat ∈ n.parts.map Prod.fst := by
  induction h generalizing inside with
  | item h => simp at heq
  | @part address around n' i seat' m h hpart ih =>
      cases inside with
      | nil =>
          cases heq
          exact ⟨address, [i], rfl, rfl, h,
            List.mem_map_of_mem (f := Prod.fst) (List.mem_of_getElem? hpart)⟩
      | cons p inside =>
          cases heq
          obtain ⟨way, more, rfl, hlength, hreached⟩ := ih rfl
          exact ⟨way, more ++ [i], by simp, by simp [hlength], hreached⟩

/-- The parts of a record literal lie in its fields, fill the others or are aside. -/
theorem Node.inner_notMem_parts {n : Node} (h : n.recordName?.isSome) :
    Seat.inner ∉ n.parts.map Prod.fst := by
  have hfield : ∀ n, ∀ p ∈ fieldParts n, p.1 ≠ Seat.inner := by
    intro n p hp
    cases n
    case field attributes member shorthand value =>
      simp only [fieldParts, List.mem_append, List.mem_map, List.mem_singleton] at hp
      rcases hp with ⟨a, -, rfl⟩ | rfl <;> simp
    all_goals
      simp only [fieldParts, List.mem_singleton] at hp
      simp [hp]
  cases n
  case record attributes name head place fields trailing dots rest =>
    simp only [parts, List.map_append, List.mem_append, List.mem_map, List.mem_flatMap]
    rintro (((⟨p, ⟨a, -, rfl⟩, hp⟩ | ⟨p, ⟨a, -, rfl⟩, hp⟩) | ⟨p, ⟨n, -, hp⟩, hseat⟩) |
      ⟨p, ⟨a, -, rfl⟩, hp⟩)
    · cases hp
    · cases hp
    · exact hfield n p hp hseat
    · cases hp
  all_goals cases h

end SchemaLint.Code

/-! ## The literals of a file -/

namespace SchemaLint.SchemaLiteral

open Code

/-- Appends literals that were found in order. -/
def Collector.add (s : Collector) (literals : List SchemaLiteral) : Collector :=
  { s with found := literals.reverse ++ s.found }

/-- Literals that are added in two steps are added in one. -/
theorem Collector.add_add (s : Collector) (before after : List SchemaLiteral) :
    (s.add before).add after = s.add (before ++ after) := by
  simp [add]

/-- Steps that leave the enclosing fields alone and find something each find all of it. -/
theorem foldl_add {α : Type} {step : Collector → α → Collector} {finds : α → List SchemaLiteral}
    {xs : List α} {s : Collector}
    (h : ∀ x ∈ xs, ∀ t : Collector, t.enclosing = s.enclosing → step t x = t.add (finds x)) :
    xs.foldl step s = s.add (xs.flatMap finds) := by
  induction xs generalizing s with
  | nil => rfl
  | cons x xs ih =>
      rw [List.foldl_cons, h x List.mem_cons_self s rfl,
        ih (s := s.add (finds x)) fun y hy t ht => h y (List.mem_cons_of_mem _ hy) t ht,
        Collector.add_add, List.flatMap_cons]

section

variable (imports : ImportTable) (settings : SchemaSettings)

/-- Some candidate for the path matches a configured type. -/
def IsSchemaType (name : PathName) : Prop :=
  ∃ candidate ∈ imports.resolve name, ∃ pattern ∈ settings.types,
    PathPattern.matchesType candidate pattern = true

/-- A path names a schema type if it resolves to a configured one. -/
theorem isSchemaPath_iff (name : PathName) :
    isSchemaPath imports settings name = true ↔ IsSchemaType imports settings name := by
  simp only [isSchemaPath, PathPattern.anyMatchesType, List.any_eq_true, IsSchemaType]

/-- A record literal of a configured type. -/
def IsSchemaRecord (n : Node) : Prop :=
  ∃ name, n.recordName? = some name ∧ IsSchemaType imports settings name

instance (n : Node) : Decidable (IsSchemaRecord imports settings n) :=
  match h : n.recordName? with
  | none => .isFalse fun ⟨_, hname, _⟩ => nomatch h.symm.trans hname
  | some name =>
    decidable_of_iff (isSchemaPath imports settings name = true)
      (by simp [IsSchemaRecord, h, isSchemaPath_iff])

/-- No schema literal has the piece aside of its fields. -/
def Visible (o : Code.Piece) : Prop :=
  ∀ p ∈ o.around, IsSchemaRecord imports settings p.1 → p.2 ≠ Seat.aside

instance (o : Code.Piece) : Decidable (Visible imports settings o) :=
  inferInstanceAs
    (Decidable (∀ p ∈ o.around, IsSchemaRecord imports settings p.1 → p.2 ≠ Seat.aside))

end

/-- The nearest record literal around a piece, and where in it the piece lies. -/
def Nearest (o p : Code.Piece) (seat : Seat) : Prop :=
  p.node.recordName?.isSome ∧ ∃ between way,
    o.around = between ++ (p.node, seat) :: p.around ∧ (∀ q ∈ between, q.1.recordName? = none) ∧
      o.address = p.address ++ way ∧ way.length = between.length + 1

section

variable {imports : ImportTable} {settings : SchemaSettings}

variable (imports settings) in
/-- The field that a place lies in, by what is around it: the nearest record literal decides, unless
the place fills its other fields. -/
def fieldAround : List (Node × Seat) → Option String
  | [] => none
  | (n, seat) :: outer =>
    match n.recordName? with
    | none => fieldAround outer
    | some name =>
      if isSchemaPath imports settings name then
        match seat with
        | .field f => some f
        | _ => fieldAround outer
      else none

/-- A node that is no record does not change the field around. -/
theorem fieldAround_of_no_record {n : Node} (h : n.recordName? = none) (seat : Seat)
    (outer : List (Node × Seat)) :
    fieldAround imports settings ((n, seat) :: outer) = fieldAround imports settings outer := by
  simp only [fieldAround.eq_def imports settings (_ :: _), h]

/-- A record of another type hides the field around it. -/
theorem fieldAround_of_foreign {n : Node} (h : n.recordName?.isSome)
    (hforeign : ¬ IsSchemaRecord imports settings n) (seat : Seat) (outer : List (Node × Seat)) :
    fieldAround imports settings ((n, seat) :: outer) = none := by
  obtain ⟨name, hname⟩ := Option.isSome_iff_exists.mp h
  have hpath : isSchemaPath imports settings name = false := by
    simpa [IsSchemaRecord, hname, ← isSchemaPath_iff] using hforeign
  simp [fieldAround.eq_def imports settings (_ :: _), hname, hpath]

/-- In a schema record the field around is the one on the way. -/
theorem fieldAround_of_schema {n : Node} (h : IsSchemaRecord imports settings n) (seat : Seat)
    (outer : List (Node × Seat)) :
    fieldAround imports settings ((n, seat) :: outer) =
      match seat with
      | .field name => some name
      | _ => fieldAround imports settings outer := by
  obtain ⟨name, hname, hpath⟩ := h
  simp [fieldAround.eq_def imports settings (_ :: _), hname, (isSchemaPath_iff ..).mpr hpath]

variable (imports settings) in
/-- The entry of a piece that is a schema literal. -/
def ofNode? (enclosing : Option String) : Node → Option SchemaLiteral
  | .record attributes name head place fields trailing dots rest =>
    if isSchemaPath imports settings name then
      some (ofRecord imports settings enclosing.toList
        (Node.place (.record attributes name head place fields trailing dots rest)) name place
        fields (!dots.isEmpty))
    else none
  | _ => none

variable (imports settings) in
/-- The entry of a piece of a file. -/
def ofPiece? (o : Code.Piece) : Option SchemaLiteral :=
  if Visible imports settings o then
    ofNode? imports settings (fieldAround imports settings o.around) o.node
  else none

/-- A node is an entry exactly if it is a schema record. -/
theorem isSome_ofNode? {enclosing : Option String} {n : Node} :
    (ofNode? imports settings enclosing n).isSome ↔ IsSchemaRecord imports settings n := by
  cases n
  case record attributes name head place fields trailing dots rest =>
    simp only [ofNode?, IsSchemaRecord, Node.recordName?, Option.some.injEq, exists_eq_left',
      ← isSchemaPath_iff]
    split <;> simp_all
  all_goals simp [ofNode?, IsSchemaRecord, Node.recordName?]

/-- An entry has the enclosing field it is made with. -/
theorem enclosingField_of_ofNode? {enclosing : Option String} {n : Node} {l : SchemaLiteral}
    (h : ofNode? imports settings enclosing n = some l) : l.enclosingField = enclosing := by
  cases n
  case record attributes name head place fields trailing dots rest =>
    simp only [ofNode?] at h
    split at h
    · cases h
      simp [ofRecord]
    · cases h
  all_goals cases h

/-- Nodes are visited one after the other. -/
theorem visitAll_eq_foldl (s : Collector) (ns : List Node) :
    visitAll imports settings s ns = ns.foldl (visit imports settings) s := by
  induction ns generalizing s with
  | nil => rfl
  | cons n ns ih => rw [visitAll, ih, List.foldl_cons]

/-- Nodes are visited in two parts. -/
theorem visitAll_append (s : Collector) (ns ms : List Node) :
    visitAll imports settings s (ns ++ ms) =
      visitAll imports settings (visitAll imports settings s ns) ms := by
  simp only [visitAll_eq_foldl, List.foldl_append]

/-- Visiting a node in its fields is visiting the node. -/
theorem visitAll_fieldParts (s : Collector) (n : Node) :
    visitAll imports settings s ((fieldParts n).map Prod.snd) = visit imports settings s n := by
  cases n
  case field attributes member shorthand value =>
    simp [fieldParts, visitAll_append, visit, visitAll, Function.comp_def]
  all_goals rfl

/-- Other code than a record literal is visited part by part. -/
theorem visit_of_no_record {n : Node} (h : n.recordName? = none) (s : Collector) :
    visit imports settings s n = visitAll imports settings s (n.parts.map Prod.snd) := by
  cases n
  case record => cases h
  all_goals simp [visit, Node.parts, visitAll_append, visitAll, Function.comp_def]

/-- So is a record literal of another type, as if nothing were around it. -/
theorem visit_of_foreign {n : Node} (h : n.recordName?.isSome)
    (hforeign : ¬ IsSchemaRecord imports settings n) (s : Collector) :
    visit imports settings s n =
      { visitAll imports settings { s with enclosing := [] } (n.parts.map Prod.snd) with
        enclosing := s.enclosing } := by
  have hfields : ∀ (ns : List Node) (t : Collector),
      visitAll imports settings t ((ns.flatMap fieldParts).map Prod.snd) =
        visitAll imports settings t ns := by
    intro ns
    induction ns with
    | nil => exact fun _ => rfl
    | cons n ns ih =>
        intro t
        rw [List.flatMap_cons, List.map_append, visitAll_append, visitAll_fieldParts, ih, visitAll]
  cases n
  case record attributes name head place fields trailing dots rest =>
    have hpath : isSchemaPath imports settings name = false := by
      simpa [IsSchemaRecord, Node.recordName?, ← isSchemaPath_iff] using hforeign
    simp only [visit, hpath, Node.parts, List.map_append, visitAll_append, hfields]
    simp [Function.comp_def]
  all_goals cases h

variable (imports settings) in
/-- How a part of a schema literal is visited. -/
def visitPart (s : Collector) : Seat × Node → Collector
  | (.aside, _) => s
  | (.field name, n) =>
    let inside := visit imports settings { s with enclosing := name :: s.enclosing } n
    { inside with enclosing := inside.enclosing.drop 1 }
  | (_, n) => visit imports settings s n

/-- A schema literal is found and then visited part by part. -/
theorem visit_of_schema {n : Node} (h : IsSchemaRecord imports settings n) (s : Collector) :
    ∃ l, ofNode? imports settings s.enclosing.head? n = some l ∧
      visit imports settings s n = n.parts.foldl (visitPart imports settings) (s.add [l]) := by
  -- What is aside changes nothing, the fields are visited under their names, and the rest as it
  -- stands.
  have haside : ∀ (ns : List Node) (t : Collector),
      (ns.map (Seat.aside, ·)).foldl (visitPart imports settings) t = t := by
    intro ns t
    induction ns with
    | nil => rfl
    | cons n ns ih => exact ih
  have hfields : ∀ (ns : List Node) (t : Collector),
      (ns.flatMap fieldParts).foldl (visitPart imports settings) t =
        visitFields imports settings t ns := by
    intro ns
    induction ns with
    | nil => exact fun _ => rfl
    | cons n ns ih =>
        intro t
        rw [List.flatMap_cons, List.foldl_append, ih]
        cases n
        case field attributes member shorthand value =>
          rw [fieldParts, List.foldl_append, haside]
          rfl
        all_goals rfl
  have hrest : ∀ (ns : List Node) (t : Collector),
      (ns.map (Seat.rest, ·)).foldl (visitPart imports settings) t =
        visitAll imports settings t ns := by
    intro ns t
    rw [List.foldl_map, visitAll_eq_foldl]
    rfl
  obtain ⟨name, hname, htype⟩ := h
  have hschema := (isSchemaPath_iff ..).mpr htype
  cases n
  case record attributes name' head place fields trailing dots rest =>
    cases hname
    refine ⟨_, by rw [ofNode?, if_pos hschema], ?_⟩
    simp only [visit, if_pos hschema, Node.parts, List.foldl_append, haside, hfields, hrest]
    simp [Collector.add, ofRecord]
  all_goals cases hname

/-- A part of what is no schema record is visible if the whole is. -/
theorem visible_of_mem_parts {o p : Code.Piece} (hp : p ∈ o.parts)
    (hrecord : ¬ IsSchemaRecord imports settings o.node) :
    Visible imports settings p ↔ Visible imports settings o := by
  obtain ⟨i, seat, -, -, haround⟩ := Code.Piece.mem_parts_iff.mp hp
  simp [Visible, haround, hrecord]

/-- Nothing that is in an invisible piece is an entry. -/
theorem entries_of_not_visible {o : Code.Piece} (h : ¬ Visible imports settings o) :
    o.all.filterMap (ofPiece? imports settings) = [] := by
  rw [List.filterMap_eq_nil_iff]
  intro p hp
  have hp : ¬ Visible imports settings p := by
    intro hvisible
    exact h fun q hq => hvisible q ((Code.Piece.extends_of_mem_all hp).2.subset hq)
  rw [ofPiece?, if_neg hp]

variable (imports settings) in
/-- Steps over the parts of a piece, each of which finds what lies in the part, find all of it. -/
theorem foldl_parts {o : Code.Piece} {step : Collector → Seat × Node → Collector} {s : Collector}
    (h : ∀ p ∈ o.parts, ∀ seat, p.around = (o.node, seat) :: o.around →
      ∀ t : Collector, t.enclosing = s.enclosing →
        step t (seat, p.node) = t.add (p.all.filterMap (ofPiece? imports settings))) :
    o.node.parts.foldl step s =
      s.add (o.parts.flatMap fun p => p.all.filterMap (ofPiece? imports settings)) := by
  calc o.node.parts.foldl step s
      = o.node.parts.zipIdx.foldl (fun t p => step t p.1) s := by
        conv_lhs => rw [← List.zipIdx_map_fst 0 o.node.parts]
        rw [List.foldl_map]
    _ = _ := by
        rw [Code.Piece.parts, List.flatMap_map]
        refine foldl_add fun p hp t ht => ?_
        exact h _ (List.mem_map_of_mem hp) p.1.1 rfl t ht

/-- The entries in a piece are its own, if it is one, and those of its parts. -/
theorem entries_of_all (o : Code.Piece) :
    o.all.filterMap (ofPiece? imports settings) = (ofPiece? imports settings o).toList ++
      o.parts.flatMap fun p => p.all.filterMap (ofPiece? imports settings) := by
  rw [Code.Piece.all_eq, List.filterMap_cons, List.filterMap_flatMap]
  cases ofPiece? imports settings o <;> rfl

/-- What is no schema record is no entry. -/
theorem ofNode?_of_not_schema {enclosing : Option String} {n : Node}
    (h : ¬ IsSchemaRecord imports settings n) : ofNode? imports settings enclosing n = none :=
  Option.not_isSome_iff_eq_none.mp (isSome_ofNode?.not.mpr h)

/-- What the collector finds in a piece. -/
theorem visit_eq (o : Code.Piece) {s : Collector} (hvisible : Visible imports settings o)
    (henclosing : s.enclosing.head? = fieldAround imports settings o.around) :
    visit imports settings s o.node = s.add (o.all.filterMap (ofPiece? imports settings)) := by
  induction o using Code.Piece.induction generalizing s with
  | h o ih =>
      have hentry : ofPiece? imports settings o =
          ofNode? imports settings s.enclosing.head? o.node := by
        rw [ofPiece?, if_pos hvisible, henclosing]
      rw [entries_of_all, hentry]
      by_cases hschema : IsSchemaRecord imports settings o.node
      · obtain ⟨l, hl, hvisit⟩ := visit_of_schema hschema s
        rw [hvisit, hl, foldl_parts imports settings, Collector.add_add]
        · rfl
        -- The field around a part is the one whose value it is, or that of the piece; what is aside
        -- is neither visited nor visible.
        intro p hp seat haround t ht
        have hfield := fieldAround_of_schema hschema seat o.around
        rw [← haround] at hfield
        have hinside : seat ≠ .aside → Visible imports settings p := by
          intro hseat q hq
          rw [haround, List.mem_cons] at hq
          rcases hq with rfl | hq
          · exact fun _ => hseat
          · exact hvisible q hq
        cases seat with
        | aside =>
            have hp : ¬ Visible imports settings p := by
              intro h
              exact h _ (haround ▸ List.mem_cons_self) hschema rfl
            rw [entries_of_not_visible hp]
            rfl
        | field name =>
            have hvalue := ih p hp (hinside (by simp))
              (s := { t with enclosing := name :: t.enclosing }) (by rw [hfield]; rfl)
            rw [visitPart, hvalue]
            rfl
        | inner | rest =>
            exact ih p hp (hinside (by simp)) (by rw [hfield, ht]; exact henclosing)
      · have hparts : ∀ p ∈ o.parts, Visible imports settings p :=
          fun p hp => (visible_of_mem_parts hp hschema).mpr hvisible
        rw [ofNode?_of_not_schema hschema]
        cases hname : o.node.recordName? with
        | none =>
            rw [visit_of_no_record hname, visitAll_eq_foldl, List.foldl_map,
              foldl_parts imports settings]
            · rfl
            intro p hp seat haround t ht
            refine ih p hp (hparts p hp) ?_
            rw [ht, henclosing, haround, fieldAround_of_no_record hname]
        | some name =>
            have hrecord : o.node.recordName?.isSome := by rw [hname]; rfl
            rw [visit_of_foreign hrecord hschema, visitAll_eq_foldl, List.foldl_map,
              foldl_parts imports settings]
            · rfl
            intro p hp seat haround t ht
            refine ih p hp (hparts p hp) ?_
            rw [ht, haround, fieldAround_of_foreign hrecord hschema]
            rfl

/-- The collected literals are the entries of the pieces of the file, in order. -/
theorem collect_eq (items : List Node) :
    collect imports settings items = (pieces items).filterMap (ofPiece? imports settings) := by
  have hvisit : items.foldl (visit imports settings) ⟨[], []⟩ = Collector.add ⟨[], []⟩
      (items.zipIdx.flatMap fun p =>
        (Code.Piece.all ⟨[p.2], [], p.1⟩).filterMap (ofPiece? imports settings)) := by
    conv_lhs => rw [← List.zipIdx_map_fst 0 items]
    rw [List.foldl_map]
    refine foldl_add fun p _ t ht => ?_
    refine visit_eq ⟨[p.2], [], p.1⟩ (fun q hq => nomatch hq) ?_
    rw [ht]
    rfl
  rw [collect, visitAll_eq_foldl, hvisit, pieces, List.filterMap_flatMap, Collector.add,
    List.append_nil, List.reverse_reverse]

/-! ## Placement -/

variable (imports settings) in
/-- An entry is that of its record literal, and its field is the one that the nearest record literal
around it gives.  The field of a literal that fills the other fields of another one is the field of
that one, which has an entry of its own. -/
structure Placed (entries : List (Code.Piece × SchemaLiteral)) (o : Code.Piece)
    (l : SchemaLiteral) : Prop where
  /-- The entry is read off the record literal. -/
  record : ofNode? imports settings l.enclosingField o.node = some l
  /-- There is no record literal around or a nearest one. -/
  total : (∀ p ∈ o.around, p.1.recordName? = none) ∨ ∃ p seat, Nearest o p seat ∧
    (IsSchemaRecord imports settings p.node → seat = .rest ∨ ∃ name, seat = .field name)
  /-- There is no record literal around. -/
  alone : (∀ p ∈ o.around, p.1.recordName? = none) → l.enclosingField = none
  /-- The nearest record literal is of another type. -/
  foreign {p : Code.Piece} {seat : Seat} (h : Nearest o p seat)
    (hp : ¬ IsSchemaRecord imports settings p.node) : l.enclosingField = none
  /-- The literal lies in a field of the nearest one. -/
  field {p : Code.Piece} {name : String} (h : Nearest o p (.field name))
    (hp : IsSchemaRecord imports settings p.node) : l.enclosingField = some name
  /-- The literal fills the other fields of the nearest one. -/
  rest {p : Code.Piece} (h : Nearest o p .rest) (hp : IsSchemaRecord imports settings p.node) :
    ∃ e ∈ entries, e.1 = p ∧ l.enclosingField = e.2.enclosingField

/-- The field around a piece is the one in its nearest record. -/
theorem fieldAround_of_nearest {o p : Code.Piece} {seat : Seat} (h : Nearest o p seat) :
    fieldAround imports settings o.around =
      fieldAround imports settings ((p.node, seat) :: p.around) := by
  obtain ⟨-, between, -, haround, hbetween, -⟩ := h
  rw [haround]
  clear haround
  induction between with
  | nil => rfl
  | cons q between ih =>
      rw [List.cons_append, fieldAround_of_no_record (hbetween q List.mem_cons_self),
        ih fun q' hq' => hbetween q' (List.mem_cons_of_mem _ hq')]

/-- Outside of all records there is no field around. -/
theorem fieldAround_of_alone {around : List (Node × Seat)}
    (h : ∀ p ∈ around, p.1.recordName? = none) : fieldAround imports settings around = none := by
  induction around with
  | nil => rfl
  | cons p around ih =>
      rw [fieldAround_of_no_record (h p List.mem_cons_self),
        ih fun q hq => h q (List.mem_cons_of_mem _ hq)]

/-- The nearest record around what is reached is reached. -/
theorem Nearest.reached {items : List Node} {o p : Code.Piece} {seat : Seat} (h : Nearest o p seat)
    (ho : Reached items o.address o.around o.node) : Reached items p.address p.around p.node := by
  obtain ⟨-, between, way, haround, -, haddress, hlength⟩ := h
  obtain ⟨way', more, heq, hmore, hreached, -⟩ := ho.around haround
  have hway : p.address = way' :=
    (List.append_inj' (haddress.symm.trans heq) (hlength.trans hmore.symm)).1
  rw [hway]
  exact hreached

/-- The nearest record around what is visible is visible. -/
theorem Nearest.visible {o p : Code.Piece} {seat : Seat} (h : Nearest o p seat)
    (ho : Visible imports settings o) : Visible imports settings p := by
  obtain ⟨-, between, -, haround, -⟩ := h
  intro q hq
  exact ho q (haround ▸ List.mem_append_right _ (List.mem_cons_of_mem _ hq))

/-- A piece has a nearest record literal around it if it has any. -/
theorem exists_nearest {items : List Node} {o : Code.Piece}
    (ho : Reached items o.address o.around o.node) (hvisible : Visible imports settings o) :
    (∀ p ∈ o.around, p.1.recordName? = none) ∨ ∃ p seat, Nearest o p seat ∧
      (IsSchemaRecord imports settings p.node → seat = .rest ∨ ∃ name, seat = .field name) := by
  cases hfind : o.around.find? fun p => p.1.recordName?.isSome with
  | none =>
      refine .inl fun p hp => ?_
      simpa using List.find?_eq_none.mp hfind p hp
  | some q =>
      obtain ⟨n, seat⟩ := q
      obtain ⟨hn, between, outer, haround, hbetween⟩ := List.find?_eq_some_iff_append.mp hfind
      obtain ⟨way, more, haddress, hlength, -, hseat⟩ := ho.around haround
      refine .inr ⟨⟨way, outer, n⟩, seat,
        ⟨hn, between, more, haround, by simpa using hbetween, haddress, hlength⟩, fun hschema => ?_⟩
      cases seat with
      | inner => exact absurd hseat (Node.inner_notMem_parts hn)
      | aside =>
          have hmem : (n, Seat.aside) ∈ o.around :=
            haround ▸ List.mem_append_right _ List.mem_cons_self
          exact absurd rfl (hvisible _ hmem hschema)
      | field name => exact .inr ⟨name, rfl⟩
      | rest => exact .inl rfl

variable (imports settings) in
/-- The schema literals of a file with their entries. -/
def entries (items : List Node) : List (Code.Piece × SchemaLiteral) :=
  (pieces items).filterMap fun o => (ofPiece? imports settings o).map (o, ·)

/-- The entries of a file are the pieces that are reached and are schema records. -/
theorem mem_entries_iff {items : List Node} {o : Code.Piece} {l : SchemaLiteral} :
    (o, l) ∈ entries imports settings items ↔
      Reached items o.address o.around o.node ∧ ofPiece? imports settings o = some l := by
  simp [entries, mem_pieces_iff]

/-- The literals of the entries are those that are collected. -/
theorem map_snd_entries (items : List Node) :
    (entries imports settings items).map Prod.snd = collect imports settings items := by
  rw [entries, List.map_filterMap, collect_eq]
  congr 1
  funext o
  cases ofPiece? imports settings o <;> rfl

/-- A piece is the place of an entry if it is reached, visible and a schema record. -/
theorem mem_map_fst_entries_iff {items : List Node} {o : Code.Piece} :
    o ∈ (entries imports settings items).map Prod.fst ↔ Reached items o.address o.around o.node ∧
      IsSchemaRecord imports settings o.node ∧ Visible imports settings o := by
  have hsome : (∃ l, ofPiece? imports settings o = some l) ↔
      IsSchemaRecord imports settings o.node ∧ Visible imports settings o := by
    rw [← Option.isSome_iff_exists, ofPiece?]
    split
    case isTrue hvisible => simp [isSome_ofNode?, hvisible]
    case isFalse hvisible => simp [hvisible]
  simp [mem_entries_iff, ← hsome]

variable (imports settings) in
/-- Entries come in the order of their addresses. -/
theorem pairwise_entries (items : List Node) :
    ((entries imports settings items).map Prod.fst).Pairwise
      fun o p => o.address < p.address := by
  rw [entries, List.pairwise_map]
  refine (pairwise_pieces items).filterMap _ ?_
  intro o p hlt e he f hf
  obtain ⟨-, -, rfl⟩ := Option.map_eq_some_iff.mp he
  obtain ⟨-, -, rfl⟩ := Option.map_eq_some_iff.mp hf
  exact hlt

/-- The enclosing field of an entry is the one it has in the nearest schema record. -/
theorem placed_of_mem_entries {items : List Node} {o : Code.Piece} {l : SchemaLiteral}
    (h : (o, l) ∈ entries imports settings items) :
    Placed imports settings (entries imports settings items) o l := by
  obtain ⟨hreached, hentry⟩ := mem_entries_iff.mp h
  have hvisible : Visible imports settings o :=
    (mem_map_fst_entries_iff.mp (List.mem_map_of_mem (f := Prod.fst) h)).2.2
  rw [ofPiece?, if_pos hvisible] at hentry
  have hfield := enclosingField_of_ofNode? hentry
  constructor
  case record => rwa [hfield]
  case total => exact exists_nearest hreached hvisible
  case alone => exact fun halone => hfield.trans (fieldAround_of_alone halone)
  case foreign =>
    intro p seat hnearest hp
    rw [hfield, fieldAround_of_nearest hnearest, fieldAround_of_foreign hnearest.1 hp]
  case field =>
    intro p name hnearest hp
    rw [hfield, fieldAround_of_nearest hnearest, fieldAround_of_schema hp]
  case rest =>
    intro p hnearest hp
    have hmem : p ∈ (entries imports settings items).map Prod.fst :=
      mem_map_fst_entries_iff.mpr ⟨hnearest.reached hreached, hp, hnearest.visible hvisible⟩
    obtain ⟨⟨p', l'⟩, he, rfl⟩ := List.mem_map.mp hmem
    have hentry' := (mem_entries_iff.mp he).2
    rw [ofPiece?, if_pos (hnearest.visible hvisible)] at hentry'
    refine ⟨_, he, rfl, ?_⟩
    rw [hfield, fieldAround_of_nearest hnearest, fieldAround_of_schema hp]
    exact (enclosingField_of_ofNode? hentry').symm

end

/-- The collected literals are the schema literals of the file that no schema literal has aside of
its fields, one entry each.  They come in the order in which the file is read, so that a literal
comes before those inside it, and the field of each is that of the nearest record literal. -/
theorem collect_places (imports : ImportTable) (settings : SchemaSettings) (items : List Node) :
    ∃ entries : List (Code.Piece × SchemaLiteral),
      entries.map Prod.snd = collect imports settings items ∧
      (∀ o, o ∈ entries.map Prod.fst ↔ Reached items o.address o.around o.node ∧
        IsSchemaRecord imports settings o.node ∧ Visible imports settings o) ∧
      (entries.map Prod.fst).Pairwise (fun o p => o.address < p.address) ∧
      (entries.map Prod.fst).Pairwise (fun o p => ¬ p.address <+: o.address) ∧
      ∀ e ∈ entries, Placed imports settings entries e.1 e.2 := by
  have horder := pairwise_entries imports settings items
  refine ⟨entries imports settings items, map_snd_entries items,
    fun o => mem_map_fst_entries_iff, horder, horder.imp ?_, fun e he => placed_of_mem_entries he⟩
  rintro o p hlt ⟨rest, hrest⟩
  rw [← hrest] at hlt
  exact not_append_lt _ _ hlt

end SchemaLint.SchemaLiteral

import SchemaLint.Proofs.Grammar.Item

/-!
# What parsed code has of its source

An analysis reports where a record literal has its last name and where an argument of a method call
begins.  Both are places that a token of the source has.  Here it is said what that means for tokens
and for parsed code, and what the builders of trees keep of it.

* `Source`: which texts stand at which places of the source.
* `Token.Stands`, `Token.GroundedAll`: a token stands where it says, and so does all inside it.
* `Begins`, `Fronted`: tokens begin with one that stands where it says, or there are none.
* `Node.Grounded`: the record literals and method calls in a piece of code are at such places.
* `Ground`, `grounded`: the same for whatever else a parser yields.
-/

namespace SchemaLint.Code

/-- The texts that stand at the places of the source.  It is an instance, so that what is said about
a value does not have to name it. -/
class Source where
  /-- A text stands at a place. -/
  stands : List Char → Position → Prop

/-- The character that opens a group. -/
def Delimiter.opening : Delimiter → Char
  | .paren => '('
  | .bracket => '['
  | .brace => '\x7b'

/-- The characters that a token begins with: those of a group are its opening delimiter. -/
def Token.lead : Token → List Char
  | .ident name _ => name.toList
  | .punct c _ _ => [c]
  | .literal text _ => text.toList
  | .lifetime name _ => name.toList
  | .group d _ _ => [d.opening]

/-- The empty list of pieces of code shows no tokens. -/
@[simp, grind =] theorem Node.shownAll_nil : shownAll [] = [] := by
  rw [shownAll]

/-- The tokens of several pieces of code are those of the first and then those of the others. -/
@[simp, grind =] theorem Node.shownAll_cons (n : Node) (ns : List Node) :
    shownAll (n :: ns) = n.shown ++ shownAll ns := by
  rw [shownAll]

/-- The tokens of two lists of pieces follow one another. -/
@[simp, grind =] theorem Node.shownAll_append (ns ms : List Node) :
    shownAll (ns ++ ms) = shownAll ns ++ shownAll ms := by
  induction ns with
  | nil => simp [shownAll]
  | cons n ns ih => simp [shownAll, ih]

section

variable [Source]

/-! ## Tokens -/

/-- A token stands where it says. -/
def Token.Stands (t : Token) : Prop :=
  Source.stands t.lead t.place

/-- An identifier stands where it says. -/
def Ident.Stands (i : Ident) : Prop :=
  i.token.Stands

/-- An identifier stands where its token does. -/
@[simp, grind =] theorem Ident.stands_token (i : Ident) : i.token.Stands ↔ i.Stands := Iff.rfl

/-- The token of a name stands where the name does. -/
@[simp, grind =] theorem Token.stands_ident (name : String) (place : Position) :
    (Token.ident name place).Stands ↔ Ident.Stands ⟨name, place⟩ := Iff.rfl

/-- Whether a punctuation character is joint with the next one does not matter. -/
@[simp, grind =] theorem Token.stands_punct (c : Char) (joint : Bool) (place : Position) :
    (Token.punct c joint place).Stands ↔ Source.stands [c] place := Iff.rfl

/-- What is inside a group does not matter. -/
@[simp, grind =] theorem Token.stands_group (d : Delimiter) (place : Position)
    (inner : List Token) :
    (Token.group d place inner).Stands ↔ Source.stands [d.opening] place := Iff.rfl

mutual

/-- A token stands where it says, and so do all inside it. -/
def Token.Grounded : Token → Prop
  | .group d place inner => (Token.group d place inner).Stands ∧ GroundedAll inner
  | .ident name place => (Token.ident name place).Stands
  | .punct c joint place => (Token.punct c joint place).Stands
  | .literal text place => (Token.literal text place).Stands
  | .lifetime name place => (Token.lifetime name place).Stands

/-- Several tokens and all inside them stand where they say. -/
def Token.GroundedAll : List Token → Prop
  | [] => True
  | t :: rest => t.Grounded ∧ GroundedAll rest

end

attribute [simp, grind =] Token.Grounded

/-- The empty list of tokens stands where it says. -/
@[simp, grind =] theorem Token.groundedAll_nil : GroundedAll [] ↔ True := by
  rw [GroundedAll]

/-- Tokens stand where they say exactly if the first does and the others do. -/
@[simp, grind =] theorem Token.groundedAll_cons (t : Token) (ts : List Token) :
    GroundedAll (t :: ts) ↔ t.Grounded ∧ GroundedAll ts := by
  rw [GroundedAll]

/-- A token with all inside it where it says stands there itself. -/
@[grind →] theorem Token.Grounded.stands {t : Token} (h : t.Grounded) : t.Stands := by
  cases t
  case group => exact h.1
  all_goals exact h

/-- The tokens after the first ones still stand where they say. -/
theorem Token.GroundedAll.drop {ts : List Token} (h : GroundedAll ts) (k : Nat) :
    GroundedAll (ts.drop k) := by
  induction ts generalizing k with
  | nil => simp
  | cons t ts ih =>
      cases k with
      | zero => exact h
      | succ k => exact ih (groundedAll_cons t ts |>.mp h).2 k

/-- Tokens begin with one that stands where it says. -/
def Begins (ts : List Token) : Prop :=
  ∃ t ∈ ts.head?, t.Stands

/-- If there are tokens, they begin with one that stands where it says. -/
def Fronted (ts : List Token) : Prop :=
  ts = [] ∨ Begins ts

/-- The empty list of tokens does not begin with a token. -/
@[simp, grind =] theorem begins_nil : Begins [] ↔ False := by
  simp [Begins]

/-- Tokens begin with their first one. -/
@[simp, grind =] theorem begins_cons (t : Token) (ts : List Token) :
    Begins (t :: ts) ↔ t.Stands := by
  simp [Begins]

/-- Tokens that begin with one that stands where it says are not empty. -/
@[grind →] theorem Begins.ne_nil {ts : List Token} (h : Begins ts) : ts ≠ [] := by
  rintro rfl
  exact begins_nil.mp h

/-- Two lists of tokens begin as the first does, or as the second if the first is empty. -/
@[simp, grind =] theorem begins_append (xs ys : List Token) :
    Begins (xs ++ ys) ↔ Begins xs ∨ xs = [] ∧ Begins ys := by
  cases xs <;> simp

/-- The first of some tokens begin with one that stands where it says. -/
@[grind ←] theorem begins_take {ts : List Token} {k : Nat} (h : Token.GroundedAll ts) (hk : 0 < k)
    (hlength : 0 < ts.length) : Begins (ts.take k) := by
  obtain ⟨t, rest, rfl⟩ := List.exists_cons_of_length_pos hlength
  obtain ⟨k, rfl⟩ := Nat.exists_eq_succ_of_ne_zero (Nat.pos_iff_ne_zero.mp hk)
  exact (begins_cons _ _).mpr ((Token.groundedAll_cons _ _).mp h).1.stands

/-- Tokens are fronted exactly if there are none or they begin with one. -/
@[simp, grind =] theorem fronted_iff (ts : List Token) : Fronted ts ↔ ts = [] ∨ Begins ts := Iff.rfl

/-- An operator that is read begins with the punctuation character that is there. -/
theorem begins_ofOperator {cs : List Char} {t : Token} {rest : List Token} (ht : t.Stands)
    (h : peekOp cs (t :: rest)) : Begins (Token.ofOperator t.place cs) := by
  rcases cs with _ | ⟨c, cs⟩
  · simp [peekOp] at h
  cases t
  case punct d joint place =>
    have hc : c = d := by
      cases cs <;> simp [peekOp] at h
      · exact h
      · exact h.1.1
    subst hc
    cases cs <;> exact (begins_cons _ _).mpr ht
  all_goals cases cs <;> simp [peekOp] at h

/-! ## Parsed code -/

/-- The last of several names stands where it says. -/
def LastStands (names : List Ident) : Prop :=
  ∃ i ∈ names.getLast?, i.Stands

/-- All of several pieces of code begin with a token that stands where it says. -/
def Node.BeginAll (ns : List Node) : Prop :=
  ∀ n ∈ ns, Begins n.shown

mutual

/-- In a piece of code, the last names of record literals and the first tokens of the receivers and
arguments of method calls stand where they say.  Code that no analysis visits does not count. -/
def Node.Grounded : Node → Prop
  | .tokens _ => True
  | .group _ _ inner => GroundedAll inner
  | .seq parts => GroundedAll parts
  | .conditioned parts conditions => GroundedAll parts ∧ GroundedAll conditions
  | .bodied front attributes body => GroundedAll front ∧ GroundedAll attributes ∧ Grounded body
  | .arranged _ parts => GroundedAll parts
  | .attributed attributes inner => GroundedAll attributes ∧ Grounded inner
  | .literal _ => True
  | .path _ parts => GroundedAll parts
  | .paren _ inner => Grounded inner
  | .reference mark inner => GroundedAll mark ∧ Grounded inner
  | .deref _ inner => Grounded inner
  | .operation left _ right => Grounded left ∧ Grounded right
  | .call callee _ args _ => Grounded callee ∧ GroundedAll args
  | .methodCall attributes receiver _ _ generics _ args _ =>
    GroundedAll attributes ∧ Grounded receiver ∧ GroundedAll generics ∧ GroundedAll args ∧
      Begins receiver.shown ∧ BeginAll args
  | .record attributes name head _ fields _ _ rest =>
    LastStands name.segments ∧ GroundedAll attributes ∧ GroundedAll head ∧ GroundedAll fields ∧
      GroundedAll rest
  | .field attributes _ _ value => GroundedAll attributes ∧ Grounded value
  | .scope _ parts => GroundedAll parts
  | .block _ statements => GroundedAll statements
  | .binding attributes pattern init => GroundedAll attributes ∧ Grounded pattern ∧ GroundedAll init
  | .binder mark _ sub => GroundedAll mark ∧ GroundedAll sub
  | .typed pattern type => Grounded pattern ∧ Grounded type
  | .use _ parts => GroundedAll parts
  | .macroCall _ arguments => GroundedAll arguments

/-- The same for several pieces of code. -/
def Node.GroundedAll : List Node → Prop
  | [] => True
  | n :: rest => n.Grounded ∧ GroundedAll rest

end

attribute [simp, grind =] Node.Grounded

attribute [grind =] Node.shown

omit [Source] in
/-- What is put inside a group leaves its delimiters where they are. -/
@[simp, grind =] theorem Token.insideFront_group (ts : List Token) (d : Delimiter) (p : Position)
    (inner : List Token) : insideFront ts [.group d p inner] = [.group d p (ts ++ inner)] := rfl

/-- The empty list of pieces of code keeps to the source. -/
@[simp, grind =] theorem Node.groundedAll_nil : GroundedAll [] ↔ True := by
  rw [GroundedAll]

/-- Pieces of code keep to the source exactly if the first does and the others do. -/
@[simp, grind =] theorem Node.groundedAll_cons (n : Node) (ns : List Node) :
    GroundedAll (n :: ns) ↔ n.Grounded ∧ GroundedAll ns := by
  rw [GroundedAll]

/-- Two lists of pieces keep to the source exactly if each of them does. -/
@[simp, grind =] theorem Node.groundedAll_append (ns ms : List Node) :
    GroundedAll (ns ++ ms) ↔ GroundedAll ns ∧ GroundedAll ms := by
  induction ns with
  | nil => simp
  | cons n ns ih => simp [ih, and_assoc]

end

/-! ## What parsers yield -/

/-- Values that are made from the source. -/
class Ground (α : Type) where
  /-- What is said about the source is so. -/
  grounded : α → Prop

export Ground (grounded)

section

variable {α β : Type} [Ground α] [Ground β]

instance : Ground Unit := ⟨fun _ => True⟩

instance : Ground Bool := ⟨fun _ => True⟩

instance : Ground Position := ⟨fun _ => True⟩

instance : Ground Delimiter := ⟨fun _ => True⟩

instance : Ground UseTree := ⟨fun _ => True⟩

instance : Ground Shape := ⟨fun _ => True⟩

/-- Of tokens that are kept in a tree only the first one matters. -/
instance : Ground Token := ⟨fun _ => True⟩

instance : Ground (α × β) := ⟨fun r => grounded r.1 ∧ grounded r.2⟩

instance : Ground (Option α) := ⟨fun o => ∀ a ∈ o, grounded a⟩

instance : Ground (List α) := ⟨fun xs => ∀ a ∈ xs, grounded a⟩

@[simp, grind =] theorem grounded_unit (u : Unit) : grounded u ↔ True := Iff.rfl

@[simp, grind =] theorem grounded_bool (b : Bool) : grounded b ↔ True := Iff.rfl

@[simp, grind =] theorem grounded_position (p : Position) : grounded p ↔ True := Iff.rfl

@[simp, grind =] theorem grounded_delimiter (d : Delimiter) : grounded d ↔ True := Iff.rfl

@[simp, grind =] theorem grounded_useTree (t : UseTree) : grounded t ↔ True := Iff.rfl

@[simp, grind =] theorem grounded_shape (s : Shape) : grounded s ↔ True := Iff.rfl

@[simp, grind =] theorem grounded_token (t : Token) : grounded t ↔ True := Iff.rfl

/-- A pair keeps to the source exactly if both parts do. -/
@[simp, grind =] theorem grounded_prod (r : α × β) :
    grounded r ↔ grounded r.1 ∧ grounded r.2 := Iff.rfl

/-- A value that is missing keeps to the source. -/
@[simp, grind =] theorem grounded_none : grounded (none : Option α) ↔ True := by
  simp [grounded]

/-- A value that is there keeps to the source exactly if it does itself. -/
@[simp, grind =] theorem grounded_some (a : α) : grounded (some a) ↔ grounded a := by
  simp [grounded]

/-- An empty list keeps to the source. -/
@[simp, grind =] theorem grounded_nil : grounded ([] : List α) ↔ True := by
  simp [grounded]

/-- A list keeps to the source exactly if its first value does and the others do. -/
@[simp, grind =] theorem grounded_cons (a : α) (xs : List α) :
    grounded (a :: xs) ↔ grounded a ∧ grounded xs := by
  simp [grounded]

/-- Of bare tokens nothing is asked. -/
@[simp, grind =] theorem grounded_tokens (ts : List Token) : grounded ts ↔ True := by
  simp [grounded]

/-- Of an import tree nothing is asked, whether it is there or not. -/
@[simp, grind =] theorem grounded_useTree? (t : Option UseTree) : grounded t ↔ True := by
  simp [grounded]

end

section

variable [Source]

instance : Ground Ident := ⟨Ident.Stands⟩

instance : Ground Node := ⟨Node.Grounded⟩

instance : Ground Parsed := ⟨fun e => e.node.Grounded ∧ Begins e.node.shown⟩

instance : Ground AngleElement := ⟨fun e => e.node.Grounded⟩

instance : Ground Param := ⟨fun p => p.node.Grounded⟩

instance : Ground PathParts :=
  ⟨fun p => LastStands p.name.segments ∧ Node.GroundedAll p.parts ∧ Begins (Node.shownAll p.parts)⟩

instance : Ground CodeFile :=
  ⟨fun f => Node.GroundedAll f.attributes ∧ Node.GroundedAll f.items⟩

@[simp, grind =] theorem grounded_ident (i : Ident) : grounded i ↔ i.Stands := Iff.rfl

@[simp, grind =] theorem grounded_node (n : Node) : grounded n ↔ n.Grounded := Iff.rfl

/-- An expression keeps to the source exactly if its code does and begins with a token. -/
@[simp, grind =] theorem grounded_parsed (e : Parsed) :
    grounded e ↔ e.node.Grounded ∧ Begins e.node.shown := Iff.rfl

@[simp, grind =] theorem grounded_angleElement (e : AngleElement) :
    grounded e ↔ e.node.Grounded := Iff.rfl

@[simp, grind =] theorem grounded_param (p : Param) : grounded p ↔ p.node.Grounded := Iff.rfl

/-- A path keeps to the source exactly if its last name, its parts and its first token do. -/
@[simp, grind =] theorem grounded_pathParts (p : PathParts) : grounded p ↔
    LastStands p.name.segments ∧ Node.GroundedAll p.parts ∧ Begins (Node.shownAll p.parts) :=
  Iff.rfl

/-- A file keeps to the source exactly if its attributes and items do. -/
@[simp, grind =] theorem grounded_codeFile (f : CodeFile) : grounded f ↔
    Node.GroundedAll f.attributes ∧ Node.GroundedAll f.items := Iff.rfl

/-- A list of pieces of code keeps to the source exactly if its pieces do. -/
@[simp, grind =] theorem grounded_nodes (ns : List Node) : grounded ns ↔ Node.GroundedAll ns := by
  induction ns with
  | nil => simp
  | cons n ns ih => simp [ih]

/-- Pieces of code keep to the source exactly if each of them does. -/
theorem Node.groundedAll_iff (ns : List Node) : GroundedAll ns ↔ ∀ n ∈ ns, n.Grounded :=
  (grounded_nodes ns).symm

/-- Pieces that each begin with a token begin with one, or there are none. -/
theorem Node.fronted_of_forall {ns : List Node} (h : ∀ n ∈ ns, Begins n.shown) :
    Fronted (shownAll ns) := by
  cases ns with
  | nil => simp
  | cons n ns => simp [h n List.mem_cons_self]

/-! ## Building trees -/

/-- Pieces that are tokens only keep to the source. -/
@[simp, grind norm] theorem groundedAll_map_tokens {α : Type} (f : α → List Token) (xs : List α) :
    Node.GroundedAll (xs.map fun x => .tokens (f x)) ↔ True := by
  induction xs with
  | nil => simp
  | cons x xs ih => simpa using ih

/-- The code of expressions that keep to the source does so and begins with tokens. -/
@[grind →] theorem nodes_of_grounded {es : List Parsed} (h : grounded es) :
    Node.GroundedAll (es.map (·.node)) ∧ Node.BeginAll (es.map (·.node)) := by
  induction es with
  | nil => simp [Node.BeginAll]
  | cons e es ih =>
      obtain ⟨⟨hnode, hbegins⟩, hes⟩ := (grounded_cons e es).mp h
      obtain ⟨hnodes, hall⟩ := ih hes
      exact ⟨(Node.groundedAll_cons _ _).mpr ⟨hnode, hnodes⟩,
        List.forall_mem_cons.mpr ⟨hbegins, hall⟩⟩

/-- The code of parameters keeps to the source exactly if they do. -/
@[simp, grind =] theorem groundedAll_map_paramNode (ps : List Param) :
    Node.GroundedAll (ps.map Param.node) ↔ grounded ps := by
  induction ps with
  | nil => simp
  | cons p ps ih => simp [ih]

/-- The code of import trees keeps to the source exactly if they do. -/
@[simp, grind =] theorem groundedAll_map_useTree (ts : List (Option UseTree × Node)) :
    Node.GroundedAll (ts.map (·.2)) ↔ grounded ts := by
  induction ts with
  | nil => simp
  | cons t ts ih => simp [ih]

/-- Joined lists of pieces keep to the source exactly if each list does. -/
@[simp, grind =] theorem groundedAll_flatten (ls : List (List Node)) :
    Node.GroundedAll ls.flatten ↔ grounded ls := by
  induction ls with
  | nil => simp
  | cons l ls ih => simp [ih]

/-- A piece that may be missing keeps to the source as a list exactly if it does. -/
@[simp, grind =] theorem groundedAll_toList (o : Option Node) :
    Node.GroundedAll o.toList ↔ grounded o := by
  cases o <;> simp

/-- Commas between pieces do not matter to the source. -/
@[simp, grind =] theorem groundedAll_withCommas (ns : List Node) (trailing : Bool) :
    Node.GroundedAll (withCommas ns trailing) ↔ Node.GroundedAll ns := by
  have h : Node.GroundedAll (ns.intersperse (.tokens [Node.comma])) ↔ Node.GroundedAll ns := by
    induction ns with
    | nil => rfl
    | cons n rest ih =>
        cases rest with
        | nil => rfl
        | cons m rest => simp_all
  cases trailing <;> simp [withCommas, h]

/-- Code with attributes keeps to the source exactly if both do. -/
@[simp, grind =] theorem grounded_withAttributes (attributes : List Node) (n : Node) :
    (Node.withAttributes attributes n).Grounded ↔ Node.GroundedAll attributes ∧ n.Grounded := by
  cases attributes with
  | nil => simp [Node.withAttributes]
  | cons a rest => cases n <;> simp [Node.withAttributes, and_assoc, and_left_comm]

omit [Source] in
/-- The tokens of attributes come before those of the code they are on. -/
@[simp, grind =] theorem shown_withAttributes (attributes : List Node) (n : Node) :
    (Node.withAttributes attributes n).shown = Node.shownAll attributes ++ n.shown := by
  cases attributes with
  | nil => simp [Node.withAttributes]
  | cons a rest => cases n <;> simp [Node.withAttributes, Node.shown]

/-- Attributes on the leftmost operand keep to the source exactly if they and the code do. -/
@[simp, grind =] theorem grounded_withAttributesLeft (attributes : List Node) (n : Node) :
    (Node.withAttributesLeft attributes n).Grounded ↔
      Node.GroundedAll attributes ∧ n.Grounded := by
  fun_induction Node.withAttributesLeft attributes n with
  | case1 left mark right ih => simp [ih, and_assoc]
  | case2 n => exact grounded_withAttributes attributes n

omit [Source] in
/-- Attributes come first in the tokens, whichever operand they are put in front of. -/
@[simp, grind =] theorem shown_withAttributesLeft (attributes : List Node) (n : Node) :
    (Node.withAttributesLeft attributes n).shown = Node.shownAll attributes ++ n.shown := by
  fun_induction Node.withAttributesLeft attributes n with
  | case1 left mark right ih => simp [Node.shown, ih]
  | case2 n => exact shown_withAttributes attributes n

/-- A front before code keeps to the source exactly if both do. -/
@[simp, grind =] theorem groundedAll_headed (front : List Node) (n : Node) :
    Node.GroundedAll (Node.headed front n) ↔ Node.GroundedAll front ∧ n.Grounded := by
  cases n <;> simp [Node.headed, and_assoc]

omit [Source] in
/-- What is put in front of a body is written out in front of it. -/
@[simp, grind =] theorem shownAll_headed (front : List Node) (n : Node) :
    Node.shownAll (Node.headed front n) = Node.shownAll front ++ n.shown := by
  cases n <;> simp [Node.headed, Node.shown]

/-- Accesses by index keep to the source exactly if what they are made on does. -/
@[simp, grind =] theorem grounded_indexAccesses (base : Node) (dot : List Token) (p : Position)
    (indices : List String) : (indexAccesses base dot p indices).Grounded ↔ base.Grounded := by
  induction indices generalizing base with
  | nil => rfl
  | cons index rest ih => simp [indexAccesses, ih]

/-- Accesses by index begin with what they are made on. -/
@[grind ←] theorem begins_indexAccesses {base : Node} (h : Begins base.shown) (dot : List Token)
    (p : Position) (indices : List String) :
    Begins (indexAccesses base dot p indices).shown := by
  induction indices generalizing base with
  | nil => exact h
  | cons index rest ih =>
      rw [indexAccesses]
      refine ih ?_
      simp [Node.shown, h]

/-- Elements between commas keep to the source exactly if each does. -/
theorem groundedAll_angleRun (due : Bool) (es : List AngleElement) :
    Node.GroundedAll (angleRun due es).1 ↔ grounded es := by
  induction es generalizing due with
  | nil => simp [angleRun]
  | cons e rest ih =>
      simp only [angleRun, Node.groundedAll_append, grounded_cons, grounded_angleElement, ih]
      cases due <;> cases e.comma <;> simp

/-- Elements in the order of their visit keep to the source if they do. -/
@[grind →] theorem groundedAll_orderElements {es : List AngleElement} (h : grounded es) :
    Node.GroundedAll (orderElements es) := by
  have hfilter : ∀ p : AngleElement → Bool, grounded (es.filter p) :=
    fun p e he => h e (List.mem_of_mem_filter he)
  simp only [orderElements, Node.groundedAll_append, groundedAll_angleRun]
  exact ⟨hfilter _, hfilter _⟩

/-- The node of a list in angle brackets keeps to the source if its elements do. -/
@[grind →] theorem grounded_arrangeElements {es : List AngleElement} (h : grounded es) :
    (arrangeElements es).Grounded := by
  rw [arrangeElements, Node.Grounded, Node.groundedAll_iff]
  intro n hn
  obtain ⟨e, he, rfl⟩ := List.mem_map.mp hn
  exact h e he

/-- A path with one more segment: its last name is that of the segment, and it begins as before. -/
@[grind ←] theorem grounded_push {p : PathParts} {colons : List Token} {segment : Ident × List Node}
    (hparts : Node.GroundedAll p.parts) (hsegment : grounded segment)
    (hbegins : Begins (Node.shownAll p.parts) ∨ Node.shownAll p.parts = [] ∧ Fronted colons) :
    grounded (p.push colons segment) := by
  obtain ⟨hname, hnodes⟩ := hsegment
  refine ⟨⟨segment.1, by simp [PathParts.push], hname⟩, ?_, ?_⟩
  · simpa [PathParts.push, hparts] using hnodes
  · have hname : segment.1.Stands := hname
    rcases hbegins with h | ⟨hnone, rfl | h⟩ <;> simp [PathParts.push, Node.shown, *]

/-- A path with further segments keeps to the source if it and they do. -/
@[grind →] theorem grounded_foldl_push {p : PathParts} (hp : grounded p)
    {segments : List (List Token × Ident × List Node)} (hs : grounded segments) :
    grounded (segments.foldl (fun path (colons, segment) => path.push colons segment) p) := by
  induction segments generalizing p with
  | nil => exact hp
  | cons s rest ih =>
      obtain ⟨⟨-, hsegment⟩, hrest⟩ := (grounded_cons s rest).mp hs
      exact ih (grounded_push hp.2.1 hsegment (.inl hp.2.2)) hrest

end

end SchemaLint.Code

import Mathlib
import SchemaLint.Code.Grammar

/-!
# Counting in tokens and in parsed code

What a parser yields is bounded by the tokens it takes if both are counted in the same way.  A tally
says what a name counts, by its place, and what any other token does.  A piece of parsed code counts
as much as the last names of the paths of its record literals do, and its macro calls count what the
tally says.  Whatever else a parser yields is weighed by what is in it.

A record literal is found again by the place of the last name of its path.  To see that no two
record literals share that place, one place is marked and only the names there are counted.

* `Tally`, `atMark`: what is counted.
* `Marked`: one place, the names at which count one each.
* `Weighed`, `weight`: values that can be counted in.
* `Token.names`, `Node.names`: the weights of tokens and of parsed code.
* `namesAll_withCommas`, `namesAll_orderElements`, `weight_foldl_push`: what the builders of trees
  keep.
-/

namespace SchemaLint.Code

/-- What is counted in tokens and in parsed code.  It is an instance, so that the weight of a value
does not have to name it. -/
class Tally where
  /-- What a name at a place counts. -/
  name : Position → Nat
  /-- What any other token counts, a group besides what is inside it. -/
  other : Nat
  /-- What a macro call counts, given its parts, its arguments and what these count. -/
  call : List Node → List Node → Nat → Nat

/-- The place whose names are counted. -/
class Marked where
  /-- The place. -/
  place : Position

/-- The names at the marked place count one each, and nothing else does. -/
instance [Marked] : Tally where
  name p := if p = Marked.place then 1 else 0
  other := 0
  call _ _ count := count

/-- Values that can be counted in. -/
class Weighed (α : Type) where
  /-- What a value counts. -/
  weight : α → Nat

export Weighed (weight)

/-! ## Values that count nothing, and values put together -/

section

variable {α β : Type} [Weighed α] [Weighed β]

instance : Weighed Unit := ⟨fun _ => 0⟩

instance : Weighed Bool := ⟨fun _ => 0⟩

instance : Weighed Position := ⟨fun _ => 0⟩

instance : Weighed Delimiter := ⟨fun _ => 0⟩

instance : Weighed Shape := ⟨fun _ => 0⟩

instance : Weighed UseTree := ⟨fun _ => 0⟩

instance : Weighed (α × β) := ⟨fun r => weight r.1 + weight r.2⟩

instance : Weighed (Option α) := ⟨fun o => o.elim 0 weight⟩

instance : Weighed (List α) := ⟨fun xs => (xs.map weight).sum⟩

@[simp, grind norm] theorem weight_unit (u : Unit) : weight u = 0 := rfl

@[simp, grind norm] theorem weight_bool (b : Bool) : weight b = 0 := rfl

@[simp, grind norm] theorem weight_position (p : Position) : weight p = 0 := rfl

@[simp, grind norm] theorem weight_delimiter (d : Delimiter) : weight d = 0 := rfl

@[simp, grind norm] theorem weight_shape (s : Shape) : weight s = 0 := rfl

@[simp, grind norm] theorem weight_useTree (t : UseTree) : weight t = 0 := rfl

/-- A pair counts what both parts do. -/
@[simp, grind norm] theorem weight_prod (r : α × β) : weight r = weight r.1 + weight r.2 := rfl

/-- A value that is missing counts nothing. -/
@[simp, grind norm] theorem weight_none : weight (none : Option α) = 0 := rfl

/-- A value that is there counts what it does itself. -/
@[simp, grind norm] theorem weight_some (a : α) : weight (some a) = weight a := rfl

/-- An import tree counts nothing, whether it is there or not. -/
@[simp, grind norm] theorem weight_useTree? (t : Option UseTree) : weight t = 0 := by
  cases t <;> rfl

/-- An empty list counts nothing. -/
@[simp, grind norm] theorem weight_nil : weight ([] : List α) = 0 := rfl

/-- A list counts what its first value and the others do. -/
@[simp, grind norm] theorem weight_cons (a : α) (xs : List α) :
    weight (a :: xs) = weight a + weight xs := by
  simp [weight]

/-- Two lists count together what each of them does. -/
@[simp, grind norm] theorem weight_append (xs ys : List α) :
    weight (xs ++ ys) = weight xs + weight ys := by
  simp [weight]

/-- Sorting elements into two lists keeps their weight. -/
theorem weight_filter_add (p : α → Bool) (xs : List α) :
    weight (xs.filter p) + weight (xs.filter fun x => !p x) = weight xs := by
  induction xs with
  | nil => rfl
  | cons x rest ih =>
      cases h : p x <;> simp [h] <;> omega

end

section

variable [Tally]

/-- What a name at a place counts. -/
def atMark (p : Position) : Nat :=
  Tally.name p

/-! ## Tokens -/

mutual

/-- What a token counts with all inside it. -/
def Token.names : Token → Nat
  | .ident _ p => atMark p
  | .group _ _ inner => Tally.other + namesAll inner
  | .punct _ _ _ | .literal _ _ | .lifetime _ _ => Tally.other

/-- What several tokens count. -/
def Token.namesAll : List Token → Nat
  | [] => 0
  | t :: rest => t.names + namesAll rest

end

attribute [simp, grind =] Token.names

/-- The empty list of tokens counts nothing. -/
@[simp, grind =] theorem Token.namesAll_nil : namesAll [] = 0 := by
  rw [namesAll]

/-- Tokens count what the first and the others do. -/
@[simp, grind =] theorem Token.namesAll_cons (t : Token) (ts : List Token) :
    namesAll (t :: ts) = t.names + namesAll ts := by
  rw [namesAll]

instance : Weighed Token := ⟨Token.names⟩

instance : Weighed Ident := ⟨fun i => atMark i.place⟩

@[simp, grind norm] theorem weight_token (t : Token) : weight t = t.names := rfl

/-- An identifier counts what its place does. -/
@[simp, grind norm] theorem weight_ident (i : Ident) : weight i = atMark i.place := rfl

/-- Weighing a list of tokens is counting in it. -/
@[simp, grind norm] theorem weight_tokens (ts : List Token) : weight ts = Token.namesAll ts := by
  induction ts with
  | nil => rfl
  | cons t rest ih => simp [ih]

/-- Two lists of tokens count together what each of them does. -/
@[simp, grind norm] theorem Token.namesAll_append (xs ys : List Token) :
    namesAll (xs ++ ys) = namesAll xs + namesAll ys := by
  simp [← weight_tokens]

/-- Tokens count the same in either order. -/
theorem Token.namesAll_reverse (ts : List Token) : namesAll ts.reverse = namesAll ts := by
  induction ts with
  | nil => rfl
  | cons t rest ih =>
      simp [ih]
      omega

/-- An operator counts as many other tokens as it has characters. -/
theorem Token.namesAll_ofOperator (p : Position) (cs : List Char) :
    namesAll (Token.ofOperator p cs) = cs.length * Tally.other := by
  fun_induction Token.ofOperator p cs with
  | case1 => simp
  | case2 c => simp
  | case3 c cs _ ih =>
      rw [namesAll_cons, ih, List.length_cons, Nat.succ_mul]
      simp [Nat.add_comm]

/-- The characters of an operator count as tokens of their own. -/
theorem Token.namesAll_of_peekOp {cs : List Char} {ts : List Token} (h : peekOp cs ts) :
    namesAll ts = cs.length * Tally.other + namesAll (ts.drop cs.length) := by
  fun_induction peekOp cs ts with
  | case1 c d joint place rest => simp
  | case2 c cs d joint place rest _ ih =>
      simp only [Bool.and_eq_true] at h
      rw [namesAll_cons, ih h.2, List.length_cons, Nat.succ_mul, List.drop_succ_cons]
      simp only [Token.names]
      omega
  | case3 => cases h

/-! ## Parsed code -/

/-- Where the last segment of a path stands. -/
def lastPlace (segments : List Ident) : Position :=
  (segments.getLast?.map (·.place)).getD Position.unknown

mutual

/-- What a piece of code counts: the last names of the paths of its record literals, and its macro
calls.  Code that no analysis visits does not count. -/
def Node.names : Node → Nat
  | .tokens _ => 0
  | .group _ _ inner => namesAll inner
  | .seq parts => namesAll parts
  | .conditioned parts conditions => namesAll parts + namesAll conditions
  | .bodied front attributes body => namesAll front + namesAll attributes + names body
  | .arranged _ parts => namesAll parts
  | .attributed attributes inner => namesAll attributes + names inner
  | .literal _ => 0
  | .path _ parts => namesAll parts
  | .paren _ inner => names inner
  | .reference mark inner => namesAll mark + names inner
  | .deref _ inner => names inner
  | .operation left _ right => names left + names right
  | .call callee _ args _ => names callee + namesAll args
  | .methodCall attributes receiver _ _ generics _ args _ =>
    namesAll attributes + names receiver + namesAll generics + namesAll args
  | .record attributes name head _ fields _ _ rest =>
    atMark (lastPlace name.segments) + namesAll attributes + namesAll head + namesAll fields +
      namesAll rest
  | .field attributes _ _ value => namesAll attributes + names value
  | .scope _ parts => namesAll parts
  | .block _ statements => namesAll statements
  | .binding attributes pattern init => namesAll attributes + names pattern + namesAll init
  | .binder mark _ sub => namesAll mark + namesAll sub
  | .typed pattern type => names pattern + names type
  | .use _ parts => namesAll parts
  | .macroCall parts arguments => Tally.call parts arguments (namesAll arguments)

/-- What several pieces of code count. -/
def Node.namesAll : List Node → Nat
  | [] => 0
  | n :: rest => names n + namesAll rest

end

attribute [simp, grind =] Node.names

/-- The empty list of pieces of code counts nothing. -/
@[simp, grind norm] theorem Node.namesAll_nil : namesAll [] = 0 := by
  rw [namesAll]

/-- Pieces of code count what the first and the others do. -/
@[simp, grind norm] theorem Node.namesAll_cons (n : Node) (ns : List Node) :
    namesAll (n :: ns) = n.names + namesAll ns := by
  rw [namesAll]

instance : Weighed Node := ⟨Node.names⟩

instance : Weighed Parsed := ⟨fun e => e.node.names⟩

instance : Weighed AngleElement := ⟨fun e => e.node.names⟩

instance : Weighed Param := ⟨fun p => p.node.names⟩

/-- A path may become that of a record literal, so its last name counts. -/
instance : Weighed PathParts :=
  ⟨fun p => atMark (lastPlace p.name.segments) + Node.namesAll p.parts⟩

instance : Weighed CodeFile :=
  ⟨fun f => Node.namesAll f.attributes + Node.namesAll f.items⟩

@[simp, grind norm] theorem weight_node (n : Node) : weight n = n.names := rfl

@[simp, grind norm] theorem weight_parsed (e : Parsed) : weight e = e.node.names := rfl

@[simp, grind norm] theorem weight_angleElement (e : AngleElement) : weight e = e.node.names := rfl

@[simp, grind norm] theorem weight_receiver (n : Node) : weight (Param.receiver n) = n.names := rfl

@[simp, grind norm] theorem weight_typed (n : Node) : weight (Param.typed n) = n.names := rfl

@[simp, grind norm] theorem weight_variadic (n : Node) : weight (Param.variadic n) = n.names := rfl

/-- A path counts what its last place and its parts do. -/
@[simp, grind norm] theorem weight_pathParts (p : PathParts) :
    weight p = atMark (lastPlace p.name.segments) + Node.namesAll p.parts := rfl

/-- A file counts what its attributes and items do. -/
@[simp, grind norm] theorem weight_codeFile (f : CodeFile) :
    weight f = Node.namesAll f.attributes + Node.namesAll f.items := rfl

/-- Weighing a list of pieces of code is counting in it. -/
@[simp, grind norm] theorem weight_nodes (ns : List Node) : weight ns = Node.namesAll ns := by
  induction ns with
  | nil => rfl
  | cons n rest ih => simp [ih]

/-- Two lists of pieces count together what each of them does. -/
@[simp, grind norm] theorem Node.namesAll_append (xs ys : List Node) :
    namesAll (xs ++ ys) = namesAll xs + namesAll ys := by
  simp [← weight_nodes]

/-! ## Building trees -/

/-- Pieces that are tokens only count nothing. -/
@[simp, grind norm] theorem namesAll_map_tokens {α : Type} (f : α → List Token) (xs : List α) :
    Node.namesAll (xs.map fun x => .tokens (f x)) = 0 := by
  induction xs with
  | nil => rfl
  | cons x rest ih => simp [ih]

/-- The code of expressions counts what they do. -/
@[simp, grind norm] theorem namesAll_map_node (es : List Parsed) :
    Node.namesAll (es.map (·.node)) = weight es := by
  induction es with
  | nil => rfl
  | cons e rest ih => simp [ih]

/-- The code of parameters counts what they do. -/
@[simp, grind norm] theorem namesAll_map_paramNode (ps : List Param) :
    Node.namesAll (ps.map Param.node) = weight ps := by
  induction ps with
  | nil => rfl
  | cons p rest ih => cases p <;> simp [ih, Param.node]

/-- The code of import trees counts what they do. -/
@[simp, grind norm] theorem namesAll_map_useTree (ts : List (Option UseTree × Node)) :
    Node.namesAll (ts.map (·.2)) = weight ts := by
  induction ts with
  | nil => rfl
  | cons t rest ih => simp [ih]

/-- Joined lists of pieces count what the lists do. -/
@[simp, grind norm] theorem namesAll_flatten (ls : List (List Node)) :
    Node.namesAll ls.flatten = weight ls := by
  induction ls with
  | nil => rfl
  | cons l rest ih => simp [ih]

/-- A piece that may be missing counts the same as a list. -/
@[simp, grind norm] theorem namesAll_toList (o : Option Node) :
    Node.namesAll o.toList = weight o := by
  cases o <;> simp

/-- Commas between pieces count nothing. -/
@[simp, grind norm] theorem namesAll_withCommas (ns : List Node) (trailing : Bool) :
    Node.namesAll (withCommas ns trailing) = Node.namesAll ns := by
  have h : Node.namesAll (ns.intersperse (.tokens [Node.comma])) = Node.namesAll ns := by
    induction ns with
    | nil => rfl
    | cons n rest ih =>
        cases rest with
        | nil => rfl
        | cons m rest => simp_all
  cases trailing <;> simp [withCommas, h]

/-- Code with attributes counts what both do. -/
@[simp, grind norm] theorem names_withAttributes (attributes : List Node) (n : Node) :
    (Node.withAttributes attributes n).names = Node.namesAll attributes + n.names := by
  cases attributes with
  | nil => simp [Node.withAttributes]
  | cons a rest =>
      cases n <;> simp [Node.withAttributes] <;> omega

/-- Attributes in front of the leftmost operand count as those in front of the whole do. -/
@[simp, grind norm] theorem names_withAttributesLeft (attributes : List Node) (n : Node) :
    (Node.withAttributesLeft attributes n).names = Node.namesAll attributes + n.names := by
  fun_induction Node.withAttributesLeft attributes n with
  | case1 left mark right ih => simp [ih, Nat.add_assoc]
  | case2 n => exact names_withAttributes attributes n

/-- A head that is put in front of a body adds what it counts. -/
@[simp, grind norm] theorem namesAll_headed (front : List Node) (n : Node) :
    Node.namesAll (Node.headed front n) = Node.namesAll front + n.names := by
  cases n <;> simp [Node.headed, Nat.add_assoc]

/-- Accesses by index count what they are made on does. -/
@[simp, grind norm] theorem names_indexAccesses (base : Node) (dot : List Token) (p : Position)
    (indices : List String) : (indexAccesses base dot p indices).names = base.names := by
  induction indices generalizing base with
  | nil => rfl
  | cons index rest ih => simp [indexAccesses, ih]

/-- Elements between commas count what the elements do. -/
theorem namesAll_angleRun (due : Bool) (es : List AngleElement) :
    Node.namesAll (angleRun due es).1 = weight es := by
  induction es generalizing due with
  | nil => rfl
  | cons e rest ih =>
      simp only [angleRun, Node.namesAll_append, weight_cons, weight_angleElement, ih]
      cases due <;> cases e.comma <;> simp

/-- Lifetimes are written out first, but nothing is lost. -/
@[simp, grind norm] theorem namesAll_orderElements (es : List AngleElement) :
    Node.namesAll (orderElements es) = weight es := by
  simp only [orderElements, Node.namesAll_append, namesAll_angleRun]
  exact weight_filter_add (fun e : AngleElement => e.isLifetime) es

/-- What is written out in another order is counted in the order it stands in. -/
@[simp, grind norm] theorem names_arrangeElements (es : List AngleElement) :
    (arrangeElements es).names = weight es := by
  rw [arrangeElements, Node.names]
  induction es with
  | nil => rfl
  | cons e rest ih => simp [ih]

omit [Tally] in
/-- The last place of a path with one more segment is that of the segment. -/
@[simp, grind norm] theorem lastPlace_push (p : PathParts) (colons : List Token)
    (segment : Ident × List Node) :
    lastPlace (p.push colons segment).name.segments = segment.1.place := by
  simp [PathParts.push, lastPlace]

/-- A path with one more segment counts what its parts and the segment's do. -/
@[simp, grind norm] theorem namesAll_push (p : PathParts) (colons : List Token)
    (segment : Ident × List Node) :
    Node.namesAll (p.push colons segment).parts =
      Node.namesAll p.parts + Node.namesAll segment.2 := by
  simp [PathParts.push]

/-- Only the last segment of a path counts, so more segments weigh no more than they bring. -/
theorem weight_foldl_push (p : PathParts) (segments : List (List Token × Ident × List Node)) :
    weight (segments.foldl (fun path (colons, segment) => path.push colons segment) p) ≤
      weight p + weight segments := by
  induction segments generalizing p with
  | nil => simp
  | cons s rest ih =>
      have hrest := ih (p.push s.1 s.2)
      simp only [List.foldl_cons, weight_cons, weight_prod, weight_pathParts, lastPlace_push,
        namesAll_push] at *
      simp only [weight_ident, weight_nodes]
      omega

end

/-! ## One marked place -/

section

variable [Marked]

/-- A place counts one if it is the marked one and nothing otherwise. -/
theorem atMark_eq (p : Position) : atMark p = if p = Marked.place then 1 else 0 := rfl

/-- With one place marked, no other token counts. -/
@[simp] theorem other_eq_zero : (Tally.other : Nat) = 0 := rfl

end

end SchemaLint.Code

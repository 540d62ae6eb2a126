import SchemaLint.Proofs.Grammar.Progress
import SchemaLint.Proofs.Nesting

/-!
# Macro bodies are parsed again

An analysis that comes to a macro call parses the body of the call again and goes on in the
expressions that it finds, which may hold macro calls in turn.  These expressions are no parts of
the macro call, so it is not the size of the code that decreases on the way.  It is the number of
tokens in macro bodies: `Node.load`, a weight by which a macro call counts its body and one more.

* `Node.macroBody`: the tokens between the delimiters of a macro call.
* `Enters`: a piece of code from which an analysis goes on to another one.
* `ReadFrom.countAll_lt`: an expression in a macro body has fewer tokens than the macro call.
* **`wellFounded_enters`**: no analysis goes on for ever.
* **`holdsArguments_of_reached`**: the arguments that parsed code holds are those that are found
  when its macro bodies are parsed again.
-/

namespace SchemaLint.Code

/-! ## Going on -/

/-- The tokens inside the last group of several tokens, if they end in one. -/
def Token.lastBody (ts : List Token) : List Token :=
  match ts.getLast? with
  | some (.group _ _ inner) => inner
  | _ => []

/-- The body of a macro call. -/
def Node.macroBody (parts : List Node) : List Token :=
  Token.lastBody (Node.shownAll parts)

/-- An analysis goes on from a piece of code to another one: to its parts, or from a macro call to
the expressions that its body is parsed to again, whatever is left of the depth of the recursion. -/
inductive Enters : Node → Node → Prop
  /-- A part. -/
  | part {seat : Seat} {m n : Node} (hn : ∀ parts arguments, n ≠ .macroCall parts arguments)
      (hm : (seat, m) ∈ n.parts) : Enters m n
  /-- An expression in the body of a macro call. -/
  | argument {depth : Nat} {parts arguments : List Node} {m : Node}
      (hm : m ∈ macroArguments (grammar depth) (Node.macroBody parts)) :
      Enters m (.macroCall parts arguments)

/-- The body of a macro is its last group of tokens. -/
@[simp] theorem Node.macroBody_append (front : List Node) (d : Delimiter) (place : Position)
    (body : List Token) :
    Node.macroBody (front ++ [.tokens [.group d place body]]) = body := by
  simp [macroBody, Token.lastBody, Node.shown]

/-! ## Parts -/

section

variable [Tally]

/-- No node has more names than all nodes together. -/
theorem Node.names_le_of_mem {n : Node} {ns : List Node} (h : n ∈ ns) :
    n.names ≤ Node.namesAll ns := by
  induction ns with
  | nil => cases h
  | cons m ns ih =>
      rw [Node.namesAll_cons]
      rcases List.mem_cons.mp h with rfl | h
      · omega
      · have := ih h
        omega

/-- No part of a node in a field has more names than the node. -/
theorem names_le_of_mem_fieldParts {n : Node} {p : Seat × Node} (h : p ∈ fieldParts n) :
    p.2.names ≤ n.names := by
  cases n
  case field attributes member shorthand value =>
    simp only [fieldParts, List.mem_append, List.mem_map, List.mem_singleton] at h
    rcases h with ⟨a, ha, rfl⟩ | rfl
    · have := Node.names_le_of_mem ha
      simp only [Node.names]
      omega
    · simp only [Node.names]
      omega
  all_goals
    simp only [fieldParts, List.mem_singleton] at h
    rw [h]

/-- A part counts no more than the whole, unless a macro call counts less than its arguments. -/
theorem Node.names_le_of_mem_parts {n : Node} {p : Seat × Node} (h : p ∈ n.parts)
    (hcall : ∀ parts arguments, n = .macroCall parts arguments →
      Node.namesAll arguments ≤ n.names) : p.2.names ≤ n.names := by
  have hlist : ∀ ns : List Node, ∀ m ∈ ns, m.names ≤ Node.namesAll ns :=
    fun _ _ hm => Node.names_le_of_mem hm
  cases n <;> simp only [parts] at h <;> simp <;> grind [→ names_le_of_mem_fieldParts]

/-- Nothing inside several pieces of code counts more than they do together. -/
theorem Node.names_le_of_reached {items : List Node}
    (hcall : ∀ parts arguments, Node.namesAll arguments ≤ (Node.macroCall parts arguments).names)
    {address : List Nat} {around : List (Node × Seat)} {n : Node}
    (h : Reached items address around n) : n.names ≤ Node.namesAll items := by
  induction h with
  | item hi => exact Node.names_le_of_mem (List.mem_of_getElem? hi)
  | part h hpart ih =>
      refine Nat.le_trans (Node.names_le_of_mem_parts (List.mem_of_getElem? hpart) ?_) ih
      intro parts arguments heq
      rw [heq]
      exact hcall parts arguments

mutual

/-- Where names and other tokens count the same, the count is that of the tokens. -/
theorem Token.names_eq_mul {k : Nat} (hname : ∀ p, Tally.name p = k) (hother : Tally.other = k)
    (t : Token) : t.names = k * t.count := by
  cases t with
  | group d place inner =>
      rw [names, count, namesAll_eq_mul hname hother inner, hother, Nat.mul_succ, Nat.add_comm]
  | ident name place =>
      rw [names, count, Nat.mul_one]
      · exact hname place
      · simp
  | punct | literal | lifetime =>
      rw [names, count, Nat.mul_one]
      · exact hother
      · simp

/-- If all tokens count the same, only their number matters. -/
theorem Token.namesAll_eq_mul {k : Nat} (hname : ∀ p, Tally.name p = k) (hother : Tally.other = k)
    (ts : List Token) : namesAll ts = k * countAll ts := by
  cases ts with
  | nil => rw [namesAll, countAll, Nat.mul_zero]
  | cons t rest =>
      rw [namesAll, countAll, names_eq_mul hname hother t, namesAll_eq_mul hname hother rest,
        Nat.mul_add]

end

end

/-! ## Tokens -/

/-- All tokens count one each, a group besides what is inside it.  A macro call counts its body and
one more, whatever its arguments are. -/
@[reducible] def Tally.tokens : Tally where
  name _ := 1
  other := 1
  call parts _ _ := 1 + Token.countAll (Node.macroBody parts)

/-- Counting every token as one gives their number. -/
theorem Token.namesAll_tokens (ts : List Token) : @Token.namesAll .tokens ts = countAll ts := by
  rw [@namesAll_eq_mul .tokens 1 (fun _ => rfl) rfl, Nat.one_mul]

/-- The number of tokens of two runs is the sum of theirs. -/
theorem Token.countAll_append (xs ys : List Token) :
    countAll (xs ++ ys) = countAll xs + countAll ys := by
  simp only [← namesAll_tokens, namesAll_append]

/-- What ends in a group has more tokens than the group has inside. -/
theorem Token.countAll_lastBody_lt {ts : List Token} (h : lastBody ts ≠ []) :
    countAll (lastBody ts) < countAll ts := by
  unfold lastBody at *
  split at h
  · rename_i inner hlast
    obtain ⟨front, rfl⟩ := List.getLast?_eq_some_iff.mp hlast
    simp only [countAll_append, countAll, count]
    omega
  · exact absurd rfl h

/-- The number of tokens is a measure that suits the grammar. -/
theorem Tally.fits_tokens (rules : Rules) : @Tally.Fits .tokens rules :=
  @Tally.Fits.mk .tokens rules fun front d place body _ => by
    change 1 + Token.countAll (Node.macroBody _) ≤ 1 + @Token.namesAll .tokens body
    rw [Node.macroBody_append, Token.namesAll_tokens]

/-- What a piece of code counts if tokens do. -/
def Node.load (n : Node) : Nat :=
  @Node.names .tokens n

/-- The arguments of a macro call count no more than the tokens of the body that they are parsed
from. -/
theorem load_le_of_mem_macroArguments {depth : Nat} {body : List Token} {m : Node}
    (h : m ∈ macroArguments (grammar depth) body) : m.load ≤ Token.countAll body := by
  let _ : Tally := .tokens
  have _ : ∀ depth, Tally.Fits (grammar depth) := fun depth => Tally.fits_tokens _
  calc m.load ≤ Node.namesAll (macroArguments (grammar depth) body) := Node.names_le_of_mem h
    _ ≤ Token.namesAll body := namesAll_macroArguments (draws_grammar depth) body
    _ = Token.countAll body := Token.namesAll_tokens body

/-- An expression that is read from the body of a macro call has fewer tokens than the call. -/
theorem ReadFrom.countAll_lt {depth : Nat} {parts : List Node} {taken : List Token} {m : Node}
    (h : ReadFrom depth (Node.macroBody parts) taken m) (arguments : List Node) :
    Token.countAll taken < Token.countAll (Node.macroCall parts arguments).shown := by
  obtain ⟨e, front, rest, hbody, -, -⟩ := h.read
  have hne : Node.macroBody parts ≠ [] := by
    rw [← hbody]
    simp [h.ne_nil]
  have hle : Token.countAll taken ≤ Token.countAll (Node.macroBody parts) := by
    rw [← hbody, Token.countAll_append, Token.countAll_append]
    omega
  have hlt : Token.countAll (Node.macroBody parts) < Token.countAll (Node.shownAll parts) :=
    Token.countAll_lastBody_lt hne
  rw [Node.shown]
  omega

/-- The body `b!(c, d)` is parsed to a macro call, which has two arguments of its own. -/
example : (macroArguments (grammar 30) [.ident "b" .start, .punct '!' false .start,
    .group .paren .start [.ident "c" .start, .punct ',' false .start, .ident "d" .start]]).map
      (fun m => m.parts.length) = [2] := by
  decide +kernel

/-- From a macro call to its arguments the tokens become fewer; from other code to its parts they do
not become more, and the code becomes smaller. -/
theorem Enters.decreases {m n : Node} (h : Enters m n) :
    Prod.Lex (· < ·) (· < ·) (m.load, sizeOf m) (n.load, sizeOf n) := by
  cases h with
  | part hn hm =>
      have hload : m.load ≤ n.load :=
        @Node.names_le_of_mem_parts .tokens _ _ hm fun parts arguments heq =>
          absurd heq (hn parts arguments)
      rcases Nat.lt_or_eq_of_le hload with hlt | heq
      · exact .left _ _ hlt
      · rw [heq]
        exact .right _ (Node.sizeOf_of_mem_parts hm)
  | @argument depth parts arguments m hm =>
      have hload := load_le_of_mem_macroArguments hm
      have hcall : (Node.macroCall parts arguments).load =
          1 + Token.countAll (Node.macroBody parts) := rfl
      refine .left _ _ ?_
      omega

/-- **No analysis goes on for ever**, whatever the code is. -/
theorem wellFounded_enters : WellFounded Enters := by
  have hlex : WellFounded (Prod.Lex (· < ·) (· < ·) : Nat × Nat → Nat × Nat → Prop) :=
    WellFounded.prod_lex wellFounded_lt wellFounded_lt
  exact Subrelation.wf Enters.decreases (InvImage.wf (fun n : Node => (n.load, sizeOf n)) hlex)

/-! ## Parsed code -/

/-- The arguments that a macro call holds are those that its body is parsed to again. -/
def HoldsArguments (parts arguments : List Node) : Prop :=
  ∃ depth, arguments = macroArguments (grammar depth) (Node.macroBody parts)

noncomputable instance (parts arguments : List Node) :
    Decidable (HoldsArguments parts arguments) :=
  Classical.propDecidable _

/-- Only the macro calls count that hold other arguments than those that their body is parsed to. -/
@[reducible] noncomputable def Tally.strays : Tally where
  name _ := 0
  other := 0
  call parts arguments count := count + if HoldsArguments parts arguments then 0 else 1

/-- The parser makes no macro calls that count. -/
theorem Tally.fits_strays (depth : Nat) : @Tally.Fits .strays (grammar depth) :=
  @Tally.Fits.mk .strays (grammar depth) fun front d place body hbody => by
    have hholds : HoldsArguments (front ++ [.tokens [.group d place body]])
        (macroArguments (grammar depth) body) := ⟨depth, by rw [Node.macroBody_append]⟩
    change @Node.namesAll .strays (macroArguments (grammar depth) body) + ite _ 0 1 ≤
      0 + @Token.namesAll .strays body
    rw [if_pos hholds, Nat.zero_add]
    exact hbody

/-- **The arguments that the macro calls of a file hold are those that are found when their bodies
are parsed again.** -/
theorem holdsArguments_of_reached {source : String} {file : CodeFile}
    (h : parseFile? source = some file) {address : List Nat} {around : List (Node × Seat)}
    {parts arguments : List Node}
    (hn : Reached file.nodes address around (.macroCall parts arguments)) :
    HoldsArguments parts arguments := by
  let _ : Tally := .strays
  have _ : ∀ depth, Tally.Fits (grammar depth) := Tally.fits_strays
  obtain ⟨ts, -, hfile⟩ := namesAll_of_parseFile? h
  have hts : Token.namesAll ts = 0 * Token.countAll ts :=
    Token.namesAll_eq_mul (fun _ => rfl) rfl ts
  have hcall := Node.names_le_of_reached (fun _ _ => Nat.le_add_right _ _) hn
  rw [hts, Nat.zero_mul] at hfile
  by_contra hholds
  have hstray : 1 ≤ (Node.macroCall parts arguments).names := by
    change 1 ≤ Node.namesAll arguments + ite _ 0 1
    rw [if_neg hholds]
    exact Nat.le_add_left _ _
  omega

/-- So an analysis of a file that visits parts goes on as one that parses macro bodies again. -/
theorem enters_of_reached {source : String} {file : CodeFile} (h : parseFile? source = some file)
    {address : List Nat} {around : List (Node × Seat)} {n m : Node} {seat : Seat}
    (hn : Reached file.nodes address around n) (hm : (seat, m) ∈ n.parts) : Enters m n := by
  by_cases hcall : ∃ parts arguments, n = .macroCall parts arguments
  · obtain ⟨parts, arguments, rfl⟩ := hcall
    obtain ⟨depth, harguments⟩ := holdsArguments_of_reached h hn
    obtain ⟨k, hk, heq⟩ := List.mem_map.mp hm
    cases heq
    rw [harguments] at hk
    exact .argument hk
  · exact .part (fun parts arguments heq => hcall ⟨parts, arguments, heq⟩) hm

end SchemaLint.Code

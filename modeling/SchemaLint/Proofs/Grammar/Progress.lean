import SchemaLint.Proofs.Grammar.Reads.Item

/-!
# Expressions one after the other

The body of a macro call is parsed as expressions, one after the other, until no token is left.  The
parser has a bound for how many there are.  An expression takes at least one token, so the bound is
never reached: what is found is what the loop finds that only asks whether tokens are left.

* `exists_taken_of_expression`: an expression takes at least one token.
* `Items`: what a parser yields one after the other until all tokens are taken.
* `run_untilEnd_iff`: a parser that takes tokens yields that and nothing else.
* `argument`, `macroArguments_eq_iff`: the arguments of a macro call.
* `ReadFrom`, `Items.exists_taken`: each of them is read from tokens of its own.
-/

namespace SchemaLint.Code

open SchemaLint.Code.Parser

/-! ## Progress -/

section

variable [Source]

mutual

/-- A token stands where it says if any text stands anywhere. -/
theorem Token.grounded_of_stands (h : ∀ lead place, Source.stands lead place) (t : Token) :
    t.Grounded := by
  cases t with
  | group d place inner => exact ⟨h _ _, groundedAll_of_stands h inner⟩
  | ident | punct | literal | lifetime => exact h _ _

/-- Tokens stand where they say if any text stands anywhere. -/
theorem Token.groundedAll_of_stands (h : ∀ lead place, Source.stands lead place)
    (ts : List Token) : GroundedAll ts := by
  cases ts with
  | nil => simp
  | cons t rest => simp [grounded_of_stands h t, groundedAll_of_stands h rest]

end

end

/-- **An expression takes some tokens from the front**, one at least, and leaves the others.  It
does not matter where the tokens stand, so the source may have every text everywhere. -/
theorem exists_taken_of_expression {depth : Nat} {records : Bool} {ts rest : List Token}
    {e : Parsed} (h : (grammar depth (.expr records)).run ts = some (e, rest)) :
    ∃ taken, taken ≠ [] ∧ taken ++ rest = ts := by
  let _ : Source := ⟨fun _ _ => True⟩
  have hts : Token.GroundedAll ts := Token.groundedAll_of_stands (fun _ _ => trivial) ts
  obtain ⟨-, -, ⟨taken, rfl⟩, hlength⟩ :=
    run_of_triple (serves_grammar depth (.expr records) ts) h rfl trivial hts
  refine ⟨taken, ?_, rfl⟩
  rintro rfl
  simp at hlength

/-! ## Until the end -/

/-- What a parser yields one after the other until all tokens are taken. -/
inductive Items {α : Type} (p : Parser α) : List Token → List α → Prop
  /-- All tokens are taken. -/
  | nil : Items p [] []
  /-- There are tokens left, and the parser takes some of them. -/
  | cons {ts rest : List Token} {a : α} {as : List α} (hts : ts ≠ [])
      (ha : p.run ts = some (a, rest)) (has : Items p rest as) : Items p ts (a :: as)

section

variable {α : Type} {p : Parser α}

/-- Without tokens there is nothing to be yielded. -/
theorem Items.nil_iff {as : List α} : Items p [] as ↔ as = [] := by
  constructor
  · rintro (_ | ⟨hts, -, -⟩)
    · rfl
    · exact absurd rfl hts
  · rintro rfl
    exact .nil

/-- With a token left, one value is yielded and then those of the tokens after it. -/
theorem Items.cons_iff {t : Token} {ts : List Token} {as : List α} :
    Items p (t :: ts) as ↔
      ∃ a rest more, p.run (t :: ts) = some (a, rest) ∧ Items p rest more ∧ as = a :: more := by
  constructor
  · rintro (_ | ⟨-, ha, has⟩)
    exact ⟨_, _, _, ha, has, rfl⟩
  · rintro ⟨a, rest, more, ha, has, rfl⟩
    exact .cons (List.cons_ne_nil _ _) ha has

/-- One round of the loop. -/
def untilEndStep (p : Parser α) : Parser (Option α) := do
  if ← atEnd then return none else return some (← p)

/-- With a token left, the loop runs its parser once more. -/
theorem run_untilEndStep (p : Parser α) (t : Token) (ts : List Token) :
    (untilEndStep p).run (t :: ts) = (p.run (t :: ts)).map fun r => (some r.1, r.2) := by
  change (p.run (t :: ts)).bind _ = _
  cases p.run (t :: ts) <;> rfl

/-- A bound that exceeds the number of tokens is not reached: there is one round for every token at
most, and one that ends the loop. -/
theorem run_repeatUpTo_iff (hp : ∀ ts a rest, p.run ts = some (a, rest) → rest.length < ts.length)
    {bound : Nat} {ts rest : List Token} {as : List α} (hbound : ts.length < bound) :
    (repeatUpTo (untilEndStep p) bound).run ts = some (as, rest) ↔ Items p ts as ∧ rest = [] := by
  induction bound generalizing ts as with
  | zero => omega
  | succ bound ih =>
      cases ts with
      | nil =>
          rw [Items.nil_iff]
          change some (([] : List α), ([] : List Token)) = some (as, rest) ↔ _
          simp [eq_comm]
      | cons t ts =>
          rw [Items.cons_iff]
          change ((untilEndStep p).run (t :: ts)).bind _ = _ ↔ _
          rw [run_untilEndStep]
          cases hrun : p.run (t :: ts) with
          | none => simp
          | some r =>
              obtain ⟨a, after⟩ := r
              have hafter : after.length < bound := by
                have htakes := hp _ _ _ hrun
                omega
              -- One token at least is gone, so the rounds that are left still exceed the tokens.
              have hmore : ∀ more, (repeatUpTo (untilEndStep p) bound).run after =
                  some (more, rest) ↔ Items p after more ∧ rest = [] := fun more => ih hafter
              change ((repeatUpTo (untilEndStep p) bound).run after).bind
                (fun s => some (a :: s.1, s.2)) = some (as, rest) ↔ _
              rw [Option.bind_eq_some_iff]
              constructor
              · rintro ⟨⟨more, rest'⟩, hloop, heq⟩
                cases heq
                obtain ⟨hitems, hrest⟩ := (hmore more).mp hloop
                exact ⟨⟨a, after, more, rfl, hitems, rfl⟩, hrest⟩
              · rintro ⟨⟨a', after', more, heq, hitems, rfl⟩, hrest⟩
                cases heq
                exact ⟨(more, rest), (hmore more).mpr ⟨hitems, hrest⟩, rfl⟩

/-- A parser that takes tokens is run until no token is left and yields what `Items` says. -/
theorem run_untilEnd_iff (hp : ∀ ts a rest, p.run ts = some (a, rest) → rest.length < ts.length)
    {ts rest : List Token} {as : List α} :
    (untilEnd p).run ts = some (as, rest) ↔ Items p ts as ∧ rest = [] :=
  run_repeatUpTo_iff hp (by omega)

end

/-! ## The arguments of a macro call -/

/-- The tokens after the separator that follows an expression in a macro body.  None is needed at
the end. -/
def afterSeparator? (ts : List Token) : Option (List Token) :=
  if at? "=>" ts then some (ts.drop 2)
  else if at? "," ts || at? ";" ts then some (ts.drop 1)
  else if ts = [] then some []
  else none

/-- An expression in a macro body and the separator after it. -/
def argument (rules : Rules) : Parser Node := do
  let e ← rules (.expr true)
  if ← ahead (at? "=>") then let _ ← op "=>"
  else if ← ahead (at? ",") then let _ ← op ","
  else if ← ahead (at? ";") then let _ ← op ";"
  else require (← atEnd)
  return e.node

/-- An operator that is there is taken. -/
theorem run_op {operator : String} {ts : List Token} (h : at? operator ts) :
    ∃ made, (op operator).run ts = some (made, ts.drop operator.length) := by
  cases ts with
  | nil =>
      unfold at? peekOp at h
      split at h <;> simp_all
  | cons t rest =>
      refine ⟨Token.ofOperator t.place operator.toList, ?_⟩
      change (if at? operator (t :: rest) then _ else _ : Parser (List Token)).run (t :: rest) = _
      rw [if_pos h]
      rfl

/-- A choice by looking ahead runs the branch that is chosen. -/
theorem run_ahead {α : Type} (look : List Token → Bool) (f : Bool → Parser α) (ts : List Token) :
    (ahead look >>= f).run ts = (f (look ts)).run ts := rfl

/-- What stands after an expression is its separator or the end. -/
theorem run_argument {rules : Rules} (ts : List Token) :
    (argument rules).run ts = ((rules (.expr true)).run ts).bind fun r =>
      (afterSeparator? r.2).map fun after => (r.1.node, after) := by
  change ((rules (.expr true)).run ts).bind _ = _
  congr 1
  funext ⟨e, rest⟩
  -- Each separator is taken where it stands; with none of them the tokens have to be at an end.
  have htake : ∀ operator, at? operator rest →
      (op operator >>= fun _ => pure e.node : Parser Node).run rest =
        some (e.node, rest.drop operator.length) := by
    intro operator h
    obtain ⟨made, hmade⟩ := run_op h
    change ((op operator).run rest).bind _ = _
    rw [hmade]
    rfl
  change (if at? "=>" rest then op "=>" >>= fun _ => pure e.node
    else ahead (at? ",") >>= fun b => if b then op "," >>= fun _ => pure e.node
    else ahead (at? ";") >>= fun b => if b then op ";" >>= fun _ => pure e.node
    else atEnd >>= fun b => require b >>= fun _ => pure e.node : Parser Node).run rest =
      (afterSeparator? rest).map fun after => (e.node, after)
  unfold afterSeparator?
  by_cases harrow : at? "=>" rest = true
  · rw [if_pos harrow, if_pos harrow, htake _ harrow]
    rfl
  rw [if_neg harrow, if_neg harrow, run_ahead]
  by_cases hcomma : at? "," rest = true
  · rw [if_pos hcomma, htake _ hcomma, hcomma]
    rfl
  rw [if_neg hcomma, run_ahead]
  by_cases hsemicolon : at? ";" rest = true
  · rw [if_pos hsemicolon, htake _ hsemicolon, hsemicolon, Bool.or_true]
    rfl
  rw [if_neg hsemicolon, if_neg (by simp [hcomma, hsemicolon])]
  cases rest <;> rfl

/-- What comes after a separator is an end of the tokens. -/
theorem suffix_of_afterSeparator? {ts after : List Token} (h : afterSeparator? ts = some after) :
    after <:+ ts := by
  unfold afterSeparator? at h
  split at h
  · cases h
    exact List.drop_suffix _ _
  · split at h
    · cases h
      exact List.drop_suffix _ _
    · split at h
      · cases h
        exact List.nil_suffix
      · cases h

/-- An argument is an expression with the tokens it takes, and what is left is behind its
separator. -/
theorem run_argument_eq_some {depth : Nat} {ts after : List Token} {n : Node}
    (h : (argument (grammar depth)).run ts = some (n, after)) :
    ∃ e taken rest, (grammar depth (.expr true)).run ts = some (e, rest) ∧ n = e.node ∧
      taken ≠ [] ∧ taken ++ rest = ts ∧ after <:+ rest := by
  rw [run_argument] at h
  obtain ⟨⟨e, rest⟩, hexpr, hsome⟩ := Option.bind_eq_some_iff.mp h
  obtain ⟨after', hafter, heq⟩ := Option.map_eq_some_iff.mp hsome
  cases heq
  obtain ⟨taken, htaken, rfl⟩ := exists_taken_of_expression hexpr
  exact ⟨e, taken, rest, hexpr, rfl, htaken, rfl, suffix_of_afterSeparator? hafter⟩

/-- An argument of a macro call leaves fewer tokens than there were. -/
theorem length_of_argument {depth : Nat} (ts : List Token) (n : Node) (after : List Token)
    (h : (argument (grammar depth)).run ts = some (n, after)) : after.length < ts.length := by
  obtain ⟨e, taken, rest, -, -, htaken, rfl, hafter⟩ := run_argument_eq_some h
  have hle := hafter.length_le
  have hpos := List.length_pos_iff.mpr htaken
  rw [List.length_append]
  omega

/-- **The arguments of a macro call are what the loop without a bound finds.**  There are none if it
comes upon something else than an expression and a separator. -/
theorem macroArguments_eq_iff {depth : Nat} {body : List Token} {ns : List Node} :
    macroArguments (grammar depth) body = ns ↔
      Items (argument (grammar depth)) body ns ∨
        ns = [] ∧ ∀ ms, ¬ Items (argument (grammar depth)) body ms := by
  have hrun : ∀ ms rest, (untilEnd (argument (grammar depth))).run body = some (ms, rest) ↔
      Items (argument (grammar depth)) body ms ∧ rest = [] :=
    fun ms rest => run_untilEnd_iff length_of_argument
  simp only [macroArguments]
  split
  · rename_i ms hloop
    obtain ⟨hms, -⟩ := (hrun ms []).mp hloop
    have honly : ∀ ms', Items (argument (grammar depth)) body ms' → ms' = ms := by
      intro ms' hms'
      cases hloop.symm.trans ((hrun ms' []).mpr ⟨hms', rfl⟩)
      rfl
    constructor
    · rintro rfl
      exact .inl hms
    · rintro (hns | ⟨-, hno⟩)
      · exact (honly ns hns).symm
      · exact absurd hms (hno ms)
  · rename_i hloop
    have hno : ∀ ms, ¬ Items (argument (grammar depth)) body ms := by
      intro ms hms
      exact hloop ms ((hrun ms []).mpr ⟨hms, rfl⟩)
    simp only [hno, not_false_eq_true, implies_true, and_true, false_or]
    exact eq_comm

/-- An expression is read from some tokens of a macro body that stand one after the other. -/
structure ReadFrom (depth : Nat) (body taken : List Token) (n : Node) : Prop where
  /-- It takes at least one token. -/
  ne_nil : taken ≠ []
  /-- These are the tokens that the parser of expressions takes. -/
  read : ∃ e front rest, front ++ taken ++ rest = body ∧
    (grammar depth (.expr true)).run (taken ++ rest) = some (e, rest) ∧ e.node = n

/-- **Every argument of a macro call is read from tokens of its own.** -/
theorem Items.exists_taken {depth : Nat} {body : List Token} {ns : List Node}
    (h : Items (argument (grammar depth)) body ns) {n : Node} (hn : n ∈ ns) :
    ∃ taken, ReadFrom depth body taken n := by
  induction h with
  | nil => cases hn
  | @cons ts after a as hts ha has ih =>
      obtain ⟨e, taken, rest, hexpr, hnode, htaken, rfl, ⟨separator, rfl⟩⟩ :=
        run_argument_eq_some ha
      rcases List.mem_cons.mp hn with rfl | hn
      · exact ⟨taken, htaken, e, [], _, rfl, hexpr, hnode.symm⟩
      · obtain ⟨taken', htaken', e', front, rest', rfl, hexpr', hnode'⟩ := ih hn
        exact ⟨taken', htaken', e', taken ++ separator ++ front, rest', by simp, hexpr', hnode'⟩

/-- Every argument of a macro call is read from tokens of its body. -/
theorem exists_taken_of_mem_macroArguments {depth : Nat} {body : List Token} {n : Node}
    (h : n ∈ macroArguments (grammar depth) body) : ∃ taken, ReadFrom depth body taken n := by
  rcases macroArguments_eq_iff.mp rfl with hitems | ⟨hnone, -⟩
  · exact hitems.exists_taken h
  · rw [hnone] at h
    cases h

end SchemaLint.Code

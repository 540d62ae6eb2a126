import SchemaLint.Proofs.Grammar.Ground
import SchemaLint.Proofs.Grammar.Recognizer

/-!
# Tokens stand where they were read

A text is read from the left, and every token gets the place that was reached when it was read.  The
characters it begins with are those of the text there.  Only the tokens that a doc comment stands
for are not written out: all of them are where the comment begins.

* `BeginsWith`: a text begins with a token.
* `Source.ofText`: the tokens at the places of a text.
* `Forest.ReadIn`: what holds of the tokens read so far.
* `Forest.groundedAll_of_ofStart?`: all tokens of a text stand where they say.
-/

namespace SchemaLint.Code

mutual

/-- The beginnings of a token and of all tokens inside it. -/
def Token.leads : Token → List (List Char)
  | .group d _ inner => [d.opening] :: leadsAll inner
  | .ident name _ => [name.toList]
  | .punct c _ _ => [[c]]
  | .literal text _ => [text.toList]
  | .lifetime name _ => [name.toList]

/-- The beginnings of several tokens and of all tokens inside them. -/
def Token.leadsAll : List Token → List (List Char)
  | [] => []
  | t :: rest => t.leads ++ leadsAll rest

end

/-- A text begins with a token that begins with the given characters: it begins with these, or with
a doc comment that stands for such a token. -/
def BeginsWith (lead cs : List Char) : Prop :=
  lead <+: cs ∨ ∃ doc, docComment? cs = some doc ∧
    lead ∈ Token.leadsAll (doc.tokens Position.unknown)

/-- Whether a text begins with neither white space nor a comment that is no doc comment. -/
def NoTrivia (cs : List Char) : Prop :=
  cs ≠ [] ∧ trivia? cs = none

/-- The tokens of a text, at the places that are counted from its start. -/
@[reducible] def Source.ofText (text : List Char) : Source where
  stands lead place := ∃ before after, before ++ after = text ∧
    Position.start.advanceAll before = place ∧ NoTrivia after ∧ BeginsWith lead after

section

variable [Source]

/-- Two lists of tokens stand where they say exactly if each of them does. -/
@[simp] theorem Token.groundedAll_append (ts us : List Token) :
    GroundedAll (ts ++ us) ↔ GroundedAll ts ∧ GroundedAll us := by
  induction ts with
  | nil => simp
  | cons t ts ih => simp [ih, and_assoc]

/-- Tokens stand where they say in either order. -/
@[simp] theorem Token.groundedAll_reverse (ts : List Token) :
    GroundedAll ts.reverse ↔ GroundedAll ts := by
  induction ts with
  | nil => rfl
  | cons t ts ih => simp [ih, and_comm]

/-- The tokens that a doc comment stands for are all where it is. -/
theorem DocComment.groundedAll_tokens {doc : DocComment} {place : Position}
    (h : ∀ lead ∈ Token.leadsAll (doc.tokens Position.unknown), Source.stands lead place) :
    Token.GroundedAll (doc.tokens place) := by
  unfold DocComment.tokens at *
  cases hinner : doc.inner <;>
    simp_all [Token.leads, Token.leadsAll, Token.Stands, Token.lead, Token.place]

/-! ## One step -/

variable {place : Position} {cs : List Char}

/-- A leaf begins with all the characters that were taken for it. -/
theorem of_leaf? {t : Token} {taken : Taken} (h : leaf? place cs = some (t, taken)) :
    taken.Of cs ∧ (Source.stands taken.1 place → t.Grounded) := by
  unfold leaf? at h
  split at h
  · rename_i hliteral
    cases h
    exact ⟨of_literal? hliteral,
      fun hstands => by simpa [Token.Stands, Token.lead, Token.place] using hstands⟩
  · split at h
    · split at h
      · split at h
        · rename_i name after hname
          simp only at h
          split at h
          · cases h
          · cases h
            exact ⟨(of_anyIdentifier? hname).after ['\''],
              fun hstands => by simpa [Token.Stands, Token.lead, Token.place] using hstands⟩
        · cases h
      · cases h
        exact ⟨rfl, fun hstands => hstands⟩
      · cases h
    · split at h
      · cases h
      · obtain ⟨found, hfound, heq⟩ := Option.map_eq_some_iff.mp h
        cases heq
        exact ⟨of_anyIdentifier? hfound,
          fun hstands => by simpa [Token.Stands, Token.lead, Token.place] using hstands⟩

/-- Tokens that are read begin as the text does. -/
theorem Step.tokens_of_next {ts : List Token} {taken rest : List Char}
    (h : Step.next place cs = .tokens ts taken rest) :
    taken ++ rest = cs ∧
      ((∀ lead, NoTrivia cs → BeginsWith lead cs → Source.stands lead place) →
        Token.GroundedAll ts) := by
  unfold Step.next at h
  split at h
  · rename_i htrivia
    cases h
    exact ⟨of_trivia? htrivia, by simp⟩
  · rename_i htrivia
    split at h
    · rename_i doc hdoc
      cases h
      refine ⟨of_docComment? hdoc, fun hstands => ?_⟩
      have hcs : cs ≠ [] := by
        rintro rfl
        cases hdoc
      exact DocComment.groundedAll_tokens fun lead hlead =>
        hstands lead ⟨hcs, htrivia⟩ (.inr ⟨doc, hdoc, hlead⟩)
    · split at h <;> try cases h
      split at h
      · rename_i hcs _ _ _ _ _ _ _ t taken' rest' hleaf
        cases h
        obtain ⟨hcut, hground⟩ := of_leaf? hleaf
        refine ⟨hcut, fun hstands => ?_⟩
        simpa using hground (hstands _ ⟨by simpa using hcs, htrivia⟩ (.inl ⟨_, hcut⟩))
      · cases h

omit [Source] in
/-- An opening delimiter is the first character. -/
theorem Step.opening_of_next {d : Delimiter} {c : Char} {rest : List Char}
    (h : Step.next place cs = .opening d c rest) :
    c = d.opening ∧ c :: rest = cs ∧ trivia? cs = none := by
  unfold Step.next at h
  split at h
  · cases h
  · rename_i htrivia
    split at h
    · cases h
    · split at h
      case h_2 | h_3 | h_4 =>
        cases h
        exact ⟨rfl, rfl, htrivia⟩
      case h_8 => split at h <;> cases h
      all_goals cases h

omit [Source] in
/-- So is a closing one. -/
theorem Step.closing_of_next {d : Delimiter} {c : Char} {rest : List Char}
    (h : Step.next place cs = .closing d c rest) : c :: rest = cs := by
  unfold Step.next at h
  split at h
  · cases h
  · split at h
    · cases h
    · split at h
      case h_5 | h_6 | h_7 =>
        cases h
        rfl
      case h_8 => split at h <;> cases h
      all_goals cases h

end

/-! ## All steps -/

namespace Forest

/-- What holds of the tokens of a text that were read so far, the open groups and their delimiters
included: they stand where they say, and the place is that of the rest of the text. -/
structure ReadIn (text : List Char) (place : Position) (stack : List OpenGroup)
    (current : List Token) (cs : List Char) : Prop where
  /-- The place reached is that of the text that is left. -/
  reached : ∃ before, before ++ cs = text ∧ Position.start.advanceAll before = place
  /-- The tokens of the innermost group stand where they say. -/
  inner : @Token.GroundedAll (.ofText text) current
  /-- So do the delimiters of the open groups and the tokens before them. -/
  outer : ∀ frame ∈ stack, @Token.Stands (.ofText text) (.group frame.delimiter frame.place []) ∧
    @Token.GroundedAll (.ofText text) frame.before

variable {text cs : List Char} {place : Position} {stack : List OpenGroup} {current : List Token}

/-- What the rest of a text begins with stands at the place reached. -/
theorem ReadIn.stands (h : ReadIn text place stack current cs) (hcs : NoTrivia cs)
    {lead : List Char} (hlead : BeginsWith lead cs) :
    (Source.ofText text).stands lead place := by
  obtain ⟨before, htext, hplace⟩ := h.reached
  exact ⟨before, cs, htext, hplace, hcs, hlead⟩

/-- Taking characters from the rest of the text moves the place over them. -/
theorem ReadIn.reached_advance (h : ReadIn text place stack current cs) {taken rest : List Char}
    (hcs : taken ++ rest = cs) :
    ∃ before, before ++ rest = text ∧
      Position.start.advanceAll before = place.advanceAll taken := by
  obtain ⟨before, htext, hplace⟩ := h.reached
  refine ⟨before ++ taken, ?_, ?_⟩
  · rw [List.append_assoc, hcs, htext]
  · rw [Position.advanceAll_append, hplace]

/-- Tokens that are read where they begin keep what holds of the tokens read so far. -/
theorem ReadIn.tokens (h : ReadIn text place stack current cs) {ts : List Token}
    {taken rest : List Char} (hnext : Step.next place cs = .tokens ts taken rest) :
    ReadIn text (place.advanceAll taken) stack (ts.reverse ++ current) rest := by
  let _ : Source := .ofText text
  obtain ⟨hcs, hground⟩ := Step.tokens_of_next hnext
  have hts := hground fun lead hnone hlead => h.stands hnone hlead
  refine ⟨h.reached_advance hcs, ?_, h.outer⟩
  rw [Token.groundedAll_append, Token.groundedAll_reverse]
  exact ⟨hts, h.inner⟩

/-- An opening delimiter keeps what holds of the tokens read so far. -/
theorem ReadIn.opening (h : ReadIn text place stack current cs) {d : Delimiter} {c : Char}
    {rest : List Char} (hnext : Step.next place cs = .opening d c rest) :
    ReadIn text (place.advance c) (⟨d, place, current⟩ :: stack) [] rest := by
  obtain ⟨hc, hcs, htrivia⟩ := Step.opening_of_next hnext
  have hnone : NoTrivia cs := by
    refine ⟨?_, htrivia⟩
    rw [← hcs]
    simp
  refine ⟨h.reached_advance (show [c] ++ rest = cs from hcs), by simp, ?_⟩
  intro frame hframe
  rcases List.mem_cons.mp hframe with rfl | hframe
  · refine ⟨h.stands hnone (.inl ⟨rest, ?_⟩), h.inner⟩
    rw [← hcs, hc]
    rfl
  · exact h.outer frame hframe

/-- A closing delimiter keeps what holds of the tokens read so far. -/
theorem ReadIn.closing {frame : OpenGroup} (h : ReadIn text place (frame :: stack) current cs)
    {c : Char} {rest : List Char} (hnext : Step.next place cs = .closing frame.delimiter c rest) :
    ReadIn text (place.advance c) stack
      (.group frame.delimiter frame.place current.reverse :: frame.before) rest := by
  let _ : Source := .ofText text
  obtain ⟨hdelimiter, hbefore⟩ := h.outer frame List.mem_cons_self
  have hcs : [c] ++ rest = cs := Step.closing_of_next hnext
  refine ⟨h.reached_advance hcs, ?_, ?_⟩
  · rw [Token.groundedAll_cons, Token.Grounded, Token.groundedAll_reverse]
    exact ⟨⟨hdelimiter, h.inner⟩, hbefore⟩
  · exact fun outer houter => h.outer outer (List.mem_cons_of_mem frame houter)

/-- So all tokens of the whole text stand where they say, by induction on the steps. -/
theorem ReadIn.groundedAll {bound : Nat} (h : ReadIn text place stack current cs) {ts : List Token}
    (hbuild : build? bound place stack current cs = some ts) :
    @Token.GroundedAll (.ofText text) ts := by
  let _ : Source := .ofText text
  induction bound generalizing place stack current cs with
  | zero => cases hbuild
  | succ bound ih =>
      simp only [build?] at hbuild
      split at hbuild
      · split at hbuild
        · cases hbuild
          rw [Token.groundedAll_reverse]
          exact h.inner
        · cases hbuild
      · rename_i hnext
        exact ih (h.tokens hnext) hbuild
      · rename_i hnext
        exact ih (h.opening hnext) hbuild
      · rename_i hnext
        split at hbuild
        · cases hbuild
        · split at hbuild
          · rename_i hdelimiter
            subst hdelimiter
            exact ih (h.closing hnext) hbuild
          · cases hbuild
      · cases hbuild

/-- **The tokens of a text stand where they say**, the mark at its start counted as a column. -/
theorem groundedAll_of_ofStart? {ts : List Token} (h : ofStart? text = some ts) :
    @Token.GroundedAll (.ofText text) ts := by
  obtain ⟨mark, rest, htext, hts⟩ := exists_of_ofStart? h
  have hstart : ReadIn text (Position.start.advanceAll mark) [] [] rest :=
    ⟨⟨mark, htext, rfl⟩, by simp, by simp⟩
  exact hstart.groundedAll hts

end Forest

end SchemaLint.Code

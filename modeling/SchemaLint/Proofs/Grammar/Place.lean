import SchemaLint.Proofs.Grammar.Item

/-!
# Every name of a file has a place of its own

A text is read from the left, and a name takes at least one character.  So the names read so far
stand before the place that is reached, and no two of them at the same place.

* `Position.Before`: the order in which places are reached.
* `Step.names_of_next`: what is read at a place has at most one name, and it stands there.
* `Forest.ReadTo`: what holds of the names read so far.
* `names_of_parseFile?`: of the record literals of a file, at most one is named at a given place,
  and none at a place that is not known.
-/

namespace SchemaLint

/-! ## The order of places -/

/-- Whether a place is reached before another one. -/
def Position.Before (p q : Position) : Prop :=
  p.line < q.line ∨ p.line = q.line ∧ p.column < q.column

namespace Position

/-- A character leads to a later place. -/
theorem before_advance (p : Position) (c : Char) : p.Before (p.advance c) := by
  unfold advance
  split <;> simp [Before]

/-- The order of places is transitive. -/
theorem Before.trans {p q r : Position} (hpq : p.Before q) (hqr : q.Before r) : p.Before r := by
  unfold Before at *
  omega

/-- A place does not come before itself. -/
theorem Before.ne {p q : Position} (h : p.Before q) : p ≠ q := by
  rintro rfl
  unfold Before at h
  omega

/-- Characters keep a place behind the one they lead to. -/
theorem Before.advanceAll {p q : Position} (h : p.Before q) (cs : List Char) :
    p.Before (q.advanceAll cs) := by
  induction cs generalizing q with
  | nil => exact h
  | cons c cs ih => exact ih (h.trans (before_advance q c))

/-- At least one character leads to a later place. -/
theorem before_advanceAll {p : Position} {cs : List Char} (h : cs ≠ []) :
    p.Before (p.advanceAll cs) := by
  cases cs with
  | nil => exact absurd rfl h
  | cons c cs => exact (before_advance p c).advanceAll cs

/-- A character does not lead to an earlier line. -/
theorem line_advance_le (p : Position) (c : Char) : p.line ≤ (p.advance c).line := by
  unfold advance
  split <;> simp

/-- Characters do not lead to an earlier line. -/
theorem line_advanceAll_le (p : Position) (cs : List Char) : p.line ≤ (p.advanceAll cs).line := by
  induction cs generalizing p with
  | nil => exact Nat.le_refl _
  | cons c cs ih => exact Nat.le_trans (line_advance_le p c) (ih (p.advance c))

end Position

namespace Code

variable [Marked]

/-! ## One step -/

omit [Marked] in
/-- An identifier has at least one character. -/
theorem ne_nil_of_identifier? {cs : List Char} {taken : Taken} (h : identifier? cs = some taken) :
    taken.1 ≠ [] := by
  unfold identifier? at h
  split at h
  · cases h
  · split at h
    · cases h
      simp
    · cases h

omit [Marked] in
/-- An identifier has at least one character, raw or not. -/
theorem ne_nil_of_anyIdentifier? {cs : List Char} {taken : Taken}
    (h : anyIdentifier? cs = some taken) : taken.1 ≠ [] := by
  unfold anyIdentifier? at h
  split at h
  · split at h
    · split at h
      · cases h
      · cases h
        simp
    · cases h
  · exact ne_nil_of_identifier? h

omit [Marked] in
/-- A doc comment has at least one character. -/
theorem ne_nil_of_docComment? {cs : List Char} {doc : DocComment}
    (h : docComment? cs = some doc) : doc.taken.1 ≠ [] := by
  unfold docComment? at h
  obtain ⟨hfound, -⟩ := Option.filter_eq_some_iff.mp h
  split at hfound
  case h_1 | h_4 =>
    cases hfound
    simp [Taken.after]
  case h_2 | h_6 =>
    obtain ⟨body, -, rfl⟩ := Option.map_eq_some_iff.mp hfound
    simp [Taken.after]
  case h_3 | h_5 | h_7 => cases hfound

/-- A token that is no group counts nothing, or it is a name at the place where it is read. -/
theorem names_of_leaf? {place : Position} {cs : List Char} {t : Token} {taken : Taken}
    (h : leaf? place cs = some (t, taken)) :
    t.names = 0 ∨ t.names = atMark place ∧ taken.1 ≠ [] := by
  unfold leaf? at h
  split at h
  · cases h
    exact .inl (by simp)
  · split at h
    · split at h
      · split at h
        · simp only at h
          split at h
          · cases h
          · cases h
            exact .inl (by simp)
        · cases h
      · cases h
        exact .inl (by simp)
      · cases h
    · split at h
      · cases h
      · obtain ⟨found, hfound, heq⟩ := Option.map_eq_some_iff.mp h
        cases heq
        exact .inr ⟨by simp, ne_nil_of_anyIdentifier? hfound⟩

/-- The tokens of a doc comment have one name, and it is where the comment begins. -/
theorem names_of_docComment (doc : DocComment) (place : Position) :
    Token.namesAll (doc.tokens place) = atMark place := by
  unfold DocComment.tokens
  cases doc.inner <;> simp

/-- What is read at a place has at most one name; the name stands there and takes a character. -/
theorem Step.names_of_next {place : Position} {cs taken rest : List Char} {ts : List Token}
    (h : Step.next place cs = .tokens ts taken rest) :
    Token.namesAll ts = 0 ∨ Token.namesAll ts = atMark place ∧ taken ≠ [] := by
  unfold Step.next at h
  split at h
  · cases h
    exact .inl (by simp)
  · split at h
    · rename_i doc hdoc
      cases h
      exact .inr ⟨names_of_docComment doc place, ne_nil_of_docComment? hdoc⟩
    · split at h <;> try cases h
      split at h
      · rename_i hleaf
        cases h
        simpa using names_of_leaf? hleaf
      · cases h

/-! ## All steps -/

namespace Forest

/-- How many names the groups that are still open have before them. -/
def outerNames (stack : List OpenGroup) : Nat :=
  (stack.map fun frame => Token.namesAll frame.before).sum

/-- What holds of the names at the mark that were read before a place is reached: there is at most
one, and if there is one, then the mark is a known place before the one reached. -/
structure ReadTo (place : Position) (names : Nat) : Prop where
  /-- The place reached is known. -/
  known : 0 < place.line
  /-- There is at most one name. -/
  le_one : names ≤ 1
  /-- It stands before the place reached. -/
  before : names ≠ 0 → 0 < Marked.place.line ∧ Marked.place.Before place

/-- One character more keeps what holds of the names read so far. -/
theorem ReadTo.advance {place : Position} {names : Nat} (h : ReadTo place names) (c : Char) :
    ReadTo (place.advance c) names where
  known := Nat.lt_of_lt_of_le h.known (place.line_advance_le c)
  le_one := h.le_one
  before hne := ⟨(h.before hne).1, (h.before hne).2.trans (place.before_advance c)⟩

/-- Reading on keeps it: a new name stands at the place reached, which is past all others. -/
theorem ReadTo.next {place : Position} {names : Nat} (h : ReadTo place names)
    {cs taken rest : List Char} {ts : List Token}
    (hnext : Step.next place cs = .tokens ts taken rest) :
    ReadTo (place.advanceAll taken) (Token.namesAll ts + names) := by
  have hknown := Nat.lt_of_lt_of_le h.known (place.line_advanceAll_le taken)
  have hsame : ReadTo (place.advanceAll taken) names :=
    ⟨hknown, h.le_one, fun hne => ⟨(h.before hne).1, (h.before hne).2.advanceAll taken⟩⟩
  rcases Step.names_of_next hnext with hnone | ⟨hone, htaken⟩
  · rw [hnone, Nat.zero_add]
    exact hsame
  · by_cases hplace : place = Marked.place
    · have hzero : names = 0 := by
        by_contra hne
        exact (h.before hne).2.ne hplace.symm
      rw [hone, hzero, atMark_eq, if_pos hplace]
      refine ⟨hknown, by simp, fun _ => ?_⟩
      rw [← hplace]
      exact ⟨h.known, Position.before_advanceAll htaken⟩
    · rw [hone, atMark_eq, if_neg hplace, Nat.zero_add]
      exact hsame

/-- So it holds of the whole text, by induction on the steps: opening and closing a group moves
names between the open groups and the innermost one. -/
theorem names_of_build? {bound : Nat} {place : Position} {stack : List OpenGroup}
    {current ts : List Token} {cs : List Char}
    (h : build? bound place stack current cs = some ts)
    (hread : ReadTo place (Token.namesAll current + outerNames stack)) :
    Token.namesAll ts ≤ 1 ∧ (Token.namesAll ts ≠ 0 → 0 < Marked.place.line) := by
  induction bound generalizing place stack current cs with
  | zero => cases h
  | succ bound ih =>
      simp only [build?] at h
      -- The steps are: the end, tokens, an opening delimiter, a closing one, and no step.
      split at h
      · split at h
        · rename_i hempty
          cases h
          have hstack : outerNames stack = 0 := by
            rw [List.isEmpty_iff.mp hempty]
            rfl
          rw [hstack, Nat.add_zero] at hread
          rw [Token.namesAll_reverse]
          exact ⟨hread.le_one, fun hne => (hread.before hne).1⟩
        · cases h
      · rename_i hnext
        refine ih h ?_
        rw [Token.namesAll_append, Token.namesAll_reverse, Nat.add_assoc]
        exact hread.next hnext
      · refine ih h ?_
        simpa [outerNames] using hread.advance _
      · split at h
        · cases h
        · split at h
          · refine ih h ?_
            simpa [outerNames, Token.namesAll_reverse, Nat.add_assoc] using hread.advance _
          · cases h
      · cases h

end Forest

/-- **At most one record literal of a file is named at a given place**, and none at a place that is
not known. -/
theorem names_of_parseFile? {source : String} {file : CodeFile}
    (h : parseFile? source = some file) :
    Node.namesAll file.nodes ≤ 1 ∧ (Node.namesAll file.nodes ≠ 0 → 0 < Marked.place.line) := by
  obtain ⟨ts, hts, hle⟩ := namesAll_of_parseFile? h
  obtain ⟨mark, rest, -, hts⟩ := Forest.exists_of_ofStart? hts
  have hknown : 0 < (Position.start.advanceAll mark).line :=
    Position.start.line_advanceAll_le mark
  have hread := Forest.names_of_build? hts ⟨hknown, by simp [Forest.outerNames],
    by simp [Forest.outerNames]⟩
  exact ⟨by omega, fun hne => hread.2 (by omega)⟩

end Code

end SchemaLint

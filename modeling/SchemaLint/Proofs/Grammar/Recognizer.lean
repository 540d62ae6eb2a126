import SchemaLint.Code.Forest

/-!
# Recognisers cut a text in two

A recogniser says which characters it takes from the front of a text and what is left.  The two
together are the text, so a token that is made of what was taken stands where it was read.

* `Taken.Of`: what is taken and what is left are the text.
* `of_literal?`: literals.
* `of_trivia?`, `of_docComment?`: comments and white space.
* `of_anyIdentifier?`: identifiers.
-/

namespace SchemaLint.Code

/-- What a recogniser takes and what it leaves are the text it was given. -/
def Taken.Of (cs : List Char) (t : Taken) : Prop :=
  t.1 ++ t.2 = cs

namespace Taken

/-- With a front put before it, what is taken and what is left are the front and the text. -/
theorem Of.after {cs : List Char} {t : Taken} (h : t.Of cs) (front : List Char) :
    (t.after front).Of (front ++ cs) := by
  simp only [Of, Taken.after] at *
  rw [List.append_assoc, h]

/-- With a front put before what may be taken, the same holds of it. -/
theorem Of.map_after {cs : List Char} {o : Option Taken} {t : Taken} {front : List Char}
    (h : o.map (Taken.after front) = some t) (ho : ∀ u, o = some u → u.Of cs) :
    t.Of (front ++ cs) := by
  obtain ⟨u, hu, rfl⟩ := Option.map_eq_some_iff.mp h
  exact (ho u hu).after front

/-- The characters up to the first that fails a test and those after them are the text. -/
theorem of_takeWhile (p : Char → Bool) (cs : List Char) : Of cs (cs.takeWhile p, cs.dropWhile p) :=
  List.takeWhile_append_dropWhile

end Taken

open Taken

variable {cs : List Char} {t : Taken}

/-- An identifier and what is left are the text. -/
theorem of_identifier? (h : identifier? cs = some t) : t.Of cs := by
  unfold identifier? at h
  split at h
  · cases h
  · split at h
    · cases h
      exact (of_takeWhile _ _).after [_]
    · cases h

/-- The suffix of a literal and what is left are the text. -/
theorem of_suffix (cs : List Char) : (suffix cs).Of cs := by
  unfold suffix
  rcases h : identifier? cs with _ | t
  · rfl
  · exact of_identifier? h

/-! ## Escapes -/

/-- The digits of a hexadecimal escape and what is left are the text. -/
theorem of_hexEscape? {kind : QuotedKind} (h : hexEscape? kind cs = some t) : t.Of cs := by
  unfold hexEscape? at h
  split at h
  · obtain ⟨-, ht⟩ := Option.ite_none_right_eq_some.mp h
    cases ht
    rfl
  · cases h

/-- Digits in braces and what is left are the text. -/
theorem of_bracedDigits? {len value : Nat} {r : Nat × Taken}
    (h : bracedDigits? len value cs = some r) : r.2.Of cs := by
  fun_induction bracedDigits? len value cs generalizing r with
  | case1 => cases h
  | case2 len value c cs _ ih =>
      obtain ⟨s, hs, rfl⟩ := Option.map_eq_some_iff.mp h
      exact (ih hs).after [c]
  | case3 =>
      cases h
      rfl
  | case4 => cases h
  | case5 len value c cs _ _ _ ih =>
      obtain ⟨s, hs, rfl⟩ := Option.map_eq_some_iff.mp h
      exact (ih hs).after [c]
  | case6 => cases h

/-- A Unicode escape and what is left are the text. -/
theorem of_unicodeEscape? {r : Nat × Taken} (h : unicodeEscape? cs = some r) : r.2.Of cs := by
  unfold unicodeEscape? at h
  split at h
  · obtain ⟨s, hs, rfl⟩ := Option.map_eq_some_iff.mp h
    exact (of_bracedDigits? hs).after ['\x7b']
  · cases h

/-- The white space of a continued line and what is left are the text. -/
theorem of_continuation? (h : continuation? cs = some t) : t.Of cs := by
  fun_induction continuation? cs generalizing t with
  | case1 | case2 | case4 => cases h
  | case3 cs _ ih => exact .map_after h fun u hu => ih hu
  | case5 c cs _ _ _ ih => exact .map_after h fun u hu => ih hu
  | case6 =>
      cases h
      rfl

/-- What a step inside a quoted literal takes and leaves. -/
def QuotedStep.Of (cs : List Char) : QuotedStep → Prop
  | .close rest => '"' :: rest = cs
  | .more taken rest => taken ++ rest = cs
  | .fail => True

/-- An escape and what is left are the backslash and the text after it. -/
theorem of_escapeStep (kind : QuotedKind) (cs : List Char) :
    (escapeStep kind cs).Of ('\\' :: cs) := by
  unfold escapeStep
  split
  · split
    · rename_i h
      exact (of_hexEscape? h).after ['\\', 'x']
    · trivial
  · split
    · trivial
    · split
      · rename_i h
        split
        · trivial
        · exact (of_unicodeEscape? h).after ['\\', 'u']
      · trivial
  · split
    · trivial
    · rfl
  · split
    · rfl
    · split
      · split
        · rename_i h
          exact (of_continuation? h).after ['\\']
        · trivial
      · trivial
  · trivial

/-- One step in a quoted text and what is left are the text. -/
theorem of_quotedStep (kind : QuotedKind) (cs : List Char) : (quotedStep kind cs).Of cs := by
  unfold quotedStep
  split
  case h_5 => exact of_escapeStep kind _
  case h_6 =>
    split
    · trivial
    · split
      · trivial
      · rfl
  all_goals trivial

/-- The rest of a quoted text and what is left are the text. -/
theorem of_quoted? {kind : QuotedKind} {bound : Nat} (h : quoted? kind bound cs = some t) :
    t.Of cs := by
  induction bound generalizing cs t with
  | zero => cases h
  | succ bound ih =>
      have hstep := of_quotedStep kind cs
      unfold quoted? at h
      split at h
      · rename_i rest hclose
        rw [hclose] at hstep
        cases h
        subst hstep
        exact (of_suffix rest).after ['"']
      · rename_i taken rest hmore
        rw [hmore] at hstep
        subst hstep
        exact .map_after h fun u hu => ih hu
      · cases h

/-- The rest of a raw text and what is left are the text. -/
theorem of_rawBody? {kind : QuotedKind} {closing : List Char}
    (h : rawBody? kind closing cs = some t) : t.Of cs := by
  fun_induction rawBody? kind closing cs generalizing t with
  | case1 | case3 | case5 | case6 => cases h
  | case2 cs ih => exact .map_after h fun u hu => ih hu
  | case4 c cs _ _ hclosing =>
      cases h
      have hcut := List.prefix_iff_eq_append.mp (List.isPrefixOf_iff_prefix.mp hclosing)
      rw [← hcut]
      simpa using (of_suffix _).after closing
  | case7 c cs _ _ _ _ _ ih => exact .map_after h fun u hu => ih hu

/-- A raw text and what is left are the text. -/
theorem of_raw? {kind : QuotedKind} (h : raw? kind cs = some t) : t.Of cs := by
  unfold raw? at h
  simp only at h
  have hhashes := of_takeWhile (· == '#') cs
  split at h
  · rename_i body hbody
    split at h
    · cases h
    · have hraw := Of.map_after h fun u hu => of_rawBody? hu
      rwa [List.append_assoc, List.singleton_append, ← hbody, hhashes] at hraw
  · cases h

/-! ## Strings and characters -/

/-- A string and what is left are the text. -/
theorem of_string? (h : string? cs = some t) : t.Of cs := by
  unfold string? at h
  split at h
  case h_1 | h_3 | h_5 => exact .map_after h fun u hu => of_quoted? hu
  case h_2 | h_4 | h_6 => exact .map_after h fun u hu => of_raw? hu
  case h_7 => cases h

/-- The character of a character literal and what is left are the text. -/
theorem of_characterBody? {kind : QuotedKind} (h : characterBody? kind cs = some t) : t.Of cs := by
  unfold characterBody? at h
  split at h
  · exact .map_after h fun u hu => of_hexEscape? hu
  · split at h
    · cases h
    · obtain ⟨r, hr, rfl⟩ := Option.map_eq_some_iff.mp h
      exact (of_unicodeEscape? hr).after ['\\', 'u']
  · obtain ⟨-, ht⟩ := Option.ite_none_right_eq_some.mp h
    cases ht
    rfl
  · cases h
  · obtain ⟨-, ht⟩ := Option.ite_none_left_eq_some.mp h
    cases ht
    rfl
  · cases h

/-- A character with its closing quote and what is left are the text. -/
theorem of_closedCharacter? {kind : QuotedKind} (h : closedCharacter? kind cs = some t) :
    t.Of cs := by
  unfold closedCharacter? at h
  split at h
  · rename_i taken rest hbody
    cases h
    have hcs : (taken ++ ['\'']) ++ rest = cs := by
      rw [List.append_assoc]
      exact of_characterBody? hbody
    rw [← hcs]
    exact (of_suffix rest).after _
  · cases h

/-- A character literal and what is left are the text. -/
theorem of_character? (h : character? cs = some t) : t.Of cs := by
  unfold character? at h
  split at h
  case h_1 | h_2 => exact .map_after h fun u hu => of_closedCharacter? hu
  case h_3 => cases h

/-! ## Numbers -/

/-- The suffix of a number and what is left are the text. -/
theorem of_numberSuffix? (h : numberSuffix? cs = some t) : t.Of cs := by
  unfold numberSuffix? at h
  simp only at h
  split at h
  · obtain ⟨-, ht⟩ := Option.ite_none_left_eq_some.mp h
    cases ht
    exact of_suffix cs
  · cases h
    exact of_suffix cs

/-- The digits of an exponent and what is left are the text. -/
theorem of_exponentDigits? {sign digit : Bool} {r : List Char × Bool × List Char}
    (h : exponentDigits? sign digit cs = some r) : r.1 ++ r.2.2 = cs := by
  fun_induction exponentDigits? sign digit cs generalizing r with
  | case1 | case2 | case7 =>
      cases h
      rfl
  | case3 => cases h
  | case4 sign digit c cs _ _ _ ih | case5 sign digit c cs _ _ ih
  | case6 sign digit c cs _ _ _ ih =>
      obtain ⟨s, hs, rfl⟩ := Option.map_eq_some_iff.mp h
      exact congrArg (c :: ·) (ih hs)

/-- An exponent and what is left are the text. -/
theorem of_exponent? (h : exponent? cs = some t) : t.Of cs := by
  unfold exponent? at h
  split at h
  · rename_i hdigits
    cases h
    exact of_exponentDigits? hdigits
  · cases h

/-- A fraction and what is left are the text. -/
theorem of_fraction (cs : List Char) : (fraction cs).Of cs := by
  have hrun : (digitRun cs).Of cs := of_takeWhile _ _
  unfold fraction
  generalize digitRun cs = run at hrun ⊢
  obtain ⟨digits, rest⟩ := run
  simp only
  split
  · split
    · split
      · rename_i c more _ _ t ht
        have hcs : (digits ++ [c]) ++ more = cs := by
          rw [List.append_assoc]
          exact hrun
        rw [← hcs]
        exact (of_exponent? ht).after _
      · exact hrun
    · exact hrun
  · exact hrun

/-- The digits of a decimal number and what is left are the text. -/
theorem of_floatDigits? (h : floatDigits? cs = some t) : t.Of cs := by
  unfold floatDigits? at h
  split at h
  · cases h
  · rename_i c cs
    split at h
    · cases h
    · have hrun : (digitRun cs).Of cs := of_takeWhile _ _
      generalize digitRun cs = run at hrun h
      obtain ⟨digits, rest⟩ := run
      simp only at h
      split at h
      · rename_i more
        have hcs : (c :: digits ++ ['.']) ++ more = c :: cs := by
          rw [List.append_assoc]
          exact congrArg (c :: ·) hrun
        rw [← hcs]
        split at h
        · obtain ⟨-, ht⟩ := Option.ite_none_left_eq_some.mp h
          cases ht
          exact (of_fraction _).after _
        · cases h
          rfl
      · rename_i e more _
        obtain ⟨-, ht⟩ := Option.ite_none_right_eq_some.mp h
        have hcs : (c :: digits ++ [e]) ++ more = c :: cs := by
          rw [List.append_assoc]
          exact congrArg (c :: ·) hrun
        rw [← hcs]
        exact .map_after ht fun u hu => of_exponent? hu
      · cases h

/-- A decimal number and what is left are the text. -/
theorem of_float? (h : float? cs = some t) : t.Of cs := by
  unfold float? at h
  split at h
  · rename_i digits rest hdigits
    have hcs : digits ++ rest = cs := of_floatDigits? hdigits
    rw [← hcs]
    exact .map_after h fun u hu => of_numberSuffix? hu
  · cases h

/-- The digits of an integer and what is left are the text. -/
theorem of_baseDigits? {base : Nat} {empty : Bool} {r : Bool × Taken}
    (h : baseDigits? base empty cs = some r) : r.2.Of cs := by
  fun_induction baseDigits? base empty cs generalizing r with
  | case1 | case7 =>
      cases h
      rfl
  | case2 | case5 => cases h
  | case3 empty c cs _ _ ih | case4 empty c cs _ _ ih | case6 empty c cs _ _ _ _ ih =>
      obtain ⟨s, hs, rfl⟩ := Option.map_eq_some_iff.mp h
      exact (ih hs).after [c]

/-- An integer and what is left are the text. -/
theorem of_integer? (h : integer? cs = some t) : t.Of cs := by
  unfold integer? at h
  split at h
  rename_i base mark rest hmark
  have hcs : mark ++ rest = cs := by
    split at hmark <;> cases hmark <;> rfl
  split at h
  · rename_i digits after hdigits
    have hrest : digits ++ after = rest := of_baseDigits? hdigits
    rw [← hcs, ← hrest, ← List.append_assoc]
    exact .map_after h fun u hu => of_numberSuffix? hu
  · cases h

/-- The literal that a text begins with and what follows it are the text. -/
theorem of_literal? (h : literal? cs = some t) : t.Of cs := by
  unfold literal? at h
  rcases Option.or_eq_some_iff.mp h with hstring | ⟨-, h⟩
  · exact of_string? hstring
  rcases Option.or_eq_some_iff.mp h with hcharacter | ⟨-, h⟩
  · exact of_character? hcharacter
  rcases Option.or_eq_some_iff.mp h with hfloat | ⟨-, hinteger⟩
  · exact of_float? hfloat
  · exact of_integer? hinteger

/-! ## Comments and identifiers -/

/-- The rest of a line and what is left are the text. -/
theorem of_restOfLine (cs : List Char) : (restOfLine cs).Of cs := by
  fun_induction restOfLine cs with
  | case1 | case2 | case3 => rfl
  | case4 c cs _ _ ih => exact ih.after [c]

/-- The rest of a block comment and what is left are the text. -/
theorem of_blockBody? {depth : Nat} (h : blockBody? depth cs = some t) : t.Of cs := by
  fun_induction blockBody? depth cs generalizing t with
  | case1 => cases h
  | case2 depth cs ih | case4 depth cs ih => exact .map_after h fun u hu => ih hu
  | case3 =>
      cases h
      rfl
  | case5 depth c cs _ _ _ ih => exact .map_after h fun u hu => ih hu

/-- A comment or white space and what is left are the text. -/
theorem of_trivia? (h : trivia? cs = some t) : t.Of cs := by
  unfold trivia? at h
  split at h
  case h_1 | h_4 =>
    cases h
    exact (of_restOfLine _).after _
  case h_5 =>
    cases h
    rfl
  case h_6 | h_9 => exact .map_after h fun u hu => of_blockBody? hu
  case h_10 =>
    obtain ⟨-, ht⟩ := Option.ite_none_right_eq_some.mp h
    cases ht
    rfl
  all_goals cases h

/-- A doc comment and what is left are the text. -/
theorem of_docComment? {doc : DocComment} (h : docComment? cs = some doc) : doc.taken.Of cs := by
  unfold docComment? at h
  obtain ⟨hfound, -⟩ := Option.filter_eq_some_iff.mp h
  split at hfound
  case h_1 | h_4 =>
    cases hfound
    exact (of_restOfLine _).after _
  case h_2 | h_6 =>
    obtain ⟨body, hbody, rfl⟩ := Option.map_eq_some_iff.mp hfound
    exact (of_blockBody? hbody).after ['/', '*']
  case h_3 | h_5 | h_7 => cases hfound

/-- An identifier, raw or not, and what is left are the text. -/
theorem of_anyIdentifier? (h : anyIdentifier? cs = some t) : t.Of cs := by
  unfold anyIdentifier? at h
  split at h
  · split at h
    · rename_i name rest hname
      obtain ⟨-, ht⟩ := Option.ite_none_left_eq_some.mp h
      cases ht
      exact (of_identifier? hname).after ['r', '#']
    · cases h
  · exact of_identifier? h

end SchemaLint.Code

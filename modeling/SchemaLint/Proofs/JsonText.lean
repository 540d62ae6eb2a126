import Mathlib
import SchemaLint.Json

/-!
# The text of a JSON value determines the value

No text of a value is the beginning of another, as far as what follows can be told from a number: a
string ends at the first quote that is not escaped, a number where the digits end, and a list or an
object at its own bracket.  So the texts of two values that stand at the front of one text are the
same, and the values are.

* `Json.escapeChar_append_inj`, `Json.quote_append_inj`: strings.
* `Json.toString_append_inj`: numbers.
* `Json.prettyAt_append_inj`, **`Json.pretty_injective`**: values.
-/

namespace SchemaLint.Json

/-! ## Strings -/

/-- The letters of the short escapes, and the characters they stand for. -/
def shortEscapes : List (Char × Char) :=
  [('"', '"'), ('\\', '\\'), ('n', '\n'), ('r', '\r'), ('t', '\t'), ('b', '\x08'), ('f', '\x0c')]

/-- The three ways to write a character. -/
theorem escapeChar_cases (c : Char) :
    (escapeChar c = [c] ∧ c ≠ '"' ∧ c ≠ '\\') ∨
      (∃ letter, escapeChar c = ['\\', letter] ∧ (letter, c) ∈ shortEscapes) ∨
      c.toNat < 32 ∧ escapeChar c =
        ['\\', 'u', '0', '0', hexDigit (c.toNat / 16), hexDigit (c.toNat % 16)] := by
  have hcode : ∀ d : Char, c.toNat = d.toNat → c = d := fun d h => Char.toNat_inj.mp h
  unfold escapeChar
  split_ifs with h₁ h₂ h₃ h₄ h₅ h₆ h₇ h₈
  · exact .inr (.inl ⟨'"', rfl, by simp [shortEscapes, h₁]⟩)
  · exact .inr (.inl ⟨'\\', rfl, by simp [shortEscapes, h₂]⟩)
  · exact .inr (.inl ⟨'n', rfl, by simp [shortEscapes, h₃]⟩)
  · exact .inr (.inl ⟨'r', rfl, by simp [shortEscapes, h₄]⟩)
  · exact .inr (.inl ⟨'t', rfl, by simp [shortEscapes, h₅]⟩)
  · exact .inr (.inl ⟨'b', rfl, by simp [shortEscapes, hcode '\x08' h₆]⟩)
  · exact .inr (.inl ⟨'f', rfl, by simp [shortEscapes, hcode '\x0c' h₇]⟩)
  · exact .inr (.inr ⟨h₈, rfl⟩)
  · exact .inl ⟨rfl, h₁, h₂⟩

/-- Different digits are written differently. -/
theorem hexDigit_inj : ∀ a < 16, ∀ b < 16, hexDigit a = hexDigit b → a = b := by
  decide

/-- A short escape stands for one character, and is told from a long one. -/
theorem eq_of_mem_shortEscapes {letter c d : Char} (hc : (letter, c) ∈ shortEscapes)
    (hd : (letter, d) ∈ shortEscapes) : c = d := by
  have hall : ∀ p ∈ shortEscapes, ∀ q ∈ shortEscapes, p.1 = q.1 → p.2 = q.2 := by decide
  exact hall _ hc _ hd rfl

/-- No short escape is taken for one with a code. -/
theorem ne_of_mem_shortEscapes {letter c : Char} (h : (letter, c) ∈ shortEscapes) :
    letter ≠ 'u' := by
  have hall : ∀ p ∈ shortEscapes, p.1 ≠ 'u' := by decide
  exact hall _ h

/-- **A written character ends where it ends.** -/
theorem escapeChar_append_inj {c d : Char} {x y : List Char}
    (h : escapeChar c ++ x = escapeChar d ++ y) : c = d ∧ x = y := by
  rcases escapeChar_cases c with ⟨hc, -, hc'⟩ | ⟨k, hc, hk⟩ | ⟨hlt, hc⟩ <;>
    rcases escapeChar_cases d with ⟨hd, -, hd'⟩ | ⟨l, hd, hl⟩ | ⟨hlt', hd⟩ <;>
    rw [hc, hd] at h <;>
    simp only [List.cons_append, List.nil_append, List.cons.injEq, true_and] at h
  · exact h
  · exact absurd h.1 hc'
  · exact absurd h.1 hc'
  · exact absurd h.1.symm hd'
  · obtain ⟨rfl, hxy⟩ := h
    exact ⟨eq_of_mem_shortEscapes hk hl, hxy⟩
  · exact absurd h.1 (ne_of_mem_shortEscapes hk)
  · exact absurd h.1.symm hd'
  · exact absurd h.1.symm (ne_of_mem_shortEscapes hl)
  · obtain ⟨hhigh, hlow, hxy⟩ := h
    have hhigh := hexDigit_inj _ (by omega) _ (by omega) hhigh
    have hlow := hexDigit_inj _ (by omega) _ (by omega) hlow
    exact ⟨Char.toNat_inj.mp (by omega), hxy⟩

/-- No written character begins with a quote. -/
theorem escapeChar_append_ne (c : Char) (x y : List Char) : escapeChar c ++ x ≠ '"' :: y := by
  intro h
  rcases escapeChar_cases c with ⟨hc, hquote, -⟩ | ⟨k, hc, -⟩ | ⟨-, hc⟩
  · rw [hc] at h
    exact hquote (List.cons.inj h).1
  · rw [hc] at h
    cases h
  · rw [hc] at h
    cases h

/-- Written characters end at the first quote that does not belong to one. -/
theorem escaped_append_inj {cs ds x y : List Char}
    (h : cs.flatMap escapeChar ++ '"' :: x = ds.flatMap escapeChar ++ '"' :: y) :
    cs = ds ∧ x = y := by
  induction cs generalizing ds with
  | nil =>
      cases ds with
      | nil => exact ⟨rfl, (List.cons.inj h).2⟩
      | cons d ds =>
          rw [List.flatMap_cons, List.append_assoc] at h
          exact absurd h.symm (escapeChar_append_ne d _ x)
  | cons c cs ih =>
      rw [List.flatMap_cons, List.append_assoc] at h
      cases ds with
      | nil => exact absurd h (escapeChar_append_ne c _ y)
      | cons d ds =>
          rw [List.flatMap_cons, List.append_assoc] at h
          obtain ⟨rfl, hrest⟩ := escapeChar_append_inj h
          obtain ⟨rfl, hxy⟩ := ih hrest
          exact ⟨rfl, hxy⟩

/-- A string in quotes, character by character. -/
theorem toList_quote (s : String) :
    (quote s).toList = '"' :: (s.toList.flatMap escapeChar ++ ['"']) := by
  simp [quote]

/-- **A quoted string ends at its quote.** -/
theorem quote_append_inj {s t : String} {x y : List Char}
    (h : (quote s).toList ++ x = (quote t).toList ++ y) : s = t ∧ x = y := by
  simp only [toList_quote, List.cons_append, List.append_assoc, List.nil_append, List.cons.injEq,
    true_and] at h
  obtain ⟨hst, hxy⟩ := escaped_append_inj h
  exact ⟨String.toList_inj.mp hst, hxy⟩

/-! ## Numbers -/

/-- A character of a number. -/
def isNumberChar (c : Char) : Bool :=
  c == '-' || c.isDigit

/-- What may follow a value in a text: nothing, a comma or a new line. -/
def Ends (x : List Char) : Prop :=
  ∀ c ∈ x.head?, c = ',' ∨ c = '\n'

/-- A number ends in front of a comma or a line break. -/
theorem ends_cons {c : Char} (hc : c = ',' ∨ c = '\n') (x : List Char) : Ends (c :: x) := by
  intro d hd
  obtain rfl := Option.some.inj hd
  exact hc

/-- A number is written with characters of numbers. -/
theorem isNumberChar_of_mem {n : Int} {c : Char} (h : c ∈ (toString n).toList) :
    isNumberChar c := by
  have hdigits : ∀ (m : Nat), c ∈ m.repr.toList → c.isDigit := by
    intro m hm
    rw [Nat.repr_eq_ofList_toDigits, String.toList_ofList] at hm
    exact Nat.isDigit_of_mem_toDigits (by decide) (by decide) hm
  unfold isNumberChar
  rw [Bool.or_eq_true, beq_iff_eq]
  cases n with
  | ofNat m => exact .inr (hdigits m h)
  | negSucc m =>
      have h : c ∈ ("-" ++ (m + 1).repr).toList := h
      rw [String.toList_append, List.mem_append] at h
      rcases h with h | h
      · exact .inl (by simpa using h)
      · exact .inr (hdigits (m + 1) h)

/-- A number is what stands before the first character that does not belong to one. -/
theorem takeWhile_number {n : Int} {x : List Char} (hx : Ends x) :
    ((toString n).toList ++ x).takeWhile isNumberChar = (toString n).toList := by
  rw [List.takeWhile_append_of_pos fun c hc => isNumberChar_of_mem hc]
  cases x with
  | nil => simp
  | cons c x =>
      have hc : isNumberChar c = false := by
        rcases hx c rfl with rfl | rfl <;> decide
      simp [hc]

/-- **A number ends where its digits end.** -/
theorem toString_append_inj {n m : Int} {x y : List Char} (hx : Ends x) (hy : Ends y)
    (h : (toString n).toList ++ x = (toString m).toList ++ y) : n = m ∧ x = y := by
  have hsame : (toString n).toList = (toString m).toList := by
    have hwhile := congrArg (List.takeWhile isNumberChar) h
    rwa [takeWhile_number hx, takeWhile_number hy] at hwhile
  rw [hsame] at h
  exact ⟨Int.repr_injective (String.toList_inj.mp hsame), List.append_cancel_left h⟩

/-! ## Values -/

/-- The start of a line, character by character. -/
theorem toList_lineStart (level : Nat) :
    (lineStart level).toList = '\n' :: List.replicate (2 * level) ' ' := by
  simp [lineStart]

/-- The text of further elements, one in front. -/
theorem toList_prettyElements_cons (level : Nat) (v : Json) (vs : List Json) :
    (prettyElements level (v :: vs)).toList = ',' :: ((lineStart level).toList ++
      ((prettyAt level v).toList ++ (prettyElements level vs).toList)) := by
  simp [prettyElements]

/-- The text of further members, one in front. -/
theorem toList_prettyMembers_cons (level : Nat) (name : String) (v : Json)
    (ms : List (String × Json)) :
    (prettyMembers level ((name, v) :: ms)).toList = ',' :: ((lineStart level).toList ++
      ((quote name).toList ++ (':' :: ' ' :: ((prettyAt level v).toList ++
        (prettyMembers level ms).toList)))) := by
  simp [prettyMembers]

/-- What follows an element of a list is a comma or a new line. -/
theorem ends_prettyElements (level : Nat) (vs : List Json) (x : List Char) :
    Ends ((prettyElements level vs).toList ++ '\n' :: x) := by
  cases vs with
  | nil => exact ends_cons (.inr rfl) x
  | cons v vs =>
      rw [toList_prettyElements_cons]
      exact ends_cons (.inl rfl) _

/-- A number ends in front of further members or the closing line. -/
theorem ends_prettyMembers (level : Nat) (ms : List (String × Json)) (x : List Char) :
    Ends ((prettyMembers level ms).toList ++ '\n' :: x) := by
  cases ms with
  | nil => exact ends_cons (.inr rfl) x
  | cons m ms =>
      rw [toList_prettyMembers_cons]
      exact ends_cons (.inl rfl) _

/-- The end of the text of a list or an object: the indent and the bracket, and what follows. -/
def closing (level : Nat) (bracket : Char) (x : List Char) : List Char :=
  List.replicate (2 * level) ' ' ++ bracket :: x

/-- What follows a closing bracket is determined by the whole. -/
theorem closing_inj {level : Nat} {bracket : Char} {x y : List Char}
    (h : closing level bracket x = closing level bracket y) : x = y :=
  (List.cons.inj (List.append_cancel_left h)).2

/-- The text of a list is a pair of brackets, or that of its elements with a bracket in the place of
the first comma. -/
theorem array_cases (level : Nat) (vs : List Json) (x : List Char) :
    (vs = [] ∧ (prettyAt level (.array vs)).toList ++ x = '[' :: ']' :: x) ∨
      ∃ z, (prettyAt level (.array vs)).toList ++ x = '[' :: '\n' :: z ∧
        (prettyElements (level + 1) vs).toList ++ '\n' :: closing level ']' x =
          ',' :: '\n' :: z := by
  cases vs with
  | nil => exact .inl ⟨rfl, by simp [prettyAt]⟩
  | cons v vs =>
      refine .inr ⟨List.replicate (2 * (level + 1)) ' ' ++ ((prettyAt (level + 1) v).toList ++
        ((prettyElements (level + 1) vs).toList ++ '\n' :: closing level ']' x)), ?_, ?_⟩
      · simp [prettyAt, toList_lineStart, closing]
      · simp [toList_prettyElements_cons, toList_lineStart]

/-- The same for an object and its members. -/
theorem object_cases (level : Nat) (ms : List (String × Json)) (x : List Char) :
    (ms = [] ∧ (prettyAt level (.object ms)).toList ++ x = '\x7b' :: '\x7d' :: x) ∨
      ∃ z, (prettyAt level (.object ms)).toList ++ x = '\x7b' :: '\n' :: z ∧
        (prettyMembers (level + 1) ms).toList ++ '\n' :: closing level '\x7d' x =
          ',' :: '\n' :: z := by
  cases ms with
  | nil => exact .inl ⟨rfl, by simp [prettyAt]⟩
  | cons m ms =>
      obtain ⟨name, v⟩ := m
      refine .inr ⟨List.replicate (2 * (level + 1)) ' ' ++ ((quote name).toList ++
        (':' :: ' ' :: ((prettyAt (level + 1) v).toList ++
        ((prettyMembers (level + 1) ms).toList ++ '\n' :: closing level '\x7d' x)))), ?_, ?_⟩
      · simp [prettyAt, toList_lineStart, closing]
      · simp [toList_prettyMembers_cons, toList_lineStart]

/-- The kind of a value, numbered as the constructors are, by the first character of its text. -/
def kindAt (c : Char) : Nat :=
  if c = 'n' then 0
  else if c = 't' ∨ c = 'f' then 1
  else if c = '"' then 3
  else if c = '[' then 4
  else if c = '\x7b' then 5
  else 2

/-- A character of numbers begins a number. -/
theorem kindAt_number {c : Char} (h : isNumberChar c) : kindAt c = 2 := by
  have hother : ∀ d, isNumberChar d = false → c ≠ d := by
    rintro d hd rfl
    rw [hd] at h
    cases h
  simp [kindAt, hother 'n' rfl, hother 't' rfl, hother 'f' rfl, hother '"' rfl, hother '[' rfl,
    hother '\x7b' rfl]

/-- A number begins with a character of numbers. -/
theorem exists_cons_number (n : Int) :
    ∃ c rest, (toString n).toList = c :: rest ∧ isNumberChar c := by
  have hne : (toString n).toList ≠ [] := by
    cases n with
    | ofNat m => exact fun h => Nat.repr_ne_empty (String.toList_eq_nil_iff.mp h)
    | negSucc m =>
        show ("-" ++ (m + 1).repr).toList ≠ []
        simp
  obtain ⟨c, rest, heq⟩ := List.exists_cons_of_ne_nil hne
  exact ⟨c, rest, heq, isNumberChar_of_mem (heq ▸ List.mem_cons_self)⟩

/-- The first character of a text tells what kind of value it is of. -/
theorem exists_cons_prettyAt (level : Nat) (v : Json) (x : List Char) :
    ∃ c rest, (prettyAt level v).toList ++ x = c :: rest ∧ kindAt c = v.ctorIdx := by
  cases v with
  | null => exact ⟨'n', 'u' :: 'l' :: 'l' :: x, by simp [prettyAt], rfl⟩
  | bool b => cases b with
    | true => exact ⟨'t', 'r' :: 'u' :: 'e' :: x, by simp [prettyAt], rfl⟩
    | false => exact ⟨'f', 'a' :: 'l' :: 's' :: 'e' :: x, by simp [prettyAt], rfl⟩
  | number n =>
      obtain ⟨c, rest, heq, hc⟩ := exists_cons_number n
      exact ⟨c, rest ++ x, by simp only [prettyAt, heq, List.cons_append], kindAt_number hc⟩
  | text s => exact ⟨'"', _, by rw [prettyAt, toList_quote, List.cons_append], rfl⟩
  | array vs =>
      rcases array_cases level vs x with ⟨-, h⟩ | ⟨z, h, -⟩
      · exact ⟨_, _, h, rfl⟩
      · exact ⟨_, _, h, rfl⟩
  | object ms =>
      rcases object_cases level ms x with ⟨-, h⟩ | ⟨z, h, -⟩
      · exact ⟨_, _, h, rfl⟩
      · exact ⟨_, _, h, rfl⟩

/-- The first character of a text tells the kind of its value. -/
theorem ctorIdx_eq_of_prettyAt {level : Nat} {v w : Json} {x y : List Char}
    (h : (prettyAt level v).toList ++ x = (prettyAt level w).toList ++ y) :
    v.ctorIdx = w.ctorIdx := by
  obtain ⟨c, rest, hc, hv⟩ := exists_cons_prettyAt level v x
  obtain ⟨d, rest', hd, hw⟩ := exists_cons_prettyAt level w y
  rw [hc, hd] at h
  rw [← hv, ← hw, (List.cons.inj h).1]

mutual

/-- **The text of a value ends where it ends.**  By recursion on the value; the other value is of
the same kind, since the texts begin alike. -/
theorem prettyAt_append_inj (level : Nat) (v w : Json) (x y : List Char) (hx : Ends x) (hy : Ends y)
    (h : (prettyAt level v).toList ++ x = (prettyAt level w).toList ++ y) : v = w ∧ x = y := by
  have hkind := ctorIdx_eq_of_prettyAt h
  cases v with
  | null =>
      cases w with
      | null => exact ⟨rfl, List.append_cancel_left h⟩
      | _ => cases hkind
  | bool b =>
      cases w with
      | bool b' =>
          cases b <;> cases b' <;> simp [prettyAt] at h <;> exact ⟨rfl, h⟩
      | _ => cases hkind
  | number n =>
      cases w with
      | number m =>
          simp only [prettyAt] at h
          obtain ⟨rfl, hxy⟩ := toString_append_inj hx hy h
          exact ⟨rfl, hxy⟩
      | _ => cases hkind
  | text s =>
      cases w with
      | text t =>
          simp only [prettyAt] at h
          obtain ⟨rfl, hxy⟩ := quote_append_inj h
          exact ⟨rfl, hxy⟩
      | _ => cases hkind
  | array vs =>
      cases w with
      | array ws =>
          -- An empty array closes at once; if only one of the two is empty, the texts differ there.
          rcases array_cases level vs x with ⟨rfl, hv⟩ | ⟨z, hv, hvs⟩ <;>
            rcases array_cases level ws y with ⟨rfl, hw⟩ | ⟨z', hw, hws⟩ <;>
            rw [hv, hw] at h <;> simp only [List.cons.injEq, true_and] at h
          · exact ⟨rfl, h⟩
          · simp at h
          · simp at h
          · obtain rfl := h
            obtain ⟨rfl, hxy⟩ :=
              prettyElements_append_inj (level + 1) vs ws _ _ (hvs.trans hws.symm)
            exact ⟨rfl, closing_inj hxy⟩
      | _ => cases hkind
  | object ms =>
      cases w with
      | object ns =>
          rcases object_cases level ms x with ⟨rfl, hv⟩ | ⟨z, hv, hms⟩ <;>
            rcases object_cases level ns y with ⟨rfl, hw⟩ | ⟨z', hw, hns⟩ <;>
            rw [hv, hw] at h <;> simp only [List.cons.injEq, true_and] at h
          · exact ⟨rfl, h⟩
          · simp at h
          · simp at h
          · obtain rfl := h
            obtain ⟨rfl, hxy⟩ :=
              prettyMembers_append_inj (level + 1) ms ns _ _ (hms.trans hns.symm)
            exact ⟨rfl, closing_inj hxy⟩
      | _ => cases hkind

/-- The texts of further elements determine them and what follows. -/
theorem prettyElements_append_inj (level : Nat) (vs ws : List Json) (x y : List Char)
    (h : (prettyElements level vs).toList ++ '\n' :: x =
      (prettyElements level ws).toList ++ '\n' :: y) : vs = ws ∧ x = y := by
  match vs, ws, h with
  | [], [], h => exact ⟨rfl, (List.cons.inj h).2⟩
  | [], w :: ws, h => simp [prettyElements] at h
  | v :: vs, [], h => simp [prettyElements] at h
  | v :: vs, w :: ws, h =>
      simp only [toList_prettyElements_cons, List.cons_append, List.append_assoc, List.cons.injEq,
        true_and] at h
      obtain ⟨rfl, hrest⟩ := prettyAt_append_inj level v w _ _ (ends_prettyElements level vs x)
        (ends_prettyElements level ws y) (List.append_cancel_left h)
      obtain ⟨rfl, hxy⟩ := prettyElements_append_inj level vs ws x y hrest
      exact ⟨rfl, hxy⟩

/-- The texts of further members determine them and what follows. -/
theorem prettyMembers_append_inj (level : Nat) (ms ns : List (String × Json)) (x y : List Char)
    (h : (prettyMembers level ms).toList ++ '\n' :: x =
      (prettyMembers level ns).toList ++ '\n' :: y) : ms = ns ∧ x = y := by
  match ms, ns, h with
  | [], [], h => exact ⟨rfl, (List.cons.inj h).2⟩
  | [], (_, w) :: ns, h => simp [prettyMembers] at h
  | (_, v) :: ms, [], h => simp [prettyMembers] at h
  | (name, v) :: ms, (name', w) :: ns, h =>
      simp only [toList_prettyMembers_cons, List.cons_append, List.append_assoc, List.cons.injEq,
        true_and] at h
      obtain ⟨rfl, hvalue⟩ := quote_append_inj (List.append_cancel_left h)
      simp only [List.cons.injEq, true_and] at hvalue
      obtain ⟨rfl, hrest⟩ := prettyAt_append_inj level v w _ _ (ends_prettyMembers level ms x)
        (ends_prettyMembers level ns y) hvalue
      obtain ⟨rfl, hxy⟩ := prettyMembers_append_inj level ms ns x y hrest
      exact ⟨rfl, hxy⟩

end

/-- **Values with the same text are the same.** -/
theorem pretty_injective : Function.Injective pretty := by
  intro v w h
  have hnone : Ends [] := fun c hc => nomatch hc
  exact (prettyAt_append_inj 0 v w [] [] hnone hnone (congrArg (·.toList ++ []) h)).1

end SchemaLint.Json

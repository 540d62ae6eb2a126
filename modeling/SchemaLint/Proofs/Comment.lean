import SchemaLint.Proofs.Lexical

/-!
# The comments that are found are those of the grammar

`Lexeme.first` reads a text from the left and knows only how far each opening reaches.  Here it is
compared with the grammar of `SchemaLint.Proofs.Lexical`, piece by piece: what it takes of a block
comment, a string, a raw string or a quote is the whole piece, and a piece that is no comment is
read without finding one (`Piece.commentsAt_chars`).

* **`comments_of_cut`**: for every text that is cut into well-formed pieces, the comments found are
  the comment pieces, with their texts and places.
* `Lexeme.spanBlock_of_blockText`, `Lexeme.spanRaw_append`: what is read of the two pieces whose
  end depends on how they began.
* `Position.advanceAll_after`: places that are counted along the text agree with those that are
  counted from the text before.
-/

namespace SchemaLint

/-! ## How far the openings reach -/

namespace Lexeme

variable {c : Char} {cs body rest : List Char}

/-- Inside a block comment, a character that is part of no mark is taken alone. -/
theorem spanBlock_cons (hopen : ¬ ['/', '*'] <+: c :: cs) (hclose : ¬ ['*', '/'] <+: c :: cs)
    (depth : Nat) :
    spanBlock depth (c :: cs) = (c :: (spanBlock depth cs).1, (spanBlock depth cs).2) := by
  rw [spanBlock.eq_5]
  · rintro cs rfl rfl
    simp at hopen
  · rintro cs - rfl rfl
    simp at hclose
  · rintro depth cs - rfl rfl
    simp at hclose

/-- A block comment is closed by its own closing mark, and inside another one it is taken whole. -/
theorem spanBlock_of_blockText {text : List Char} (h : BlockText text) :
    ∃ body, text = body ++ ['*', '/'] ∧
      (∀ rest, spanBlock 0 (text ++ rest) = (body, true, rest)) ∧
      ∀ depth rest, spanBlock (depth + 1) (text ++ rest) =
        (text ++ (spanBlock depth rest).1, (spanBlock depth rest).2) := by
  induction h with
  | close =>
      refine ⟨[], rfl, fun rest => ?_, fun depth rest => ?_⟩
      · simp [spanBlock]
      · simp [spanBlock]
  | @char c cs hopen hclose hcs ih =>
      obtain ⟨body, rfl, hzero, hsucc⟩ := ih
      -- the closing mark keeps what follows the comment out of sight
      have hstep : ∀ depth rest, spanBlock depth (c :: (body ++ ['*', '/']) ++ rest) =
          (c :: (spanBlock depth (body ++ ['*', '/'] ++ rest)).1,
            (spanBlock depth (body ++ ['*', '/'] ++ rest)).2) := by
        intro depth rest
        apply spanBlock_cons
        · cases body with
          | nil => simpa using hopen
          | cons d body => simpa using hopen
        · cases body with
          | nil => simp
          | cons d body => simpa using hclose
      refine ⟨c :: body, rfl, fun rest => ?_, fun depth rest => ?_⟩
      · rw [hstep, hzero]
      · rw [hstep, hsucc]
        rfl
  | @nest inner cs hinner hcs ihinner ihcs =>
      obtain ⟨body, rfl, hzero, hsucc⟩ := ihcs
      obtain ⟨-, -, -, hinner⟩ := ihinner
      refine ⟨'/' :: '*' :: (inner ++ body), by simp, fun rest => ?_, fun depth rest => ?_⟩
      · rw [List.cons_append, List.cons_append, List.append_assoc, spanBlock.eq_2, hinner, hzero]
      · rw [List.cons_append, List.cons_append, List.append_assoc, spanBlock.eq_2, hinner, hsucc]
        simp

/-- A string ends at its first quote that is not escaped. -/
theorem spanString_append (h : StringBody body) (rest : List Char) :
    spanString (body ++ '"' :: rest) = (body ++ ['"'], rest) := by
  induction h with
  | nil => simp [spanString]
  | plain hquote hescape hcs ih =>
      rw [List.cons_append, spanString.eq_4 _ _ hquote (fun _ _ h _ => hescape h), ih]
      rfl
  | escape c hcs ih =>
      rw [List.cons_append, List.cons_append, spanString.eq_3, ih]
      rfl

/-- The closing mark of a raw string cannot begin in the body and end outside. -/
theorem not_rawClosing_prefix {hashes : Nat} (hc : ¬ rawClosing hashes <+: c :: cs)
    (rest : List Char) : ¬ rawClosing hashes <+: c :: cs ++ (rawClosing hashes ++ rest) := by
  intro h
  rcases List.prefix_or_prefix_of_prefix h (List.prefix_append _ _) with hin | ⟨tail, htail⟩
  · exact hc hin
  · -- what is left of the mark would be hash marks, but the next character is a quote
    rw [← htail, List.prefix_append_right_inj, htail] at h
    cases tail with
    | nil => exact hc (by simp [← htail])
    | cons d tail =>
        have hquote : d = '"' := by
          rw [rawClosing, List.cons_append, List.cons_prefix_cons] at h
          exact h.1
        have hhash : d ∈ List.replicate hashes '#' := by
          rw [rawClosing, List.cons_append, List.cons.injEq] at htail
          simp [← htail.2]
        rw [hquote, List.mem_replicate] at hhash
        exact absurd hhash.2 (by decide)

/-- A raw string ends at its first closing mark. -/
theorem spanRaw_append {hashes : Nat} (h : ¬ rawClosing hashes <:+: body) (rest : List Char) :
    spanRaw (rawClosing hashes) (body ++ (rawClosing hashes ++ rest)) =
      (body ++ rawClosing hashes, rest) := by
  induction body with
  | nil =>
      have hmark : rawClosing hashes ++ rest = '"' :: (List.replicate hashes '#' ++ rest) := rfl
      have hpre : (rawClosing hashes).isPrefixOf (rawClosing hashes ++ rest) := by simp
      rw [List.nil_append, hmark, spanRaw, ← hmark, if_pos hpre]
      simp
  | cons c body ih =>
      have hfirst : ¬ rawClosing hashes <+: c :: body := fun hpre => h hpre.isInfix
      have hbody : ¬ rawClosing hashes <:+: body :=
        fun hin => h (hin.trans (List.suffix_cons c body).isInfix)
      have hno := not_rawClosing_prefix hfirst rest
      rw [List.cons_append] at hno ⊢
      rw [spanRaw, if_neg (by simpa using hno), ih hbody]
      rfl

/-- A quoted text without quotes and line ends reaches its closing quote. -/
theorem spanQuote_append (h : ∀ c ∈ body, c ≠ '\'' ∧ c ≠ '\n') (rest : List Char) :
    spanQuote (body ++ '\'' :: rest) = (body ++ ['\''], rest) := by
  induction body with
  | nil => simp [spanQuote]
  | cons c body ih =>
      obtain ⟨hc, hbody⟩ := List.forall_mem_cons.mp h
      rw [List.cons_append, spanQuote, if_neg (by simp [hc]), ih hbody]
      rfl

/-! ## Raw string openings -/

/-- The letters of a raw string are `r` with a mark before it. -/
theorem rawLetters_eq_some_iff {letters : List Char} :
    rawLetters cs = some (letters, rest) ↔
      ∃ mark : StringMark, letters = mark.chars ++ ['r'] ∧ cs = letters ++ rest := by
  constructor
  · intro h
    unfold rawLetters at h
    split at h
    · obtain ⟨rfl, rfl⟩ := by simpa using h
      exact ⟨.byte, rfl, rfl⟩
    · obtain ⟨rfl, rfl⟩ := by simpa using h
      exact ⟨.c, rfl, rfl⟩
    · obtain ⟨rfl, rfl⟩ := by simpa using h
      exact ⟨.text, rfl, rfl⟩
    · simp at h
  · rintro ⟨mark, rfl, rfl⟩
    cases mark <;> rfl

/-- A raw string is found exactly where one starts. -/
theorem rawOpening?_eq_some_iff {opening : List Char} {hashes : Nat} :
    rawOpening? cs = some (opening, hashes, body) ↔
      ∃ mark, opening = rawOpening mark hashes ∧ cs = opening ++ body := by
  constructor
  · intro h
    unfold rawOpening? at h
    split at h
    · simp at h
    · rename_i letters rest hletters
      obtain ⟨mark, rfl, rfl⟩ := rawLetters_eq_some_iff.mp hletters
      simp only at h
      split at h
      · rename_i body' hdrop
        obtain ⟨rfl, rfl, rfl⟩ := by simpa using h
        have hrest := List.takeWhile_append_dropWhile (p := (· == '#')) (l := rest)
        have hhashes : rest.takeWhile (· == '#') =
            List.replicate (rest.takeWhile (· == '#')).length '#' :=
          List.eq_replicate_of_mem fun c hc => by simpa using List.mem_takeWhile_imp hc
        rw [hdrop] at hrest
        refine ⟨mark, ?_, ?_⟩
        · simp [rawOpening, ← hhashes]
        · simp [hrest]
      · simp at h
  · rintro ⟨mark, rfl, rfl⟩
    have hletters : rawLetters (rawOpening mark hashes ++ body) =
        some (mark.chars ++ ['r'], List.replicate hashes '#' ++ '"' :: body) :=
      rawLetters_eq_some_iff.mpr ⟨mark, rfl, by simp [rawOpening]⟩
    rw [rawOpening?, hletters]
    simp [rawOpening]

/-- Without an opening of a raw string none is found. -/
theorem rawOpening?_eq_none (h : ¬ OpensRaw cs) : rawOpening? cs = none := by
  cases hopening : rawOpening? cs with
  | none => rfl
  | some found =>
      obtain ⟨mark, hmark, hcs⟩ := rawOpening?_eq_some_iff.mp hopening
      exact absurd ⟨mark, found.2.1, hmark ▸ hcs ▸ List.prefix_append _ _⟩ h

/-! ## The first lexeme -/

/-- A character of words is not any that is not of words. -/
theorem ne_of_isWordChar {d : Char} (hc : isWordChar c) (hd : isWordChar d = false) : c ≠ d := by
  rintro rfl
  rw [hc] at hd
  exact absurd hd (by decide)

/-- A letter that starts no raw string is read alone. -/
theorem first_wordChar {inWord : Bool} (hc : isWordChar c)
    (h : inWord = false → ¬ OpensRaw (c :: cs)) : first inWord c cs = (.code [c] true, cs) := by
  have hraw : (if inWord then none else rawOpening? (c :: cs)) = none := by
    cases inWord with
    | true => rfl
    | false => exact rawOpening?_eq_none (h rfl)
  have hslash : c ≠ '/' := ne_of_isWordChar hc (by decide)
  rw [first.eq_4 _ _ _ (ne_of_isWordChar hc (by decide)) (fun _ h _ => hslash h)
    (fun _ h _ => hslash h), hraw]
  simp only [if_neg (ne_of_isWordChar hc (d := '\'') (by decide))]
  rw [← isWordChar, hc]

/-- Only a letter starts a raw string. -/
theorem isWordChar_of_opensRaw (h : OpensRaw (c :: cs)) : isWordChar c := by
  obtain ⟨mark, hashes, h⟩ := h
  cases mark with
  | text =>
      rw [← (List.cons_prefix_cons.mp h).1]
      decide
  | byte =>
      rw [← (List.cons_prefix_cons.mp h).1]
      decide
  | c =>
      rw [← (List.cons_prefix_cons.mp h).1]
      decide

/-- A raw string is read from its opening on. -/
theorem first_raw {mark : StringMark} {hashes : Nat}
    (h : c :: cs = rawOpening mark hashes ++ body) :
    first false c cs =
      (.code (rawOpening mark hashes ++ (spanRaw (rawClosing hashes) body).1) false,
        (spanRaw (rawClosing hashes) body).2) := by
  have hc : isWordChar c := isWordChar_of_opensRaw ⟨mark, hashes, h ▸ List.prefix_append _ _⟩
  have hslash : c ≠ '/' := ne_of_isWordChar hc (by decide)
  have hraw := rawOpening?_eq_some_iff.mpr ⟨mark, rfl, h⟩
  rw [first.eq_4 _ _ _ (ne_of_isWordChar hc (by decide)) (fun _ h _ => hslash h)
    (fun _ h _ => hslash h), if_neg Bool.false_ne_true, hraw]
  rfl

/-- A raw string is read whole. -/
theorem first_rawString {mark : StringMark} {hashes : Nat}
    (h : c :: cs = rawOpening mark hashes ++ (body ++ (rawClosing hashes ++ rest)))
    (hbody : ¬ rawClosing hashes <:+: body) :
    first false c cs =
      (.code (rawOpening mark hashes ++ (body ++ rawClosing hashes)) false, rest) := by
  rw [first_raw h, spanRaw_append hbody]

/-- After a quote, what is read is what `spanCharacter` takes. -/
theorem first_quote {inWord : Bool} {taken : List Char} (h : spanCharacter cs = (taken, rest)) :
    first inWord '\'' cs = (.code taken false, rest) := by
  have hraw : (if inWord then none else rawOpening? ('\'' :: cs)) = none := by
    cases inWord <;> rfl
  rw [first.eq_4 _ _ _ (by decide) (fun _ h _ => absurd h (by decide))
    (fun _ h _ => absurd h (by decide)), hraw]
  simp [h]

/-- A character that is part of no longer piece is read alone. -/
theorem first_other (inWord : Bool) (hc : ¬ isWordChar c) (h : ¬ Opens (c :: cs)) :
    first inWord c cs = (.code [c] false, cs) := by
  by_cases hquote : c = '\''
  · subst hquote
    apply first_quote
    apply spanCharacter.eq_3
    · rintro d ds rfl
      exact h (.escaped _)
    · rintro d ds rfl
      exact h (.character _ _)
  · have hraw : (if inWord then none else rawOpening? (c :: cs)) = none := by
      cases inWord with
      | true => rfl
      | false => exact rawOpening?_eq_none fun hopens => hc (isWordChar_of_opensRaw hopens)
    rw [first.eq_4, hraw]
    · simp only [if_neg hquote]
      rw [← isWordChar, Bool.eq_false_iff.mpr hc]
    · rintro rfl
      exact h (.string _)
    · rintro rest rfl rfl
      exact h (.lineComment _)
    · rintro rest rfl rfl
      exact h (.blockComment _)

/-- After a word, a text that does not go on with a letter is read as if it stood alone. -/
theorem first_inWord (inWord : Bool) (hc : ¬ isWordChar c) :
    first inWord c cs = first false c cs := by
  have hraw : rawOpening? (c :: cs) = none :=
    rawOpening?_eq_none fun hopens => hc (isWordChar_of_opensRaw hopens)
  unfold first
  simp only [hraw, ite_self]

end Lexeme

/-! ## Reading a text from a given place -/

/-- The comments of a text that starts at a given place. -/
def commentsAt (place : Position) (inWord : Bool) (cs : List Char) : List Comment :=
  commentsFrom place (lexemes inWord cs)

section

variable {place : Position} {inWord : Bool} {c : Char} {cs rest : List Char}

/-- The scanner takes the first lexeme, and goes on where it ends. -/
theorem commentsAt_cons {lexeme : Lexeme} (h : Lexeme.first inWord c cs = (lexeme, rest)) :
    commentsAt place inWord (c :: cs) = (lexeme.comment? place).toList ++
      commentsAt (place.advanceAll lexeme.chars) lexeme.continuesWord rest := by
  rw [commentsAt, lexemes, h]
  rfl

/-- Text that is no comment is passed over. -/
theorem commentsAt_code {taken : List Char} {after : Bool}
    (h : Lexeme.first inWord c cs = (.code taken after, rest)) :
    commentsAt place inWord (c :: cs) = commentsAt (place.advanceAll taken) after rest :=
  commentsAt_cons h

/-- A text that does not go on with a letter is read as if it stood alone. -/
theorem commentsAt_inWord (h : ∀ c ∈ cs.head?, ¬ isWordChar c) :
    commentsAt place inWord cs = commentsAt place false cs := by
  cases cs with
  | nil => simp [commentsAt, lexemes]
  | cons c cs =>
      have hfirst : Lexeme.first inWord c cs = Lexeme.first false c cs :=
        Lexeme.first_inWord inWord (h c rfl)
      simp only [commentsAt, lexemes, hfirst]

/-- The letters of a word after its first are passed over one by one. -/
theorem commentsAt_letters {letters : List Char} (h : ∀ c ∈ letters, isWordChar c) :
    commentsAt place true (letters ++ rest) =
      commentsAt (place.advanceAll letters) true rest := by
  induction letters generalizing place with
  | nil => rfl
  | cons c letters ih =>
      obtain ⟨hc, hletters⟩ := List.forall_mem_cons.mp h
      rw [List.cons_append, commentsAt_code (Lexeme.first_wordChar hc (by simp)), ih hletters]
      rfl

/-- A word that starts no raw string is passed over. -/
theorem commentsAt_word {letters : List Char} (hne : letters ≠ [])
    (hletters : ∀ c ∈ letters, isWordChar c) (hrest : ∀ c ∈ rest.head?, ¬ isWordChar c)
    (hraw : ¬ OpensRaw (letters ++ rest)) :
    commentsAt place false (letters ++ rest) =
      commentsAt (place.advanceAll letters) false rest := by
  cases letters with
  | nil => exact absurd rfl hne
  | cons c letters =>
      obtain ⟨hc, hletters⟩ := List.forall_mem_cons.mp hletters
      rw [List.cons_append] at hraw ⊢
      rw [commentsAt_code (Lexeme.first_wordChar hc fun _ => hraw), commentsAt_letters hletters,
        commentsAt_inWord hrest]
      rfl

/-- The letter of a literal is passed over as a word of its own. -/
theorem commentsAt_mark {mark : List Char} (hmark : mark = [] ∨ mark = ['b'] ∨ mark = ['c'])
    (hc : ¬ isWordChar c) :
    commentsAt place false (mark ++ c :: cs) =
      commentsAt (place.advanceAll mark) false (c :: cs) := by
  have hhead : ∀ d ∈ (c :: cs).head?, ¬ isWordChar d := by simpa using hc
  have hr : 'r' ≠ c := Lexeme.ne_of_isWordChar (by decide) (Bool.eq_false_iff.mpr hc)
  rcases hmark with rfl | rfl | rfl
  · rfl
  · refine commentsAt_word (by simp) (List.forall_mem_singleton.mpr (by decide)) hhead ?_
    rintro ⟨mark, hashes, h⟩
    cases mark <;> simp [rawOpening, StringMark.chars, hr] at h
  · refine commentsAt_word (by simp) (List.forall_mem_singleton.mpr (by decide)) hhead ?_
    rintro ⟨mark, hashes, h⟩
    cases mark <;> simp [rawOpening, StringMark.chars, hr] at h

end

/-! ## Reading a piece -/

namespace Position

/-- Nothing stands in front of the start. -/
theorem after_nil : after [] = start :=
  rfl

/-- One more character is passed over at the end. -/
theorem advance_after (before : List Char) (c : Char) :
    (after before).advance c = after (before ++ [c]) := by
  unfold advance after
  split_ifs with hc
  · subst hc
    simp
  · simp [hc]

/-- Places that are counted along a text agree with those that are counted from all before. -/
theorem advanceAll_after (before cs : List Char) :
    (after before).advanceAll cs = after (before ++ cs) := by
  induction cs generalizing before with
  | nil => simp
  | cons c cs ih =>
      rw [advanceAll_cons, advance_after, ih, List.append_assoc, List.singleton_append]

end Position

namespace Piece

variable {place : Position} {body rest : List Char}

/-- A run of characters of one class ends where the class does. -/
theorem takeWhile_dropWhile_append {p : Char → Bool} (hbody : ∀ c ∈ body, p c)
    (hrest : ∀ c ∈ rest.head?, ¬ p c) :
    (body ++ rest).takeWhile p = body ∧ (body ++ rest).dropWhile p = rest := by
  rw [List.takeWhile_append_of_pos hbody, List.dropWhile_append_of_pos hbody]
  cases rest with
  | nil => simp
  | cons c rest => simp [hrest c rfl]

/-- A line comment is found at its place, without a carriage return at its end. -/
theorem commentsAt_lineComment (shape : (lineComment body).WellFormed)
    (stops : (lineComment body).StopsBefore rest) :
    commentsAt place false ((lineComment body).chars ++ rest) =
      ⟨.line, String.ofList (body.rdropWhile (· == '\r')), place, place.line⟩ ::
        commentsAt (place.advanceAll (lineComment body).chars) false rest := by
  have hbody : ∀ c ∈ body, (c != '\n') = true := by
    intro c hc
    have : c ≠ '\n' := fun h => shape (h ▸ hc)
    simpa using this
  have hrest : ∀ c ∈ rest.head?, ¬ (c != '\n') = true := by
    intro c hc
    simp [stops c hc]
  obtain ⟨htake, hdrop⟩ := takeWhile_dropWhile_append hbody hrest
  have hfirst : Lexeme.first false '/' ('/' :: (body ++ rest)) = (.lineComment body, rest) := by
    rw [Lexeme.first.eq_1, htake, hdrop]
  exact commentsAt_cons hfirst

/-- A block comment is found at its place, and ends where its closing mark is. -/
theorem commentsAt_blockComment (shape : (blockComment body).WellFormed) :
    commentsAt place false ((blockComment body).chars ++ rest) =
      ⟨.block, String.ofList body, place, (place.advanceAll (blockComment body).chars).line⟩ ::
        commentsAt (place.advanceAll (blockComment body).chars) false rest := by
  obtain ⟨body', hbody', hspan, -⟩ := Lexeme.spanBlock_of_blockText shape
  obtain rfl := List.append_cancel_right hbody'
  have hfirst : Lexeme.first false '/' ('*' :: (body ++ ['*', '/'] ++ rest)) =
      (.blockComment body true, rest) := by
    rw [Lexeme.first.eq_2, hspan]
  exact commentsAt_cons hfirst

/-- Comment marks in a string are passed over. -/
theorem commentsAt_string {mark : StringMark} (shape : (string mark body).WellFormed) :
    commentsAt place false ((string mark body).chars ++ rest) =
      commentsAt (place.advanceAll (string mark body).chars) false rest := by
  have hfirst : Lexeme.first false '"' (body ++ '"' :: rest) =
      (.code ('"' :: (body ++ ['"'])) false, rest) := by
    rw [Lexeme.first.eq_3, Lexeme.spanString_append shape]
  have hmark : mark.chars = [] ∨ mark.chars = ['b'] ∨ mark.chars = ['c'] := by
    cases mark <;> simp [StringMark.chars]
  have hchars : (string mark body).chars ++ rest = mark.chars ++ '"' :: (body ++ '"' :: rest) := by
    simp [chars]
  rw [hchars, commentsAt_mark hmark (by decide), commentsAt_code hfirst,
    ← Position.advanceAll_append]
  rfl

/-- Comment marks in a raw string are passed over. -/
theorem commentsAt_rawString {mark : StringMark} {hashes : Nat}
    (shape : (rawString mark hashes body).WellFormed) :
    commentsAt place false ((rawString mark hashes body).chars ++ rest) =
      commentsAt (place.advanceAll (rawString mark hashes body).chars) false rest := by
  obtain ⟨c, cs, hcs⟩ : ∃ c cs, (rawString mark hashes body).chars ++ rest = c :: cs := by
    cases mark <;> exact ⟨_, _, rfl⟩
  have hchars : c :: cs = rawOpening mark hashes ++ (body ++ (rawClosing hashes ++ rest)) := by
    rw [← hcs]
    simp [chars]
  rw [hcs, commentsAt_code (Lexeme.first_rawString hchars shape)]
  rfl

/-- A literal in single quotes is passed over, its letter first. -/
theorem commentsAt_quoted {byte : Bool} {cs taken : List Char}
    (h : Lexeme.spanCharacter cs = (taken, rest)) :
    commentsAt place false (byteMark byte ++ '\'' :: cs) =
      commentsAt (place.advanceAll (byteMark byte ++ taken)) false rest := by
  have hmark : byteMark byte = [] ∨ byteMark byte = ['b'] ∨ byteMark byte = ['c'] := by
    cases byte <;> simp [byteMark]
  rw [commentsAt_mark hmark (by decide), commentsAt_code (Lexeme.first_quote h),
    ← Position.advanceAll_append]

/-- A quoted character is passed over, a quote or a slash too. -/
theorem commentsAt_character {byte : Bool} {c : Char} (shape : (character byte c).WellFormed) :
    commentsAt place false ((character byte c).chars ++ rest) =
      commentsAt (place.advanceAll (character byte c).chars) false rest := by
  have hspan : Lexeme.spanCharacter (c :: '\'' :: rest) = (['\'', c, '\''], rest) :=
    Lexeme.spanCharacter.eq_2 c rest shape
  have hchars : (character byte c).chars ++ rest = byteMark byte ++ '\'' :: c :: '\'' :: rest := by
    simp [chars]
  rw [hchars, commentsAt_quoted hspan]
  rfl

/-- An escaped character is passed over. -/
theorem commentsAt_escapedCharacter {byte : Bool} {c : Char} {more : List Char}
    (shape : (escapedCharacter byte c more).WellFormed) :
    commentsAt place false ((escapedCharacter byte c more).chars ++ rest) =
      commentsAt (place.advanceAll (escapedCharacter byte c more).chars) false rest := by
  have hspan : Lexeme.spanCharacter ('\\' :: c :: (more ++ '\'' :: rest)) =
      ('\'' :: '\\' :: c :: (more ++ ['\'']), rest) := by
    rw [Lexeme.spanCharacter.eq_1, Lexeme.spanQuote_append shape]
  have hchars : (escapedCharacter byte c more).chars ++ rest =
      byteMark byte ++ '\'' :: '\\' :: c :: (more ++ '\'' :: rest) := by
    simp [chars]
  rw [hchars, commentsAt_quoted hspan]
  rfl

/-- A name that no quote and no hash mark follows starts no raw string. -/
theorem not_opensRaw_name {name : List Char} (hname : ∀ c ∈ name, isWordChar c)
    (hrest : ∀ c ∈ rest.head?, ¬ isWordChar c ∧ c ≠ '"' ∧ c ≠ '#') :
    ¬ OpensRaw (name ++ rest) := by
  rintro ⟨mark, hashes, tail, htail⟩
  have hmark : ∀ c ∈ mark.chars ++ ['r'], isWordChar c := by
    cases mark <;> simp [StringMark.chars] <;> decide
  have hhead : ∀ c ∈ (List.replicate hashes '#' ++ '"' :: tail).head?, ¬ isWordChar c := by
    cases hashes <;> simp [List.replicate_succ] <;> decide
  have hcs : rawOpening mark hashes ++ tail =
      (mark.chars ++ ['r']) ++ (List.replicate hashes '#' ++ '"' :: tail) := by
    simp [rawOpening]
  have hdrop := (takeWhile_dropWhile_append hmark hhead).2
  rw [← hcs, htail, (takeWhile_dropWhile_append hname fun c hc => (hrest c hc).1).2] at hdrop
  subst hdrop
  cases hashes with
  | zero => exact (hrest '"' rfl).2.1 rfl
  | succ hashes => exact (hrest '#' rfl).2.2 rfl

/-- The quote of a lifetime is read alone. -/
theorem spanCharacter_name {name : List Char} (hne : name ≠ []) (hname : ∀ c ∈ name, isWordChar c)
    (hrest : '\'' ∉ rest.head?) :
    Lexeme.spanCharacter (name ++ rest) = (['\''], name ++ rest) := by
  obtain ⟨c, name, rfl⟩ := List.exists_cons_of_ne_nil hne
  obtain ⟨hc, hname⟩ := List.forall_mem_cons.mp hname
  apply Lexeme.spanCharacter.eq_3
  · intro d ds h
    exact Lexeme.ne_of_isWordChar hc (d := '\\') (by decide) (List.cons.inj h).1
  · intro d ds h
    have htail : name ++ rest = '\'' :: ds := (List.cons.inj h).2
    cases name with
    | nil =>
        rw [List.nil_append] at htail
        exact hrest (by simp [htail])
    | cons e name =>
        have he : isWordChar e := hname e (by simp)
        exact Lexeme.ne_of_isWordChar he (d := '\'') (by decide) (List.cons.inj htail).1

/-- A lifetime is passed over, and opens no character. -/
theorem commentsAt_lifetime {name : List Char} (shape : (lifetime name).WellFormed)
    (stops : (lifetime name).StopsBefore rest) :
    commentsAt place false ((lifetime name).chars ++ rest) =
      commentsAt (place.advanceAll (lifetime name).chars) false rest := by
  obtain ⟨hne, hname⟩ := shape
  have hspan : Lexeme.spanCharacter (name ++ rest) = (['\''], name ++ rest) :=
    spanCharacter_name hne hname fun h => (stops _ h).2.1 rfl
  have hraw : ¬ OpensRaw (name ++ rest) :=
    not_opensRaw_name hname fun c hc => ⟨(stops c hc).1, (stops c hc).2.2⟩
  rw [chars, List.cons_append, commentsAt_code (Lexeme.first_quote hspan),
    commentsAt_word hne hname (fun c hc => (stops c hc).1) hraw]
  rfl

/-- A piece is read to its end: if it is a comment it is found, and if not nothing is. -/
theorem commentsAt_chars {piece : Piece} (before : List Char) (shape : piece.WellFormed)
    (stops : piece.StopsBefore rest) :
    commentsAt (.after before) false (piece.chars ++ rest) =
      (piece.comment? before).toList ++ commentsAt (.after (before ++ piece.chars)) false rest := by
  rw [← Position.advanceAll_after]
  cases piece with
  | lineComment body => exact commentsAt_lineComment shape stops
  | blockComment body =>
      have hline : (Position.after (before ++ '/' :: '*' :: body)).line =
          ((Position.after before).advanceAll (blockComment body).chars).line := by
        rw [Position.advanceAll_after]
        simp [Position.after, chars]
      rw [commentsAt_blockComment shape, comment?, hline]
      rfl
  | string mark body => exact commentsAt_string shape
  | rawString mark hashes body => exact commentsAt_rawString shape
  | character byte c => exact commentsAt_character shape
  | escapedCharacter byte c more => exact commentsAt_escapedCharacter shape
  | lifetime name => exact commentsAt_lifetime shape stops
  | word letters => exact commentsAt_word shape.1 shape.2 stops.1 stops.2
  | other c => exact commentsAt_code (Lexeme.first_other false shape stops)

/-- A cut text is read piece by piece. -/
theorem Cut.commentsAt_text {pieces : List Piece} (h : Cut pieces) (before : List Char) :
    commentsAt (.after before) false (text pieces) = commentsAfter before pieces := by
  induction h generalizing before with
  | nil => simp [text, commentsAt, lexemes, commentsFrom, commentsAfter]
  | @cons piece rest shape stops hrest ih =>
      have htext : text (piece :: rest) = piece.chars ++ text rest := by
        simp [text]
      rw [htext, commentsAt_chars before shape stops, ih, commentsAfter]

end Piece

/-- In a text that is cut into well-formed pieces, the comments found are exactly its comment
pieces, in order and with their kinds, texts and places. -/
theorem comments_of_cut {pieces : List Piece} (h : Piece.Cut pieces) :
    comments (String.ofList (Piece.text pieces)) = Piece.commentsAfter [] pieces := by
  rw [comments, String.toList_ofList, ← Position.after_nil]
  exact h.commentsAt_text []

/-- Pieces that all hold a mark of another one: the text is
`'a br#""//"#'"'// c`, a carriage return and a line end, `/*/*b*/`, a line end, and then
`**/bar"\"/*"b'\''`. -/
def Piece.sample : List Piece :=
  [.lifetime ['a'], .other ' ', .rawString .byte 1 ['"', '/', '/'], .character false '"',
    .lineComment [' ', 'c', '\r'], .other '\n',
    .blockComment ['/', '*', 'b', '*', '/', '\n', '*'], .word ['b', 'a', 'r'],
    .string .text ['\\', '"', '/', '*'], .escapedCharacter true '\'' []]

/-- The pieces of the sample can stand one after another. -/
theorem Piece.cut_sample : Cut sample := by
  have hinner : BlockText ['b', '*', '/'] := .char (by decide) (by decide) .close
  have hblock : BlockText ('/' :: '*' :: (['b', '*', '/'] ++ ['\n', '*', '*', '/'])) :=
    .nest hinner (.char (by decide) (by decide) (.char (by decide) (by decide) .close))
  have hbody : StringBody ['\\', '"', '/', '*'] :=
    .escape _ (.plain (by decide) (by decide) (.plain (by decide) (by decide) .nil))
  have hbar : ∀ c ∈ ['b', 'a', 'r'], isWordChar c := by
    simp only [List.forall_mem_cons]
    exact ⟨by decide, by decide, by decide, nofun⟩
  have hother {c : Char} {rest : List Char} (hc : c = ' ' ∨ c = '\n') : ¬ Opens (c :: rest) := by
    rcases hc with rfl | rfl <;> nofun
  refine .cons ⟨by simp, List.forall_mem_singleton.mpr (by decide)⟩ (fun c hc => ?_) ?_
  · obtain rfl : ' ' = c := Option.some.inj hc
    decide
  refine .cons (show ¬ isWordChar ' ' by decide) (hother (.inl rfl)) ?_
  refine .cons (show ¬ rawClosing 1 <:+: ['"', '/', '/'] by decide) trivial ?_
  refine .cons (show '"' ≠ '\\' by decide) trivial ?_
  refine .cons (show '\n' ∉ [' ', 'c', '\r'] by decide) (fun c hc => (Option.some.inj hc).symm) ?_
  refine .cons (show ¬ isWordChar '\n' by decide) (hother (.inr rfl)) ?_
  refine .cons hblock trivial ?_
  refine .cons ⟨by simp, hbar⟩ ⟨fun c hc => ?_, ?_⟩ ?_
  · obtain rfl : '"' = c := Option.some.inj hc
    decide
  · rintro ⟨mark, hashes, h⟩
    cases mark <;> simp [rawOpening, StringMark.chars] at h
  refine .cons hbody trivial ?_
  exact .cons (fun c hc => absurd hc (by simp)) trivial .nil

/-- In the sample text two comments are found, and none of the marks inside other pieces. -/
theorem comments_of_cut_sample :
    Piece.Cut Piece.sample ∧ comments (String.ofList (Piece.text Piece.sample)) =
      [⟨.line, " c", ⟨1, 16⟩, 1⟩, ⟨.block, "/*b*/\n*", ⟨2, 1⟩, 3⟩] :=
  ⟨Piece.cut_sample, (comments_of_cut Piece.cut_sample).trans (by decide)⟩

end SchemaLint

import SchemaLint.Proofs.Span
import SchemaLint.Proofs.Suppression

/-!
# A first line that is no code

A first line that names an interpreter is left out when tokens are read, but comments are read in
the whole text.  The line is passed over like any other, so most such lines only move the comments
of the text by one line.  A comment mark in the line, or a quote that is still open at its end, does
more: what is behind the line is then read as if it were inside something else.

* `Undisturbed`: a line only moves the comments of the text behind it.
* `ReadApart`: a line is read to its end as code, and what is behind it is read for itself.
* `Lexeme.LineStep`, `Lexeme.lineStep`: what the first lexeme of a line can be.
* **`first_line_undisturbed`**: a line disturbs no text exactly if it is read apart.
-/

namespace SchemaLint

/-! ## One lexeme of a line -/

/-- What a span takes ends on a line, and does not depend on what is behind the line. -/
def EndsOn (span : List Char → List Char × List Char) (line : List Char) : Prop :=
  ∃ taken rest, line = taken ++ rest ∧
    ∀ text, span (line ++ '\n' :: text) = (taken, rest ++ '\n' :: text)

/-- A character that is taken in front of a line changes nothing. -/
theorem EndsOn.cons {span : List Char → List Char × List Char} {line : List Char} (c : Char)
    (hspan : ∀ text, span (c :: line ++ '\n' :: text) =
      (c :: (span (line ++ '\n' :: text)).1, (span (line ++ '\n' :: text)).2))
    (h : EndsOn span line) : EndsOn span (c :: line) := by
  obtain ⟨taken, rest, rfl, htext⟩ := h
  refine ⟨c :: taken, rest, rfl, fun text => ?_⟩
  rw [hspan, htext]

/-- A mark without line feeds does not reach behind the line it begins on. -/
theorem prefix_line_iff {mark line text : List Char} (hmark : '\n' ∉ mark) :
    mark <+: line ++ '\n' :: text ↔ mark <+: line := by
  constructor
  · intro h
    rcases List.prefix_or_prefix_of_prefix h (List.prefix_append line _) with hin | ⟨more, rfl⟩
    · exact hin
    · rw [List.prefix_append_right_inj] at h
      cases more with
      | nil => rw [List.append_nil]
      | cons d more =>
          obtain rfl := (List.cons_prefix_cons.mp h).1
          exact absurd (List.mem_append_right line List.mem_cons_self) hmark
  · intro h
    exact h.trans (List.prefix_append ..)

namespace Lexeme

variable {inWord : Bool} {c : Char} {cs line : List Char}

/-- A string without a closing quote goes to the end. -/
theorem spanString_eq_self (h : '"' ∉ cs) : spanString cs = (cs, []) := by
  fun_induction spanString cs <;> simp_all

/-- A string is closed on its line, or goes on behind it. -/
theorem spanString_line (line : List Char) :
    EndsOn spanString line ∨
      ∀ text, '"' ∉ text → spanString (line ++ '\n' :: text) = (line ++ '\n' :: text, []) := by
  induction line using spanString.induct with
  | case1 => exact .inr fun text htext => spanString_eq_self (by simpa using htext)
  | case2 line => exact .inl ⟨['"'], line, rfl, fun text => spanString.eq_2 _⟩
  | case3 c line taken rest hspan ih =>
      have hcons : ∀ cs, spanString ('\\' :: c :: line ++ cs) =
          ('\\' :: c :: (spanString (line ++ cs)).1, (spanString (line ++ cs)).2) :=
        fun cs => spanString.eq_3 ..
      rcases ih with ⟨taken, rest, rfl, htext⟩ | hopen
      · refine .inl ⟨'\\' :: c :: taken, rest, rfl, fun text => ?_⟩
        rw [hcons, htext]
      · refine .inr fun text htext => ?_
        rw [hcons, hopen text htext]
        rfl
  | case4 c line hquote hescape taken rest hspan ih =>
      by_cases hlast : c = '\\'
      · subst hlast
        have hnil : line = [] := by
          cases line with
          | nil => rfl
          | cons d line => exact absurd rfl (hescape d line rfl)
        subst hnil
        exact .inr fun text htext => spanString_eq_self (by simpa using htext)
      · have hcons : ∀ cs, spanString (c :: line ++ cs) =
            (c :: (spanString (line ++ cs)).1, (spanString (line ++ cs)).2) :=
          fun cs => spanString.eq_4 _ _ hquote fun _ _ h _ => hlast h
        apply ih.imp (EndsOn.cons c fun text => hcons _)
        intro hopen text htext
        rw [hcons, hopen text htext]
        rfl

/-- A raw string without its closing mark goes to the end. -/
theorem spanRaw_eq_self {closing : List Char} (h : ¬ closing <:+: cs) :
    spanRaw closing cs = (cs, []) := by
  induction cs with
  | nil => rfl
  | cons c cs ih =>
      have hfirst : ¬ closing <+: c :: cs := fun hmark => h hmark.isInfix
      rw [spanRaw, if_neg (by simpa using hfirst),
        ih fun hin => h (hin.trans (List.suffix_cons c cs).isInfix)]

/-- A raw string is closed on its line, or goes on behind it. -/
theorem spanRaw_line (hashes : Nat) (line : List Char) :
    EndsOn (spanRaw (rawClosing hashes)) line ∨ ∀ text, '"' ∉ text →
      spanRaw (rawClosing hashes) (line ++ '\n' :: text) = (line ++ '\n' :: text, []) := by
  have hfeed : '\n' ∉ rawClosing hashes := by simp [rawClosing]
  induction line with
  | nil =>
      refine .inr fun text htext => spanRaw_eq_self fun hmark => ?_
      have hquote : '"' ∈ '\n' :: text := hmark.subset List.mem_cons_self
      simp [htext] at hquote
  | cons c line ih =>
      by_cases hmark : rawClosing hashes <+: c :: line
      · obtain ⟨rest, hrest⟩ := hmark
        refine .inl ⟨rawClosing hashes, rest, hrest.symm, fun text => ?_⟩
        have hnil : ¬ rawClosing hashes <:+: [] := by simp [rawClosing]
        rw [← hrest, List.append_assoc]
        exact spanRaw_append hnil (rest ++ '\n' :: text)
      · have hcons : ∀ text, spanRaw (rawClosing hashes) (c :: line ++ '\n' :: text) =
            (c :: (spanRaw (rawClosing hashes) (line ++ '\n' :: text)).1,
              (spanRaw (rawClosing hashes) (line ++ '\n' :: text)).2) := by
          intro text
          have hno : ¬ rawClosing hashes <+: c :: line ++ '\n' :: text :=
            (prefix_line_iff hfeed).not.mpr hmark
          rw [List.cons_append] at hno ⊢
          rw [spanRaw, if_neg (by simpa using hno)]
        apply ih.imp (EndsOn.cons c hcons)
        intro hopen text htext
        rw [hcons, hopen text htext]
        rfl

/-- A quote is closed on its line, or taken up to the end of the line. -/
theorem spanQuote_line (line : List Char) :
    EndsOn spanQuote line ∨
      ∀ text, spanQuote (line ++ '\n' :: text) = (line ++ ['\n'], text) := by
  induction line with
  | nil => exact .inr fun text => by simp [spanQuote]
  | cons c line ih =>
      by_cases hc : c = '\'' ∨ c = '\n'
      · refine .inl ⟨[c], line, rfl, fun text => ?_⟩
        rw [List.cons_append, spanQuote, if_pos hc]
      · have hcons : ∀ cs, spanQuote (c :: line ++ cs) =
            (c :: (spanQuote (line ++ cs)).1, (spanQuote (line ++ cs)).2) := by
          intro cs
          rw [List.cons_append, spanQuote, if_neg hc]
        apply ih.imp (EndsOn.cons c fun text => hcons _)
        intro hopen text
        rw [hcons, hopen text]
        rfl

/-- What the first lexeme of a line is, whatever is behind the line. -/
inductive LineStep (inWord : Bool) (c : Char) (line : List Char) : Prop
  /-- Code that ends on the line. -/
  | within (taken rest : List Char) (after : Bool) (hne : taken ≠ [])
      (hline : c :: line = taken ++ rest)
      (h : ∀ text,
        first inWord c (line ++ '\n' :: text) = (.code taken after, rest ++ '\n' :: text))
  /-- Code that ends with the line. -/
  | through (h : ∀ text, first inWord c (line ++ '\n' :: text) =
      (.code (c :: (line ++ ['\n'])) false, text))
  /-- A comment. -/
  | comment (hmark : BeginsComment (c :: line))
      (h : ∀ text place, ∃ found,
        (first inWord c (line ++ '\n' :: text)).1.comment? place = some found)
  /-- Something that takes what is behind the line too, where nothing closes it. -/
  | past (hquote : HoldsQuote (c :: line)) (h : ∀ text, text = ['/', '/'] ∨ text = ['\''] →
      first inWord c (line ++ '\n' :: text) = (.code (c :: (line ++ '\n' :: text)) false, []))
  /-- A quote at the end of the line. -/
  | quote (hc : c = '\'') (hline : line = [])

/-- A character that begins nothing longer is read alone. -/
theorem first_alone (hstring : c ≠ '"') (hquote : c ≠ '\'') (hmark : ¬ BeginsComment (c :: cs))
    (hraw : inWord = false → ¬ OpensRaw (c :: cs)) :
    first inWord c cs = (.code [c] (isWordChar c), cs) := by
  have hnone : (if inWord then none else rawOpening? (c :: cs)) = none := by
    cases inWord with
    | true => rfl
    | false => exact rawOpening?_eq_none (hraw rfl)
  rw [first.eq_4, hnone]
  · simp only [if_neg hquote]
    rw [isWordChar]
  · exact hstring
  · rintro rest rfl rfl
    exact hmark ⟨.line, rest, rfl⟩
  · rintro rest rfl rfl
    exact hmark ⟨.block, rest, rfl⟩

/-- What a comment mark begins is a comment. -/
theorem exists_comment?_first {cs : List Char} (h : BeginsComment (c :: cs)) (place : Position) :
    ∃ found, (first inWord c cs).1.comment? place = some found := by
  obtain ⟨kind, rest, hrest⟩ := h
  cases kind with
  | line =>
      cases hrest
      exact ⟨_, rfl⟩
  | block =>
      cases hrest
      exact ⟨_, rfl⟩

/-- A quote on the line is read apart from what follows, unless its string goes on below. -/
theorem lineStep_string (line : List Char) : LineStep inWord '"' line := by
  rcases spanString_line line with ⟨taken, rest, rfl, htext⟩ | hopen
  · refine .within ('"' :: taken) rest false (List.cons_ne_nil _ taken) rfl fun text => ?_
    rw [first.eq_3, htext]
  · refine .past (.inl List.mem_cons_self) fun text htext => ?_
    have hquote : '"' ∉ text := by
      rcases htext with rfl | rfl <;> decide
    rw [first.eq_3, hopen text hquote]

/-- So it is with a raw string on the line. -/
theorem lineStep_raw {mark : StringMark} {hashes : Nat} {body : List Char}
    (h : c :: line = rawOpening mark hashes ++ body) : LineStep false c line := by
  have hfirst (text : List Char) : c :: (line ++ '\n' :: text) =
      rawOpening mark hashes ++ (body ++ '\n' :: text) := by
    rw [← List.cons_append, h, List.append_assoc]
  have hquote : '"' ∈ rawOpening mark hashes := by simp [rawOpening]
  rcases spanRaw_line hashes body with ⟨taken, rest, rfl, htext⟩ | hopen
  · refine .within (rawOpening mark hashes ++ taken) rest false ?_ ?_ fun text => ?_
    · exact List.append_ne_nil_of_left_ne_nil (List.ne_nil_of_mem hquote) taken
    · rw [h, List.append_assoc]
    · rw [first_raw (hfirst text), htext]
  · refine .past (.inl (h ▸ List.mem_append_left body hquote)) fun text htext => ?_
    have hnone : '"' ∉ text := by
      rcases htext with rfl | rfl <;> decide
    rw [first_raw (hfirst text), hopen text hnone, ← hfirst]

/-- An apostrophe opens a character or not by what the line has behind it; only at the end of the
line it is open what follows. -/
theorem lineStep_quote (line : List Char) : LineStep inWord '\'' line := by
  -- what is taken of the line, when the line feed does not matter
  have hwithin (taken rest : List Char) (hline : '\'' :: line = taken ++ rest) (hne : taken ≠ [])
      (h : ∀ text, spanCharacter (line ++ '\n' :: text) = (taken, rest ++ '\n' :: text)) :
      LineStep inWord '\'' line :=
    .within taken rest false hne hline fun text => first_quote (h text)
  rcases line with _ | ⟨c, line⟩
  · exact .quote rfl rfl
  by_cases hescape : c = '\\'
  · subst hescape
    rcases line with _ | ⟨d, line⟩
    · refine .past (.inr List.mem_cons_self) fun text htext => first_quote ?_
      rcases htext with rfl | rfl <;> rfl
    have hspan (text : List Char) : spanCharacter ('\\' :: d :: line ++ '\n' :: text) =
        ('\'' :: '\\' :: d :: (spanQuote (line ++ '\n' :: text)).1,
          (spanQuote (line ++ '\n' :: text)).2) := rfl
    rcases spanQuote_line line with ⟨taken, rest, rfl, htext⟩ | hopen
    · apply hwithin ('\'' :: '\\' :: d :: taken) rest rfl (List.cons_ne_nil _ _)
      intro text
      rw [hspan, htext]
    · refine .through fun text => first_quote ?_
      rw [hspan, hopen]
      rfl
  · by_cases hclosed : ∃ rest, line = '\'' :: rest
    · obtain ⟨rest, rfl⟩ := hclosed
      apply hwithin ['\'', c, '\''] rest rfl (List.cons_ne_nil _ _)
      intro text
      exact spanCharacter.eq_2 c (rest ++ '\n' :: text) hescape
    · apply hwithin ['\''] (c :: line) rfl (List.cons_ne_nil _ _)
      intro text
      apply spanCharacter.eq_3
      · intro d ds h
        exact hescape (List.cons.inj h).1
      · intro d ds h
        have htail := (List.cons.inj h).2
        cases line with
        | nil => cases htail
        | cons e line => 
            obtain rfl := (List.cons.inj htail).1
            exact hclosed ⟨line, rfl⟩

/-- Whether a comment begins is decided on the line. -/
theorem beginsComment_line_iff {text : List Char} :
    BeginsComment (c :: (line ++ '\n' :: text)) ↔ BeginsComment (c :: line) := by
  rw [← List.cons_append]
  apply exists_congr
  intro kind
  apply prefix_line_iff
  cases kind <;> decide

/-- Whether a raw string opens is decided on the line. -/
theorem opensRaw_line_iff {text : List Char} :
    OpensRaw (c :: (line ++ '\n' :: text)) ↔ OpensRaw (c :: line) := by
  rw [← List.cons_append]
  apply exists_congr
  intro mark
  apply exists_congr
  intro hashes
  apply prefix_line_iff
  cases mark <;> simp [rawOpening, StringMark.chars]

/-- **The first lexeme of a line.** -/
theorem lineStep (inWord : Bool) (c : Char) (line : List Char) : LineStep inWord c line := by
  by_cases hstring : c = '"'
  · exact hstring ▸ lineStep_string line
  by_cases hquote : c = '\''
  · exact hquote ▸ lineStep_quote line
  by_cases hmark : BeginsComment (c :: line)
  · exact .comment hmark fun text place =>
      exists_comment?_first (beginsComment_line_iff.mpr hmark) place
  by_cases hraw : inWord = false ∧ OpensRaw (c :: line)
  · obtain ⟨rfl, mark, hashes, body, hbody⟩ := hraw
    exact lineStep_raw hbody.symm
  · refine .within [c] line (isWordChar c) (List.cons_ne_nil _ _) rfl fun text => ?_
    exact first_alone hstring hquote (beginsComment_line_iff.not.mpr hmark)
      fun hword => opensRaw_line_iff.not.mpr fun hopens => hraw ⟨hword, hopens⟩

end Lexeme

/-! ## The whole line -/

/-- A line is read to its end as code: no comment begins in it, and a quote behind it is read for
itself. -/
def ReadApart (inWord : Bool) (line : List Char) : Prop :=
  ∃ before, lexemes inWord (line ++ ['\n', '\'']) = before ++ [.code ['\''] false] ∧
    ∀ lexeme ∈ before, lexeme.comment? .start = none

/-- The comments of a text behind a line are those that the text has at the start of the next
line. -/
def PassesOver (place : Position) (inWord : Bool) (line : List Char) : Prop :=
  ∀ text, commentsAt place inWord (line ++ '\n' :: text) =
    commentsAt ⟨place.line + 1, 1⟩ false text

/-- Without a line break the line stays the same. -/
theorem Position.advanceAll_line {cs : List Char} (h : '\n' ∉ cs) (p : Position) :
    (p.advanceAll cs).line = p.line := by
  induction cs generalizing p with
  | nil => rfl
  | cons c cs ih =>
      have hc : c ≠ '\n' := fun hc => h (hc ▸ List.mem_cons_self)
      rw [advanceAll_cons, ih fun hmem => h (List.mem_cons_of_mem c hmem), advance, if_neg hc]

/-- The place behind a line. -/
theorem Position.advanceAll_feed {cs : List Char} (h : '\n' ∉ cs) (p : Position) :
    p.advanceAll (cs ++ ['\n']) = ⟨p.line + 1, 1⟩ := by
  rw [advanceAll_append, advanceAll_cons, advanceAll_nil, advance, if_pos rfl, advanceAll_line h]

section

variable {place : Position} {inWord after : Bool} {c : Char} {line taken rest cs : List Char}

/-- The lexemes of a text are the first one and those of what it leaves. -/
theorem lexemes_cons {lexeme : Lexeme} (h : Lexeme.first inWord c cs = (lexeme, rest)) :
    lexemes inWord (c :: cs) = lexeme :: lexemes lexeme.continuesWord rest := by
  rw [lexemes, h]

/-- A text that is not empty has a lexeme. -/
theorem lexemes_ne_nil (h : cs ≠ []) : lexemes inWord cs ≠ [] := by
  intro hnil
  apply h
  rw [← flatMap_chars_lexemes inWord cs, hnil, List.flatMap_nil]

/-- What is left behind a lexeme on the line is shorter. -/
theorem length_lt_of_within (hne : taken ≠ []) (hsplit : c :: line = taken ++ rest) :
    rest.length < (c :: line).length := by
  have hpos := List.length_pos_iff.mpr hne
  rw [hsplit, List.length_append]
  omega

/-- The end of the line. -/
theorem first_feed (inWord : Bool) (text : List Char) :
    Lexeme.first inWord '\n' text = (.code ['\n'] false, text) :=
  Lexeme.first_alone (by decide) (by decide) (fun h => absurd h.head (by decide))
    fun _ h => absurd (Lexeme.isWordChar_of_opensRaw h) (by decide)

/-- A quote that is all of a text is read alone. -/
theorem lexemes_quote : lexemes false ['\''] = [.code ['\''] false] := by
  rw [lexemes_cons (Lexeme.first_quote rfl), lexemes]

/-- An empty line is read apart from what follows. -/
theorem readApart_nil : ReadApart inWord [] := by
  refine ⟨[.code ['\n'] false], ?_, List.forall_mem_singleton.mpr rfl⟩
  rw [List.nil_append, lexemes_cons (first_feed inWord _)]
  exact congrArg _ lexemes_quote

/-- An empty line is passed over. -/
theorem passesOver_nil : PassesOver place inWord [] := by
  intro text
  rw [List.nil_append, commentsAt_code (first_feed inWord text)]
  rfl

/-- Code that ends on a line may be left out. -/
theorem readApart_within (h : Lexeme.first inWord c (line ++ ['\n', '\'']) =
    (.code taken after, rest ++ ['\n', '\''])) :
    ReadApart inWord (c :: line) ↔ ReadApart after rest := by
  have hlexemes : lexemes inWord (c :: line ++ ['\n', '\'']) =
      .code taken after :: lexemes after (rest ++ ['\n', '\'']) := lexemes_cons h
  unfold ReadApart
  rw [hlexemes]
  constructor
  · rintro ⟨before, hbefore, hcode⟩
    cases before with
    | nil => exact absurd (List.cons.inj hbefore).2 (lexemes_ne_nil (by simp))
    | cons lexeme before =>
        exact ⟨before, (List.cons.inj hbefore).2, fun l hl => hcode l (List.mem_cons_of_mem _ hl)⟩
  · rintro ⟨before, hbefore, hcode⟩
    refine ⟨.code taken after :: before, ?_, List.forall_mem_cons.mpr ⟨rfl, hcode⟩⟩
    rw [hbefore, List.cons_append]

/-- A lexeme on the line is passed over if the rest of the line is. -/
theorem passesOver_within (htaken : '\n' ∉ taken) (h : ∀ text,
      Lexeme.first inWord c (line ++ '\n' :: text) = (.code taken after, rest ++ '\n' :: text)) :
    PassesOver place inWord (c :: line) ↔ PassesOver (place.advanceAll taken) after rest := by
  unfold PassesOver
  rw [Position.advanceAll_line htaken]
  apply forall_congr'
  intro text
  rw [List.cons_append, commentsAt_code (h text)]

/-- A lexeme that takes the whole line with its break is read apart from what follows. -/
theorem readApart_through (h : Lexeme.first inWord c (line ++ ['\n', '\'']) =
    (.code (c :: (line ++ ['\n'])) false, ['\''])) : ReadApart inWord (c :: line) := by
  refine ⟨[.code (c :: (line ++ ['\n'])) false], ?_, List.forall_mem_singleton.mpr rfl⟩
  rw [List.cons_append, lexemes_cons h]
  exact congrArg _ lexemes_quote

/-- A lexeme that takes the whole line with its break is passed over. -/
theorem passesOver_through (hline : '\n' ∉ c :: line) (h : ∀ text,
      Lexeme.first inWord c (line ++ '\n' :: text) = (.code (c :: (line ++ ['\n'])) false, text)) :
    PassesOver place inWord (c :: line) := by
  intro text
  rw [List.cons_append, commentsAt_code (h text), ← List.cons_append,
    Position.advanceAll_feed hline]

/-- A line that begins with a comment is not read apart. -/
theorem not_readApart_comment {lexeme : Lexeme} {found : Comment}
    (h : Lexeme.first inWord c (line ++ ['\n', '\'']) = (lexeme, rest))
    (hfound : lexeme.comment? .start = some found) : ¬ ReadApart inWord (c :: line) := by
  rintro ⟨before, hbefore, hcode⟩
  rw [List.cons_append, lexemes_cons h] at hbefore
  cases before with
  | nil =>
      obtain rfl := (List.cons.inj hbefore).1
      cases hfound
  | cons l before =>
      obtain rfl := (List.cons.inj hbefore).1
      rw [hcode _ List.mem_cons_self] at hfound
      cases hfound

/-- A comment that begins on a line is found whatever is behind the line. -/
theorem not_passesOver_comment {lexeme : Lexeme} {found : Comment}
    (h : Lexeme.first inWord c (line ++ ['\n']) = (lexeme, rest))
    (hfound : lexeme.comment? place = some found) : ¬ PassesOver place inWord (c :: line) := by
  intro hpasses
  have hnone := hpasses []
  rw [List.cons_append, commentsAt_cons h, hfound] at hnone
  simp [commentsAt, lexemes, commentsFrom] at hnone

/-- What goes on behind the line takes the quote there with it. -/
theorem not_readApart_past
    (h : Lexeme.first inWord c (line ++ ['\n', '\'']) = (.code taken after, [])) :
    ¬ ReadApart inWord (c :: line) := by
  rintro ⟨before, hbefore, -⟩
  have hchars := Lexeme.chars_first inWord c (line ++ ['\n', '\''])
  rw [h] at hchars
  rw [List.cons_append, lexemes_cons h, lexemes] at hbefore
  cases before with
  | nil =>
      cases hbefore
      simp [Lexeme.chars] at hchars
  | cons l before => simp at hbefore

/-- A comment mark at the end of a text is found, if it is read. -/
theorem commentsAt_nil_ne_slashes (place place' : Position) (after : Bool) :
    commentsAt place after [] ≠ commentsAt place' false ['/', '/'] := by
  have hslashes : Lexeme.first false '/' ['/'] = (.lineComment [], []) := rfl
  rw [commentsAt_cons hslashes]
  simp [commentsAt, lexemes, commentsFrom, Lexeme.comment?]

/-- What goes on behind the line hides a comment there. -/
theorem not_passesOver_past
    (h : Lexeme.first inWord c (line ++ ['\n', '/', '/']) = (.code taken after, [])) :
    ¬ PassesOver place inWord (c :: line) := by
  intro hpasses
  have hnone := hpasses ['/', '/']
  rw [List.cons_append, commentsAt_code h] at hnone
  exact commentsAt_nil_ne_slashes _ _ _ hnone

/-- A quote at the end of a line makes a literal of the line feed and a quote behind it, so that a
quoted quotation mark opens a string. -/
theorem not_passesOver_quote : ¬ PassesOver place inWord ['\''] := by
  intro hpasses
  have hfeed : Lexeme.first inWord '\'' ('\n' :: '\'' :: ['"', '\'', '/', '/']) =
      (.code ['\'', '\n', '\''] false, ['"', '\'', '/', '/']) := Lexeme.first_quote rfl
  have hstring : Lexeme.first false '"' ['\'', '/', '/'] =
      (.code ['"', '\'', '/', '/'] false, []) := rfl
  have hliteral : Lexeme.first false '\'' ['"', '\'', '/', '/'] =
      (.code ['\'', '"', '\''] false, ['/', '/']) := rfl
  have hnone := hpasses ['\'', '"', '\'', '/', '/']
  rw [List.cons_append, List.nil_append, commentsAt_code hfeed, commentsAt_code hstring,
    commentsAt_code hliteral] at hnone
  exact commentsAt_nil_ne_slashes _ _ _ hnone

/-- **A line is passed over exactly if it is read apart**: by induction on the line, whose first
lexeme ends on it, or decides. -/
theorem readApart_iff_passesOver (place : Position) (inWord : Bool) {line : List Char}
    (hline : '\n' ∉ line) : ReadApart inWord line ↔ PassesOver place inWord line := by
  induction hlength : line.length using Nat.strongRecOn generalizing place inWord line with
  | _ length ih =>
      subst hlength
      cases line with
      | nil => exact iff_of_true readApart_nil passesOver_nil
      | cons c line =>
          cases Lexeme.lineStep inWord c line with
          | within taken rest after hne hsplit h =>
              have hshorter := length_lt_of_within hne hsplit
              rw [hsplit, List.mem_append, not_or] at hline
              rw [readApart_within (h ['\'']), passesOver_within hline.1 h]
              exact ih _ hshorter _ _ hline.2 rfl
          | through h =>
              exact iff_of_true (readApart_through (h ['\''])) (passesOver_through hline h)
          | comment hmark h =>
              obtain ⟨found, hfound⟩ := h ['\''] .start
              obtain ⟨found', hfound'⟩ := h [] place
              exact iff_of_false (not_readApart_comment (Prod.mk.eta).symm hfound)
                (not_passesOver_comment (Prod.mk.eta).symm hfound')
          | past hquote h =>
              exact iff_of_false (not_readApart_past (h _ (.inr rfl)))
                (not_passesOver_past (h _ (.inl rfl)))
          | quote hc hnil =>
              subst hc hnil
              exact iff_of_false (not_readApart_past (Lexeme.first_quote rfl)) not_passesOver_quote

/-- A line without quotes and comment marks is read apart. -/
theorem readApart_of_plain (inWord : Bool) {line : List Char} (hquote : ¬ HoldsQuote line)
    (hmark : ∀ back, back <:+ line → ¬ BeginsComment back) : ReadApart inWord line := by
  induction hlength : line.length using Nat.strongRecOn generalizing inWord line with
  | _ length ih =>
      subst hlength
      cases line with
      | nil => exact readApart_nil
      | cons c line =>
          cases Lexeme.lineStep inWord c line with
          | within taken rest after hne hsplit h =>
              have hshorter := length_lt_of_within hne hsplit
              rw [hsplit] at hquote hmark
              rw [readApart_within (h ['\''])]
              apply ih _ hshorter _ _ _ rfl
              · intro hrest
                exact hquote (hrest.imp (List.mem_append_right taken) (List.mem_append_right taken))
              · intro back hback
                exact hmark back (hback.trans (List.suffix_append taken rest))
          | through h => exact readApart_through (h ['\''])
          | comment hbegins h => exact absurd hbegins (hmark _ List.suffix_rfl)
          | past hholds h => exact absurd hholds hquote
          | quote hc hnil =>
              subst hc
              exact absurd (.inr List.mem_cons_self) hquote

end

/-! ## Moving the comments of a text -/

/-- The same column on the next line. -/
def Position.nextLine (p : Position) : Position :=
  ⟨p.line + 1, p.column⟩

/-- The same comment one line further. -/
def Comment.nextLine (c : Comment) : Comment :=
  { c with position := c.position.nextLine, endLine := c.endLine + 1 }

/-- A line in front of a text moves the comments of the text by one line, and does nothing else. -/
def Undisturbed (line text : String) : Prop :=
  comments (line ++ "\n" ++ text) = (comments text).map Comment.nextLine

instance (line text : String) : Decidable (Undisturbed line text) :=
  inferInstanceAs (Decidable (_ = _))

/-- A text one line further down ends one line further down. -/
theorem Position.advanceAll_nextLine (p : Position) (cs : List Char) :
    p.nextLine.advanceAll cs = (p.advanceAll cs).nextLine := by
  induction cs generalizing p with
  | nil => rfl
  | cons c cs ih =>
      have hadvance : p.nextLine.advance c = (p.advance c).nextLine := by
        unfold advance
        split_ifs <;> rfl
      rw [advanceAll_cons, advanceAll_cons, hadvance, ih]

/-- A comment one line further down is the same comment, moved. -/
theorem Lexeme.comment?_nextLine (place : Position) (lexeme : Lexeme) :
    lexeme.comment? place.nextLine = (lexeme.comment? place).map Comment.nextLine := by
  cases lexeme with
  | lineComment body => rfl
  | blockComment body closed =>
      rw [comment?, Position.advanceAll_nextLine]
      rfl
  | code text after => rfl

/-- All comments of a text one line further down are moved. -/
theorem commentsFrom_nextLine (place : Position) (lexemes : List Lexeme) :
    commentsFrom place.nextLine lexemes = (commentsFrom place lexemes).map Comment.nextLine := by
  induction lexemes generalizing place with
  | nil => rfl
  | cons lexeme lexemes ih =>
      rw [commentsFrom, commentsFrom, Position.advanceAll_nextLine, ih, Lexeme.comment?_nextLine,
        List.map_append]
      cases lexeme.comment? place <;> rfl

/-- A line moves comments exactly if the scanner stands at the start of the next one after it. -/
theorem undisturbed_iff {line text : String} :
    Undisturbed line text ↔ commentsAt .start false (line.toList ++ '\n' :: text.toList) =
      commentsAt ⟨Position.start.line + 1, 1⟩ false text.toList := by
  have htext : (line ++ "\n" ++ text).toList = line.toList ++ '\n' :: text.toList := by simp
  have hmoved : commentsAt ⟨Position.start.line + 1, 1⟩ false text.toList =
      (comments text).map Comment.nextLine := commentsFrom_nextLine .start _
  rw [hmoved, ← htext]
  rfl

/-- A line moves the comments of every text exactly if it is passed over. -/
theorem forall_undisturbed_iff {line : String} :
    (∀ text, Undisturbed line text) ↔ PassesOver .start false line.toList := by
  simp only [undisturbed_iff]
  constructor
  · intro h text
    simpa using h (String.ofList text)
  · intro h text
    exact h text.toList

/-- A directive names its rule wherever it stands. -/
theorem Directive.exists_parse?_nextLine {marker : String} {c : Comment} {p : String → Prop} :
    (∃ d, parse? marker c.nextLine = some (.inr d) ∧ p d.rule) ↔
      ∃ d, parse? marker c = some (.inr d) ∧ p d.rule := by
  have hafter : afterMarker? marker c.nextLine = afterMarker? marker c := rfl
  rw [parse?, parse?, hafter]
  cases afterMarker? marker c with
  | none => rfl
  | some rest =>
      simp only [Option.map_some, ofWords]
      cases Text.words rest with
      | nil => simp
      | cons rule more =>
          by_cases hrule : isRuleWord rule
          · simp [hrule]
          · simp [hrule]

/-- Directives that move by a line apply one line further. -/
theorem Undisturbed.isSuppressedAt {line text : String} (h : Undisturbed line text)
    (marker rule : String) {n : Nat} (hn : 0 < n) :
    (Suppressions.scan marker (line ++ "\n" ++ text)).isSuppressedAt rule (n + 1) =
      (Suppressions.scan marker text).isSuppressedAt rule n := by
  have hmoved : comments (line ++ "\n" ++ text) = (comments text).map Comment.nextLine := h
  rw [Bool.eq_iff_iff, Suppressions.isSuppressedAt_scan_iff n.succ_pos,
    Suppressions.isSuppressedAt_scan_iff hn, hmoved]
  simp only [List.mem_map, exists_exists_and_eq_and]
  apply exists_congr
  intro c
  have hlines : c.nextLine.endLine = n.succ ∨ c.nextLine.endLine + 1 = n.succ ↔
      c.endLine = n ∨ c.endLine + 1 = n := by
    simp [Comment.nextLine]
  rw [hlines, Directive.exists_parse?_nextLine
    (p := fun name => name = Directive.wildcard ∨ name = rule)]

/-- **A first line that names an interpreter is no code, if it is read apart.**  A line disturbs no
text behind it exactly if it is read to its end as code and what is behind it is read for itself;
so a line without quotes and comment marks disturbs none.  Where a text is not disturbed, the same
rules are silenced one line further on. -/
theorem first_line_undisturbed {line : String} (hline : '\n' ∉ line.toList) :
    ((∀ text, Undisturbed line text) ↔ ReadApart false line.toList) ∧
      (¬ HoldsQuote line.toList → (∀ back, back <:+ line.toList → ¬ BeginsComment back) →
        ∀ text, Undisturbed line text) ∧
      ∀ text, Undisturbed line text → ∀ marker rule n, 0 < n →
        (Suppressions.scan marker (line ++ "\n" ++ text)).isSuppressedAt rule (n + 1) =
          (Suppressions.scan marker text).isSuppressedAt rule n := by
  have hiff : (∀ text, Undisturbed line text) ↔ ReadApart false line.toList := by
    rw [forall_undisturbed_iff, readApart_iff_passesOver .start false hline]
  refine ⟨hiff, fun hquote hmark => ?_, fun text htext marker rule n hn => ?_⟩
  · exact hiff.mpr (readApart_of_plain false hquote hmark)
  · exact htext.isSuppressedAt marker rule hn

/-- A line that names an interpreter and a file in quotes. -/
def sampleLine : String :=
  "#!/usr/bin/env run -c 'a.toml' -v"

/-- A directive below the first line of a script counts for the line below it. -/
theorem first_line_undisturbed_sample :
    '\n' ∉ sampleLine.toList ∧ Undisturbed sampleLine "// provider-lint:ignore S013\nf()" ∧
      (Suppressions.scan "provider-lint:ignore"
        (sampleLine ++ "\n" ++ "// provider-lint:ignore S013\nf()")).isSuppressedAt "S013" 3 := by
  have hline : '\n' ∉ sampleLine.toList := by decide
  have hapart : ReadApart false sampleLine.toList :=
    ⟨(lexemes false (sampleLine.toList ++ ['\n', '\''])).dropLast, by decide +kernel,
      by decide +kernel⟩
  obtain ⟨hiff, -, hsilenced⟩ := first_line_undisturbed hline
  have htext := hiff.mpr hapart "// provider-lint:ignore S013\nf()"
  have hmoved := hsilenced _ htext "provider-lint:ignore" "S013" 2 (by decide)
  exact ⟨hline, htext, hmoved.trans (by decide +kernel)⟩

/-- **A comment mark in a first line that names an interpreter hides the comments of the text**: the
line is left out when tokens are read, but the mark opens a comment. -/
theorem first_line_opens_comment : ¬ ∀ line text : String, ['#', '!'] <+: line.toList →
    '\n' ∉ line.toList → Code.codeOfFile (line ++ "\n" ++ text).toList = '\n' :: text.toList →
      Undisturbed line text := by
  intro h
  have hundisturbed := h "#!/opt/*/run" "// a" (by decide) (by decide) (by decide)
  exact absurd hundisturbed (by decide +kernel)

end SchemaLint

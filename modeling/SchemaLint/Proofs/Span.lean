import Mathlib.Logic.Relation
import SchemaLint.Proofs.Offset

/-!
# Where comments lie

Any text is read to its end, code or not, and what is found says of itself where it lies: a comment
has its opening mark at its place, its text is what stands between the marks, and its last line is
that of its closing mark.  A block comment ends where, of the marks that are read from the left, as
many have closed a comment as have opened one, or else at the end of the text.

* `NestingStep`: one mark or character is read inside a block comment.
* `Comment.Lies`: a comment lies in a text, from one character up to another.
* `Lexeme.takes_first`: what one lexeme takes of a text.
* **`comments_located`**: the comments found in a text lie in it one after another, and a comment
  that is in none of them stands behind a quote.
-/

namespace SchemaLint

/-! ## Nesting -/

/-- One step of reading a block comment: the number of comments that are open, and the text that is
left.  Nothing is read when none is open. -/
inductive NestingStep : Nat × List Char → Nat × List Char → Prop
  /-- An opening mark. -/
  | opening (depth : Nat) (cs : List Char) :
      NestingStep (depth + 1, '/' :: '*' :: cs) (depth + 2, cs)
  /-- A closing mark. -/
  | closing (depth : Nat) (cs : List Char) : NestingStep (depth + 1, '*' :: '/' :: cs) (depth, cs)
  /-- A character that begins no mark. -/
  | char (depth : Nat) {c : Char} {cs : List Char} (hopen : ¬ ['/', '*'] <+: c :: cs)
      (hclose : ¬ ['*', '/'] <+: c :: cs) : NestingStep (depth + 1, c :: cs) (depth + 1, cs)

/-- Reading leads from one number of open comments and text to another. -/
abbrev Nests : Nat × List Char → Nat × List Char → Prop :=
  Relation.ReflTransGen NestingStep

/-- What is read of a text after a step is read of the text before it: up to a mark that closes the
last comment, or to the end. -/
theorem NestingStep.head {start next : Nat × List Char} {closed : Bool} {rest : List Char}
    (hstep : NestingStep start next)
    (h : (closed → Nests next (1, '*' :: '/' :: rest)) ∧
      (closed = false → rest = [] ∧ ∃ final, Nests next (final + 1, []))) :
    (closed → Nests start (1, '*' :: '/' :: rest)) ∧
      (closed = false → rest = [] ∧ ∃ final, Nests start (final + 1, [])) := by
  refine ⟨fun hclosed => .head hstep (h.1 hclosed), fun hclosed => ?_⟩
  obtain ⟨hrest, final, hfinal⟩ := h.2 hclosed
  exact ⟨hrest, final, .head hstep hfinal⟩

namespace Lexeme

/-- A block comment is read up to the mark that closes it, or to the end of the text. -/
theorem nests_spanBlock (depth : Nat) (cs : List Char) :
    ((spanBlock depth cs).2.1 → Nests (depth + 1, cs) (1, '*' :: '/' :: (spanBlock depth cs).2.2)) ∧
      ((spanBlock depth cs).2.1 = false →
        (spanBlock depth cs).2.2 = [] ∧ ∃ final, Nests (depth + 1, cs) (final + 1, [])) := by
  fun_induction spanBlock depth cs with
  | case1 depth =>
      refine ⟨fun hclosed => ?_, fun _ => ⟨rfl, depth, .refl⟩⟩
      cases hclosed
  | case2 depth cs body closed rest hspan ih =>
      rw [hspan] at ih
      exact (NestingStep.opening depth cs).head ih
  | case3 cs =>
      refine ⟨fun _ => .refl, fun hclosed => ?_⟩
      cases hclosed
  | case4 depth cs body closed rest hspan ih =>
      rw [hspan] at ih
      exact (NestingStep.closing (depth + 1) cs).head ih
  | case5 depth c cs hopen hzero hsucc body closed rest hspan ih =>
      rw [hspan] at ih
      -- A character that begins neither mark; at depth zero a closing mark would have ended the
      -- block.
      have hstep : NestingStep (depth + 1, c :: cs) (depth + 1, cs) := by
        apply NestingStep.char
        · rintro ⟨rest, hrest⟩
          cases hrest
          exact hopen _ rfl rfl
        · rintro ⟨rest, hrest⟩
          cases hrest
          cases depth with
          | zero => exact hzero _ rfl rfl rfl
          | succ depth => exact hsucc _ _ rfl rfl rfl
      exact hstep.head ih

end Lexeme

/-! ## One lexeme -/

/-- Texts that begin with a comment mark. -/
def BeginsComment (cs : List Char) : Prop :=
  ∃ kind : CommentKind, kind.mark <+: cs

/-- A comment begins with a slash. -/
theorem BeginsComment.head {c : Char} {cs : List Char} (h : BeginsComment (c :: cs)) : c = '/' := by
  obtain ⟨kind, hkind⟩ := h
  cases kind <;> exact (List.cons_prefix_cons.mp hkind).1.symm

/-- Some quote stands in a text. -/
def HoldsQuote (cs : List Char) : Prop :=
  '"' ∈ cs ∨ '\'' ∈ cs

namespace Lexeme

/-- A lexeme is taken from the front of a text. -/
inductive Takes (cs : List Char) : Lexeme → List Char → Prop
  /-- A line comment reaches to the end of its line. -/
  | lineComment {body rest : List Char} (htext : cs = '/' :: '/' :: (body ++ rest))
      (hbody : '\n' ∉ body) (hrest : ∀ c ∈ rest.head?, c = '\n') : Takes cs (.lineComment body) rest
  /-- A block comment reaches to its closing mark. -/
  | closed {body rest : List Char} (htext : cs = '/' :: '*' :: (body ++ '*' :: '/' :: rest))
      (hnests : Nests (1, body ++ '*' :: '/' :: rest) (1, '*' :: '/' :: rest)) :
      Takes cs (.blockComment body true) rest
  /-- A block comment that is not closed reaches to the end of the text. -/
  | unclosed {body : List Char} {final : Nat} (htext : cs = '/' :: '*' :: body)
      (hnests : Nests (1, body) (final + 1, [])) : Takes cs (.blockComment body false) []
  /-- In other text a comment mark stands behind a quote. -/
  | code {text rest : List Char} {inWord : Bool} (htext : cs = text ++ rest)
      (hmarks : ∀ before after, cs = before ++ after → before.length < text.length →
        BeginsComment after → HoldsQuote before) : Takes cs (.code text inWord) rest

/-- Text that begins with a quote holds comment marks only behind it. -/
theorem takes_code_of_quote {c : Char} {cs text rest : List Char} {inWord : Bool}
    (hc : c = '"' ∨ c = '\'') (htext : c :: cs = text ++ rest) :
    Takes (c :: cs) (.code text inWord) rest := by
  refine .code htext fun before after heq _ hmark => ?_
  cases before with
  | nil =>
      rw [List.nil_append] at heq
      subst heq
      have hslash := hmark.head
      rcases hc with rfl | rfl <;> cases hslash
  | cons d before =>
      obtain rfl := (List.cons.inj heq).1
      rcases hc with rfl | rfl
      · exact .inl List.mem_cons_self
      · exact .inr List.mem_cons_self

/-- A raw string holds comment marks only behind its opening quote. -/
theorem takes_code_of_raw {mark : StringMark} {hashes : Nat} {cs body taken rest : List Char}
    (hcs : cs = rawOpening mark hashes ++ body) (hbody : taken ++ rest = body) :
    Takes cs (.code (rawOpening mark hashes ++ taken) false) rest := by
  refine .code (by rw [hcs, ← hbody, List.append_assoc]) fun before after heq _ hmark => ?_
  have hquote : '"' ∈ rawOpening mark hashes := by simp [rawOpening]
  have hslash : '/' ∉ rawOpening mark hashes := by
    cases mark <;> simp [rawOpening, StringMark.chars]
  rw [hcs] at heq
  rcases List.append_eq_append_iff.mp heq with ⟨more, rfl, -⟩ | ⟨more, hmore, hafter⟩
  · exact .inl (List.mem_append_left more hquote)
  · cases more with
    | nil => exact .inl (by simpa [hmore] using hquote)
    | cons c more =>
        rw [hafter, List.cons_append] at hmark
        obtain rfl := hmark.head
        exact absurd (hmore ▸ List.mem_append_right before List.mem_cons_self) hslash

/-- A block comment takes all up to its closing mark, or all of the text. -/
theorem takes_blockComment (cs : List Char) :
    Takes ('/' :: '*' :: cs) (.blockComment (spanBlock 0 cs).1 (spanBlock 0 cs).2.1)
      (spanBlock 0 cs).2.2 := by
  obtain ⟨hclosed, hopen⟩ := nests_spanBlock 0 cs
  have htext := append_spanBlock 0 cs
  rcases hspan : spanBlock 0 cs with ⟨body, closed, rest⟩
  rw [hspan] at hclosed hopen htext
  cases closed with
  | true =>
      rw [if_pos rfl, List.append_assoc] at htext
      have hbody : body ++ '*' :: '/' :: rest = cs := htext
      refine .closed (by rw [hbody]) ?_
      rw [hbody]
      exact hclosed rfl
  | false =>
      obtain ⟨rfl, final, hfinal⟩ := hopen rfl
      rw [if_neg Bool.false_ne_true, List.append_nil, List.append_nil] at htext
      obtain rfl : body = cs := htext
      exact .unclosed rfl hfinal

/-- **What the first lexeme takes.** -/
theorem takes_first (inWord : Bool) (c : Char) (cs : List Char) :
    Takes (c :: cs) (first inWord c cs).1 (first inWord c cs).2 := by
  unfold first
  split
  · rename_i rest
    refine .lineComment (by rw [List.takeWhile_append_dropWhile]) (fun hmem => ?_) (fun d hd => ?_)
    · simpa using List.mem_takeWhile_imp hmem
    · have hhead := List.head?_dropWhile_not (· != '\n') rest
      rw [Option.mem_def.mp hd] at hhead
      simpa using hhead
  · rename_i rest
    exact takes_blockComment rest
  · exact takes_code_of_quote (.inl rfl) (by rw [List.cons_append, append_spanString])
  · rename_i hstring hline hblock
    split
    · rename_i opening hashes body hraw
      have hopening : rawOpening? (c :: cs) = some (opening, hashes, body) := by
        cases inWord with
        | true => cases hraw
        | false => exact hraw
      obtain ⟨mark, rfl, hcs⟩ := rawOpening?_eq_some_iff.mp hopening
      exact takes_code_of_raw hcs (append_spanRaw _ body)
    · split
      · rename_i hquote
        subst hquote
        exact takes_code_of_quote (.inr rfl) (append_spanCharacter cs).symm
      · -- a character alone begins no mark
        refine .code rfl fun before after heq hlength hmark => ?_
        cases before with
        | cons d before => simp at hlength
        | nil =>
            exfalso
            rw [List.nil_append] at heq
            subst heq
            obtain ⟨kind, rest, hrest⟩ := hmark
            cases kind <;> cases hrest
            · exact hline _ rfl rfl
            · exact hblock _ rfl rfl

end Lexeme

/-! ## The whole text -/

/-- A comment lies in a text: its span, from its first character up to the first one after it, and
what it says of itself. -/
inductive Comment.Lies (source : List Char) : Comment → Nat × Nat → Prop
  /-- The text of a line comment reaches to the end of its line, but for carriage returns. -/
  | line {before body after : List Char} (htext : source = before ++ '/' :: '/' :: (body ++ after))
      (hbody : '\n' ∉ body) (hafter : ∀ c ∈ after.head?, c = '\n') :
      Lies source ⟨.line, String.ofList (body.rdropWhile (· == '\r')), .after before,
        (Position.after before).line⟩ (before.length, before.length + (body.length + 2))
  /-- The text of a block comment reaches to the mark that closes it. -/
  | closed {before body after : List Char}
      (htext : source = before ++ '/' :: '*' :: (body ++ '*' :: '/' :: after))
      (hnests : Nests (1, body ++ '*' :: '/' :: after) (1, '*' :: '/' :: after)) :
      Lies source ⟨.block, String.ofList body, .after before,
        (Position.after (before ++ '/' :: '*' :: body)).line⟩
        (before.length, before.length + (body.length + 4))
  /-- The text of a block comment that is not closed reaches to the end of the source. -/
  | unclosed {before body : List Char} {final : Nat} (htext : source = before ++ '/' :: '*' :: body)
      (hnests : Nests (1, body) (final + 1, [])) :
      Lies source ⟨.block, String.ofList body, .after before, (Position.after source).line⟩
        (before.length, source.length)

/-- The first lexeme of the rest of a text is a comment that lies there, or holds comment marks only
behind a quote. -/
theorem Lexeme.Takes.lies {before cs rest : List Char} {lexeme : Lexeme}
    (h : lexeme.Takes cs rest) :
    (∃ c, lexeme.comment? (.after before) = some c ∧
      c.Lies (before ++ cs) (before.length, before.length + lexeme.chars.length)) ∨
      lexeme.comment? (.after before) = none ∧ ∀ front back, cs = front ++ back →
        front.length < lexeme.chars.length → BeginsComment back → HoldsQuote front := by
  cases h with
  | lineComment htext hbody hrest =>
      subst htext
      exact .inl ⟨_, rfl, .line rfl hbody hrest⟩
  | @closed body rest htext hnests =>
      subst htext
      refine .inl ⟨_, rfl, ?_⟩
      -- no line ends in the closing mark
      have hline : ((Position.after before).advanceAll (chars (.blockComment body true))).line =
          (Position.after (before ++ '/' :: '*' :: body)).line := by
        rw [Position.advanceAll_after]
        simp [Position.after, chars]
      have hlength : (chars (.blockComment body true)).length = body.length + 4 := by
        simp [chars]
      rw [hline, hlength]
      exact .closed rfl hnests
  | @unclosed body final htext hnests =>
      subst htext
      refine .inl ⟨_, rfl, ?_⟩
      rw [Position.advanceAll_after, ← List.length_append]
      exact .unclosed rfl hnests
  | code htext hmarks => exact .inr ⟨rfl, hmarks⟩

/-- No comment is empty. -/
theorem Comment.Lies.lt {source : List Char} {c : Comment} {span : Nat × Nat}
    (h : c.Lies source span) : span.1 < span.2 := by
  cases h with
  | line htext hbody hafter => exact Nat.lt_add_of_pos_right (Nat.succ_pos _)
  | closed htext hnests => exact Nat.lt_add_of_pos_right (Nat.succ_pos _)
  | unclosed htext hnests =>
      rw [htext, List.length_append]
      exact Nat.lt_add_of_pos_right (Nat.succ_pos _)

/-- A mark that stands behind the text `more`, which begins at `start`, is in one of the given
spans, or there is a quote in `more` that no span lies behind. -/
def Covers (spans : List (Nat × Nat)) (start : Nat) (more : List Char) : Prop :=
  (∃ s ∈ spans, s.1 ≤ start + more.length ∧ start + more.length < s.2) ∨
    ∃ front back, more = front ++ back ∧ HoldsQuote back ∧
      ∀ s ∈ spans, s.2 ≤ start + more.length → s.2 ≤ start + front.length

namespace Covers

variable {spans : List (Nat × Nat)} {start : Nat} {more : List Char}

/-- A text may be given together with what is in front of it. -/
theorem append {text : List Char} (h : Covers spans (start + text.length) more) :
    Covers spans start (text ++ more) := by
  have hlength (cs : List Char) :
      start + (text ++ cs).length = start + text.length + cs.length := by
    rw [List.length_append, Nat.add_assoc]
  rcases h with ⟨s, hs, hin⟩ | ⟨front, back, rfl, hquote, hbehind⟩
  · exact .inl ⟨s, hs, by rwa [hlength]⟩
  · refine .inr ⟨text ++ front, back, (List.append_assoc ..).symm, hquote, ?_⟩
    rw [hlength, hlength]
    exact hbehind

/-- A span that is in front of a text holds no mark of it. -/
theorem cons {s : Nat × Nat} (hs : s.2 ≤ start) (h : Covers spans start more) :
    Covers (s :: spans) start more := by
  rcases h with ⟨t, ht, hin⟩ | ⟨front, back, htext, hquote, hbehind⟩
  · exact .inl ⟨t, List.mem_cons_of_mem s ht, hin⟩
  · refine .inr ⟨front, back, htext, hquote, List.forall_mem_cons.mpr ⟨fun _ => ?_, hbehind⟩⟩
    exact hs.trans (Nat.le_add_right ..)

end Covers

/-- The comments in the rest of a text lie there one after another, and no mark is overlooked. -/
structure LiesFrom (before cs : List Char) (found : List Comment) (spans : List (Nat × Nat)) :
    Prop where
  /-- Each comment has its span. -/
  lies : List.Forall₂ (Comment.Lies (before ++ cs)) found spans
  /-- No span begins before the rest of the text does. -/
  le : ∀ s ∈ spans, before.length ≤ s.1
  /-- Each span ends before the next one begins. -/
  pairwise : spans.Pairwise fun s t => s.2 ≤ t.1
  /-- Each comment mark is in a span or behind a quote. -/
  covers : ∀ more after, cs = more ++ after → BeginsComment after →
    Covers spans before.length more

namespace LiesFrom

variable {before cs text rest : List Char} {found : List Comment} {spans : List (Nat × Nat)}

/-- None of the comments that are found is empty. -/
theorem lt (h : LiesFrom before cs found spans) : ∀ s ∈ spans, s.1 < s.2 := by
  intro s hs
  obtain ⟨i, hi, rfl⟩ := List.mem_iff_getElem.mp hs
  have hlies := (List.forall₂_iff_get.mp h.lies).2 i
    (by rw [h.lies.length_eq]; exact hi) hi
  exact hlies.lt

/-- A mark that is not in the first part of a text is in what follows it. -/
theorem covers_append (h : LiesFrom (before ++ text) rest found spans) {more after : List Char}
    (heq : text ++ rest = more ++ after) (hlength : text.length ≤ more.length)
    (hmark : BeginsComment after) :
    ∃ late, more = text ++ late ∧ Covers spans (before.length + text.length) late := by
  have htext : text <+: more ++ after := heq ▸ List.prefix_append text rest
  obtain ⟨late, rfl⟩ :=
    List.prefix_of_prefix_length_le htext (List.prefix_append more after) hlength
  rw [List.append_assoc, List.append_cancel_left_eq] at heq
  have hcovers := h.covers late after heq hmark
  rw [List.length_append] at hcovers
  exact ⟨late, rfl, hcovers⟩

/-- Comments that lie behind a first one. -/
theorem comment {c : Comment}
    (hc : c.Lies (before ++ (text ++ rest)) (before.length, before.length + text.length))
    (h : LiesFrom (before ++ text) rest found spans) :
    LiesFrom before (text ++ rest) (c :: found)
      ((before.length, before.length + text.length) :: spans) := by
  have hle : ∀ s ∈ spans, before.length + text.length ≤ s.1 := by
    intro s hs
    rw [← List.length_append]
    exact h.le s hs
  refine ⟨.cons hc (by simpa using h.lies), ?_, .cons hle h.pairwise,
    fun more after heq hmark => ?_⟩
  · refine List.forall_mem_cons.mpr ⟨le_refl _, fun s hs => ?_⟩
    exact (Nat.le_add_right ..).trans (hle s hs)
  · rcases Nat.lt_or_ge more.length text.length with hlt | hge
    · exact .inl ⟨_, List.mem_cons_self, Nat.le_add_right .., Nat.add_lt_add_left hlt _⟩
    · obtain ⟨late, rfl, hcovers⟩ := h.covers_append heq hge hmark
      exact (hcovers.cons (le_refl _)).append

/-- Comments that lie behind code. -/
theorem code (hmarks : ∀ front back, text ++ rest = front ++ back → front.length < text.length →
      BeginsComment back → HoldsQuote front)
    (h : LiesFrom (before ++ text) rest found spans) :
    LiesFrom before (text ++ rest) found spans := by
  have hle : ∀ s ∈ spans, before.length + text.length ≤ s.1 := by
    intro s hs
    rw [← List.length_append]
    exact h.le s hs
  refine ⟨by simpa using h.lies, fun s hs => (Nat.le_add_right ..).trans (hle s hs), h.pairwise,
    fun more after heq hmark => ?_⟩
  rcases Nat.lt_or_ge more.length text.length with hlt | hge
  · -- every comment that is found later begins behind the code
    refine .inr ⟨[], more, rfl, hmarks more after heq hlt hmark, fun s hs hend => ?_⟩
    have hstart := hle s hs
    have hnonempty := h.lt s hs
    omega
  · obtain ⟨late, rfl, hcovers⟩ := h.covers_append heq hge hmark
    exact hcovers.append

end LiesFrom

/-- The comments that are read from the rest of a text lie there: by induction on its length, since
a lexeme takes a character. -/
theorem exists_liesFrom (inWord : Bool) (before cs : List Char) :
    ∃ spans, LiesFrom before cs (commentsAt (.after before) inWord cs) spans := by
  induction hlength : cs.length using Nat.strongRecOn generalizing inWord before cs with
  | _ length ih =>
      subst hlength
      cases cs with
      | nil =>
          refine ⟨[], ?_, nofun, .nil, fun more after heq hmark => ?_⟩
          · simp [commentsAt, lexemes, commentsFrom]
          · obtain ⟨-, rfl⟩ := List.append_eq_nil_iff.mp heq.symm
            obtain ⟨kind, hkind⟩ := hmark
            cases kind <;> cases List.prefix_nil.mp hkind
      | cons d cs =>
          have hchars := Lexeme.chars_first inWord d cs
          have htakes := Lexeme.takes_first inWord d cs
          have hshorter := Nat.lt_succ_of_le (Lexeme.length_first_le inWord d cs)
          rcases hfirst : Lexeme.first inWord d cs with ⟨lexeme, rest⟩
          rw [hfirst] at hchars htakes hshorter
          obtain ⟨spans, hspans⟩ :=
            ih rest.length hshorter lexeme.continuesWord (before ++ lexeme.chars) rest rfl
          rw [commentsAt_cons hfirst, Position.advanceAll_after]
          rcases htakes.lies with ⟨c, hc, hlies⟩ | ⟨hnone, hmarks⟩
          · rw [hc]
            rw [← hchars] at hlies ⊢
            exact ⟨_, hspans.comment hlies⟩
          · rw [hnone]
            rw [← hchars] at hmarks ⊢
            exact ⟨_, hspans.code hmarks⟩

/-- The lexemes of a text are all of it. -/
theorem flatMap_chars_lexemes (inWord : Bool) (cs : List Char) :
    (lexemes inWord cs).flatMap Lexeme.chars = cs := by
  fun_induction lexemes inWord cs with
  | case1 => rfl
  | case2 inWord c cs lexeme ih =>
      rw [List.flatMap_cons, ih]
      exact Lexeme.chars_first inWord c cs

/-- **Any text is read to its end, and the comments found in it lie in it**, one after another, each
with its mark at its place and with what stands between its marks as its text.  A comment mark that
is in none of them stands behind a quote, with no comment between the two. -/
theorem comments_located (source : String) :
    (lexemes false source.toList).flatMap Lexeme.chars = source.toList ∧
      ∃ spans : List (Nat × Nat),
        List.Forall₂ (Comment.Lies source.toList) (comments source) spans ∧
        (∀ s ∈ spans, s.1 < s.2) ∧ spans.Pairwise (fun s t => s.2 ≤ t.1) ∧
        ∀ before after, source.toList = before ++ after → BeginsComment after →
          Covers spans 0 before := by
  obtain ⟨spans, hspans⟩ := exists_liesFrom false [] source.toList
  exact ⟨flatMap_chars_lexemes false source.toList, spans, hspans.lies, hspans.lt,
    hspans.pairwise, hspans.covers⟩

end SchemaLint

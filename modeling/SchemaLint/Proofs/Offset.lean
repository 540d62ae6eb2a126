import SchemaLint.Proofs.Comment
import SchemaLint.Proofs.Grammar.Place
import SchemaLint.Proofs.Grammar.Standing
import SchemaLint.SourceFile

/-!
# Places and byte offsets

The place of a character is counted in lines and columns, its offset in bytes, both from all that is
before it.  Comments are read in the content of a file, so their offsets are right.  Tokens are read
in the code, which lacks a byte order mark and a first line that names an interpreter; of the two
only the mark is on a line with tokens.

* `SourceFile.offsetFor_after`: the offset of the place after a text is the length of the text.
* `Lexeme.chars_first`: the comments of a text are cut from it.
* `exists_of_mem_comments`: a comment begins at its place.
* `Code.exists_skipped`: what the code of a file lacks of its content.
* `Code.TokenAt`, `Code.CommentAt`: where a token and a comment are, in bytes.
* **`SourceFile.exists_tokenAt`**: a place gives the offset of its token exactly if the token does
  not share its line with a byte order mark.
-/

namespace SchemaLint

/-! ## Lines -/

namespace SourceFile

/-- No characters have no bytes. -/
@[simp] theorem byteLength_nil : byteLength [] = 0 := rfl

/-- A character adds its bytes. -/
@[simp] theorem byteLength_cons (c : Char) (cs : List Char) :
    byteLength (c :: cs) = c.utf8Size + byteLength cs := rfl

/-- The bytes of two runs of characters add up. -/
theorem byteLength_append (cs ds : List Char) :
    byteLength (cs ++ ds) = byteLength cs + byteLength ds := by
  induction cs with
  | nil => simp
  | cons c cs ih => simp [ih, Nat.add_assoc]

/-- A text that is not empty has bytes. -/
theorem byteLength_pos {cs : List Char} (h : cs ≠ []) : 0 < byteLength cs := by
  cases cs with
  | nil => exact absurd rfl h
  | cons c cs =>
      have hc := c.utf8Size_pos
      rw [byteLength_cons]
      omega

/-- The part of a text after its last line feed, when a character is put in front. -/
theorem rtakeWhile_cons (c : Char) (cs : List Char) :
    (c :: cs).rtakeWhile (· != '\n') =
      if '\n' ∈ c :: cs then cs.rtakeWhile (· != '\n') else c :: cs := by
  unfold List.rtakeWhile
  rw [List.reverse_cons, List.takeWhile_append]
  by_cases hmem : '\n' ∈ cs
  · have hshort : (cs.reverse.takeWhile (· != '\n')).length ≠ cs.reverse.length := by
      intro hlength
      have hall := List.takeWhile_eq_self_iff.mp
        ((List.takeWhile_prefix _).eq_of_length hlength) '\n' (by simpa using hmem)
      simp at hall
    rw [if_neg hshort, if_pos (List.mem_cons_of_mem c hmem)]
  · have hall : cs.reverse.takeWhile (· != '\n') = cs.reverse := by
      rw [List.takeWhile_eq_self_iff]
      intro d hd
      have : d ≠ '\n' := by
        rintro rfl
        exact hmem (by simpa using hd)
      simpa using this
    rw [hall, if_pos rfl]
    by_cases hc : c = '\n'
    · simp [hc]
    · simp [hc, hmem, Ne.symm hc]

/-- A text without a line break is its own last line. -/
theorem rtakeWhile_eq_self {cs : List Char} (h : '\n' ∉ cs) :
    cs.rtakeWhile (· != '\n') = cs := by
  cases cs with
  | nil => rfl
  | cons c cs => rw [rtakeWhile_cons, if_neg h]

/-- Only the empty text has no lines. -/
theorem linesOf_eq_nil {cs : List Char} (h : linesOf cs = []) : cs = [] := by
  cases cs with
  | nil => rfl
  | cons c cs =>
      unfold linesOf at h
      split at h
      · cases h
      · split at h <;> cases h

/-- The offset of the place after a text, counted along the lines of a longer one: by induction on
the text, whose first character is a line of its own or the first one of a line. -/
theorem offsetInLines_after (before after : List Char) :
    offsetInLines ((before.rtakeWhile (· != '\n')).length + 1) (before.count '\n')
      (linesOf (before ++ after)) = byteLength before := by
  induction before with
  | nil =>
      cases h : linesOf after <;> simp [offsetInLines, h]
  | cons c before ih =>
      rw [rtakeWhile_cons, List.cons_append, linesOf]
      by_cases hc : c = '\n'
      · subst hc
        simp [offsetInLines, ih]
      rw [if_neg hc, List.count_cons_of_ne hc]
      have hmem : '\n' ∈ c :: before ↔ '\n' ∈ before := by simp [Ne.symm hc]
      rcases hlines : linesOf (before ++ after) with _ | ⟨line, rest⟩
      · obtain ⟨rfl, rfl⟩ := List.append_eq_nil_iff.mp (linesOf_eq_nil hlines)
        simp [offsetInLines, Ne.symm hc]
      · rw [hlines] at ih
        by_cases hbefore : '\n' ∈ before
        · obtain ⟨k, hk⟩ := Nat.exists_eq_succ_of_ne_zero
            (Nat.pos_iff_ne_zero.mp (List.count_pos_iff.mpr hbefore))
          rw [if_pos (hmem.mpr hbefore), hk]
          rw [hk] at ih
          simp only [offsetInLines, byteLength_cons] at ih ⊢
          rw [Nat.add_assoc, ih]
        · rw [if_neg (hmem.not.mpr hbefore), List.count_eq_zero.mpr hbefore]
          rw [rtakeWhile_eq_self hbefore, List.count_eq_zero.mpr hbefore] at ih
          simp only [offsetInLines, Nat.add_sub_cancel] at ih
          simp [offsetInLines, ih]

/-- **The offset of the place after a text is the length of the text.** -/
theorem offsetFor_after {f : SourceFile} {before after : List Char}
    (h : before ++ after = f.content.toList) :
    f.offsetFor (Position.start.advanceAll before).line
      (Position.start.advanceAll before).column = byteLength before := by
  rw [← Position.after_nil, Position.advanceAll_after, List.nil_append]
  simp only [offsetFor, Position.after, ← h]
  exact offsetInLines_after before after

end SourceFile

/-- The place after a text without line feeds. -/
theorem Position.advanceAll_start {cs : List Char} (h : '\n' ∉ cs) :
    start.advanceAll cs = ⟨1, cs.length + 1⟩ := by
  rw [← after_nil, advanceAll_after, List.nil_append, after, List.count_eq_zero.mpr h,
    SourceFile.rtakeWhile_eq_self h]

/-- A line feed leads to a later line. -/
theorem Position.line_advanceAll_start {cs : List Char} (h : '\n' ∈ cs) :
    1 < (start.advanceAll cs).line := by
  rw [← after_nil, advanceAll_after, List.nil_append]
  exact Nat.lt_add_of_pos_left (List.count_pos_iff.mpr h)

/-! ## Comments -/

namespace Lexeme

/-- What a block comment takes and what it leaves make up the text. -/
theorem append_spanBlock (depth : Nat) (cs : List Char) :
    (spanBlock depth cs).1 ++ (if (spanBlock depth cs).2.1 then ['*', '/'] else []) ++
      (spanBlock depth cs).2.2 = cs := by
  fun_induction spanBlock depth cs <;> simp_all

/-- What a string takes and what it leaves make up the text. -/
theorem append_spanString (cs : List Char) : (spanString cs).1 ++ (spanString cs).2 = cs := by
  fun_induction spanString cs <;> simp_all

/-- What a raw string takes and what it leaves make up the text. -/
theorem append_spanRaw (closing cs : List Char) :
    (spanRaw closing cs).1 ++ (spanRaw closing cs).2 = cs := by
  fun_induction spanRaw closing cs <;> simp_all

/-- What stands behind a quote and what is left make up the text. -/
theorem append_spanQuote (cs : List Char) : (spanQuote cs).1 ++ (spanQuote cs).2 = cs := by
  fun_induction spanQuote cs <;> simp_all

/-- What a character takes and what it leaves make up the text. -/
theorem append_spanCharacter (cs : List Char) :
    (spanCharacter cs).1 ++ (spanCharacter cs).2 = '\'' :: cs := by
  unfold spanCharacter
  split
  · simp [append_spanQuote]
  · rfl
  · rfl

/-- The opening of a raw string and its body make up the text. -/
theorem append_rawOpening? {cs opening body : List Char} {hashes : Nat}
    (h : rawOpening? cs = some (opening, hashes, body)) : opening ++ body = cs := by
  unfold rawOpening? at h
  split at h
  · cases h
  · rename_i letters rest hletters
    have hcs : letters ++ rest = cs := by
      unfold rawLetters at hletters
      split at hletters <;> cases hletters <;> rfl
    simp only at h
    split at h
    · rename_i body' hbody
      cases h
      have hrest := List.takeWhile_append_dropWhile (p := (· == '#')) (l := rest)
      rw [hbody] at hrest
      rw [List.append_assoc, List.append_assoc, List.singleton_append, hrest, hcs]
    · cases h

/-- The first lexeme and what follows it are the text. -/
theorem chars_first (inWord : Bool) (c : Char) (cs : List Char) :
    (first inWord c cs).1.chars ++ (first inWord c cs).2 = c :: cs := by
  unfold first
  split
  · simp [chars, List.takeWhile_append_dropWhile]
  · rename_i rest
    have hblock := append_spanBlock 0 rest
    cases hclosed : (spanBlock 0 rest).2.1 <;> simp_all [chars]
  · simp [chars, append_spanString]
  · split
    · rename_i opening hashes body h
      have hopening : opening ++ body = c :: cs := by
        cases inWord <;> simp at h
        exact append_rawOpening? h
      simp [chars, append_spanRaw, hopening]
    · split
      · rename_i hc
        simp [chars, append_spanCharacter, hc]
      · rfl

end Lexeme

/-- The characters that a comment begins with. -/
def CommentKind.mark : CommentKind → List Char
  | .line => ['/', '/']
  | .block => ['/', '*']

/-- A comment stands where its lexeme does, which begins with its mark. -/
theorem Lexeme.mark_of_comment? {place : Position} {lexeme : Lexeme} {c : Comment}
    (h : lexeme.comment? place = some c) :
    place = c.position ∧ c.kind.mark <+: lexeme.chars := by
  cases lexeme with
  | lineComment body =>
      cases h
      exact ⟨rfl, body, rfl⟩
  | blockComment body closed =>
      cases h
      refine ⟨rfl, ?_⟩
      cases closed
      · exact ⟨body, rfl⟩
      · exact ⟨body ++ ['*', '/'], rfl⟩
  | code text inWord => cases h

/-- The comments among the lexemes of the rest of a text begin at their places: by induction on its
length, since a lexeme takes a character. -/
theorem exists_of_mem_commentsFrom (inWord : Bool) (before cs : List Char) {c : Comment}
    (h : c ∈ commentsFrom (Position.start.advanceAll before) (lexemes inWord cs)) :
    ∃ more after, more ++ after = cs ∧
      Position.start.advanceAll (before ++ more) = c.position ∧ c.kind.mark <+: after := by
  induction hlength : cs.length using Nat.strongRecOn generalizing inWord before cs with
  | _ length ih =>
      subst hlength
      cases cs with
      | nil => simp [lexemes, commentsFrom] at h
      | cons d cs =>
          have hchars := Lexeme.chars_first inWord d cs
          rw [lexemes] at h
          rcases hfirst : Lexeme.first inWord d cs with ⟨lexeme, rest⟩
          rw [hfirst] at h hchars
          rcases List.mem_append.mp h with hhere | hlater
          · obtain ⟨hplace, hmark⟩ := Lexeme.mark_of_comment? (Option.mem_toList.mp hhere)
            refine ⟨[], d :: cs, rfl, by simpa using hplace, ?_⟩
            rw [← hchars]
            exact hmark.trans (List.prefix_append _ _)
          · have hshorter : rest.length < (d :: cs).length := by
              have hle : (Lexeme.first inWord d cs).2.length ≤ cs.length :=
                Lexeme.length_first_le inWord d cs
              rw [hfirst] at hle
              exact Nat.lt_succ_of_le hle
            rw [← Position.advanceAll_append] at hlater
            obtain ⟨more, after, hrest, hplace, hmark⟩ :=
              ih rest.length hshorter _ (before ++ lexeme.chars) rest hlater rfl
            refine ⟨lexeme.chars ++ more, after, ?_, ?_, hmark⟩
            · rw [List.append_assoc, hrest, hchars]
            · rw [← List.append_assoc, hplace]

/-- **A comment begins at its place.** -/
theorem exists_of_mem_comments {source : String} {c : Comment} (h : c ∈ comments source) :
    ∃ before after, before ++ after = source.toList ∧
      Position.start.advanceAll before = c.position ∧ c.kind.mark <+: after :=
  exists_of_mem_commentsFrom false [] source.toList h

/-! ## Tokens -/

namespace Code

/-- Whether a content begins with a byte order mark. -/
def Marks (content : List Char) : Prop :=
  content.head? = some byteOrderMark

/-- The byte order mark that is dropped from a text is on its first line. -/
theorem exists_dropByteOrderMark (cs : List Char) :
    ∃ mark, mark ++ dropByteOrderMark cs = cs ∧ '\n' ∉ mark ∧ (mark = [] ↔ ¬ Marks cs) := by
  unfold dropByteOrderMark
  split
  · rename_i c cs
    by_cases hc : c = byteOrderMark
    · refine ⟨[c], by simp [hc], ?_, by simp [Marks, hc]⟩
      rw [hc]
      decide
    · exact ⟨[], by simp [hc], by simp, by simp [Marks, hc]⟩
  · exact ⟨[], rfl, by simp, by simp [Marks]⟩

/-- What the code lacks of the content is on its first line.  With a byte order mark it lacks
something; without one it lacks nothing, or all of the first line. -/
theorem exists_skipped (content : List Char) :
    ∃ skipped, skipped ++ codeOfFile content = content ∧ '\n' ∉ skipped ∧
      (Marks content → skipped ≠ []) ∧
      (¬ Marks content → skipped = [] ∨ ∀ c ∈ (codeOfFile content).head?, c = '\n') := by
  obtain ⟨mark, hmark, hmarkFeed, hmarkNone⟩ := exists_dropByteOrderMark content
  -- the line that names an interpreter is taken up to the line feed
  obtain ⟨line, hline, hlineFeed, hlineNone⟩ : ∃ line, line ++ codeOfFile content =
      dropByteOrderMark content ∧ '\n' ∉ line ∧
        (line = [] ∨ ∀ c ∈ (codeOfFile content).head?, c = '\n') := by
    unfold codeOfFile
    generalize dropByteOrderMark content = cs
    simp only
    split
    · rename_i rest
      split
      · exact ⟨[], rfl, by simp, .inl rfl⟩
      · refine ⟨_, List.takeWhile_append_dropWhile (p := (· != '\n')), fun hmem => ?_, .inr ?_⟩
        · simpa using List.mem_takeWhile_imp hmem
        · intro c hc
          have hhead := List.head?_dropWhile_not (· != '\n') ('#' :: '!' :: rest)
          rw [Option.mem_def.mp hc] at hhead
          simpa using hhead
    · exact ⟨[], rfl, by simp, .inl rfl⟩
  refine ⟨mark ++ line, by rw [List.append_assoc, hline, hmark], by simp [hmarkFeed, hlineFeed],
    fun hmarks hnil => ?_, fun hnone => ?_⟩
  · exact hmarkNone.mp (List.append_eq_nil_iff.mp hnil).1 hmarks
  · obtain rfl := hmarkNone.mpr hnone
    rwa [List.nil_append]

/-- A token that begins with the given characters is at a byte offset: the code has it at a place,
and the offset counts all bytes before it, those included that the code lacks. -/
def TokenAt (content lead : List Char) (place : Position) (offset : Nat) : Prop :=
  ∃ skipped before after, skipped ++ codeOfFile content = content ∧
    before ++ after = codeOfFile content ∧ Position.start.advanceAll before = place ∧
    BeginsWith lead after ∧ offset = SourceFile.byteLength (skipped ++ before)

/-- A comment that begins with the given characters is at a byte offset: the content has it at a
place, and the offset counts all bytes before it. -/
def CommentAt (content mark : List Char) (place : Position) (offset : Nat) : Prop :=
  ∃ before after, before ++ after = content ∧ Position.start.advanceAll before = place ∧
    mark <+: after ∧ offset = SourceFile.byteLength before

/-- Two prefixes of a text that end at the same place are the same. -/
theorem eq_of_advanceAll {before before' after after' : List Char}
    (h : before ++ after = before' ++ after')
    (hplace : Position.start.advanceAll before = Position.start.advanceAll before') :
    before = before' := by
  have hnothing : ∀ {cs more : List Char},
      Position.start.advanceAll cs = Position.start.advanceAll (cs ++ more) → more = [] := by
    intro cs more hsame
    by_contra hmore
    rw [Position.advanceAll_append] at hsame
    exact (Position.before_advanceAll hmore).ne hsame
  rcases List.append_eq_append_iff.mp h with ⟨more, rfl, -⟩ | ⟨more, rfl, -⟩
  · rw [hnothing hplace, List.append_nil]
  · rw [hnothing hplace.symm, List.append_nil]

/-- At a place there is one token, and it has one offset. -/
theorem TokenAt.unique {content lead lead' : List Char} {place : Position} {offset offset' : Nat}
    (h : TokenAt content lead place offset) (h' : TokenAt content lead' place offset') :
    offset = offset' := by
  obtain ⟨skipped, before, after, hcontent, hcode, hplace, -, rfl⟩ := h
  obtain ⟨skipped', before', after', hcontent', hcode', hplace', -, rfl⟩ := h'
  rw [List.append_cancel_right (hcontent.trans hcontent'.symm),
    eq_of_advanceAll (hcode.trans hcode'.symm) (hplace.trans hplace'.symm)]

end Code

/-- What is before a line feed does not matter for the places on later lines, as long as it is on
one line. -/
theorem Position.after_append {skipped before : List Char} (hskipped : '\n' ∉ skipped)
    (hbefore : '\n' ∈ before) : after (skipped ++ before) = after before := by
  induction skipped with
  | nil => rfl
  | cons c skipped ih =>
      have hc : c ≠ '\n' := fun h => hskipped (h ▸ List.mem_cons_self)
      have hmem : '\n' ∈ c :: (skipped ++ before) :=
        List.mem_cons_of_mem c (List.mem_append_right skipped hbefore)
      rw [← ih fun h => hskipped (List.mem_cons_of_mem c h)]
      simp only [after, List.cons_append, List.count_cons_of_ne hc, SourceFile.rtakeWhile_cons,
        if_pos hmem]

namespace SourceFile

open Code

variable {f : SourceFile}

/-- A place on the first line gives the offset of the character that is so far from the start of the
content. -/
theorem offsetFor_first_line {line after : List Char} (hline : '\n' ∉ line)
    (h : line ++ after = f.content.toList) {k : Nat} (hk : k ≤ line.length) :
    f.offsetFor 1 (k + 1) = byteLength (line.take k) := by
  have hsplit : line.take k ++ (line.drop k ++ after) = f.content.toList := by
    rw [← List.append_assoc, List.take_append_drop, h]
  have hoffset := offsetFor_after hsplit
  rw [Position.advanceAll_start fun hmem => hline (List.mem_of_mem_take hmem),
    List.length_take_of_le hk] at hoffset
  exact hoffset

/-- **The offset of a token.**  The place of a token gives its byte offset exactly if the token does
not share its line with a byte order mark. -/
theorem exists_tokenAt {lead : List Char} {p : Position}
    (h : (Source.ofText (codeOfFile f.content.toList)).stands lead p) :
    ∃ offset, TokenAt f.content.toList lead p offset ∧
      (f.offsetFor p.line p.column = offset ↔ (Marks f.content.toList → 1 < p.line)) := by
  obtain ⟨before, after, hcode, rfl, ⟨hne, htrivia⟩, hlead⟩ := h
  obtain ⟨skipped, hcontent, hfeed, hmarks, hnone⟩ := exists_skipped f.content.toList
  have hwhole : skipped ++ before ++ after = f.content.toList := by
    rw [List.append_assoc, hcode, hcontent]
  refine ⟨_, ⟨skipped, before, after, hcontent, hcode, rfl, hlead, rfl⟩, ?_⟩
  by_cases hmem : '\n' ∈ before
  · -- what the code lacks is on an earlier line
    have hsame : Position.start.advanceAll (skipped ++ before) =
        Position.start.advanceAll before := by
      rw [← Position.after_nil, Position.advanceAll_after, Position.advanceAll_after,
        List.nil_append, List.nil_append, Position.after_append hfeed hmem]
    refine iff_of_true ?_ fun _ => Position.line_advanceAll_start hmem
    rw [← hsame]
    exact offsetFor_after hwhole
  · have hline : '\n' ∉ skipped ++ before := by simp [hfeed, hmem]
    have hfirst := offsetFor_first_line hline hwhole
      (k := before.length) (by rw [List.length_append]; omega)
    rw [Position.advanceAll_start hmem, hfirst]
    by_cases hmark : Marks f.content.toList
    · -- the offset counts as many characters as the code has there, which are too few
      refine iff_of_false ?_ fun hlater => absurd (hlater hmark) (Nat.lt_irrefl 1)
      have hdrop : (skipped ++ before).drop before.length ≠ [] := by
        have hpos := List.length_pos_iff.mpr (hmarks hmark)
        rw [← List.length_pos_iff, List.length_drop, List.length_append]
        omega
      have hlength := byteLength_append ((skipped ++ before).take before.length)
        ((skipped ++ before).drop before.length)
      rw [List.take_append_drop] at hlength
      have hpos := byteLength_pos hdrop
      omega
    · refine iff_of_true ?_ fun hmarks => absurd hmarks hmark
      rcases hnone hmark with rfl | hhead
      · rw [List.nil_append, List.take_length]
      · -- the code begins with a line feed, which is no token
        exfalso
        rw [← hcode] at hhead
        cases before with
        | cons c before =>
            obtain rfl : c = '\n' := hhead c rfl
            exact hmem List.mem_cons_self
        | nil =>
            cases after with
            | nil => exact hne rfl
            | cons c after =>
                obtain rfl : c = '\n' := hhead c rfl
                cases htrivia

/-- The place of a comment gives its byte offset. -/
theorem commentAt_of_mem {c : Comment} (h : c ∈ comments f.content) :
    CommentAt f.content.toList c.kind.mark c.position
      (f.offsetFor c.position.line c.position.column) := by
  obtain ⟨before, after, hcontent, hplace, hmark⟩ := exists_of_mem_comments h
  refine ⟨before, after, hcontent, hplace, hmark, ?_⟩
  rw [← hplace]
  exact offsetFor_after hcontent

end SourceFile

end SchemaLint

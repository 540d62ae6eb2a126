import SchemaLint.Proofs.Offset

/-!
# Lines, columns and bytes

The byte offset of a line and column is the length of a part of the content: all earlier lines, and
of the line itself the characters before the column.  Whatever the line and column, this part is one
that the content begins with, and it grows with both.  So an offset never leaves the content and
never falls into a character, and it is that of a character if one stands there.

* `SourceFile.flatten_linesOf`, `SourceFile.linesOf_append`, `SourceFile.linesOf_line`: the lines of
  a text are what it consists of, cut where lines begin.
* `SourceFile.textInLines`: the part in front of a column of a line; `SourceFile.offsetFor_eq`.
* `CharAt`, `LineAt`: the characters and the lines of a text, by what is before them.
* **`SourceFile.offsetFor_exact`**: the offsets of characters, their order, and what is given where
  no character stands.
-/

namespace SchemaLint

namespace SourceFile

/-! ## Lengths -/

/-- The number of bytes is that of the text as a string. -/
theorem byteLength_eq_utf8ByteSize (cs : List Char) :
    byteLength cs = (String.ofList cs).utf8ByteSize := by
  induction cs with
  | nil => rfl
  | cons c cs ih =>
      rw [← List.singleton_append, String.ofList_append, String.utf8ByteSize_append, ← ih,
        byteLength_append]
      simp

/-- A text has at least the bytes of its beginning. -/
theorem byteLength_le_of_prefix {cs ds : List Char} (h : cs <+: ds) :
    byteLength cs ≤ byteLength ds := by
  obtain ⟨more, rfl⟩ := h
  rw [byteLength_append]
  exact Nat.le_add_right _ _

/-- More text has more bytes. -/
theorem eq_of_prefix_of_byteLength {cs ds : List Char} (h : cs <+: ds)
    (hlength : byteLength cs = byteLength ds) : cs = ds := by
  obtain ⟨more, rfl⟩ := h
  rw [byteLength_append] at hlength
  by_contra hne
  have hmore : more ≠ [] := fun hnil => hne (by rw [hnil, List.append_nil])
  have hpos := byteLength_pos hmore
  omega

/-- Two beginnings of one text are told apart by their lengths. -/
theorem eq_of_byteLength {cs ds es : List Char} (hcs : cs <+: es) (hds : ds <+: es)
    (h : byteLength cs = byteLength ds) : cs = ds := by
  rcases List.prefix_or_prefix_of_prefix hcs hds with hle | hle
  · exact eq_of_prefix_of_byteLength hle h
  · exact (eq_of_prefix_of_byteLength hle h.symm).symm

/-! ## The lines of a text -/

/-- The lines of a text make up the text. -/
theorem flatten_linesOf (cs : List Char) : (linesOf cs).flatten = cs := by
  fun_induction linesOf cs <;> simp_all

/-- A text after which a line begins is so many whole lines. -/
theorem linesOf_append {before : List Char} (h : before = [] ∨ before.getLast? = some '\n')
    (cs : List Char) : linesOf (before ++ cs) = linesOf before ++ linesOf cs := by
  induction before with
  | nil => rfl
  | cons c before ih =>
      have hrest : before = [] ∨ before.getLast? = some '\n' := by
        cases before with
        | nil => exact .inl rfl
        | cons d before => exact .inr (by simpa using h)
      rw [List.cons_append, linesOf, linesOf, ih hrest]
      by_cases hc : c = '\n'
      · rw [if_pos hc, if_pos hc]
        rfl
      · rw [if_neg hc, if_neg hc]
        -- the character is not the last one, so it begins the first line of more text
        cases hlines : linesOf before with
        | nil =>
            obtain rfl := linesOf_eq_nil hlines
            simp [hc] at h
        | cons line lines => rfl

/-- A line that goes to its line feed, or to the end of the text, is the first one. -/
theorem linesOf_line {line after : List Char} (hne : line ≠ []) (hinner : '\n' ∉ line.dropLast)
    (hends : after = [] ∨ line.getLast? = some '\n') :
    linesOf (line ++ after) = line :: linesOf after := by
  induction line with
  | nil => exact absurd rfl hne
  | cons c line ih =>
      rw [List.cons_append, linesOf]
      by_cases hlast : line = []
      · subst hlast
        rcases hends with rfl | hfeed
        · split <;> rfl
        · obtain rfl : c = '\n' := by simpa using hfeed
          rfl
      · rw [List.dropLast_cons_of_ne_nil hlast, List.mem_cons, not_or] at hinner
        have hends' : after = [] ∨ line.getLast? = some '\n' := by
          rwa [List.getLast?_cons_of_ne_nil hlast] at hends
        rw [if_neg (Ne.symm hinner.1), ih hlast hinner.2 hends']

/-- A character belongs to the line that the line feeds before it count. -/
theorem length_linesOf_concat (before : List Char) (c : Char) :
    (linesOf (before ++ [c])).length = before.count '\n' + 1 := by
  induction before with
  | nil =>
      rw [List.nil_append, linesOf]
      split <;> rfl
  | cons d before ih =>
      rw [List.cons_append, linesOf]
      by_cases hd : d = '\n'
      · rw [if_pos hd, hd, List.count_cons_self, List.length_cons, ih]
      · rw [if_neg hd, List.count_cons_of_ne hd, ← ih]
        cases hlines : linesOf (before ++ [c]) with
        | nil =>
            rw [hlines] at ih
            cases ih
        | cons line lines => rfl

/-! ## The text in front of a column -/

/-- The text in front of a column of the given line among lines, counted from the first one. -/
def textInLines (column : Nat) : Nat → List (List Char) → List Char
  | _, [] => []
  | 0, line :: _ => line.take (column - 1)
  | n + 1, line :: rest => line ++ textInLines column n rest

variable {column column' n m : Nat} {lines : List (List Char)}

/-- Without lines there is no text in front of a place. -/
@[simp] theorem textInLines_nil (column n : Nat) : textInLines column n [] = [] := by
  cases n <;> rfl

/-- An offset counts the bytes of the text in front of the place. -/
theorem offsetInLines_eq (column n : Nat) (lines : List (List Char)) :
    offsetInLines column n lines = byteLength (textInLines column n lines) := by
  fun_induction textInLines column n lines <;> simp_all [offsetInLines, byteLength_append]

/-- The text in front of a place is the beginning of the lines. -/
theorem textInLines_prefix (column n : Nat) (lines : List (List Char)) :
    textInLines column n lines <+: lines.flatten := by
  fun_induction textInLines column n lines with
  | case1 => exact List.prefix_rfl
  | case2 line rest => exact (List.take_prefix _ _).trans (List.prefix_append _ _)
  | case3 n line rest ih => exact (List.prefix_append_right_inj line).mpr ih

/-- A later column, or any column of a later line, has all of the text in front of it. -/
theorem textInLines_mono (h : n < m ∨ n = m ∧ column ≤ column') :
    textInLines column n lines <+: textInLines column' m lines := by
  induction lines generalizing n m with
  | nil => simp
  | cons line rest ih =>
      cases m with
      | zero =>
          obtain ⟨rfl, hle⟩ : n = 0 ∧ column ≤ column' := by omega
          exact List.take_prefix_take_left (by omega)
      | succ m =>
          cases n with
          | zero => exact (List.take_prefix _ _).trans (List.prefix_append _ _)
          | succ n => exact (List.prefix_append_right_inj line).mpr (ih (by omega))

/-- Past the last line there is nothing more. -/
theorem textInLines_of_length_le (h : lines.length ≤ n) :
    textInLines column n lines = lines.flatten := by
  induction lines generalizing n with
  | nil => simp
  | cons line rest ih =>
      cases n with
      | zero => cases h
      | succ n => rw [textInLines, ih (Nat.le_of_succ_le_succ h), List.flatten_cons]

/-- After other lines, a line begins behind all of them. -/
theorem textInLines_append (before lines : List (List Char)) :
    textInLines column before.length (before ++ lines) =
      before.flatten ++ textInLines column 0 lines := by
  induction before with
  | nil => rfl
  | cons line before ih =>
      rw [List.length_cons, List.cons_append, textInLines, ih, List.flatten_cons, List.append_assoc]

/-- The offset of a place counts the bytes of the lines above it and those on its line. -/
theorem offsetFor_eq (f : SourceFile) (line column : Nat) :
    f.offsetFor (line + 1) column =
      byteLength (textInLines column line (linesOf f.content.toList)) :=
  offsetInLines_eq column line _

end SourceFile

/-! ## Characters and lines -/

/-- A character of a text and its place, by what is before it. -/
structure CharAt (cs : List Char) (p : Position) (before : List Char) : Prop where
  /-- The character follows. -/
  follows : ∃ c after, before ++ c :: after = cs
  /-- The place is counted along all that is before. -/
  place_eq : Position.start.advanceAll before = p

/-- A line of a text, by what is before and after it. -/
structure LineAt (cs : List Char) (number : Nat) (before line after : List Char) : Prop where
  /-- The text is put together. -/
  append_eq : before ++ (line ++ after) = cs
  /-- The line begins at a first column. -/
  begins : Position.start.advanceAll before = ⟨number, 1⟩
  /-- No line feed is inside. -/
  inner : '\n' ∉ line.dropLast
  /-- It goes to its line feed or to the end of the text. -/
  ends : after = [] ∨ line.getLast? = some '\n'

/-- The line of a place is one more than the line breaks in front of it. -/
theorem Position.line_advanceAll_eq (before : List Char) :
    (start.advanceAll before).line = before.count '\n' + 1 := by
  rw [← after_nil, advanceAll_after, List.nil_append, after]

/-- A line begins at the start of a text and after a line feed, and line feeds number the lines. -/
theorem Position.eq_of_advanceAll_start {before : List Char} {number : Nat}
    (h : start.advanceAll before = ⟨number, 1⟩) :
    (before = [] ∨ before.getLast? = some '\n') ∧ number = before.count '\n' + 1 := by
  rw [← after_nil, advanceAll_after, List.nil_append, after, Position.mk.injEq] at h
  refine ⟨?_, h.1.symm⟩
  rcases List.eq_nil_or_concat before with rfl | ⟨front, c, rfl⟩
  · exact .inl rfl
  · right
    have hcolumn : (front ++ [c]).rtakeWhile (· != '\n') = [] := by simpa using h.2
    have hc : c = '\n' := by simpa using List.rtakeWhile_eq_nil_iff.mp hcolumn (by simp)
    simp [hc]

namespace SourceFile

variable {f : SourceFile} {number column : Nat} {before line after : List Char}

/-- The number of bytes of a file is that of its content. -/
theorem byteLength_content (f : SourceFile) :
    byteLength f.content.toList = f.content.utf8ByteSize := by
  rw [byteLength_eq_utf8ByteSize, String.ofList_toList]

/-- Lines before which a line begins are as many as the line feeds in them. -/
theorem length_linesOf (h : before = [] ∨ before.getLast? = some '\n') :
    (linesOf before).length = before.count '\n' := by
  rcases List.eq_nil_or_concat before with rfl | ⟨front, c, rfl⟩
  · rfl
  · obtain rfl : c = '\n' := by simpa using h
    rw [List.concat_eq_append, length_linesOf_concat]
    simp

/-- **Past the end of a line** its end is given. -/
theorem offsetFor_past_line (h : LineAt f.content.toList number before line after)
    (hcolumn : line.length < column) : f.offsetFor number column = byteLength (before ++ line) := by
  obtain ⟨happend, hbegins, hinner, hends⟩ := h
  obtain ⟨hbefore, rfl⟩ := Position.eq_of_advanceAll_start hbegins
  rw [offsetFor_eq, ← happend, linesOf_append hbefore, ← length_linesOf hbefore,
    textInLines_append, flatten_linesOf]
  by_cases hline : line = []
  · -- the text ends where the line begins
    obtain rfl : after = [] := by simpa [hline] using hends
    rw [hline]
    rfl
  · rw [linesOf_line hline hinner hends, textInLines, List.take_of_length_le (by omega)]

/-- **Past the last line** the end of the content is given. -/
theorem offsetFor_past_lines (h : ∀ p before, CharAt f.content.toList p before → p.line < number) :
    f.offsetFor number column = f.content.utf8ByteSize := by
  rw [← byteLength_content]
  rcases List.eq_nil_or_concat f.content.toList with hnil | ⟨front, c, hlast⟩
  · rw [hnil]
    cases number with
    | zero => rfl
    | succ n =>
        rw [offsetFor_eq, hnil, linesOf, textInLines_nil]
  · rw [List.concat_eq_append] at hlast
    have hline := h _ front ⟨⟨c, [], hlast.symm⟩, rfl⟩
    rw [Position.line_advanceAll_eq] at hline
    obtain ⟨n, rfl⟩ : ∃ n, number = n + 1 := ⟨number - 1, by omega⟩
    rw [offsetFor_eq, textInLines_of_length_le, flatten_linesOf]
    rw [hlast, length_linesOf_concat]
    exact Nat.le_of_lt_succ hline

/-- The length of a beginning of the content is a place between characters. -/
theorem isValid_byteLength (h : before <+: f.content.toList) :
    byteLength before ≤ f.content.utf8ByteSize ∧
      String.Pos.Raw.IsValid f.content ⟨byteLength before⟩ := by
  refine ⟨byteLength_content f ▸ byteLength_le_of_prefix h, ?_⟩
  obtain ⟨after, hafter⟩ := h
  refine String.Pos.Raw.isValid_iff_exists_append.mpr ⟨.ofList before, .ofList after, ?_, ?_⟩
  · rw [← String.ofList_append, hafter, String.ofList_toList]
  · rw [byteLength_eq_utf8ByteSize]
    rfl

/-- **Lines and columns are exact in bytes.**  The offset of the line and column of a character is
the number of bytes before it, so no two characters have the same.  For any line but line zero, and
any column, the offset is within the content and between characters, and later lines and columns
have no smaller ones.  A column past the end of a line stands for the end of the line, behind its
line feed if it has one, and a line past the last one stands for the end of the content. -/
theorem offsetFor_exact (f : SourceFile) :
    (∀ p before, CharAt f.content.toList p before →
      f.offsetFor p.line p.column = (String.ofList before).utf8ByteSize ∧
      ∀ q before', CharAt f.content.toList q before' →
        f.offsetFor q.line q.column = f.offsetFor p.line p.column → q = p) ∧
    (∀ line column, 0 < line → f.offsetFor line column ≤ f.content.utf8ByteSize ∧
      String.Pos.Raw.IsValid f.content ⟨f.offsetFor line column⟩) ∧
    (∀ p q : Position, 0 < p.line → p.Before q →
      f.offsetFor p.line p.column ≤ f.offsetFor q.line q.column) ∧
    (∀ number column before line after, LineAt f.content.toList number before line after →
      line.length < column →
      f.offsetFor number column = (String.ofList (before ++ line)).utf8ByteSize) ∧
    ∀ number column, (∀ p before, CharAt f.content.toList p before → p.line < number) →
      f.offsetFor number column = f.content.utf8ByteSize := by
  have hchar : ∀ p before, CharAt f.content.toList p before →
      f.offsetFor p.line p.column = byteLength before := by
    rintro p before ⟨⟨c, after, hcontent⟩, rfl⟩
    exact offsetFor_after hcontent
  -- The characters before two places are beginnings of one text, so their lengths tell them apart.
  have hbegins : ∀ p before, CharAt f.content.toList p before → before <+: f.content.toList := by
    rintro p before ⟨⟨c, after, hcontent⟩, -⟩
    exact ⟨_, hcontent⟩
  refine ⟨fun p before hp => ⟨?_, fun q before' hq heq => ?_⟩, fun line column hline => ?_,
    fun p q hp hpq => ?_, fun number column before line after hline hcolumn => ?_,
    fun number column hlast => offsetFor_past_lines hlast⟩
  · rw [hchar p before hp, byteLength_eq_utf8ByteSize]
  · rw [hchar p before hp, hchar q before' hq] at heq
    have hsame := eq_of_byteLength (hbegins q before' hq) (hbegins p before hp) heq
    rw [← hp.place_eq, ← hq.place_eq, hsame]
  · obtain ⟨n, rfl⟩ := Nat.exists_eq_add_one.mpr hline
    rw [offsetFor_eq]
    refine isValid_byteLength ?_
    have hprefix := textInLines_prefix column n (linesOf f.content.toList)
    rwa [flatten_linesOf] at hprefix
  · unfold Position.Before at hpq
    obtain ⟨n, hn⟩ := Nat.exists_eq_add_one.mpr hp
    obtain ⟨m, hm⟩ : ∃ m, q.line = m + 1 := Nat.exists_eq_add_one.mpr (by omega)
    rw [hn, hm, offsetFor_eq, offsetFor_eq]
    exact byteLength_le_of_prefix (textInLines_mono (by omega))
  · rw [offsetFor_past_line hline hcolumn, byteLength_eq_utf8ByteSize]

/-- A text with a character of two bytes, an empty line, and a last line without line feed. -/
def accentFile : SourceFile :=
  .ofText 0 ⟨"accent.rs"⟩ "é\n\nz"

/-- Places on, behind and below the lines of a file with a character of several bytes and an empty
line. -/
theorem offsetFor_exact_sample :
    CharAt accentFile.content.toList ⟨3, 1⟩ ['é', '\n', '\n'] ∧ accentFile.offsetFor 3 1 = 4 ∧
      (⟨1, 0⟩ : Position).Before ⟨1, 2⟩ ∧ accentFile.offsetFor 1 0 ≤ accentFile.offsetFor 1 2 ∧
      accentFile.offsetFor 2 7 ≤ accentFile.content.utf8ByteSize ∧
      LineAt accentFile.content.toList 1 [] ['é', '\n'] ['\n', 'z'] ∧
      accentFile.offsetFor 1 9 = 3 ∧
      (∀ p before, CharAt accentFile.content.toList p before → p.line < 4) ∧
      accentFile.offsetFor 4 1 = 5 := by
  obtain ⟨hchar, hwithin, hmono, hline, hlast⟩ := offsetFor_exact accentFile
  have hz : CharAt accentFile.content.toList ⟨3, 1⟩ ['é', '\n', '\n'] := ⟨⟨'z', [], by decide⟩, rfl⟩
  have hfirst : LineAt accentFile.content.toList 1 [] ['é', '\n'] ['\n', 'z'] :=
    ⟨by decide, rfl, by decide, by decide⟩
  have hlines : ∀ p before, CharAt accentFile.content.toList p before → p.line < 4 := by
    rintro p before ⟨⟨c, after, hcontent⟩, rfl⟩
    have hfeeds := congrArg (List.count '\n') hcontent
    have htwo : accentFile.content.toList.count '\n' = 2 := by decide
    rw [htwo, List.count_append] at hfeeds
    rw [Position.line_advanceAll_eq]
    omega
  have horder : (⟨1, 0⟩ : Position).Before ⟨1, 2⟩ := .inr ⟨rfl, by decide⟩
  exact ⟨hz, (hchar _ _ hz).1, horder, hmono _ _ (by decide) horder, (hwithin 2 7 (by decide)).1,
    hfirst, hline 1 9 _ _ _ hfirst (by decide), hlines, hlast 4 1 hlines⟩

end SourceFile

end SchemaLint

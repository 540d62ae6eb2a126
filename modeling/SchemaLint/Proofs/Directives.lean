import SchemaLint.Proofs.Confinement

/-!
# No directive is lost

A comment bears the marker if its text is the marker, behind the mark of a doc comment and blanks,
with a blank or nothing after it.  Every such comment is an entry, a directive or a malformed one,
and no other comment is.  A directive silences findings; on everything else that bears the marker,
and on directives that do not say why if they have to, there is a finding, which no directive
silences and which does not get lost among others since comments are at different places.

* `Text.Words`, `Text.words_eq_iff`: the words of a text.
* `Comment.Bears`, `Comment.Says`: what a comment says, in terms of its text.
* **`Directive.parse?_eq_iff`**: the reader of directives finds what a comment says.
* `pairwise_comments`: comments are at different places.
* `Suppressions.complaints`: what is to be said about the entries of a file.
* **`Rules.no_directive_lost`**: all entries are read, and every complaint is reported once.
-/

namespace SchemaLint

/-! ## Words -/

namespace Text

variable {gap word rest cs : List Char} {ws : List String}

/-- The words of a text: the longest stretches without blanks, in order. -/
inductive Words : List Char → List String → Prop
  /-- Blanks have no words. -/
  | blank {cs : List Char} (hblank : ∀ c ∈ cs, isBlank c) : Words cs []
  /-- Behind blanks there is a word, up to the next blank, and then other words. -/
  | word {gap word rest : List Char} {ws : List String} (hgap : ∀ c ∈ gap, isBlank c)
      (hne : word ≠ []) (hword : ∀ c ∈ word, isBlank c = false)
      (hrest : ∀ c ∈ rest.head?, isBlank c) (hmore : Words rest ws) :
      Words (gap ++ (word ++ rest)) (String.ofList word :: ws)

/-- A text begins with characters of a class, up to the first of another. -/
theorem exists_span (p : Char → Bool) (cs : List Char) :
    ∃ front back, front ++ back = cs ∧ (∀ c ∈ front, p c) ∧ ∀ c ∈ back.head?, p c = false := by
  refine ⟨cs.takeWhile p, cs.dropWhile p, List.takeWhile_append_dropWhile,
    fun c hc => List.mem_takeWhile_imp hc, fun c hc => ?_⟩
  have hhead := List.head?_dropWhile_not p cs
  rwa [Option.mem_def.mp hc] at hhead

/-- Every text has words: by induction on its length. -/
theorem exists_words (cs : List Char) : ∃ ws, Words cs ws := by
  induction hlength : cs.length using Nat.strongRecOn generalizing cs with
  | _ length ih =>
      subst hlength
      obtain ⟨gap, text, rfl, hgap, htext⟩ := exists_span isBlank cs
      cases text with
      | nil =>
          rw [List.append_nil]
          exact ⟨[], .blank hgap⟩
      | cons c text =>
          obtain ⟨word, rest, rfl, hword, hrest⟩ := exists_span (!isBlank ·) text
          obtain ⟨ws, hws⟩ := ih rest.length (by simp; omega) rest rfl
          have hfirst : ∀ d ∈ c :: word, isBlank d = false :=
            List.forall_mem_cons.mpr ⟨htext c rfl, fun d hd => by simpa using hword d hd⟩
          have hstop : ∀ d ∈ rest.head?, isBlank d := fun d hd => by simpa using hrest d hd
          exact ⟨_, .word hgap (by simp) hfirst hstop hws⟩

/-- A word that was begun goes on up to the next blank. -/
theorem wordsFrom_eq_cons {current : List Char} (hne : current ≠ [])
    (hword : ∀ c ∈ word, isBlank c = false) (hrest : ∀ c ∈ rest.head?, isBlank c) :
    wordsFrom current (word ++ rest) = (current.reverse ++ word) :: wordsFrom [] rest := by
  induction word generalizing current with
  | nil =>
      cases rest with
      | nil => simp [wordsFrom, hne]
      | cons c rest => simp [wordsFrom, hne, hrest c rfl]
  | cons c word ih =>
      rw [List.cons_append, wordsFrom, if_neg (by simp [hword c]), ih (by simp)
        fun d hd => hword d (List.mem_cons_of_mem c hd)]
      simp

/-- Blanks in front of words belong to none of them. -/
theorem wordsFrom_append (hgap : ∀ c ∈ gap, isBlank c) :
    wordsFrom [] (gap ++ cs) = wordsFrom [] cs := by
  induction gap with
  | nil => rfl
  | cons c gap ih =>
      rw [List.cons_append, wordsFrom, if_pos (hgap c List.mem_cons_self)]
      exact ih fun d hd => hgap d (List.mem_cons_of_mem c hd)

/-- The words of a text are those that blanks divide it into. -/
theorem words_eq_of_words (h : Words cs ws) : words cs = ws := by
  induction h with
  | @blank cs hblank =>
      have hnone : wordsFrom [] (cs ++ []) = wordsFrom [] [] := wordsFrom_append hblank
      rw [List.append_nil] at hnone
      rw [words, hnone]
      rfl
  | @word gap word rest ws hgap hne hword hrest _ ih =>
      obtain ⟨c, word, rfl⟩ := List.exists_cons_of_ne_nil hne
      unfold words at ih ⊢
      rw [wordsFrom_append hgap, List.cons_append, wordsFrom, if_neg (by simp [hword c]),
        wordsFrom_eq_cons (by simp) (fun d hd => hword d (List.mem_cons_of_mem c hd)) hrest,
        List.map_cons, ih]
      rfl

/-- **Cutting a text into words finds its words.** -/
theorem words_eq_iff : words cs = ws ↔ Words cs ws := by
  refine ⟨?_, words_eq_of_words⟩
  rintro rfl
  obtain ⟨ws, hws⟩ := exists_words cs
  rwa [words_eq_of_words hws]

end Text

/-! ## What a comment says -/

/-- The characters that mark a doc comment, behind the opening mark. -/
def CommentKind.docMarks : CommentKind → List Char
  | .line => ['/', '!']
  | .block => ['*', '!']

/-- A word that can name a rule: the wildcard, or one of ASCII letters, digits, hyphens and
underscores. -/
def Directive.NamesRule (word : String) : Prop :=
  word = "*" ∨ ∀ c ∈ word.toList, ('a' ≤ c ∧ c ≤ 'z') ∨ ('A' ≤ c ∧ c ≤ 'Z') ∨
    ('0' ≤ c ∧ c ≤ '9') ∨ c = '-' ∨ c = '_'

namespace Comment

/-- The text of a comment without the mark of a doc comment. -/
inductive Unmarked (c : Comment) : List Char → Prop
  /-- A doc comment loses its mark, -/
  | doc {mark : Char} {text : List Char} (htext : c.text.toList = mark :: text)
      (hmark : mark ∈ c.kind.docMarks) : Unmarked c text
  /-- and any other comment stays as it is. -/
  | plain (hmark : ∀ mark ∈ c.text.toList.head?, mark ∉ c.kind.docMarks) :
      Unmarked c c.text.toList

/-- A comment whose text, without the mark of a doc comment and without leading blanks, is the
marker and then nothing or a blank and more. -/
def Bears (marker : String) (c : Comment) (rest : List Char) : Prop :=
  ∃ gap, (∀ b ∈ gap, Text.isBlank b) ∧ c.Unmarked (gap ++ (marker.toList ++ rest)) ∧
    ∀ b ∈ rest.head?, Text.isBlank b

/-- What a comment says. -/
inductive Says (marker : String) (c : Comment) : Option (MalformedDirective ⊕ Directive) → Prop
  /-- It does not bear the marker. -/
  | nothing (hbears : ∀ rest, ¬ c.Bears marker rest) : Says marker c none
  /-- No word follows the marker. -/
  | missing {rest : List Char} (hbears : c.Bears marker rest) (hwords : Text.Words rest []) :
      Says marker c (some (.inl ⟨c.position, .missingRule⟩))
  /-- The first word cannot name a rule. -/
  | invalid {rest : List Char} {rule : String} {more : List String} (hbears : c.Bears marker rest)
      (hwords : Text.Words rest (rule :: more)) (hrule : ¬ Directive.NamesRule rule) :
      Says marker c (some (.inl ⟨c.position, .invalidRule rule⟩))
  /-- The first word can name a rule; the other words say why. -/
  | directive {rest : List Char} {rule : String} {more : List String}
      (hbears : c.Bears marker rest) (hwords : Text.Words rest (rule :: more))
      (hrule : Directive.NamesRule rule) :
      Says marker c (some (.inr ⟨rule, c.endLine, c.position,
        if more = [] then none else some (" ".intercalate more)⟩))

/-- Every comment has a text that is left of its marks. -/
theorem exists_unmarked (c : Comment) : ∃ text, c.Unmarked text := by
  by_cases hmark : ∃ mark ∈ c.text.toList.head?, mark ∈ c.kind.docMarks
  · obtain ⟨mark, hhead, hmark⟩ := hmark
    obtain ⟨text, htext⟩ := List.head?_eq_some_iff.mp hhead
    exact ⟨text, .doc htext hmark⟩
  · exact ⟨_, .plain fun mark hhead hdoc => hmark ⟨mark, hhead, hdoc⟩⟩

/-- The body of a comment is that text without the blanks in front. -/
theorem Unmarked.body_eq {c : Comment} {text : List Char} (h : c.Unmarked text) :
    Directive.body c = Text.trimStart text := by
  have hdoc : ∀ mark, mark ∈ c.kind.docMarks ↔
      (mark == '!' || mark == (match c.kind with | .line => '/' | .block => '*')) = true := by
    intro mark
    cases c.kind <;> simp [CommentKind.docMarks, or_comm]
  unfold Directive.body
  cases h with
  | doc htext hmark =>
      rw [htext]
      exact congrArg Text.trimStart (if_pos ((hdoc _).mp hmark))
  | plain hmark =>
      cases htext : c.text.toList with
      | nil => rfl
      | cons mark text =>
          have hplain := hmark mark (by simp [htext])
          exact congrArg Text.trimStart (if_neg (mt (hdoc mark).mpr hplain))

end Comment

namespace Directive

variable {marker : String} {c : Comment} {rest : List Char}

/-- A word can name a rule exactly if it is written as such names are. -/
theorem isRuleWord_iff {word : String} : isRuleWord word ↔ NamesRule word := by
  unfold isRuleWord NamesRule wildcard
  simp only [Bool.or_eq_true, beq_iff_eq, List.all_eq_true]
  refine or_congr_right (forall₂_congr fun ch _ => ?_)
  simp only [Char.isAlphanum, Char.isAlpha, Char.isUpper, Char.isLower, Char.isDigit,
    Bool.or_eq_true, Bool.and_eq_true, decide_eq_true_eq, Char.le_def]
  tauto

/-- Behind a word that can name a rule stands the justification; any other word is a fault. -/
theorem ofWords_cons (c : Comment) (rule : String) (more : List String) :
    ofWords c (rule :: more) =
      if isRuleWord rule then
        .inr ⟨rule, c.endLine, c.position, if more = [] then none else some (" ".intercalate more)⟩
      else .inl ⟨c.position, .invalidRule rule⟩ := by
  simp only [ofWords, List.isEmpty_iff, Text.join]

/-- The text after the marker, in a comment whose text is the marker up to blanks. -/
theorem afterMarker?_eq_some_iff_body : afterMarker? marker c = some rest ↔
    body c = marker.toList ++ rest ∧ ∀ b ∈ rest.head?, Text.isBlank b := by
  rw [← Text.dropLeading?_eq_some_iff]
  unfold afterMarker?
  split
  · rename_i hnone
    simp [hnone]
  · rename_i hsome
    rw [hsome]
    constructor
    · rintro h
      cases h
      exact ⟨rfl, by simp⟩
    · rintro ⟨h, -⟩
      exact h
  · rename_i d ds hsome
    rw [hsome]
    by_cases hblank : Text.isBlank d
    · rw [if_pos hblank]
      constructor
      · rintro h
        cases h
        exact ⟨rfl, by simpa using hblank⟩
      · exact fun h => h.1
    · rw [if_neg hblank]
      constructor
      · rintro h
        cases h
      · rintro ⟨h, hhead⟩
        cases h
        exact absurd (hhead d rfl) hblank

/-- **The text after the marker is found in the comments that bear it.** -/
theorem afterMarker?_eq_some_iff (hmarker : Settings.isMarker marker) :
    afterMarker? marker c = some rest ↔ c.Bears marker rest := by
  have hstop : ∀ b ∈ (marker.toList ++ rest).head?, ¬ Text.isBlank b := by
    unfold Settings.isMarker at hmarker
    rw [Bool.and_eq_true, List.all_eq_true] at hmarker
    have hne : marker.toList ≠ [] := by simpa using hmarker.1
    obtain ⟨d, ds, hmark⟩ := List.exists_cons_of_ne_nil hne
    have hd := hmarker.2 d (hmark ▸ List.mem_cons_self)
    rw [hmark]
    simpa using hd
  rw [afterMarker?_eq_some_iff_body]
  constructor
  · rintro ⟨hbody, hrest⟩
    obtain ⟨text, htext⟩ := c.exists_unmarked
    rw [htext.body_eq] at hbody
    refine ⟨text.takeWhile Text.isBlank, fun b hb => List.mem_takeWhile_imp hb, ?_, hrest⟩
    rwa [← hbody, Text.trimStart, List.takeWhile_append_dropWhile]
  · rintro ⟨gap, hgap, htext, hrest⟩
    refine ⟨?_, hrest⟩
    rw [htext.body_eq]
    exact (Piece.takeWhile_dropWhile_append hgap hstop).2

/-- **The reader of directives finds what a comment says.** -/
theorem parse?_eq_iff (hmarker : Settings.isMarker marker)
    {entry : Option (MalformedDirective ⊕ Directive)} :
    parse? marker c = entry ↔ c.Says marker entry := by
  have hread : ∀ {rest}, c.Bears marker rest →
      parse? marker c = some (ofWords c (Text.words rest)) := by
    intro rest hbears
    rw [parse?, (afterMarker?_eq_some_iff hmarker).mpr hbears]
    rfl
  constructor
  · rintro rfl
    cases hafter : afterMarker? marker c with
    | none =>
        rw [parse?, hafter]
        refine .nothing fun rest hbears => ?_
        rw [(afterMarker?_eq_some_iff hmarker).mpr hbears] at hafter
        cases hafter
    | some rest =>
        have hbears := (afterMarker?_eq_some_iff hmarker).mp hafter
        rw [hread hbears]
        cases hwords : Text.words rest with
        | nil => exact .missing hbears (Text.words_eq_iff.mp hwords)
        | cons rule more =>
            have hwords := Text.words_eq_iff.mp hwords
            rw [ofWords_cons]
            by_cases hrule : isRuleWord rule
            · rw [if_pos hrule]
              exact .directive hbears hwords (isRuleWord_iff.mp hrule)
            · rw [if_neg hrule]
              exact .invalid hbears hwords (mt isRuleWord_iff.mpr hrule)
  · intro h
    cases h with
    | nothing hbears =>
        rw [parse?, Option.map_eq_none_iff, Option.eq_none_iff_forall_ne_some]
        exact fun rest hrest => hbears rest ((afterMarker?_eq_some_iff hmarker).mp hrest)
    | missing hbears hwords => rw [hread hbears, Text.words_eq_iff.mpr hwords, ofWords]
    | invalid hbears hwords hrule =>
        rw [hread hbears, Text.words_eq_iff.mpr hwords, ofWords_cons,
          if_neg (mt isRuleWord_iff.mp hrule)]
    | directive hbears hwords hrule =>
        rw [hread hbears, Text.words_eq_iff.mpr hwords, ofWords_cons,
          if_pos (isRuleWord_iff.mpr hrule)]

end Directive

/-! ## Where comments are -/

/-- The comments among lexemes are not before their start, -/
theorem eq_or_before_of_mem_commentsFrom {place : Position} {lexemes : List Lexeme} {c : Comment}
    (h : c ∈ commentsFrom place lexemes) : c.position = place ∨ place.Before c.position := by
  induction lexemes generalizing place with
  | nil => cases h
  | cons lexeme rest ih =>
      rcases List.mem_append.mp h with hhere | hlater
      · exact .inl (Lexeme.mark_of_comment? (Option.mem_toList.mp hhere)).1.symm
      · by_cases hchars : lexeme.chars = []
        · rw [hchars] at hlater
          exact ih hlater
        · have hnext := Position.before_advanceAll (p := place) hchars
          rcases ih hlater with heq | hbefore
          · exact .inr (heq ▸ hnext)
          · exact .inr (hnext.trans hbefore)

/-- and each is before those that follow: a lexeme that is a comment takes characters. -/
theorem pairwise_commentsFrom (place : Position) (lexemes : List Lexeme) :
    (commentsFrom place lexemes).Pairwise fun c d => c.position.Before d.position := by
  induction lexemes generalizing place with
  | nil => exact .nil
  | cons lexeme rest ih =>
      refine List.pairwise_append.mpr ⟨?_, ih _, ?_⟩
      · cases lexeme.comment? place <;> simp
      · intro c hhere d hlater
        obtain ⟨hplace, hmark⟩ := Lexeme.mark_of_comment? (Option.mem_toList.mp hhere)
        have hchars : lexeme.chars ≠ [] := by
          rintro hnil
          rw [hnil] at hmark
          cases hkind : c.kind <;> simp [hkind, CommentKind.mark] at hmark
        have hnext := Position.before_advanceAll (p := place) hchars
        rw [← hplace]
        rcases eq_or_before_of_mem_commentsFrom hlater with heq | hbefore
        · exact heq ▸ hnext
        · exact hnext.trans hbefore

/-- **Comments are at different places.** -/
theorem pairwise_comments (source : String) :
    (comments source).Pairwise fun c d => c.position.Before d.position :=
  pairwise_commentsFrom _ _

/-! ## Complaints -/

namespace Suppressions

/-- What is to be said about the entries of a file, each with its place: malformed ones are so, and
directives have to say why if that is asked for. -/
def complaints (requireJustification : Bool) (s : Suppressions) : List (Position × String) :=
  s.malformed.map (fun m => (m.position, "malformed suppression directive: " ++ m.fault.message)) ++
    if requireJustification then
      (s.directives.filter fun d => d.justification = none).map fun d =>
        (d.position, "suppression of `" ++ d.rule ++ "` needs a justification")
    else []

/-- The place of an entry. -/
def placeOf : MalformedDirective ⊕ Directive → Position :=
  Sum.elim (·.position) (·.position)

/-- The places of all entries, the malformed ones first. -/
def places (s : Suppressions) : List Position :=
  s.malformed.map (·.position) ++ s.directives.map (·.position)

/-- No entry of a file loses its place when directives and faults are told apart. -/
theorem places_perm (parsed : List (MalformedDirective ⊕ Directive)) :
    (places ⟨parsed.filterMap Sum.getRight?, parsed.filterMap Sum.getLeft?⟩).Perm
      (parsed.map placeOf) := by
  induction parsed with
  | nil => exact .nil
  | cons entry rest ih =>
      cases entry with
      | inl m => exact ih.cons m.position
      | inr d => exact List.perm_middle.trans (ih.cons d.position)

/-- No two entries of a file have the same place. -/
theorem nodup_places (marker source : String) : (scan marker source).places.Nodup := by
  refine (places_perm _).nodup_iff.mpr ?_
  rw [List.Nodup, List.pairwise_map, List.pairwise_filterMap]
  refine (pairwise_comments source).imp fun {c d} hbefore p hp q hq => ?_
  rw [placeOf, Rules.position_of_parse? hp, Rules.position_of_parse? hq]
  exact hbefore.ne

/-- No two complaints about a file have the same place. -/
theorem nodup_complaints (required : Bool) (marker source : String) :
    (((scan marker source).complaints required).map Prod.fst).Nodup := by
  refine List.Nodup.sublist ?_ (nodup_places marker source)
  unfold complaints places
  rw [List.map_append, List.map_map]
  refine List.Sublist.append (List.Sublist.refl _) ?_
  split_ifs
  · rw [List.map_map]
    exact List.filter_sublist.map _
  · exact List.nil_sublist _

end Suppressions

namespace Rules

variable {s : Session} {file : SourceFile} {n : Nat} {d : Diagnostic}

/-- The finding that a complaint is. -/
def complaintOn (file : SourceFile) (complaint : Position × String) : Diagnostic :=
  malformedSuppressionInfo.finding file complaint.1 complaint.2 none

/-- What the rule finds are the complaints. -/
theorem directiveFindings_eq (settings : Settings) (file : SourceFile) (found : Suppressions) :
    directiveFindings settings file found =
      (found.complaints settings.requireJustification).map (complaintOn file) := by
  unfold directiveFindings Suppressions.complaints
  rw [List.map_append, List.map_map]
  refine congrArg _ ?_
  cases settings.requireJustification with
  | false => simp
  | true =>
      rw [if_pos rfl, List.map_map]
      refine congrArg _ (List.filter_congr fun d _ => ?_)
      cases d.justification <;> rfl

/-- A built-in unit that yields findings is a rule. -/
theorem exists_rule_of_yields (hregistry : registry = .ok s.registry) {entry : Entry}
    (hentry : s.registry.entries[n]? = some entry) {ds : List Diagnostic}
    (hy : s.Yields file n (.ok (.findings ds))) : ∃ info, entry.unit.rule = some info := by
  have hkind : (Fact.findings ds).IsOf (s.registry.idOf n) :=
    (hereditary_expected hregistry).yields hy
  rw [Registry.idOf_eq hentry] at hkind
  have hu := mem_units hregistry hentry
  rcases mem_units_iff.mp hu with hindex | ⟨r, -, hu⟩ | hu | hu
  · exact absurd hkind (Fact.not_isOf_findings hindex ds)
  · exact ⟨r.info, by rw [← hu]; rfl⟩
  · exact ⟨setterKeyLiteralInfo, by rw [hu]; rfl⟩
  · exact ⟨malformedSuppressionInfo, by rw [hu]; rfl⟩

/-- Findings of built-in units are in the name of the unit and on the file. -/
theorem ownFindings (hregistry : registry = .ok s.registry)
    (hdepth : s.registry.DepthWithin s.depth n) : s.OwnFindings n := by
  intro file d hd
  obtain ⟨ds, hds, hd⟩ := Session.exists_findings_of_findingsAt hd
  have hy : s.Yields file n (s.plain file s.depth n) := Session.yields_plain hdepth
  rw [hds] at hy
  obtain ⟨entry, hentry⟩ := Registry.exists_entry hdepth.lt
  obtain ⟨info, hinfo⟩ := exists_rule_of_yields hregistry hentry hy
  obtain ⟨facts, hrun⟩ := Session.exists_run_of_plain hentry hds
  have hsigns := signs_units entry.unit (mem_units hregistry hentry) info hinfo
  refine ⟨?_, (reported_of_yields hregistry hy hd).file_eq⟩
  rw [(hsigns.signed _ ds hrun d hd).1, Registry.idOf_eq hentry, hsigns.id_eq]

/-- What the rule finds in a file are the complaints about its entries. -/
theorem findingsAt_malformedSuppression (hregistry : registry = .ok s.registry)
    (hdepth : s.registry.DepthWithin s.depth n)
    (hid : s.registry.idOf n = malformedSuppressionInfo.name) (file : SourceFile) :
    s.findingsAt file n = ((Suppressions.scan s.settings.marker file.content).complaints
      s.settings.requireJustification).map (complaintOn file) := by
  have hy : s.Yields file n (s.plain file s.depth n) := Session.yields_plain hdepth
  rw [Session.findingsAt, yields_malformedSuppression hregistry hid hy, ← directiveFindings_eq]
  rfl

/-- The place of a finding in its file. -/
def placeOf (d : Diagnostic) : Position :=
  ⟨d.location.line, d.location.column⟩

/-- Complaints are at the places of the findings that they are. -/
theorem map_placeOf_complaintOn (file : SourceFile) (found : List (Position × String)) :
    (found.map (complaintOn file)).map placeOf = found.map Prod.fst := by
  rw [List.map_map]
  rfl

/-- Findings with equal keys have the same place. -/
theorem placeOf_of_compareKey {a b : Diagnostic} (hab : a.compareKey b = .eq) :
    placeOf a = placeOf b := by
  obtain ⟨-, hline, hcolumn, -, -⟩ := Diagnostic.compareKey_eq_iff.mp hab
  simp only [placeOf, hline, hcolumn]

end Rules

/-- **The findings of a unit on a file that is known by its path are all kept**, if they are told
apart by their keys. -/
theorem Session.mem_kept_own {s : Session} {files : List SourceFile} {file : SourceFile}
    {units : List Nat} {n : Nat} {d : Diagnostic} (hunits : ∀ m ∈ units, s.OwnFindings m)
    (hids : ∀ m ∈ units, s.registry.idOf m = s.registry.idOf n → m = n) (hn : n ∈ units)
    (hfile : file ∈ files)
    (hpath : ∀ g ∈ files, g.relativePath.same file.relativePath → g = file)
    (hkeys : ∀ a ∈ s.findingsAt file n, ∀ b ∈ s.findingsAt file n, a.compareKey b = .eq → a = b) :
    (d ∈ Sink.kept (files.flatMap fun f => units.flatMap (s.findingsAt f)) ∧
      d.rule = s.registry.idOf n ∧ d.location.file = file.relativePath) ↔
        d ∈ s.findingsAt file n := by
  have hown : ∀ e ∈ files.flatMap fun f => units.flatMap (s.findingsAt f),
      e.rule = s.registry.idOf n → e.location.file.same file.relativePath →
        e ∈ s.findingsAt file n := by
    intro e he hrule hsame
    obtain ⟨g, hg, he⟩ := List.mem_flatMap.mp he
    obtain ⟨m, hm, he⟩ := List.mem_flatMap.mp he
    obtain ⟨hrule', hfile'⟩ := hunits m hm g e he
    obtain rfl := hids m hm (hrule'.symm.trans hrule)
    obtain rfl := hpath g hg (hfile' ▸ hsame)
    exact he
  constructor
  · rintro ⟨hd, hrule, hplace⟩
    exact hown d (Sink.mem_of_mem_kept hd) hrule (by simp [hplace, FilePath.same])
  · intro hd
    have hall : d ∈ files.flatMap fun f => units.flatMap (s.findingsAt f) :=
      List.mem_flatMap.mpr ⟨file, hfile, List.mem_flatMap.mpr ⟨n, hn, hd⟩⟩
    obtain ⟨hrule, hplace⟩ := hunits n hn file d hd
    -- what is kept with the key of the finding is of the same unit on the same file
    obtain ⟨e, he, hkey⟩ := Sink.exists_mem_kept hall
    obtain ⟨hsame, -, -, hname, -⟩ := Diagnostic.compareKey_eq_iff.mp hkey
    have he' := hown e (Sink.mem_of_mem_kept he) (hname.symm.trans hrule)
      (FilePath.same_symm (hplace ▸ hsame))
    rw [hkeys d hd e he' hkey]
    exact ⟨he, hname.symm.trans hrule, (hunits n hn file e he').2⟩

namespace Rules

/-- Where a request denotes the rule on directives, its findings on a file that is known by its path
are in the run exactly once. -/
theorem complaints_perm {s : Session} (hregistry : registry = .ok s.registry)
    {request : List String} {files : List SourceFile} {calls : List UnitCall} {run : Run}
    (hids : files.Pairwise fun f g => f.id ≠ g.id)
    (hrequested : ∃ id ∈ request, s.registry.rule? id = some malformedSuppressionInfo)
    (hrun : s.run request files calls = .ok run) {file : SourceFile} (hfile : file ∈ files)
    (hpath : ∀ g ∈ files, g.relativePath.same file.relativePath → g = file) :
    (run.diagnostics.filter fun d => d.rule = malformedSuppressionInfo.name ∧
        d.location.file = file.relativePath).Perm
      (((Suppressions.scan s.settings.marker file.content).complaints
        s.settings.requireJustification).map (complaintOn file)) := by
  have hready : s.Ready files := .of_build hregistry isPure_units (Session.ids_of_pairwise hids)
  obtain ⟨plan, hplan, rfl⟩ := Session.run_eq_ok_iff.mp hrun
  obtain ⟨hlists, -⟩ := @Session.run_lists s request files calls plan hready hplan
  -- the unit of the rule is among the requested ones
  obtain ⟨id, hid, hrule⟩ := hrequested
  obtain ⟨n, hlookup, hn⟩ := Option.bind_eq_some_iff.mp hrule
  obtain ⟨entry, hentry, hinfo⟩ := Option.bind_eq_some_iff.mp hn
  have hname : s.registry.idOf n = malformedSuppressionInfo.name := by
    rw [Registry.idOf_eq hentry,
      (signs_units entry.unit (mem_units hregistry hentry) _ hinfo).id_eq]
  have hmem : n ∈ plan.order.filter plan.requested.contains :=
    (Plan.mem_filter_requested_iff hplan).mpr ⟨id, hid, hlookup⟩
  have hdepth : ∀ m ∈ plan.order.filter plan.requested.contains,
      s.registry.DepthWithin s.depth m := fun m hm =>
    hready.plan_depthWithin hplan m (List.mem_of_mem_filter hm)
  have hfindings := findingsAt_malformedSuppression hregistry (hdepth n hmem) hname file
  have hplaces : ((s.findingsAt file n).map placeOf).Nodup := by
    rw [hfindings, map_placeOf_complaintOn]
    exact Suppressions.nodup_complaints _ _ _
  rw [← hfindings, ← hname]
  refine (List.perm_ext_iff_of_nodup ?_ hplaces.of_map).mpr fun d => ?_
  · rw [hlists]
    exact (Sink.nodup_kept _).filter _
  · rw [List.mem_filter, decide_eq_true_iff, hlists]
    refine Session.mem_kept_own (fun m hm => ownFindings hregistry (hdepth m hm)) ?_ hmem hfile
      hpath ?_
    · exact fun m hm => hready.wellFormed.idOf_inj (hdepth m hm).lt (hdepth n hmem).lt
    · exact fun a ha b hb hab => List.inj_on_of_nodup_map hplaces ha hb (placeOf_of_compareKey hab)

/-- **No directive is lost.**  With the built-in units and any marker that is not empty and has no
blanks: in every source text each comment is read as what it says, in order, as a directive, as a
malformed one, or as neither if it does not bear the marker.  And whenever the rule on directives is
requested, with whatever else, the run exists, and on each file that is known by its path, whether
or not it is valid code and whatever directives it holds, the findings of the rule are one for each
malformed directive and, if directives have to say why, one for each that does not, no two of them
at one place. -/
theorem no_directive_lost {s : Session} (hregistry : registry = .ok s.registry)
    (hmarker : Settings.isMarker s.settings.marker) {request : List String}
    (hknown : ∀ id ∈ request, (s.registry.lookup id).isSome)
    (hrequested : ∃ id ∈ request, s.registry.rule? id = some malformedSuppressionInfo)
    {files : List SourceFile} (hids : files.Pairwise fun f g => f.id ≠ g.id)
    (calls : List UnitCall) :
    (∀ source, ∃ entries,
      List.Forall₂ (Comment.Says s.settings.marker) (comments source) entries ∧
        (Suppressions.scan s.settings.marker source).directives =
          entries.filterMap (·.bind Sum.getRight?) ∧
        (Suppressions.scan s.settings.marker source).malformed =
          entries.filterMap (·.bind Sum.getLeft?)) ∧
    ∃ run, s.run request files calls = .ok run ∧ ∀ file ∈ files,
      (∀ g ∈ files, g.relativePath.same file.relativePath → g = file) →
        let complaints := (Suppressions.scan s.settings.marker file.content).complaints
          s.settings.requireJustification
        (complaints.map Prod.fst).Nodup ∧
          (run.diagnostics.filter fun d => d.rule = malformedSuppressionInfo.name ∧
            d.location.file = file.relativePath).Perm (complaints.map (complaintOn file)) := by
  -- Each comment is read on its own, and the two lists are what the readings have on either side.
  refine ⟨fun source =>
    ⟨(comments source).map (Directive.parse? s.settings.marker), ?_, ?_, ?_⟩, ?_⟩
  · rw [List.forall₂_map_right_iff, List.forall₂_same]
    exact fun c _ => (Directive.parse?_eq_iff hmarker).mp rfl
  · rw [List.filterMap_map]
    exact List.filterMap_filterMap
  · rw [List.filterMap_map]
    exact List.filterMap_filterMap
  · obtain ⟨run, hrun⟩ := exists_run hregistry
      (fun id hid => Option.isSome_iff_exists.mp (hknown id hid)) files calls
    refine ⟨run, hrun, fun file hfile hpath => ⟨Suppressions.nodup_complaints _ _ _, ?_⟩⟩
    exact complaints_perm hregistry hids hrequested hrun hfile hpath

/-- A session in which directives have to say why. -/
def strictSession : Session :=
  { builtinSession with settings := { requireJustification := true } }

/-- A file that is not valid code, with a directive that silences everything and does not say why,
one that does, and one that names no rule. -/
def loudFile : SourceFile :=
  .ofText 0 ⟨"loud.rs"⟩
    "fn // provider-lint:ignore *\n/*!provider-lint:ignore S001 a  b*/ /// provider-lint:ignore é"

/-- A file that is not valid code, with an entry without a rule and one without a justification. -/
theorem no_directive_lost_sample :
    loudFile.parse? = none ∧
    ∃ run, strictSession.run ["PL001"] [loudFile] [] = .ok run ∧
      (run.diagnostics.filter fun d => d.rule = malformedSuppressionInfo.name ∧
        d.location.file = loudFile.relativePath).Perm
          [complaintOn loudFile
            (⟨2, 37⟩, "malformed suppression directive: invalid rule id `é`"),
            complaintOn loudFile (⟨1, 4⟩, "suppression of `*` needs a justification")] := by
  have hparse : loudFile.parse?.isSome = false := by decide +kernel
  have hcomplaints : (Suppressions.scan strictSession.settings.marker loudFile.content).complaints
      strictSession.settings.requireJustification =
        [(⟨2, 37⟩, "malformed suppression directive: invalid rule id `é`"),
          (⟨1, 4⟩, "suppression of `*` needs a justification")] := by decide +kernel
  have hrequested : ∃ id ∈ ["PL001"],
      strictSession.registry.rule? id = some malformedSuppressionInfo := ⟨"PL001", by simp, rfl⟩
  obtain ⟨-, run, hrun, hfound⟩ := no_directive_lost registry_eq (by decide) (by decide) hrequested
    (List.pairwise_singleton (fun f g : SourceFile => f.id ≠ g.id) loudFile) []
  obtain ⟨-, hperm⟩ := hfound loudFile (by simp) (by simp)
  rw [hcomplaints] at hperm
  exact ⟨Option.not_isSome_iff_eq_none.mp (by simp [hparse]), run, hrun, hperm⟩

end Rules

end SchemaLint

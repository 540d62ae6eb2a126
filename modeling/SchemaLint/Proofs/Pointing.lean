import SchemaLint.Proofs.ExitStatus
import SchemaLint.Proofs.Grammar.Reads.Item
import SchemaLint.Proofs.Located
import SchemaLint.Proofs.Offset
import SchemaLint.Proofs.Origin

/-!
# Findings point at tokens

A finding is made with a line and a column, and the analysis adds the byte offset of that place in
the file of its path.  For comments, which are read in the content itself, this is where they begin.
Tokens are read in the code, and the offset is theirs unless a byte order mark is in front of them
on the first line: the mark counts as a character of the content but not of the code.

* `Code.groundedAll_nodes`: the record literals and method calls of a file stand in its code.
* `PointsAt`: the token that a finding is about and its byte offset.
* `Rules.Reported.exists_pointsAt`: what a finding of a rule points at.
* **`Analyzer.offset_points`**: the findings of an analysis have the offsets of their tokens, except
  on a first line with a byte order mark.
-/

namespace SchemaLint

open Code

/-- In a file of valid code, record literals and method calls are where the code has their
tokens. -/
theorem Code.groundedAll_nodes {source : String} {file : CodeFile}
    (h : parseFile? source = some file) :
    @Node.GroundedAll (.ofText (codeOfFile source.toList)) file.nodes := by
  let _ : Source := .ofText (codeOfFile source.toList)
  obtain ⟨ts, hts, -⟩ := Option.bind_eq_some_iff.mp h
  exact groundedAll_of_parseFile? h hts (Forest.groundedAll_of_ofStart? hts)

/-- The token that a finding in a file is about, at the place of the finding and at a byte offset of
the content of the file. -/
inductive PointsAt (settings : Settings) (f : SourceFile) (d : Diagnostic) (offset : Nat) : Prop
  /-- A schema rule reports the last identifier of the path of a record literal of a configured
  type. -/
  | name {code : CodeFile} {address : List Nat} {around : List (Node × Seat)} {n : Node}
      {name : PathName} {i : Ident} (hrule : d.rule ∈ Preset.schemaNames)
      (hcode : f.parse? = some code) (hreached : Reached code.nodes address around n)
      (hname : n.recordName? = some name)
      (htype : SchemaLiteral.IsSchemaType (.ofNodes code.nodes) settings.schema name)
      (hlast : i ∈ name.segments.getLast?)
      (hplace : (⟨d.location.line, d.location.column⟩ : Position) = i.place)
      (hat : TokenAt f.content.toList i.name.toList i.place offset)
  /-- The rule on setter keys reports the first token of the first argument of a method call with a
  key that is no literal and a value. -/
  | key {code : CodeFile} {address : List Nat} {around : List (Node × Seat)}
      {attributes : List Node} {receiver : Node} {dot : List Token} {method : Ident}
      {generics : List Node} {place : Position} {key value : Node} {others : List Node}
      {trailing : Bool} {t : Token} (hrule : d.rule = Rules.setterKeyLiteralInfo.name)
      (hcode : f.parse? = some code)
      (hreached : Reached code.nodes address around (.methodCall attributes receiver dot method
        generics place (key :: value :: others) trailing))
      (hkey : SetterCall.isLiteral key = false) (hfirst : t ∈ key.shown.head?)
      (hplace : (⟨d.location.line, d.location.column⟩ : Position) = t.place)
      (hat : TokenAt f.content.toList t.lead t.place offset)
  /-- The rule on directives reports the delimiter of a comment that begins with the marker. -/
  | comment {c : Comment} (hrule : d.rule = Rules.malformedSuppressionInfo.name)
      (hc : c ∈ comments f.content) (hdirective : (Directive.parse? settings.marker c).isSome)
      (hplace : (⟨d.location.line, d.location.column⟩ : Position) = c.position)
      (hat : CommentAt f.content.toList c.kind.mark c.position offset)

/-- Only the rule and the place of a finding matter. -/
theorem PointsAt.congr {settings : Settings} {f : SourceFile} {d d' : Diagnostic} {offset : Nat}
    (h : PointsAt settings f d offset) (hrule : d'.rule = d.rule)
    (hline : d'.location.line = d.location.line)
    (hcolumn : d'.location.column = d.location.column) : PointsAt settings f d' offset := by
  cases h with
  | name hrule' hcode hreached hname htype hlast hplace hat =>
      exact .name (by rwa [hrule]) hcode hreached hname htype hlast
        (by rw [hline, hcolumn]; exact hplace) hat
  | key hrule' hcode hreached hkey hfirst hplace hat =>
      exact .key (by rwa [hrule]) hcode hreached hkey hfirst
        (by rw [hline, hcolumn]; exact hplace) hat
  | comment hrule' hc hdirective hplace hat =>
      exact .comment (by rwa [hrule]) hc hdirective (by rw [hline, hcolumn]; exact hplace) hat

/-- No byte order mark is between a finding and the start of its line: it is about a comment, which
is read with the mark in front, or the file has no mark there. -/
def Unshifted (f : SourceFile) (d : Diagnostic) : Prop :=
  d.rule = Rules.malformedSuppressionInfo.name ∨
    (Marks f.content.toList → 1 < d.location.line)

/-- **What a finding of a built-in rule points at**, and when its place gives the offset. -/
theorem Rules.Reported.exists_pointsAt {s : Session} {f : SourceFile} {d : Diagnostic}
    (h : Reported s f d) :
    ∃ offset, PointsAt s.settings f d offset ∧
      (f.offsetFor d.location.line d.location.column = offset ↔ Unshifted f d) := by
  cases h with
  | @literal r code l hr hcode hl =>
      let _ : Source := .ofText (codeOfFile f.content.toList)
      obtain ⟨address, around, n, name, i, hreached, hname, htype, hlast, hstands, hplace⟩ :=
        SchemaLiteral.reportPosition_stands hcode (groundedAll_nodes hcode) hl
      obtain ⟨offset, hat, hoffset⟩ := SourceFile.exists_tokenAt hstands
      have hrule : r.info.name ∈ Preset.schemaNames := List.mem_map_of_mem hr
      have hother : r.info.name ≠ malformedSuppressionInfo.name := by
        intro heq
        rw [heq] at hrule
        revert hrule
        decide
      refine ⟨offset, .name hrule hcode hreached hname htype hlast hplace hat, ?_⟩
      simp only [Unshifted, SchemaRule.findingOn, RuleInfo.finding, Location.ofPosition, hother,
        false_or, hplace]
      exact hoffset
  | @key code c key message hcode hc hkey =>
      let _ : Source := .ofText (codeOfFile f.content.toList)
      -- A finding on a key is only made of calls with a key and a value.
      obtain ⟨value, others, hargs, hliteral⟩ :
          ∃ value others, c.args = key :: value :: others ∧ key.isLiteral = false := by
        unfold computedKey? at hkey
        split at hkey
        · rename_i key' value others hargs
          split at hkey
          · cases hkey
          · rename_i hliteral
            cases hkey
            exact ⟨value, others, hargs, by simpa using hliteral⟩
        · cases hkey
      obtain ⟨address, around, attributes, receiver, dot, method, generics, place, n, ns, trailing,
        t, hreached, rfl, hothers, hfirst, hstands, hplace⟩ :=
          SetterCall.position_stands (groundedAll_nodes hcode) hc hargs
      obtain ⟨value', others', rfl, -, -⟩ := List.map_eq_cons_iff.mp hothers.symm
      obtain ⟨offset, hat, hoffset⟩ := SourceFile.exists_tokenAt hstands
      refine ⟨offset, .key rfl hcode hreached hliteral hfirst hplace hat, ?_⟩
      have hother : setterKeyLiteralInfo.name ≠ malformedSuppressionInfo.name := by decide
      simp only [Unshifted, RuleInfo.finding, Location.ofPosition, hother, false_or, hplace]
      exact hoffset
  | @directive c message hc hdirective =>
      exact ⟨_, .comment rfl hc hdirective rfl (SourceFile.commentAt_of_mem hc),
        iff_of_true rfl (.inl rfl)⟩

/-- What is reported on a file is located in it. -/
theorem Rules.Reported.file_eq {s : Session} {f : SourceFile} {d : Diagnostic}
    (h : Reported s f d) : d.location.file = f.relativePath := by
  cases h <;> rfl

namespace Analyzer

variable {a : Analyzer} {files : List SourceFile} {f : SourceFile}

/-- The file of a path that one file alone has. -/
theorem fileOf?_eq_some (hf : f ∈ files)
    (hunique : ∀ g ∈ files, g.relativePath.same f.relativePath → g = f) :
    fileOf? files f.relativePath = some f := by
  unfold fileOf?
  cases hfind : files.reverse.find? fun g => g.relativePath.same f.relativePath with
  | none =>
      have hnone := List.find?_eq_none.mp hfind f (List.mem_reverse.mpr hf)
      simp [FilePath.same] at hnone
  | some g =>
      have hsame : g.relativePath.same f.relativePath :=
        List.find?_some (p := fun g : SourceFile => g.relativePath.same f.relativePath) hfind
      rw [hunique g (List.mem_reverse.mp (List.mem_of_find?_eq_some hfind)) hsame]

/-- Finishing a finding does not move it to another file. -/
theorem file_finish (a : Analyzer) (files : List SourceFile) (d : Diagnostic) :
    (a.finish files d).location.file = d.location.file := by
  unfold finish
  cases fileOf? files d.location.file <;> rfl

/-- A finding keeps its rule and its place, and gets the offset of the place in its file. -/
theorem finish_eq (hf : f ∈ files)
    (hunique : ∀ g ∈ files, g.relativePath.same f.relativePath → g = f) {d : Diagnostic}
    (hfile : d.location.file = f.relativePath) :
    (a.finish files d).rule = d.rule ∧ (a.finish files d).location =
      { d.location with
        offset := f.offsetFor d.location.line d.location.column
        length := 1 } := by
  unfold finish
  rw [hfile, fileOf?_eq_some hf hunique]
  exact ⟨rfl, rfl⟩

/-- **Reported offsets point at the reported token.**  Every finding of an analysis with the
built-in rules in a file whose relative path no other file has is about a token of that file: the
last identifier of the type path of a record literal, the first token of a key, or the delimiter of
a comment.  Its offset is the byte offset of the token, unless the finding is about code on the
first line of a file that begins with a byte order mark; there, and only there, it is another
one. -/
theorem offset_points (hregistry : Rules.registry = .ok a.registry) {r : LintResult}
    (h : a.analyzeFiles files = .ok r) (hf : f ∈ files)
    (hunique : ∀ g ∈ files, g.relativePath.same f.relativePath → g = f) {d : Diagnostic}
    (hd : d ∈ r.diagnostics) (hfile : d.location.file.same f.relativePath) :
    ∃ offset, PointsAt a.config.settings f d offset ∧
      (d.location.offset = offset ↔ Unshifted f d) := by
  obtain ⟨selected, run, -, -, hrun, rfl⟩ := analyzeFiles_eq_ok_iff.mp h
  obtain ⟨found, hfound, rfl⟩ := List.mem_map.mp hd
  obtain ⟨g, hg, hreported⟩ :=
    Rules.exists_reported (s := ⟨a.registry, a.config.settings, a.faultOf⟩) hregistry hrun hfound
  rw [file_finish, hreported.file_eq] at hfile
  obtain rfl := hunique g hg hfile
  obtain ⟨hrule, hlocation⟩ := finish_eq (a := a) hf hunique hreported.file_eq
  obtain ⟨offset, hpoints, hoffset⟩ := hreported.exists_pointsAt
  refine ⟨offset, hpoints.congr hrule (by rw [hlocation]) (by rw [hlocation]), ?_⟩
  simp only [Unshifted, hrule, hlocation]
  exact hoffset

/-- The analysis of one rule on schema literals with the default configuration. -/
def only (rule : SchemaRule) : Analyzer :=
  ⟨⟨"."⟩, Rules.builtinSession.registry, [rule.info.name], [], {}, Rules.builtinSession.faultOf⟩

/-- Where it has findings in a file. -/
def locations (rule : SchemaRule) (file : SourceFile) (code : CodeFile) : List Location :=
  (Sink.kept (rule.findings file (.scan Rules.builtinSession.settings.marker file.content)
    (Rules.literalsOf Rules.builtinSession code))).map fun d =>
      ((only rule).finish [file] d).location

/-- The analysis of one rule on a file of valid code has its findings at these locations. -/
theorem exists_finding_only {rule : SchemaRule} (hrule : rule ∈ Rules.schemaRules)
    {file : SourceFile} {location : Location}
    (h : file.parse?.map (locations rule file) = some [location]) :
    ∃ r d, (only rule).analyzeFiles [file] = .ok r ∧ d ∈ r.diagnostics ∧
      d.rule = rule.info.name ∧ d.location = location := by
  have hregistry : Rules.registry = .ok Rules.builtinSession.registry := Rules.registry_eq
  obtain ⟨code, hcode, hlocations⟩ := Option.map_eq_some_iff.mp h
  obtain ⟨n, hn, hid⟩ := Rules.lookup_schemaRule hregistry hrule (.inl rfl)
  obtain ⟨run, hrun⟩ : ∃ run, Rules.builtinSession.run [rule.info.name] [file] [] = .ok run := by
    refine Rules.exists_run hregistry (fun id hid => ?_) _ _
    rw [List.mem_singleton.mp hid]
    exact ⟨n, hn⟩
  have hready : Rules.builtinSession.Ready [file] := .of_build hregistry Rules.isPure_units
    (Session.ids_of_pairwise (List.pairwise_singleton _ _))
  obtain ⟨-, hkept⟩ := Rules.run_alone hready hn
    (fun m o hy => Rules.not_failed_of_parse hregistry (Option.isSome_of_eq_some hcode) hy)
    (fun o hy => Rules.yields_schemaRule hregistry hrule hcode hid hy) hrun
  have hselected : (only rule).selectedRules = .ok [rule.info.name] := by
    simp only [Rules.schemaRules, List.mem_cons, List.not_mem_nil, or_false] at hrule
    rcases hrule with rfl | rfl | rfl | rfl | rfl | rfl | rfl | rfl | rfl | rfl | rfl <;> rfl
  have hmarker : Settings.isMarker ({} : Settings).marker := by decide
  have hresult := analyzeFiles_eq_ok_iff.mpr ⟨_, run, hselected, hmarker, hrun, rfl⟩
  obtain ⟨d, hd, hlocation⟩ := List.map_eq_singleton_iff.mp hlocations
  refine ⟨_, (only rule).finish [file] d, hresult, ?_, ?_, hlocation⟩
  · rw [hkept, hd]
    exact List.mem_singleton_self _
  · have hmem := Sink.mem_of_mem_kept (hd ▸ List.mem_singleton_self d)
    obtain ⟨l, -, rfl⟩ := List.mem_map.mp hmem
    rfl

/-- A file whose first line names an interpreter, with a schema without a type after characters of
several bytes. -/
def scriptFile : SourceFile :=
  .ofText 0 ⟨"script.rs"⟩ "#!/usr/bin/env élan
/* ß */ const A: S = tfschema::Schema {};"

/-- A finding behind characters of several bytes, below a line that names an interpreter. -/
theorem offset_points_sample :
    ∃ r d, (only Rules.missingType).analyzeFiles [scriptFile] = .ok r ∧ d ∈ r.diagnostics ∧
      d.location.offset = 53 ∧ PointsAt {} scriptFile d 53 := by
  have hrule : Rules.missingType ∈ Rules.schemaRules := by simp [Rules.schemaRules]
  have hfound : scriptFile.parse?.map (locations Rules.missingType scriptFile) =
      some [⟨⟨"script.rs"⟩, 2, 32, 53, 1⟩] := by decide +kernel
  obtain ⟨r, d, hr, hd, -, hlocation⟩ := exists_finding_only hrule hfound
  have hoffset : d.location.offset = 53 := by rw [hlocation]
  have hfile : d.location.file.same scriptFile.relativePath := by
    rw [hlocation]
    decide
  obtain ⟨offset, hpoints, hright⟩ := offset_points Rules.registry_eq hr
    (List.mem_singleton_self _) (fun g hg _ => List.mem_singleton.mp hg) hd hfile
  have hunshifted : Unshifted scriptFile d := by
    refine .inr fun _ => ?_
    rw [hlocation]
    decide
  rw [← hright.mpr hunshifted, hoffset] at hpoints
  exact ⟨r, d, hr, hd, hoffset, hpoints⟩

/-- A file that begins with a byte order mark, with a schema that is required and optional. -/
def markedText : SourceFile :=
  .ofText 0 ⟨"a.rs"⟩ (String.singleton byteOrderMark ++
    "fn f() -> tfschema::Schema \x7b " ++
    "tfschema::Schema \x7b required: true, optional: true \x7d \x7d")

/-- A byte order mark shifts offsets on the first line: the finding on such a file has an offset at
which there is no token that it could be about. -/
theorem offset_shifted_by_mark :
    ¬ ∀ (a : Analyzer) (files : List SourceFile) (r : LintResult) (f : SourceFile)
      (d : Diagnostic), Rules.registry = .ok a.registry → a.analyzeFiles files = .ok r →
      f ∈ files → (∀ g ∈ files, g.relativePath.same f.relativePath → g = f) →
      d ∈ r.diagnostics → d.location.file.same f.relativePath →
      PointsAt a.config.settings f d d.location.offset := by
  intro h
  have hrule : Rules.requiredOptionalConflict ∈ Rules.schemaRules := by simp [Rules.schemaRules]
  have hfound : markedText.parse?.map (locations Rules.requiredOptionalConflict markedText) =
      some [⟨⟨"a.rs"⟩, 1, 40, 41, 1⟩] := by decide +kernel
  obtain ⟨r, d, hr, hd, hname, hlocation⟩ := exists_finding_only hrule hfound
  have hfile : d.location.file.same markedText.relativePath := by
    rw [hlocation]
    decide
  have hpoints := h _ _ r markedText d Rules.registry_eq hr (List.mem_singleton_self _)
    (fun g hg _ => List.mem_singleton.mp hg) hd hfile
  rw [hlocation] at hpoints
  -- the identifier at that place is one byte further on
  have htoken : TokenAt markedText.content.toList "Schema".toList ⟨1, 40⟩ 42 := by
    refine ⟨[byteOrderMark], (codeOfFile markedText.content.toList).take 39,
      (codeOfFile markedText.content.toList).drop 39, ?_, List.take_append_drop _ _, ?_, .inl ?_, ?_⟩
    all_goals decide +kernel
  cases hpoints with
  | name _ _ _ _ _ _ hplace hat =>
      rw [hlocation] at hplace
      rw [← hplace] at hat
      exact absurd (hat.unique htoken) (by decide)
  | key hother =>
      rw [hname] at hother
      exact absurd hother (by decide)
  | comment hother =>
      rw [hname] at hother
      exact absurd hother (by decide)

end Analyzer

end SchemaLint

import SchemaLint.Proofs.Pointing
import SchemaLint.Proofs.Suppression

/-!
# What one directive silences

A rule looks at the nodes of a file one at a time, and what it says about a node does not depend on
the directives.  They only decide, by the line that the node is anchored on, whether it is said.
That line need not be the one that is reported: the rule on setter keys reports the key of a call
that is anchored where its receiver begins.

* `FileNodes`, `MatchedNode`: the nodes that rules look at.
* `Rules.Remark`: what a rule says about a node.
* `Rules.exists_remarks`: the findings of a rule are its remarks that no directive silences.
* `RuleInfo.isSilenced_insert`: what one more directive silences.
* `FileNodes.anchorLine_pos`: the nodes of a file are anchored on its lines.
* **`Rules.directive_removes`**: with one more directive a rule has the same findings, but for those
  that the directive is next to if it names the rule.
-/

namespace SchemaLint

/-! ## Nodes -/

/-- A node that a rule looks at. -/
inductive MatchedNode
  /-- A schema literal. -/
  | literal (l : SchemaLiteral)
  /-- A setter call. -/
  | call (c : SetterCall)

/-- The line that directives are matched against. -/
def MatchedNode.anchorLine : MatchedNode → Nat
  | .literal l => l.anchorLine
  | .call c => c.anchorLine

/-- The nodes that are found in a file. -/
structure FileNodes where
  /-- The schema literals. -/
  literals : List SchemaLiteral
  /-- The setter calls. -/
  calls : List SetterCall

namespace FileNodes

/-- All of the nodes. -/
def all (x : FileNodes) : List MatchedNode :=
  x.literals.map .literal ++ x.calls.map .call

/-- The nodes of a piece of code. -/
def of (settings : SchemaSettings) (code : Code.CodeFile) : FileNodes where
  literals := SchemaLiteral.collect (.ofNodes code.nodes) settings code.nodes
  calls := SetterCall.collect (.ofNodes code.nodes) settings code.nodes

/-- What the units on nodes and directives find. -/
def fact (x : FileNodes) (s : Suppressions) (id : String) : Fact :=
  if id = Index.schemaLiteralsId then .schemaLiterals x.literals
  else if id = Index.setterCallsId then .setterCalls x.calls
  else .suppressions s

end FileNodes

/-- The context in which a unit is given the nodes and the directives of a file. -/
def UnitContext.given (cx : UnitContext) (u : AnalysisUnit) (x : FileNodes) (s : Suppressions) :
    UnitContext :=
  { cx with facts := u.requires.map fun id => (id, x.fact s id) }

/-! ## Lines -/

/-- **The nodes of a file are anchored on its lines**, which are counted from one: a schema literal
at a name and a setter call at the first token of its receiver, both of which stand in the file. -/
theorem FileNodes.anchorLine_pos {source : String} {code : Code.CodeFile}
    (h : Code.parseFile? source = some code) {settings : SchemaSettings} {n : MatchedNode}
    (hn : n ∈ (FileNodes.of settings code).all) : 0 < n.anchorLine := by
  rcases List.mem_append.mp hn with hliteral | hcall
  · obtain ⟨l, hl, rfl⟩ := List.mem_map.mp hliteral
    exact (SchemaLiteral.reportPosition_of_parseFile? h _ _).1 l hl
  · obtain ⟨c, hc, rfl⟩ := List.mem_map.mp hcall
    let _ : Code.Source := .ofText (Code.codeOfFile source.toList)
    obtain ⟨t, ⟨before, -, -, hplace, -⟩, hstart⟩ :=
      SetterCall.start_stands (Code.groundedAll_nodes h) hc
    show 0 < c.start.line
    rw [hstart, ← hplace]
    exact Position.start.line_advanceAll_le before

/-! ## Directives -/

/-- A directive names a rule: by its name, by its code, or by naming every rule. -/
def Directive.Names (d : Directive) (info : RuleInfo) : Prop :=
  d.rule = wildcard ∨ d.rule = info.name ∨ d.rule = info.code

/-- A line that is known is that of a directive or the one below. -/
def Directive.IsNextTo (d : Directive) (line : Nat) : Prop :=
  0 < line ∧ (line = d.line ∨ line = d.line + 1)

instance (d : Directive) (info : RuleInfo) : Decidable (d.Names info) :=
  inferInstanceAs (Decidable (_ ∨ _ ∨ _))

instance (d : Directive) (line : Nat) : Decidable (d.IsNextTo line) :=
  inferInstanceAs (Decidable (_ ∧ _))

section

variable {info : RuleInfo} {s s' : Suppressions} {d : Directive} {line : Nat}

/-- A rule is silenced on a line by a directive next to it that names it. -/
theorem RuleInfo.isSilenced_iff :
    info.isSilenced s line ↔ ∃ d ∈ s.directives, d.Names info ∧ d.IsNextTo line := by
  simp only [isSilenced, Suppressions.isSuppressedAt, Directive.isAdjacentTo, Directive.covers,
    Directive.Names, Directive.IsNextTo, Bool.or_eq_true, List.any_eq_true, Bool.and_eq_true,
    beq_iff_eq, decide_eq_true_eq]
  constructor
  · rintro (⟨d, hd, hnext, hrule⟩ | ⟨d, hd, hnext, hrule⟩)
    · exact ⟨d, hd, hrule.imp_right .inl, hnext⟩
    · exact ⟨d, hd, hrule.imp_right .inr, hnext⟩
  · rintro ⟨d, hd, hany | hname | hcode, hnext⟩
    · exact .inl ⟨d, hd, hnext, .inl hany⟩
    · exact .inl ⟨d, hd, hnext, .inr hname⟩
    · exact .inr ⟨d, hd, hnext, .inr hcode⟩

/-- **One more directive** silences a rule on the lines next to it, if it names the rule. -/
theorem RuleInfo.isSilenced_insert {before after : List Directive}
    (hs : s.directives = before ++ after) (hs' : s'.directives = before ++ d :: after) :
    info.isSilenced s' line ↔ info.isSilenced s line ∨ d.Names info ∧ d.IsNextTo line := by
  simp only [isSilenced_iff, hs, hs', List.mem_append, List.mem_cons, or_and_right, exists_or,
    exists_eq_left]
  rw [or_assoc, or_comm (a := d.Names info ∧ d.IsNextTo line)]

end

/-! ## Remarks -/

/-- The remarks of a rule that no directive silences. -/
def RuleInfo.unsilenced (info : RuleInfo) (s : Suppressions)
    (remarks : List (MatchedNode × Diagnostic)) : List (MatchedNode × Diagnostic) :=
  remarks.filter fun p => !info.isSilenced s p.1.anchorLine

/-- With one more directive those remarks are left out that are about nodes next to it, if it names
the rule. -/
theorem RuleInfo.unsilenced_insert {info : RuleInfo} {s s' : Suppressions} {d : Directive}
    {before after : List Directive} (hs : s.directives = before ++ after)
    (hs' : s'.directives = before ++ d :: after) (remarks : List (MatchedNode × Diagnostic)) :
    info.unsilenced s' remarks = (info.unsilenced s remarks).filter fun p =>
      ¬ (d.Names info ∧ d.IsNextTo p.1.anchorLine) := by
  unfold unsilenced
  rw [List.filter_filter]
  apply List.filter_congr
  intro p _
  have hinsert : info.isSilenced s' p.1.anchorLine ↔
      info.isSilenced s p.1.anchorLine ∨ d.Names info ∧ d.IsNextTo p.1.anchorLine :=
    isSilenced_insert hs hs'
  rw [Bool.eq_iff_iff, Bool.and_eq_true, decide_eq_true_eq, Bool.not_eq_true', Bool.not_eq_true',
    Bool.eq_false_iff, Bool.eq_false_iff, ne_eq, hinsert, not_or, and_comm]

namespace Rules

variable {file : SourceFile} {u : AnalysisUnit} {info : RuleInfo}

/-- What a rule says about a node, whatever the directives are. -/
inductive Remark (file : SourceFile) : AnalysisUnit → MatchedNode → Diagnostic → Prop
  /-- A rule on schema literals reports a literal that breaks it. -/
  | literal {r : SchemaRule} {l : SchemaLiteral} (hr : r ∈ schemaRules) (hbroken : r.isBrokenBy l) :
      Remark file r.unit (.literal l) (r.findingOn file l)
  /-- The rule on setter keys reports the key of a call, if it is no literal. -/
  | call {c : SetterCall} {key : CallArgument} (hkey : computedKey? c = some key) :
      Remark file setterKeyLiteral (.call c)
        (setterKeyLiteralInfo.finding file key.position
          "ResourceData.Set() key argument should be string literal" none)

/-- The remarks of a rule on schema literals. -/
def literalRemarks (r : SchemaRule) (file : SourceFile) (literals : List SchemaLiteral) :
    List (MatchedNode × Diagnostic) :=
  (literals.filter r.isBrokenBy).map fun l => (.literal l, r.findingOn file l)

/-- The remark of the rule on setter keys about a call, if there is one. -/
def callRemark? (file : SourceFile) (c : SetterCall) : Option (MatchedNode × Diagnostic) :=
  (computedKey? c).map fun key =>
    (.call c, setterKeyLiteralInfo.finding file key.position
      "ResourceData.Set() key argument should be string literal" none)

/-- The findings of a rule on schemas are its remarks without the silenced ones. -/
theorem findings_eq (r : SchemaRule) (s : Suppressions) (literals : List SchemaLiteral) :
    r.findings file s literals =
      (r.info.unsilenced s (literalRemarks r file literals)).map Prod.snd := by
  unfold SchemaRule.findings RuleInfo.unsilenced literalRemarks
  rw [List.filter_map, List.map_map, List.filter_filter]
  have hkept : ∀ l ∈ literals, (r.isBrokenBy l && !r.info.isSilenced s l.anchorLine) =
      (!r.info.isSilenced s l.anchorLine && r.isBrokenBy l) := by
    intro l _
    exact Bool.and_comm _ _
  rw [List.filter_congr hkept]
  rfl

/-- The findings on keys are the remarks on calls without the silenced ones. -/
theorem setterKeyFindings_eq (s : Suppressions) (calls : List SetterCall) :
    setterKeyFindings file s calls =
      (setterKeyLiteralInfo.unsilenced s (calls.filterMap (callRemark? file))).map Prod.snd := by
  unfold setterKeyFindings RuleInfo.unsilenced
  rw [List.filter_filterMap, List.map_filterMap]
  apply List.filterMap_congr
  intro c _
  unfold callRemark?
  cases computedKey? c with
  | none => simp
  | some key =>
      rw [Option.map_some, Option.map_some]
      cases hsilenced : setterKeyLiteralInfo.isSilenced s c.anchorLine <;>
        simp [MatchedNode.anchorLine, hsilenced]

/-- There is at most one remark about a call. -/
theorem callRemarks_sublist (calls : List SetterCall) :
    ((calls.filterMap (callRemark? file)).map Prod.fst).Sublist (calls.map .call) := by
  induction calls with
  | nil => exact .slnil
  | cons c rest ih =>
      rw [List.filterMap_cons, List.map_cons]
      cases hremark : callRemark? file c with
      | none => exact ih.cons _
      | some p =>
          obtain ⟨key, -, rfl⟩ := Option.map_eq_some_iff.mp hremark
          exact ih.cons_cons _

/-- **The findings of a rule are its remarks that no directive silences**, in the order in which
their nodes were found.  The remarks are the same whatever the directives are. -/
theorem exists_remarks (hu : u ∈ units) (hinfo : u.rule = some info)
    (hother : info ≠ malformedSuppressionInfo) (cx : UnitContext) (x : FileNodes) :
    ∃ remarks : List (MatchedNode × Diagnostic), (remarks.map Prod.fst).Sublist x.all ∧
      (∀ p ∈ remarks, Remark cx.file u p.1 p.2) ∧
      ∀ s, u.run (cx.given u x s) =
        .ok (.findings ((info.unsilenced s remarks).map Prod.snd)) := by
  rcases mem_units_iff.mp hu with hindex | ⟨r, hr, rfl⟩ | rfl | rfl
  · -- the units that find nodes are no rules
    rw [Index.rule_eq_none u hindex] at hinfo
    cases hinfo
  · obtain rfl : r.info = info := Option.some.inj hinfo
    refine ⟨literalRemarks r cx.file x.literals, ?_, ?_, ?_⟩
    · have hnodes : (literalRemarks r cx.file x.literals).map Prod.fst =
          (x.literals.filter r.isBrokenBy).map .literal := by
        rw [literalRemarks, List.map_map]
        rfl
      rw [hnodes]
      exact (List.filter_sublist.map _).trans (List.sublist_append_left _ _)
    · intro p hp
      obtain ⟨l, hl, rfl⟩ := List.mem_map.mp hp
      exact .literal hr (List.mem_filter.mp hl).2
    · intro s
      rw [← findings_eq]
      rfl
  · obtain rfl : setterKeyLiteralInfo = info := Option.some.inj hinfo
    refine ⟨x.calls.filterMap (callRemark? cx.file), ?_, ?_, ?_⟩
    · exact (callRemarks_sublist x.calls).trans (List.sublist_append_right _ _)
    · intro p hp
      obtain ⟨c, -, hremark⟩ := List.mem_filterMap.mp hp
      obtain ⟨key, hkey, rfl⟩ := Option.map_eq_some_iff.mp hremark
      exact .call hkey
    · intro s
      rw [← setterKeyFindings_eq]
      rfl
  · exact absurd (Option.some.inj hinfo).symm hother

/-- **A directive only removes findings, and only what it names.**  Let a rule other than that on
directives be given the nodes of a file and, once, some directives and then these with one more,
anywhere among them.  Its findings in the first case are about nodes, in the order in which these
were found, each being what the rule says about the node.  In the second case they are the same, in
the same order, without those about nodes that are anchored on the line of the directive or on the
one below, if the directive names the rule; if it does not, they are all the same.  A node whose
line is not known is on neither of the two lines, but all nodes of a file of valid code have known
lines. -/
theorem directive_removes (hu : u ∈ units) (hinfo : u.rule = some info)
    (hother : info ≠ malformedSuppressionInfo) (cx : UnitContext) (x : FileNodes)
    {s s' : Suppressions} {before after : List Directive} {d : Directive}
    (hs : s.directives = before ++ after) (hs' : s'.directives = before ++ d :: after) :
    (∃ found : List (MatchedNode × Diagnostic), (found.map Prod.fst).Sublist x.all ∧
      (∀ p ∈ found, Remark cx.file u p.1 p.2) ∧
      u.run (cx.given u x s) = .ok (.findings (found.map Prod.snd)) ∧
      (d.Names info → u.run (cx.given u x s') = .ok (.findings
        ((found.filter fun p => ¬ d.IsNextTo p.1.anchorLine).map Prod.snd))) ∧
      (¬ d.Names info → u.run (cx.given u x s') = u.run (cx.given u x s))) ∧
    ∀ code, cx.file.parse? = some code → x = .of cx.settings.schema code →
      ∀ n ∈ x.all, 0 < n.anchorLine := by
  constructor
  · obtain ⟨remarks, hnodes, hremarks, hrun⟩ := exists_remarks hu hinfo hother cx x
    refine ⟨info.unsilenced s remarks, ?_, ?_, hrun s, ?_, ?_⟩
    · exact (List.filter_sublist.map _).trans hnodes
    · intro p hp
      exact hremarks p (List.mem_of_mem_filter hp)
    · intro hnames
      simp only [hrun, RuleInfo.unsilenced_insert hs hs', hnames, true_and]
    · intro hnames
      simp only [hrun, RuleInfo.unsilenced_insert hs hs', hnames, false_and, not_false_eq_true,
        decide_true, List.filter_true]
  · rintro code hcode rfl n hn
    exact FileNodes.anchorLine_pos hcode hn

/-- A call whose receiver is on the second line and whose key, a call as well, is on the fourth. -/
def keyFile : SourceFile :=
  .ofText 0 ⟨"key.rs"⟩ "fn f(d: tfschema::ResourceData) {
    d
        .set(
            key(), 1);
}"

/-- A directive for the rule on setter keys on the line above that of the receiver. -/
def keyDirective : Directive :=
  ⟨"R001", 1, ⟨1, 35⟩, none⟩

/-- A directive above the line of the receiver removes the finding on a key further below. -/
theorem directive_removes_sample :
    ∃ code, keyFile.parse? = some code ∧
      (∀ n ∈ (FileNodes.of {} code).all, 0 < n.anchorLine ∧ keyDirective.IsNextTo n.anchorLine) ∧
      ∃ cx : UnitContext, cx.file = keyFile ∧
        setterKeyLiteral.run (cx.given setterKeyLiteral (.of {} code) ⟨[], []⟩) =
          .ok (.findings [setterKeyLiteralInfo.finding keyFile ⟨4, 13⟩
            "ResourceData.Set() key argument should be string literal" none]) ∧
        setterKeyLiteral.run (cx.given setterKeyLiteral (.of {} code) ⟨[keyDirective], []⟩) =
          .ok (.findings []) := by
  have hindexed : keyFile.parse?.map (fun code =>
      ((FileNodes.of {} code).literals, (FileNodes.of {} code).calls)) = some ([],
        [⟨"set", "d", ⟨2, 5⟩, ⟨3, 10⟩,
          [⟨⟨4, 13⟩, false, "key ()"⟩, ⟨⟨4, 20⟩, true, "1"⟩]⟩]) := by
    decide +kernel
  obtain ⟨code, hcode, hnodes⟩ := Option.map_eq_some_iff.mp hindexed
  obtain ⟨hliterals, hcalls⟩ := Prod.mk.inj hnodes
  have hunit : setterKeyLiteral ∈ units := by simp [units]
  have hnone : (⟨[], []⟩ : Suppressions).directives = [] ++ [] := rfl
  have hone : (⟨[keyDirective], []⟩ : Suppressions).directives = [] ++ keyDirective :: [] := rfl
  let cx : UnitContext := ⟨keyFile, {}, some code, none, [], []⟩
  obtain ⟨⟨found, hfound, -, -, hremoved, -⟩, hlines⟩ :=
    directive_removes hunit rfl (by decide) cx (.of {} code) hnone hone
  have hnext : ∀ n ∈ (FileNodes.of {} code).all, keyDirective.IsNextTo n.anchorLine := by
    intro n hn
    rw [FileNodes.all, hliterals, hcalls] at hn
    obtain rfl := List.mem_singleton.mp hn
    decide
  have hgone : found.filter (fun p => ¬ keyDirective.IsNextTo p.1.anchorLine) = [] := by
    apply List.filter_eq_nil_iff.mpr
    intro p hp
    have hp : p.1 ∈ (FileNodes.of {} code).all := hfound.subset (List.mem_map_of_mem hp)
    simpa using hnext p.1 hp
  refine ⟨code, hcode, fun n hn => ⟨hlines code hcode rfl n hn, hnext n hn⟩, cx, rfl, ?_, ?_⟩
  · show Except.ok (Fact.findings (setterKeyFindings keyFile _ (FileNodes.of {} code).calls)) = _
    rw [hcalls]
    rfl
  · rw [hremoved (by decide), hgone]
    rfl

end Rules

end SchemaLint

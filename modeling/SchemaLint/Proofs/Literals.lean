import SchemaLint.Proofs.Grammar.Place
import SchemaLint.SourceFile
import SchemaLint.SchemaLiteral

/-!
# Where schema literals are reported

* `SchemaLiteral.visit_named`: the collector finds no more literals with their type name at a place
  than the code has record literals named there.
* `SchemaLiteral.reportPosition_of_parseFile?`: the schema literals of a file are reported at places
  that are known and all different.
-/

namespace SchemaLint.SchemaLiteral

open Code

section

variable [Marked] {imports : ImportTable} {settings : SchemaSettings}

/-- How many literals have their type name at the marked place. -/
def named (literals : List SchemaLiteral) : Nat :=
  (literals.map (·.typeToken)).count Marked.place

/-- Each literal adds what its type token counts. -/
theorem named_cons (l : SchemaLiteral) (literals : List SchemaLiteral) :
    named (l :: literals) = atMark l.typeToken + named literals := by
  simp only [named, List.map_cons, List.count_cons, beq_iff_eq, atMark_eq]
  exact Nat.add_comm _ _

mutual

/-- One node adds no more literals than it has record literals named at the mark. -/
theorem visit_named (n : Node) (s : Collector) :
    named (visit imports settings s n).found ≤ named s.found + n.names := by
  cases n with
  | tokens ts => simp [visit]
  | group delimiter place inner => exact visitAll_named inner s
  | seq parts => exact visitAll_named parts s
  | conditioned parts conditions =>
      have hconditions := visitAll_named conditions s
      have hparts := visitAll_named parts (visitAll imports settings s conditions)
      simp only [visit, Node.names]
      omega
  | bodied front attributes body =>
      have hattributes := visitAll_named attributes s
      have hfront := visitAll_named front (visitAll imports settings s attributes)
      have hbody := visit_named body
        (visitAll imports settings (visitAll imports settings s attributes) front)
      simp only [visit, Node.names]
      omega
  | arranged ts parts => exact visitAll_named parts s
  | attributed attributes inner =>
      have hattributes := visitAll_named attributes s
      have hinner := visit_named inner (visitAll imports settings s attributes)
      simp only [visit, Node.names]
      omega
  | literal ts => simp [visit]
  | path name parts => exact visitAll_named parts s
  | paren place inner => exact visit_named inner s
  | reference mark inner =>
      have hmark := visitAll_named mark s
      have hinner := visit_named inner (visitAll imports settings s mark)
      simp only [visit, Node.names]
      omega
  | deref mark inner => exact visit_named inner s
  | operation left mark right =>
      have hleft := visit_named left s
      have hright := visit_named right (visit imports settings s left)
      simp only [visit, Node.names]
      omega
  | call callee place args trailing =>
      have hcallee := visit_named callee s
      have hargs := visitAll_named args (visit imports settings s callee)
      simp only [visit, Node.names]
      omega
  | methodCall attributes receiver dot method generics place args trailing =>
      simp only [visit, Node.names]
      have hattributes := visitAll_named attributes s
      have hreceiver := visit_named receiver (visitAll imports settings s attributes)
      have hgenerics := visitAll_named generics
        (visit imports settings (visitAll imports settings s attributes) receiver)
      refine Nat.le_trans (visitAll_named args _) ?_
      omega
  -- A schema record adds itself, counted by its name, and its path and attributes are not visited;
  -- any other record is visited whole.
  | record attributes name head place fields trailing dots rest =>
      simp only [visit, Node.names]
      split
      · refine Nat.le_trans (visitAll_named rest _) ?_
        refine Nat.le_trans (Nat.add_le_add_right (visitFields_named fields _) _) ?_
        rw [named_cons]
        simp only [ofRecord, lastPlace]
        omega
      · refine Nat.le_trans (visitAll_named rest _) ?_
        have hattributes := visitAll_named attributes { s with enclosing := [] }
        have hhead := visitAll_named head
          (visitAll imports settings { s with enclosing := [] } attributes)
        have hfields := visitAll_named fields (visitAll imports settings
          (visitAll imports settings { s with enclosing := [] } attributes) head)
        dsimp only at hattributes
        omega
  | field attributes member shorthand value =>
      have hattributes := visitAll_named attributes s
      have hvalue := visit_named value (visitAll imports settings s attributes)
      simp only [visit, Node.names]
      omega
  | scope params parts => exact visitAll_named parts s
  | block place statements => exact visitAll_named statements s
  | binding attributes pattern init =>
      simp only [visit, Node.names]
      have hattributes := visitAll_named attributes s
      have hpattern := visit_named pattern (visitAll imports settings s attributes)
      refine Nat.le_trans (visitAll_named init _) ?_
      omega
  | binder mark name sub =>
      have hmark := visitAll_named mark s
      have hsub := visitAll_named sub (visitAll imports settings s mark)
      simp only [visit, Node.names]
      omega
  | typed pattern type =>
      have hpattern := visit_named pattern s
      have htype := visit_named type (visit imports settings s pattern)
      simp only [visit, Node.names]
      omega
  | use tree parts => exact visitAll_named parts s
  | macroCall parts arguments => exact visitAll_named arguments s

/-- So do several nodes, one after the other. -/
theorem visitAll_named (ns : List Node) (s : Collector) :
    named (visitAll imports settings s ns).found ≤ named s.found + Node.namesAll ns := by
  cases ns with
  | nil => simp [visitAll]
  | cons n rest =>
      have hn := visit_named n s
      have hrest := visitAll_named rest (visit imports settings s n)
      simp only [visitAll, Node.namesAll_cons]
      omega

/-- So do the fields of a schema literal, of which only the values are visited. -/
theorem visitFields_named (ns : List Node) (s : Collector) :
    named (visitFields imports settings s ns).found ≤ named s.found + Node.namesAll ns := by
  cases ns with
  | nil => simp [visitFields]
  | cons n rest =>
      have hskip := visitFields_named rest s
      cases n
      case field attributes member shorthand value =>
        have hvalue := visit_named value { s with enclosing := member.plain :: s.enclosing }
        simp only [visitFields, Node.namesAll_cons, Node.names]
        refine Nat.le_trans (visitFields_named rest _) ?_
        dsimp only at hvalue ⊢
        omega
      all_goals
        simp only [visitFields, Node.namesAll_cons]
        omega

end

/-- At most one literal of a file has its type name at the marked place, and none if that place is
not known. -/
theorem named_collect {source : String} {file : CodeFile} (h : parseFile? source = some file)
    (imports : ImportTable) (settings : SchemaSettings) :
    named (collect imports settings file.nodes) ≤ 1 ∧
      (named (collect imports settings file.nodes) ≠ 0 → 0 < Marked.place.line) := by
  have hfound : named (visitAll imports settings ⟨[], []⟩ file.nodes).found ≤
      named [] + Node.namesAll file.nodes := visitAll_named file.nodes ⟨[], []⟩
  have hnone : named [] = 0 := rfl
  have hcollect : named (collect imports settings file.nodes) =
      named (visitAll imports settings ⟨[], []⟩ file.nodes).found := by
    simp only [named, collect, List.map_reverse, List.count_reverse]
  obtain ⟨hone, hknown⟩ := names_of_parseFile? h
  exact ⟨by omega, fun hne => hknown (by omega)⟩

end

/-- The type names of the schema literals of a file have places, so the brace is never needed. -/
theorem reportPosition_eq {source : String} {file : CodeFile} (h : parseFile? source = some file)
    {imports : ImportTable} {settings : SchemaSettings} {l : SchemaLiteral}
    (hl : l ∈ collect imports settings file.nodes) :
    l.reportPosition = l.typeToken ∧ 0 < l.typeToken.line := by
  have hknown : 0 < l.typeToken.line := by
    refine (@named_collect ⟨l.typeToken⟩ source file h imports settings).2
      (Nat.pos_iff_ne_zero.mp ?_)
    exact List.count_pos_iff.mpr (List.mem_map_of_mem hl)
  exact ⟨by simp [reportPosition, Position.isKnown, hknown], hknown⟩

/-- **The schema literals of a file are reported at places that are known and all different.** -/
theorem reportPosition_of_parseFile? {source : String} {file : CodeFile}
    (h : parseFile? source = some file) (imports : ImportTable) (settings : SchemaSettings) :
    (∀ l ∈ collect imports settings file.nodes, 0 < l.reportPosition.line) ∧
      ((collect imports settings file.nodes).map reportPosition).Nodup := by
  refine ⟨fun l hl => ?_, ?_⟩
  · obtain ⟨heq, hknown⟩ := reportPosition_eq h hl
    rwa [heq]
  · rw [List.map_congr_left fun l hl => (reportPosition_eq h hl).1]
    exact List.nodup_iff_count_le_one.mpr fun p =>
      (@named_collect ⟨p⟩ source file h imports settings).1

end SchemaLint.SchemaLiteral

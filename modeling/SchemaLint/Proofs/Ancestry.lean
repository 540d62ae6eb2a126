import Mathlib.Logic.Relation
import SchemaLint.FileTree
import SchemaLint.Proofs.Path

/-!
# Paths and the directories above them

The parent of a path has all its components but the last, so going from parent to parent comes to
an end after as many steps as there are components.  In a tree of files a path without `..` is
looked up from where its parent leads.

* `FilePath.components_parent?`: the components of a parent.
* `FilePath.AtOrBelow`, `FilePath.Below`: paths that are reached from parent to parent.
* `FilePath.ancestors_of_parent?`, **`FilePath.mem_ancestors`**: the ancestors are all of these.
* `FilePath.IsDirect`: absolute paths without `..`.
* `FileNode.follow`, `FileNode.find?_eq_follow`: such a path names what its pieces lead to.
* **`FileNode.find?_congr_of_atOrBelow`**: what it names is decided by what a path above it names.
-/

namespace SchemaLint

namespace FilePath

variable {p q r : FilePath}

/-! ## Parents -/

/-- Text that is put together from pieces has their components. -/
theorem bodyComponents_joinPieces {pieces : List (List Char)}
    (hslash : ∀ piece ∈ pieces, '/' ∉ piece) :
    bodyComponents (joinPieces pieces) = pieces.filterMap componentOf := by
  by_cases hne : pieces = []
  · subst hne
    rfl
  · unfold bodyComponents joinPieces
    rw [Text.splitAtChar_eq_splitOn, List.splitOn_intercalate '/' hslash hne]

/-- The pieces that the parent of a path keeps, of those after the start of the path. -/
theorem prefix_of_dropLast_dropIdleEnd (pieces : List (List Char)) :
    dropIdleEnd (dropIdleEnd pieces).dropLast <+: pieces :=
  ((List.rdropWhile_prefix isIdlePiece _).trans (List.dropLast_prefix _)).trans
    (List.rdropWhile_prefix isIdlePiece _)

/-- Text after the start of a path loses its last component. -/
theorem bodyComponents_bodyAbove (cs : List Char) :
    bodyComponents (bodyAbove cs) = (bodyComponents cs).dropLast := by
  have hslash : ∀ piece ∈ dropIdleEnd (dropIdleEnd (Text.splitAtChar '/' cs)).dropLast,
      '/' ∉ piece := by
    intro piece hpiece
    exact Text.separator_notMem_of_mem_splitAtChar
      ((prefix_of_dropLast_dropIdleEnd _).mem hpiece)
  have hfront : bodyComponents (bodyAbove cs) =
      (dropIdleEnd (Text.splitAtChar '/' cs)).dropLast.filterMap componentOf := by
    rw [bodyAbove, bodyComponents_joinPieces hslash, filterMap_dropIdleEnd]
  rw [hfront, bodyComponents, ← filterMap_dropIdleEnd (Text.splitAtChar '/' cs)]
  by_cases hne : dropIdleEnd (Text.splitAtChar '/' cs) = []
  · rw [hne]
    rfl
  · -- the last piece that counts is the last component
    have hlast : ¬ isIdlePiece ((dropIdleEnd (Text.splitAtChar '/' cs)).getLast hne) :=
      List.rdropWhile_last_not isIdlePiece _ hne
    obtain ⟨c, hc⟩ : ∃ c, componentOf ((dropIdleEnd (Text.splitAtChar '/' cs)).getLast hne) =
        some c := by
      rw [← Option.ne_none_iff_exists']
      intro hnone
      exact hlast (by simp [isIdlePiece, hnone])
    conv_rhs => rw [← List.dropLast_concat_getLast hne]
    rw [List.filterMap_append, List.filterMap_cons_some hc, List.filterMap_nil,
      List.dropLast_concat]

/-- An absolute path starts with the root. -/
theorem components_of_root {cs : List Char} (h : p.text.toList = '/' :: cs) :
    p.components = .root :: bodyComponents cs := by
  simp [components, h]

/-- A lone dot is the current directory. -/
theorem components_of_current (h : p.text.toList = ['.']) : p.components = [.current] := by
  simp [components, h]

/-- A dot in front of the first slash is a component of its own. -/
theorem components_of_below {cs : List Char} (h : p.text.toList = '.' :: '/' :: cs) :
    p.components = .current :: bodyComponents cs := by
  simp [components, h]

/-- A path without such a start has only the components of its body. -/
theorem components_of_start (h : p.start = []) : p.components = bodyComponents p.text.toList := by
  rw [components_eq, h]
  rfl

/-- Below a leading `.` the text of the parent is empty, or goes on with a slash. -/
theorem bodyAbove_below (cs : List Char) :
    bodyAbove ('/' :: cs) = [] ∨ ∃ ds, bodyAbove ('/' :: cs) = '/' :: ds := by
  have hfront := prefix_of_dropLast_dropIdleEnd (Text.splitAtChar '/' ('/' :: cs))
  rw [bodyAbove]
  generalize dropIdleEnd (dropIdleEnd (Text.splitAtChar '/' ('/' :: cs))).dropLast = ps at hfront
  rw [Text.splitAtChar, if_pos rfl] at hfront
  rcases ps with _ | ⟨first, _ | ⟨second, rest⟩⟩
  · exact .inl rfl
  · obtain rfl : first = [] := by simpa using hfront
    exact .inl rfl
  · obtain rfl : first = [] := (List.cons_prefix_cons.mp hfront).1
    exact .inr ⟨joinPieces (second :: rest), rfl⟩

/-- A path that begins with an idle piece is empty or has a special start. -/
theorem text_of_idle_head {piece : List Char} (hpiece : piece ∈ p.pieces.head?)
    (hidle : isIdlePiece piece) :
    p.text.toList = [] ∨ p.text.toList = ['.'] ∨ (∃ cs, p.text.toList = '/' :: cs) ∨
      ∃ cs, p.text.toList = '.' :: '/' :: cs := by
  have htext : p.text.toList = joinPieces p.pieces := by
    rw [pieces_eq, joinPieces, List.intercalate_splitOn]
  obtain ⟨rest, hrest⟩ := List.head?_eq_some_iff.mp hpiece
  rw [htext, hrest]
  have hcases : piece = [] ∨ piece = ['.'] := by
    unfold isIdlePiece componentOf at hidle
    split at hidle
    · exact .inl rfl
    · exact .inr rfl
    · cases hidle
    · cases hidle
  rcases hcases with rfl | rfl
  · cases rest with
    | nil => exact .inl rfl
    | cons second rest => exact .inr (.inr (.inl ⟨joinPieces (second :: rest), rfl⟩))
  · cases rest with
    | nil => exact .inr (.inl rfl)
    | cons second rest => exact .inr (.inr (.inr ⟨joinPieces (second :: rest), rfl⟩))

/-- The parent of a path without a special start has none either. -/
theorem start_bodyAbove (h : ∀ piece ∈ p.pieces.head?, ¬ isIdlePiece piece) :
    (mk (String.ofList (bodyAbove p.text.toList))).start = [] := by
  have hfront : dropIdleEnd (dropIdleEnd p.pieces).dropLast <+: p.pieces :=
    prefix_of_dropLast_dropIdleEnd _
  have habove : bodyAbove p.text.toList =
      joinPieces (dropIdleEnd (dropIdleEnd p.pieces).dropLast) := rfl
  rw [habove]
  generalize dropIdleEnd (dropIdleEnd p.pieces).dropLast = ps at hfront
  by_cases hne : ps = []
  · subst hne
    rfl
  · have hslash : ∀ piece ∈ ps, '/' ∉ piece := by
      intro piece hpiece
      exact Text.separator_notMem_of_mem_splitAtChar (hfront.mem hpiece)
    refine start_eq_nil ?_
    rw [pieces_joinPieces hne hslash]
    intro piece hpiece
    refine h piece ?_
    obtain ⟨after, hafter⟩ := hfront
    rw [← hafter, List.head?_append_of_ne_nil _ hne]
    exact hpiece

/-- **The parent of a path has all its components but the last.** -/
theorem components_parent? (h : p.parent? = some q) :
    p.components ≠ [] ∧ q.components = p.components.dropLast := by
  -- The cases are those of the start of a path: a root, the current directory, something below the
  -- current directory, or none of these.
  unfold parent? at h
  split at h
  · rename_i cs htext
    split_ifs at h with hbody
    have hq : q.text.toList = '/' :: bodyAbove cs := by
      rw [← Option.some.inj h]
      exact String.toList_ofList
    rw [components_of_root htext, components_of_root hq, bodyComponents_bodyAbove,
      List.dropLast_cons_of_ne_nil (by simpa using hbody)]
    exact ⟨List.cons_ne_nil _ _, rfl⟩
  · rename_i htext
    rw [← Option.some.inj h, components_of_current htext]
    exact ⟨List.cons_ne_nil _ _, rfl⟩
  · rename_i cs htext
    rw [components_of_below htext]
    split_ifs at h with hbody
    · rw [← Option.some.inj h, List.isEmpty_iff.mp hbody]
      exact ⟨List.cons_ne_nil _ _, rfl⟩
    · have hq : q.text.toList = '.' :: bodyAbove ('/' :: cs) := by
        rw [← Option.some.inj h]
        exact String.toList_ofList
      have habove : bodyComponents (bodyAbove ('/' :: cs)) = (bodyComponents cs).dropLast :=
        bodyComponents_bodyAbove ('/' :: cs)
      rw [List.dropLast_cons_of_ne_nil (by simpa using hbody), ← habove]
      refine ⟨List.cons_ne_nil _ _, ?_⟩
      rcases bodyAbove_below cs with hnil | ⟨ds, hslash⟩
      · rw [hnil] at hq ⊢
        exact components_of_current hq
      · rw [hslash] at hq ⊢
        rw [components_of_below hq]
        rfl
  · rename_i hroot hcurrent hbelow
    split_ifs at h with hbody
    have hhead : ∀ piece ∈ p.pieces.head?, ¬ isIdlePiece piece := by
      intro piece hpiece hidle
      rcases text_of_idle_head hpiece hidle with htext | htext | ⟨cs, htext⟩ | ⟨cs, htext⟩
      · rw [htext] at hbody
        exact hbody rfl
      · exact hcurrent htext
      · exact hroot cs htext
      · exact hbelow cs htext
    have hq : q.text.toList = bodyAbove p.text.toList := by
      rw [← Option.some.inj h]
      exact String.toList_ofList
    have hstart : q.start = [] := by
      rw [← Option.some.inj h]
      exact start_bodyAbove hhead
    rw [components_of_start (start_eq_nil hhead), components_of_start hstart, hq,
      bodyComponents_bodyAbove]
    exact ⟨by simpa using hbody, rfl⟩

/-! ## Ancestors -/

/-- Parents are reached one from the other. -/
def AtOrBelow : FilePath → FilePath → Prop :=
  Relation.ReflTransGen fun p q => p.parent? = some q

/-- Parents are reached one from the other, in one step or more. -/
def Below : FilePath → FilePath → Prop :=
  Relation.TransGen fun p q => p.parent? = some q

/-- A parent has one component less. -/
theorem length_components_parent? (h : p.parent? = some q) :
    p.components.length = q.components.length + 1 := by
  obtain ⟨hne, hq⟩ := components_parent? h
  have hpos := List.length_pos_of_ne_nil hne
  rw [hq, List.length_dropLast]
  omega

/-- What is below a path has more components. -/
theorem Below.length_lt (h : p.Below q) : q.components.length < p.components.length := by
  induction h with
  | single hparent =>
      rw [length_components_parent? hparent]
      omega
  | tail _ hparent ih =>
      rw [length_components_parent? hparent] at ih
      omega

/-- No path is above itself. -/
theorem not_below_self (p : FilePath) : ¬ p.Below p :=
  fun h => Nat.lt_irrefl _ h.length_lt

/-- What is at or above a path is the path, or at or above its parent. -/
theorem atOrBelow_iff : p.AtOrBelow r ↔ p = r ∨ ∃ q, p.parent? = some q ∧ q.AtOrBelow r :=
  Relation.ReflTransGen.cases_head_iff

/-- What is above a path is at or above its parent. -/
theorem below_iff : p.Below r ↔ ∃ q, p.parent? = some q ∧ q.AtOrBelow r :=
  Relation.TransGen.head'_iff

/-- A path is below all that its parent is at or below. -/
theorem below_of_parent? (h : p.parent? = some q) (hq : q.AtOrBelow r) : p.Below r :=
  below_iff.mpr ⟨q, h, hq⟩

/-- There are as many ancestors as parents to reach. -/
theorem ancestors_of_parent? (h : p.parent? = some q) : p.ancestors = p :: q.ancestors := by
  unfold ancestors
  rw [length_components_parent? h, ancestorsFrom, h]

/-- A path without a parent is its only ancestor. -/
theorem ancestors_of_parent?_eq_none (h : p.parent? = none) : p.ancestors = [p] := by
  unfold ancestors
  cases p.components.length with
  | zero => rw [ancestorsFrom]
  | succ n => rw [ancestorsFrom, h]

/-- To show something of a path it may be supposed of its parent. -/
theorem parentRec {motive : FilePath → Prop} (root : ∀ p, p.parent? = none → motive p)
    (below : ∀ p q, p.parent? = some q → motive q → motive p) (p : FilePath) : motive p := by
  induction hn : p.components.length using Nat.strong_induction_on generalizing p with
  | _ n ih =>
      cases hparent : p.parent? with
      | none => exact root p hparent
      | some q =>
          refine below p q hparent (ih _ ?_ q rfl)
          rw [← hn, length_components_parent? hparent]
          omega

/-- **The ancestors are the paths that are reached from parent to parent.** -/
theorem mem_ancestors : q ∈ p.ancestors ↔ p.AtOrBelow q := by
  induction p using parentRec with
  | root p hparent =>
      rw [ancestors_of_parent?_eq_none hparent, List.mem_singleton, atOrBelow_iff, hparent]
      simp [eq_comm]
  | below p above hparent ih =>
      rw [ancestors_of_parent? hparent, List.mem_cons, ih, atOrBelow_iff (p := p), hparent]
      simp [eq_comm]

/-! ## Direct paths -/

/-- The path starts at the root and never goes back up. -/
def IsDirect (p : FilePath) : Prop :=
  p.isAbsolute ∧ .parent ∉ p.components

instance : DecidablePred IsDirect :=
  fun _ => inferInstanceAs (Decidable (_ ∧ _))

/-- The parent of a path without detours has none. -/
theorem IsDirect.parent? (h : p.IsDirect) (hparent : p.parent? = some q) : q.IsDirect := by
  refine ⟨?_, ?_⟩
  · obtain ⟨cs, hcs⟩ := exists_of_isAbsolute h.1
    unfold FilePath.parent? at hparent
    rw [hcs] at hparent
    simp only at hparent
    split_ifs at hparent
    rw [← Option.some.inj hparent]
    simp [isAbsolute]
  · rw [(components_parent? hparent).2]
    intro hmem
    exact h.2 (List.dropLast_subset _ hmem)

/-- No path above one without detours has any. -/
theorem IsDirect.of_atOrBelow (h : p.IsDirect) (hq : p.AtOrBelow q) : q.IsDirect := by
  induction hq with
  | refl => exact h
  | tail _ hparent ih => exact ih.parent? hparent

/-- The pieces of an absolute path begin with those of its parent. -/
theorem exists_pieces_parent? (hp : p.isAbsolute) (h : p.parent? = some q) :
    ∃ front rest, (q.pieces = [] :: front ∨ front = [] ∧ q.pieces = [[], []]) ∧
      p.pieces = [] :: front ++ rest := by
  obtain ⟨cs, hcs⟩ := exists_of_isAbsolute hp
  have hpieces : p.pieces = [] :: Text.splitAtChar '/' cs := by
    rw [pieces, hcs, Text.splitAtChar, if_pos rfl]
  have hq : q.pieces = [] :: Text.splitAtChar '/' (bodyAbove cs) := by
    unfold parent? at h
    rw [hcs] at h
    simp only at h
    split_ifs at h
    rw [← Option.some.inj h, pieces, String.toList_ofList, Text.splitAtChar, if_pos rfl]
  obtain ⟨rest, hrest⟩ := prefix_of_dropLast_dropIdleEnd (Text.splitAtChar '/' cs)
  rw [hpieces, hq, bodyAbove]
  generalize dropIdleEnd (dropIdleEnd (Text.splitAtChar '/' cs)).dropLast = ps at hrest
  refine ⟨ps, rest, ?_, by rw [← hrest]; rfl⟩
  by_cases hne : ps = []
  · subst hne
    exact .inr ⟨rfl, rfl⟩
  · have hslash : ∀ piece ∈ ps, '/' ∉ piece := by
      intro piece hpiece
      exact Text.separator_notMem_of_mem_splitAtChar
        (hrest ▸ List.mem_append_left rest hpiece)
    refine .inl ?_
    rw [joinPieces, Text.splitAtChar_eq_splitOn, List.splitOn_intercalate '/' hslash hne]

/-- No piece of a path without detours leads upwards. -/
theorem IsDirect.parent_notMem_pieces (h : p.IsDirect) : ['.', '.'] ∉ p.pieces := by
  intro hmem
  refine h.2 ?_
  rw [components_eq]
  exact List.mem_append_right _ (List.mem_filterMap.mpr ⟨_, hmem, rfl⟩)

end FilePath

/-! ## Looking up along pieces -/

namespace FileNode

variable {n tree other : FileNode} {p q : FilePath} {piece : String}

/-- What a piece of a path other than `..` leads to from a node. -/
def next? (n : FileNode) (piece : String) : Option FileNode :=
  match n with
  | .file _ => none
  | .directory entries =>
    if piece == "" || piece == "." then some n else entries.lookup piece

/-- What pieces of a path other than `..` lead to, one after the other. -/
def follow (pieces : List String) (n : FileNode) : Option FileNode :=
  pieces.foldlM next? n

/-- Names are followed one after the other. -/
theorem follow_append (front back : List String) (n : FileNode) :
    follow (front ++ back) n = (follow front n).bind (follow back) :=
  List.foldlM_append

/-- Where more pieces follow, an empty one does not count. -/
theorem follow_empty_cons (piece : String) (back : List String) (n : FileNode) :
    follow ("" :: piece :: back) n = follow (piece :: back) n := by
  cases n with
  | file content => rfl
  | directory entries => rfl

/-- A step down from a trail goes to the node of that name. -/
theorem Trail.toOption_step (t : Trail) (h : piece ≠ "..") :
    (t.step piece).toOption.map Trail.node = t.node.next? piece := by
  unfold Trail.step next?
  cases hnode : t.node with
  | file content => rfl
  | directory entries =>
      simp only
      split_ifs with hidle hparent
      · rw [← hnode]
        rfl
      · exact absurd (eq_of_beq hparent) h
      · cases entries.lookup piece with
        | none => rfl
        | some node => rfl

/-- Steps down from a trail follow the names. -/
theorem Trail.toOption_foldlM_step (pieces : List String) (t : Trail) (h : ".." ∉ pieces) :
    (pieces.foldlM Trail.step t).toOption.map Trail.node = follow pieces t.node := by
  induction pieces generalizing t with
  | nil => rfl
  | cons piece pieces ih =>
      have hfirst := t.toOption_step (List.ne_of_not_mem_cons h).symm
      rw [List.foldlM_cons, follow, List.foldlM_cons, ← hfirst]
      cases t.step piece with
      | error fault => rfl
      | ok next => exact ih next (List.not_mem_of_not_mem_cons h)

/-- **A direct path names what its pieces lead to.** -/
theorem find?_eq_follow (h : p.IsDirect) (tree : FileNode) :
    tree.find? p = follow (p.pieces.map String.ofList) tree := by
  refine Trail.toOption_foldlM_step _ ⟨tree, []⟩ ?_
  intro hmem
  obtain ⟨piece, hpiece, hparent⟩ := List.mem_map.mp hmem
  refine h.parent_notMem_pieces ?_
  rw [← String.toList_ofList (l := piece), hparent] at hpiece
  exact hpiece

/-- What a direct path names is decided by what its parent names. -/
theorem find?_congr_of_parent? (hp : p.IsDirect) (h : p.parent? = some q)
    (hq : other.find? q = tree.find? q) : other.find? p = tree.find? p := by
  obtain ⟨front, rest, hfront, hpieces⟩ := FilePath.exists_pieces_parent? hp.1 h
  -- a last empty piece of the parent does not count
  have hparent : ∀ n, follow (q.pieces.map String.ofList) n =
      follow (([] :: front).map String.ofList) n := by
    intro n
    rcases hfront with hfront | ⟨rfl, hfront⟩
    · rw [hfront]
    · rw [hfront]
      exact follow_empty_cons "" [] n
  rw [find?_eq_follow (hp.parent? h), find?_eq_follow (hp.parent? h), hparent, hparent] at hq
  rw [find?_eq_follow hp, find?_eq_follow hp, hpieces, List.map_append, follow_append,
    follow_append, hq]

/-- **What a direct path names is decided by what a path above it names.** -/
theorem find?_congr_of_atOrBelow (hp : p.IsDirect) (h : p.AtOrBelow q)
    (hq : other.find? q = tree.find? q) : other.find? p = tree.find? p := by
  induction h using Relation.ReflTransGen.head_induction_on with
  | refl => exact hq
  | head hparent _ ih => exact find?_congr_of_parent? hp hparent (ih (hp.parent? hparent))

/-- What a path of names below a direct path names is decided by what that names. -/
theorem find?_congr_of_join (hp : p.IsDirect) (hq : q.IsPlain)
    (h : other.find? p = tree.find? p) : other.find? (p.join q) = tree.find? (p.join q) := by
  obtain ⟨front, hfront, hjoin⟩ := FilePath.exists_pieces_join hq.not_isAbsolute hp.1
  have hdirect : (p.join q).IsDirect := by
    refine ⟨FilePath.isAbsolute_join q hp.1, ?_⟩
    rw [FilePath.components_join hq.not_isAbsolute hp.1, ← hq.components_eq, List.mem_append]
    rintro (hmem | hmem)
    · exact hp.2 hmem
    · obtain ⟨name, hname⟩ := hq _ hmem
      cases hname
  obtain ⟨first, rest, hpieces⟩ : ∃ first rest, q.pieces = first :: rest := by
    refine List.exists_cons_of_ne_nil ?_
    rw [FilePath.pieces_eq]
    exact List.splitOn_ne_nil _ _
  -- a last empty piece of the directory does not count
  have hbelow : ∀ n, follow ((p.join q).pieces.map String.ofList) n =
      (follow (p.pieces.map String.ofList) n).bind (follow (q.pieces.map String.ofList)) := by
    intro n
    rw [← follow_append, ← List.map_append, hjoin]
    rcases hfront with hfront | hfront
    · rw [hfront]
    · rw [hfront, hpieces, List.append_assoc, List.map_append, List.map_append, follow_append,
        follow_append]
      exact congrArg _ (funext fun n => (follow_empty_cons _ _ n).symm)
  rw [find?_eq_follow hp, find?_eq_follow hp] at h
  rw [find?_eq_follow hdirect, find?_eq_follow hdirect, hbelow, hbelow, h]

end FileNode

end SchemaLint

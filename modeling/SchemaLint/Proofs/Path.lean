import Mathlib.Data.List.DropRight
import SchemaLint.FilePath

/-!
# Paths below a directory

A path is read piece by piece: what stands between two slashes is a component, or counts for
nothing.  The statements here say what joining does to the pieces, and that the path below a
directory which a joined path shows is the one it was joined with, up to idle pieces at its ends.

* `FilePath.pieces`, `FilePath.components_eq`: the components of a path from its pieces.
* `FilePath.IsName`, `FilePath.entry_mem_components`: names, and the paths that they occur in.
* `FilePath.exists_pieces_join`, `FilePath.components_join`: the pieces and components of a joined
  path.
* **`FilePath.relativeTo_join`**: a joined path seen from its directory.
* `FilePath.ofNames`, **`FilePath.relativeTo_join_ofNames`**: a path of names is seen as it is.
* `FilePath.descend`, `FilePath.descend_eq_join`: the way down from a directory, name by name.
-/

namespace SchemaLint

/-- Splitting a text at a character. -/
theorem Text.splitAtChar_eq_splitOn (c : Char) (cs : List Char) :
    splitAtChar c cs = cs.splitOn c := by
  induction cs with
  | nil => rfl
  | cons d cs ih =>
      rw [splitAtChar, List.splitOn_cons_eq_if_modifyHead, ih]
      by_cases hd : d = c
      · simp [hd]
      · rw [if_neg hd, if_neg (by simpa using hd)]
        cases hsplit : cs.splitOn c with
        | nil => exact absurd hsplit (List.splitOn_ne_nil c cs)
        | cons piece pieces => rfl

/-- No piece holds the separator. -/
theorem Text.separator_notMem_of_mem_splitAtChar {c : Char} {cs piece : List Char}
    (h : piece ∈ splitAtChar c cs) : c ∉ piece := by
  induction cs generalizing piece with
  | nil =>
      obtain rfl : piece = [] := by simpa [splitAtChar] using h
      exact List.not_mem_nil
  | cons d cs ih =>
      rw [splitAtChar] at h
      by_cases hd : d = c
      · rw [if_pos hd] at h
        rcases List.mem_cons.mp h with rfl | h
        · exact List.not_mem_nil
        · exact ih h
      · rw [if_neg hd] at h
        cases hsplit : splitAtChar c cs with
        | nil =>
            rw [splitAtChar_eq_splitOn] at hsplit
            exact absurd hsplit (List.splitOn_ne_nil c cs)
        | cons first pieces =>
            rw [hsplit] at h ih
            rcases List.mem_cons.mp h with rfl | h
            · simpa [Ne.symm hd] using ih List.mem_cons_self
            · exact ih (List.mem_cons_of_mem first h)

namespace FilePath

variable {dir p : FilePath} {name : String} {names : List String}

/-! ## Pieces -/

/-- An empty piece is no component. -/
@[simp] theorem componentOf_nil : componentOf [] = none := rfl

/-- A dot within a path is no component. -/
@[simp] theorem componentOf_current : componentOf ['.'] = none := rfl

/-- The pieces of a path between its slashes. -/
def pieces (p : FilePath) : List (List Char) :=
  Text.splitAtChar '/' p.text.toList

/-- The pieces of a path are what stands between slashes. -/
theorem pieces_eq (p : FilePath) : p.pieces = p.text.toList.splitOn '/' :=
  Text.splitAtChar_eq_splitOn '/' p.text.toList

/-- What the start of a path stands for, apart from its pieces. -/
def start (p : FilePath) : List PathComponent :=
  match p.text.toList with
  | '/' :: _ => [.root]
  | ['.'] => [.current]
  | '.' :: '/' :: _ => [.current]
  | _ => []

/-- **The components of a path are those of its pieces**, after what its start stands for. -/
theorem components_eq (p : FilePath) :
    p.components = p.start ++ p.pieces.filterMap componentOf := by
  unfold components
  split
  · rename_i cs heq
    simp [start, pieces, heq, Text.splitAtChar, bodyComponents, List.filterMap_cons]
  · rename_i heq
    rw [start, pieces, heq]
    rfl
  · rename_i cs heq
    simp [start, pieces, heq, Text.splitAtChar, bodyComponents, List.filterMap_cons]
  · rename_i hroot hcurrent hbelow
    have hstart : p.start = [] := by
      unfold start
      split
      · exact absurd ‹_› (hroot _)
      · exact absurd ‹_› hcurrent
      · exact absurd ‹_› (hbelow _)
      · rfl
    rw [hstart]
    rfl

/-- An absolute path begins with a slash. -/
theorem exists_of_isAbsolute (h : p.isAbsolute) : ∃ cs, p.text.toList = '/' :: cs := by
  unfold isAbsolute at h
  cases htext : p.text.toList with
  | nil => simp [htext] at h
  | cons c cs => exact ⟨cs, by simpa [htext] using h⟩

/-- An absolute path starts with the root. -/
theorem start_of_isAbsolute (h : p.isAbsolute) : p.start = [.root] := by
  obtain ⟨cs, hcs⟩ := exists_of_isAbsolute h
  simp [start, hcs]

/-- A path that is made of named entries only. -/
def IsPlain (p : FilePath) : Prop :=
  ∀ c ∈ p.components, ∃ name, c = .entry name

/-- A plain path has no start of its own. -/
theorem IsPlain.start_eq (h : p.IsPlain) : p.start = [] := by
  have hstart : ∀ c ∈ p.start, ∃ name, c = .entry name := by
    intro c hc
    refine h c ?_
    rw [components_eq]
    exact List.mem_append_left _ hc
  unfold start at hstart ⊢
  split <;> simp_all

/-- The components of a plain path are those of its pieces. -/
theorem IsPlain.components_eq (h : p.IsPlain) :
    p.components = p.pieces.filterMap componentOf := by
  rw [FilePath.components_eq, h.start_eq, List.nil_append]

/-- A plain path is not absolute. -/
theorem IsPlain.not_isAbsolute (h : p.IsPlain) : p.isAbsolute = false := by
  by_contra habs
  have hstart := start_of_isAbsolute (p := p) (by simpa using habs)
  rw [h.start_eq] at hstart
  cases hstart

/-! ## Names -/

/-- A name that an entry of a directory can have. -/
def IsName (name : String) : Prop :=
  name ∉ ["", ".", ".."] ∧ '/' ∉ name.toList

instance : DecidablePred IsName :=
  fun _ => inferInstanceAs (Decidable (_ ∧ _))

/-- A name is not empty. -/
theorem IsName.toList_ne_nil (h : IsName name) : name.toList ≠ [] := by
  intro heq
  exact h.1 (by simp [String.toList_eq_nil_iff.mp heq])

/-- A name is not an absolute path. -/
theorem IsName.not_isAbsolute (h : IsName name) : (mk name).isAbsolute = false := by
  by_contra habs
  obtain ⟨cs, hcs⟩ := exists_of_isAbsolute (p := ⟨name⟩) (by simpa using habs)
  exact h.2 (by simp [hcs])

/-- A name is the entry of that name. -/
theorem componentOf_toList (h : IsName name) : componentOf name.toList = some (.entry name) := by
  have hne : ∀ other ∈ ["", ".", ".."], name.toList ≠ String.toList other := by
    intro other hother heq
    rw [String.toList_inj.mp heq] at h
    exact h.1 hother
  simp only [List.forall_mem_cons] at hne
  obtain ⟨hempty, hcurrent, hparent, -⟩ := hne
  unfold componentOf
  split
  · rename_i heq
    exact absurd heq hempty
  · rename_i heq
    exact absurd heq hcurrent
  · rename_i heq
    exact absurd heq hparent
  · rw [String.ofList_toList]

/-- An entry is written as its name. -/
theorem eq_toList_of_componentOf {piece : List Char} (h : componentOf piece = some (.entry name)) :
    piece = name.toList := by
  unfold componentOf at h
  split at h
  · cases h
  · cases h
  · cases h
  · injection h with h
    injection h with h
    rw [← h, String.toList_ofList]

/-- A name occurs in a path if one of the pieces is written so. -/
theorem entry_mem_components (h : IsName name) (p : FilePath) :
    .entry name ∈ p.components ↔ name.toList ∈ p.pieces := by
  have hstart : .entry name ∉ p.start := by
    unfold start
    split <;> simp
  rw [components_eq, List.mem_append, or_iff_right hstart, List.mem_filterMap]
  constructor
  · rintro ⟨piece, hpiece, hcomponent⟩
    rwa [← eq_toList_of_componentOf hcomponent]
  · intro hpiece
    exact ⟨name.toList, hpiece, componentOf_toList h⟩

/-! ## Joined paths -/

/-- The text of a path below an absolute directory. -/
theorem text_join (hp : p.isAbsolute = false) (hdir : dir.isAbsolute) :
    (dir.join p).text.toList = if dir.text.toList.getLast? = some '/'
      then dir.text.toList ++ p.text.toList else dir.text.toList ++ '/' :: p.text.toList := by
  obtain ⟨cs, hcs⟩ := exists_of_isAbsolute hdir
  have hne : dir.text.isEmpty = false := by
    rw [← Bool.not_eq_true, String.isEmpty_iff]
    intro hempty
    simp [hempty] at hcs
  unfold join
  rw [if_neg (by simp [hp]), hne, Bool.false_or]
  by_cases hlast : dir.text.toList.getLast? = some '/'
  · rw [if_pos (by simp [hlast]), if_pos hlast, String.toList_append]
  · rw [if_neg (by simpa using hlast), if_neg hlast]
    simp

/-- What is below an absolute path is absolute. -/
theorem isAbsolute_join (p : FilePath) (hdir : dir.isAbsolute) : (dir.join p).isAbsolute := by
  by_cases hp : p.isAbsolute
  · simp [join, hp]
  · obtain ⟨cs, hcs⟩ := exists_of_isAbsolute hdir
    unfold isAbsolute
    rw [text_join (by simpa using hp) hdir, hcs]
    split_ifs <;> simp

/-- **Joining puts pieces after pieces**: those of the directory without an empty one at its end. -/
theorem exists_pieces_join (hp : p.isAbsolute = false) (hdir : dir.isAbsolute) :
    ∃ front, (dir.pieces = [] :: front ∨ dir.pieces = [] :: front ++ [[]]) ∧
      (dir.join p).pieces = [] :: front ++ p.pieces := by
  obtain ⟨cs, hcs⟩ := exists_of_isAbsolute hdir
  have hfirst : ∀ rest : List Char, ('/' :: rest).splitOn '/' = [] :: rest.splitOn '/' := by
    intro rest
    simpa using List.splitOn_append_cons_self [] rest
  simp only [pieces_eq, text_join hp hdir, hcs]
  by_cases hlast : ('/' :: cs).getLast? = some '/'
  · rw [if_pos hlast]
    rcases List.eq_nil_or_concat cs with rfl | ⟨front, c, rfl⟩
    · exact ⟨[], .inr (by simp [hfirst]), by simp [hfirst]⟩
    · obtain rfl : c = '/' := by simpa [List.getLast?_cons] using hlast
      refine ⟨front.splitOn '/', .inr ?_, ?_⟩
      · rw [hfirst, List.concat_eq_append, List.splitOn_append_cons_self]
        rfl
      · rw [List.concat_eq_append, List.cons_append, List.append_assoc, hfirst,
          List.singleton_append, List.splitOn_append_cons_self]
        rfl
  · rw [if_neg hlast]
    refine ⟨cs.splitOn '/', .inl (hfirst cs), ?_⟩
    rw [List.cons_append, hfirst, List.splitOn_append_cons_self]
    rfl

/-- Joining puts components after components. -/
theorem components_join (hp : p.isAbsolute = false) (hdir : dir.isAbsolute) :
    (dir.join p).components = dir.components ++ p.pieces.filterMap componentOf := by
  obtain ⟨front, hfront, hjoin⟩ := exists_pieces_join hp hdir
  have hsame : dir.pieces.filterMap componentOf = ([] :: front).filterMap componentOf := by
    rcases hfront with hfront | hfront
    · rw [hfront]
    · rw [hfront, List.filterMap_append]
      simp
  rw [components_eq, components_eq dir, start_of_isAbsolute (isAbsolute_join p hdir),
    start_of_isAbsolute hdir, hjoin, hsame, List.filterMap_append, List.append_assoc]

/-! ## Paths seen from a directory -/

/-- The path without idle pieces at either end. -/
def trimmed (p : FilePath) : FilePath :=
  ⟨String.ofList (joinPieces (dropIdleEnd (p.pieces.dropWhile isIdlePiece)))⟩

/-- Dropping as many components as a list of pieces has leaves what comes after it. -/
theorem dropWhile_dropComponents (front rest : List (List Char)) :
    (dropComponents (front.filterMap componentOf).length (front ++ rest)).dropWhile isIdlePiece =
      rest.dropWhile isIdlePiece := by
  induction front with
  | nil => simp [dropComponents]
  | cons piece front ih =>
      cases hpiece : componentOf piece with
      | none =>
          have hidle : isIdlePiece piece := by simp [isIdlePiece, hpiece]
          rw [List.filterMap_cons_none hpiece, List.cons_append, ← ih]
          cases (front.filterMap componentOf).length with
          | zero => simp [dropComponents, hidle]
          | succ n => rw [dropComponents, if_pos hidle]
      | some c =>
          have hcounts : ¬ isIdlePiece piece := by simp [isIdlePiece, hpiece]
          rw [List.filterMap_cons_some hpiece, List.cons_append, List.length_cons, dropComponents,
            if_neg hcounts, ih]

/-- **A path joined with a directory is seen from it as it was**, without idle pieces at its
ends. -/
theorem relativeTo_join (hp : p.isAbsolute = false) (hdir : dir.isAbsolute) :
    (dir.join p).relativeTo dir = p.trimmed := by
  obtain ⟨front, hfront, hjoin⟩ := exists_pieces_join hp hdir
  obtain ⟨cs, hcs⟩ := exists_of_isAbsolute (isAbsolute_join p hdir)
  have hpieces : Text.splitAtChar '/' cs = front ++ p.pieces := by
    have hcons : (dir.join p).pieces = [] :: Text.splitAtChar '/' cs := by
      simp [pieces, hcs, Text.splitAtChar]
    rw [hcons, List.cons_append] at hjoin
    exact List.tail_eq_of_cons_eq hjoin
  have hlength : dir.components.length = (front.filterMap componentOf).length + 1 := by
    rw [components_eq, start_of_isAbsolute hdir]
    rcases hfront with hfront | hfront <;> simp [hfront, List.filterMap_cons]
  have hbelow : dir.components.isPrefixOf (dir.join p).components := by
    rw [components_join hp hdir, List.isPrefixOf_iff_prefix]
    exact List.prefix_append _ _
  unfold relativeTo textAfter trimmed
  rw [if_pos hbelow, hlength, hcs]
  simp only [hpieces, dropWhile_dropComponents]

/-- Nothing is left of a directory seen from itself. -/
theorem relativeTo_self (hdir : dir.isAbsolute) : dir.relativeTo dir = ⟨""⟩ := by
  obtain ⟨cs, hcs⟩ := exists_of_isAbsolute hdir
  have hlength : dir.components.length =
      ((Text.splitAtChar '/' cs).filterMap componentOf).length + 1 := by
    rw [components_eq, start_of_isAbsolute hdir]
    simp [pieces, hcs, Text.splitAtChar, List.filterMap_cons]
  have hbelow : dir.components.isPrefixOf dir.components :=
    List.isPrefixOf_iff_prefix.mpr List.prefix_rfl
  have hall := dropWhile_dropComponents (Text.splitAtChar '/' cs) []
  rw [List.append_nil] at hall
  unfold relativeTo textAfter
  rw [if_pos hbelow, hlength, hcs]
  simp only [hall]
  rfl

/-- A path that does not begin with an idle piece has no special start. -/
theorem start_eq_nil (h : ∀ piece ∈ p.pieces.head?, ¬ isIdlePiece piece) : p.start = [] := by
  unfold start
  split
  · rename_i cs heq
    exact absurd (by simp [isIdlePiece]) (h [] (by simp [pieces, heq, Text.splitAtChar]))
  · rename_i heq
    exact absurd (by simp [isIdlePiece]) (h ['.'] (by simp [pieces, heq, Text.splitAtChar]))
  · rename_i cs heq
    exact absurd (by simp [isIdlePiece]) (h ['.'] (by simp [pieces, heq, Text.splitAtChar]))
  · rfl

/-- The pieces of a path that is put together from pieces. -/
theorem pieces_joinPieces {ps : List (List Char)} (hne : ps ≠ [])
    (hslash : ∀ piece ∈ ps, '/' ∉ piece) : (mk (String.ofList (joinPieces ps))).pieces = ps := by
  rw [pieces_eq, String.toList_ofList, joinPieces, List.splitOn_intercalate '/' hslash hne]

/-- Pieces in front that mean nothing can be left out. -/
theorem filterMap_dropWhile_idle (pieces : List (List Char)) :
    (pieces.dropWhile isIdlePiece).filterMap componentOf = pieces.filterMap componentOf := by
  induction pieces with
  | nil => rfl
  | cons piece pieces ih =>
      cases hpiece : componentOf piece with
      | none => simp [isIdlePiece, hpiece, ih]
      | some c => simp [isIdlePiece, hpiece]

/-- Pieces at the end that mean nothing can be left out. -/
theorem filterMap_dropIdleEnd (pieces : List (List Char)) :
    (dropIdleEnd pieces).filterMap componentOf = pieces.filterMap componentOf := by
  rw [dropIdleEnd, List.filterMap_reverse, filterMap_dropWhile_idle, ← List.filterMap_reverse,
    List.reverse_reverse]

/-- Idle pieces at either end make no component. -/
theorem filterMap_trim (pieces : List (List Char)) :
    (dropIdleEnd (pieces.dropWhile isIdlePiece)).filterMap componentOf =
      pieces.filterMap componentOf := by
  rw [filterMap_dropIdleEnd, filterMap_dropWhile_idle]

/-- Idle pieces at the ends of a path do not matter for its components. -/
theorem components_trimmed (p : FilePath) :
    p.trimmed.components = p.pieces.filterMap componentOf := by
  rw [← filterMap_trim]
  unfold trimmed
  have hfront : dropIdleEnd (p.pieces.dropWhile isIdlePiece) <+: p.pieces.dropWhile isIdlePiece :=
    List.rdropWhile_prefix isIdlePiece _
  have hhead := List.head?_dropWhile_not isIdlePiece p.pieces
  generalize hps : dropIdleEnd (p.pieces.dropWhile isIdlePiece) = ps at hfront
  cases ps with
  | nil => rfl
  | cons first rest =>
      have hslash : ∀ piece ∈ first :: rest, '/' ∉ piece := by
        intro piece hpiece
        have hmem := (List.dropWhile_sublist isIdlePiece).mem (hfront.mem hpiece)
        exact Text.separator_notMem_of_mem_splitAtChar hmem
      have hpieces := pieces_joinPieces (List.cons_ne_nil first rest) hslash
      obtain ⟨after, hafter⟩ := hfront
      rw [← hafter] at hhead
      rw [components_eq, hpieces, start_eq_nil, List.nil_append]
      rw [hpieces]
      intro piece hpiece
      obtain rfl : first = piece := by simpa using hpiece
      simpa using hhead

/-! ## Paths of names -/

/-- The path of some names, one below the other. -/
def ofNames (names : List String) : FilePath :=
  ⟨"/".intercalate names⟩

/-- The pieces of a path of names are the names. -/
theorem pieces_ofNames (hne : names ≠ []) (h : ∀ name ∈ names, IsName name) :
    (ofNames names).pieces = names.map String.toList := by
  have hslash : ∀ piece ∈ names.map String.toList, '/' ∉ piece := by
    intro piece hpiece
    obtain ⟨name, hname, rfl⟩ := List.mem_map.mp hpiece
    exact (h name hname).2
  have htext : (ofNames names).text.toList = ['/'].intercalate (names.map String.toList) := by
    simp [ofNames, String.toList_intercalate]
  rw [pieces_eq, htext, List.splitOn_intercalate '/' hslash (by simpa using hne)]

/-- No name means nothing. -/
theorem not_isIdlePiece_toList (h : IsName name) : ¬ isIdlePiece name.toList := by
  simp [isIdlePiece, componentOf_toList h]

/-- The components of a path of names are the names. -/
theorem components_ofNames (hne : names ≠ []) (h : ∀ name ∈ names, IsName name) :
    (ofNames names).components = names.map .entry := by
  have hpieces := pieces_ofNames hne h
  have hstart : (ofNames names).start = [] := by
    refine start_eq_nil ?_
    rw [hpieces]
    intro piece hpiece
    obtain ⟨name, hname, rfl⟩ := List.mem_map.mp (List.mem_of_mem_head? hpiece)
    exact not_isIdlePiece_toList (h name hname)
  rw [components_eq, hstart, hpieces, List.nil_append, List.filterMap_map]
  refine List.filterMap_eq_map_iff_forall_eq_some.mpr ?_
  intro name hname
  exact componentOf_toList (h name hname)

/-- A path of names is plain. -/
theorem isPlain_ofNames (hne : names ≠ []) (h : ∀ name ∈ names, IsName name) :
    (ofNames names).IsPlain := by
  intro c hc
  rw [components_ofNames hne h] at hc
  obtain ⟨name, -, rfl⟩ := List.mem_map.mp hc
  exact ⟨name, rfl⟩

/-- **A path of names below a directory is seen from it as it is.** -/
theorem relativeTo_join_ofNames (hdir : dir.isAbsolute) (hne : names ≠ [])
    (h : ∀ name ∈ names, IsName name) :
    (dir.join (ofNames names)).relativeTo dir = ofNames names := by
  have hbusy : ∀ piece ∈ (ofNames names).pieces, ¬ isIdlePiece piece := by
    rw [pieces_ofNames hne h]
    intro piece hpiece
    obtain ⟨name, hname, rfl⟩ := List.mem_map.mp hpiece
    exact not_isIdlePiece_toList (h name hname)
  have hfront : (ofNames names).pieces.dropWhile isIdlePiece = (ofNames names).pieces :=
    List.dropWhile_eq_self_iff.mpr fun hl => hbusy _ (List.getElem_mem hl)
  have hend : dropIdleEnd (ofNames names).pieces = (ofNames names).pieces :=
    List.rdropWhile_eq_self_iff.mpr fun hl => hbusy _ (List.getLast_mem hl)
  rw [relativeTo_join (isPlain_ofNames hne h).not_isAbsolute hdir, trimmed, hfront, hend,
    joinPieces, pieces_eq, List.intercalate_splitOn, String.ofList_toList]

/-- A path below an entry of a directory is one below the directory. -/
theorem join_join_ofNames (hdir : dir.isAbsolute) (hname : IsName name) (hne : names ≠ [])
    (h : ∀ name ∈ names, IsName name) :
    (dir.join ⟨name⟩).join (ofNames names) = dir.join (ofNames (name :: names)) := by
  have hone := hname.not_isAbsolute
  have hall : ∀ n ∈ name :: names, IsName n := List.forall_mem_cons.mpr ⟨hname, h⟩
  have hmany := (isPlain_ofNames (List.cons_ne_nil name names) hall).not_isAbsolute
  have hrest := (isPlain_ofNames hne h).not_isAbsolute
  have htext : (ofNames (name :: names)).text.toList =
      name.toList ++ '/' :: (ofNames names).text.toList := by
    obtain ⟨first, rest, rfl⟩ := List.exists_cons_of_ne_nil hne
    simp [ofNames, String.toList_intercalate]
  -- a name does not end in a slash, so the second join adds one
  have hnoslash : ∀ front : List Char, (front ++ name.toList).getLast? ≠ some '/' := by
    intro front hlast
    rw [List.getLast?_append_of_ne_nil _ hname.toList_ne_nil] at hlast
    exact hname.2 (List.mem_of_getLast? hlast)
  have hlast : (dir.join ⟨name⟩).text.toList.getLast? ≠ some '/' := by
    rw [text_join hone hdir]
    split_ifs
    · exact hnoslash _
    · simpa using hnoslash (dir.text.toList ++ ['/'])
  have heq : ((dir.join ⟨name⟩).join (ofNames names)).text.toList =
      (dir.join (ofNames (name :: names))).text.toList := by
    rw [text_join hrest (isAbsolute_join ⟨name⟩ hdir), if_neg hlast, text_join hone hdir,
      text_join hmany hdir, htext]
    split_ifs <;> simp
  exact congrArg mk (String.toList_inj.mp heq)

/-- The path from a directory along names, from entry to entry. -/
def descend (dir : FilePath) (names : List String) : FilePath :=
  names.foldl (fun p name => p.join ⟨name⟩) dir

/-- Going down name by name is going down at once. -/
theorem descend_eq_join (hdir : dir.isAbsolute) (hne : names ≠ [])
    (h : ∀ name ∈ names, IsName name) : dir.descend names = dir.join (ofNames names) := by
  induction names generalizing dir with
  | nil => exact absurd rfl hne
  | cons name names ih =>
      obtain ⟨hname, hrest⟩ := List.forall_mem_cons.mp h
      by_cases hnil : names = []
      · subst hnil
        simp [descend, ofNames]
      · have hbelow := isAbsolute_join ⟨name⟩ hdir
        rw [← join_join_ofNames hdir hname hnil hrest, ← ih hbelow hnil hrest]
        rfl

/-- The names on the way down are the last components. -/
theorem components_descend (hdir : dir.isAbsolute) (h : ∀ name ∈ names, IsName name) :
    (dir.descend names).components = dir.components ++ names.map .entry := by
  by_cases hnil : names = []
  · subst hnil
    simp [descend]
  · have hplain := isPlain_ofNames hnil h
    rw [descend_eq_join hdir hnil h, components_join hplain.not_isAbsolute hdir,
      ← hplain.components_eq, components_ofNames hnil h]

end FilePath

end SchemaLint

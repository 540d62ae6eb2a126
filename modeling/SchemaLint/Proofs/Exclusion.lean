import SchemaLint.Analyzer
import SchemaLint.Proofs.Path
import SchemaLint.Proofs.Registry

/-!
# Files that are left out

An analysis leaves a file out if one of its patterns does.  The patterns are those of the request
and of the configuration; the two default patterns are used only if there are none.  So a further
pattern leaves out more files, except that the first one takes the place of the defaults.

A pattern `**/N/**` with a plain name `N` is tried on the path itself as well as on the path below
the root.  It therefore leaves out what is below a directory of that name inside the root, and all
files if the root itself is below such a directory.

* `ExcludePattern.matchParts_aroundName_iff`: what `**/N/**` matches, by the pieces of a text.
* `Analyzer.exists_build`: the analysis of a request and the files it leaves out.
* **`Analyzer.excludes_mono`**: a further pattern leaves out what it matches, and nothing comes back
  unless the defaults were used.
* **`Analyzer.excludes_name_iff`**: what `**/N/**` leaves out below a root.
-/

namespace SchemaLint

/-! ## Texts around a piece -/

namespace Text

variable {c : Char} {text piece : List Char}

/-- Two lists that are joined stand on both sides of the separator. -/
theorem intercalate_append {xs ys : List (List Char)} (hx : xs ≠ []) (hy : ys ≠ []) :
    [c].intercalate (xs ++ ys) = [c].intercalate xs ++ c :: [c].intercalate ys := by
  induction xs with
  | nil => exact absurd rfl hx
  | cons x xs ih =>
      by_cases hxs : xs = []
      · subst hxs
        rw [List.singleton_append, List.intercalate_cons_of_ne_nil hy]
        simp
      · rw [List.cons_append, List.intercalate_cons_of_ne_nil (by simp [hxs]), ih hxs,
          List.intercalate_cons_of_ne_nil hxs]
        simp

/-- A piece that is not the last one stands at the start or after a separator, and before one. -/
theorem mem_dropLast_splitOn_iff (hpiece : c ∉ piece) :
    piece ∈ (text.splitOn c).dropLast ↔
      (∃ after, text = piece ++ c :: after) ∨
        ∃ before after, text = before ++ c :: (piece ++ c :: after) := by
  have hone : piece.splitOn c = [piece] := List.splitOn_eq_singleton hpiece
  constructor
  · intro hmem
    obtain ⟨front, back, hfront⟩ := List.append_of_mem hmem
    obtain ⟨last, hlast⟩ : ∃ last, text.splitOn c = (text.splitOn c).dropLast ++ [last] :=
      ⟨_, (List.dropLast_append_getLast (List.splitOn_ne_nil c text)).symm⟩
    rw [hfront, List.append_assoc, List.cons_append] at hlast
    have htext : [c].intercalate (text.splitOn c) = text := List.intercalate_splitOn c
    rw [hlast] at htext
    have hrest : [c].intercalate (piece :: (back ++ [last])) =
        piece ++ c :: [c].intercalate (back ++ [last]) := by
      rw [List.intercalate_cons_of_ne_nil (by simp)]
      simp
    by_cases hempty : front = []
    · rw [hempty, List.nil_append, hrest] at htext
      exact .inl ⟨_, htext.symm⟩
    · rw [intercalate_append hempty (List.cons_ne_nil _ _), hrest] at htext
      exact .inr ⟨_, _, htext.symm⟩
  · rintro (⟨after, rfl⟩ | ⟨before, after, rfl⟩)
    · rw [List.splitOn_append_cons_self, hone,
        List.dropLast_append_of_ne_nil (List.splitOn_ne_nil c after)]
      exact List.mem_cons_self
    · rw [List.splitOn_append_cons_self, List.splitOn_append_cons_self, hone,
        ← List.append_assoc, List.dropLast_append_of_ne_nil (List.splitOn_ne_nil c after)]
      simp

end Text

/-! ## The pattern of a name -/

/-- A name of an entry in which no character has a meaning in patterns. -/
def FilePath.IsPlainName (name : String) : Prop :=
  IsName name ∧ ∀ c ∈ name.toList, c ∉ ['?', '*', '[']

-- characters are tried one by one as they stand in the name
instance (name : String) : Decidable (FilePath.IsPlainName name) :=
  have : Decidable (∀ c ∈ name.toList, c ∉ ['?', '*', '[']) := List.decidableBAll _ _
  inferInstanceAs (Decidable (_ ∧ _))

namespace ExcludePattern

variable {name : String}

/-- A pattern that can be read. -/
def IsValid (pattern : String) : Prop :=
  ∃ parts, parse pattern = .ok parts

/-- The pattern of all that is below a directory of a given name. -/
def aroundName (name : String) : String :=
  "**/" ++ name ++ "/**"

/-- The pattern around a name, character by character. -/
theorem toList_aroundName (name : String) :
    (aroundName name).toList = ['*', '*', '/'] ++ (name.toList ++ ['/', '*', '*']) := by
  simp [aroundName]

/-- The parts of such a pattern. -/
def aroundParts (name : String) : List Part :=
  .anyPath :: (name.toList.map .char ++ [.char '/', .anyPath])

/-- Characters without a meaning stand for themselves. -/
theorem partsFrom_chars {cs : List Char} (hcs : ∀ c ∈ cs, c ∉ ['?', '*', '[']) (bound index : Nat)
    (before : Option Char) (rest : List Char) :
    partsFrom (cs.length + bound) index before (cs ++ rest) =
      (partsFrom bound (index + cs.length) (cs.getLast?.or before) rest).map
        (cs.map .char ++ ·) := by
  induction cs generalizing index before with
  | nil =>
      simp only [List.length_nil, List.nil_append, Nat.zero_add, Nat.add_zero, List.map_nil,
        List.getLast?_nil, Option.none_or]
      cases partsFrom bound index before rest <;> rfl
  | cons c cs ih =>
      obtain ⟨hc, hrest⟩ := List.forall_mem_cons.mp hcs
      simp only [List.mem_cons, List.not_mem_nil, or_false, not_or] at hc
      have hlast : (c :: cs).getLast?.or before = cs.getLast?.or (some c) := by
        rw [List.getLast?_cons]
        cases cs.getLast? <;> rfl
      rw [List.length_cons, Nat.succ_add, List.cons_append, partsFrom, if_neg hc.1, if_neg hc.2.1,
        if_neg hc.2.2, ih hrest, hlast, Nat.add_assoc, Nat.add_comm 1]
      cases partsFrom bound (index + (cs.length + 1)) (cs.getLast?.or (some c)) rest <;> rfl

/-- The pattern around a plain name is read as the name with anything around it. -/
theorem parse_aroundName (h : FilePath.IsPlainName name) :
    parse (aroundName name) = .ok (aroundParts name) := by
  have hchars : ∀ c ∈ name.toList ++ ['/'], c ∉ ['?', '*', '['] := by
    intro c hc
    rcases List.mem_append.mp hc with hc | hc
    · exact h.2 c hc
    · rw [List.mem_singleton.mp hc]
      decide
  have hlength : (aroundName name).length = ((name.toList ++ ['/']).length + 4) + 1 := by
    rw [← String.length_toList, toList_aroundName]
    simp
  have hend : ∀ index, partsFrom 4 index (some '/') ['*', '*'] = .ok [.anyPath] := fun _ => rfl
  have hstart : ∀ bound rest, partsFrom (bound + 1) 0 none ('*' :: '*' :: '/' :: rest) =
      (partsFrom bound 3 (some '/') rest).map (.anyPath :: ·) := by
    intro bound rest
    show (partsFrom bound 3 (some '/') rest >>= fun parts => pure (.anyPath :: parts)) = _
    cases partsFrom bound 3 (some '/') rest <;> rfl
  have htext : (aroundName name).toList =
      '*' :: '*' :: '/' :: (name.toList ++ ['/'] ++ ['*', '*']) := by
    rw [toList_aroundName]
    simp
  unfold parse
  rw [hlength, htext, hstart, partsFrom_chars hchars]
  simp [hend, Except.map, aroundParts]

/-- A run of characters matches a text that begins with them. -/
theorem matchParts_chars_iff (cs : List Char) (parts : List Part) (text : List Char) :
    matchParts (cs.map .char ++ parts) text ↔
      ∃ rest, text = cs ++ rest ∧ matchParts parts rest := by
  induction cs generalizing text with
  | nil => simp
  | cons c cs ih =>
      cases text with
      | nil => simp [matchParts]
      | cons d text =>
          simp only [List.map_cons, List.cons_append, matchParts, Bool.and_eq_true, beq_iff_eq, ih,
            List.cons.injEq]
          constructor
          · rintro ⟨rfl, rest, rfl, hrest⟩
            exact ⟨rest, ⟨rfl, rfl⟩, hrest⟩
          · rintro ⟨rest, ⟨rfl, rfl⟩, hrest⟩
            exact ⟨rfl, rest, rfl, hrest⟩

/-- A tail of components begins at the start of a text or behind a slash. -/
theorem anyComponentTail_iff (p : List Char → Bool) (text : List Char) :
    anyComponentTail p text ↔ p [] ∨ ∃ before after, text = before ++ '/' :: after ∧ p after := by
  induction text with
  | nil => simp [anyComponentTail]
  | cons c text ih =>
      simp only [anyComponentTail, Bool.or_eq_true, Bool.and_eq_true, beq_iff_eq, ih]
      constructor
      · rintro (⟨rfl, hp⟩ | hp | ⟨before, after, rfl, hp⟩)
        · exact .inr ⟨[], text, rfl, hp⟩
        · exact .inl hp
        · exact .inr ⟨c :: before, after, rfl, hp⟩
      · rintro (hp | ⟨before, after, htext, hp⟩)
        · exact .inr (.inl hp)
        · rcases List.cons_eq_append_iff.mp htext with ⟨rfl, heq⟩ | ⟨front, rfl, rfl⟩
          · obtain ⟨rfl, rfl⟩ := List.cons.inj heq
            exact .inl ⟨rfl, hp⟩
          · exact .inr (.inr ⟨front, after, rfl, hp⟩)

/-- **The pattern of a name matches where the name is a piece before another one.** -/
theorem matchParts_aroundName_iff (h : FilePath.IsName name) (text : List Char) :
    matchParts (aroundParts name) text ↔ name.toList ∈ (text.splitOn '/').dropLast := by
  have hend : ∀ rest, matchParts [.anyPath] rest := by
    intro rest
    simp [matchParts, anyComponentTail_iff]
  have hname : ∀ rest, matchParts (name.toList.map .char ++ [.char '/', .anyPath]) rest ↔
      ∃ after, rest = name.toList ++ '/' :: after := by
    intro rest
    have hchars := matchParts_chars_iff (name.toList ++ ['/']) [.anyPath] rest
    rw [List.map_append, List.append_assoc] at hchars
    refine hchars.trans ?_
    simp [hend]
  rw [Text.mem_dropLast_splitOn_iff h.2, aroundParts, matchParts, Bool.or_eq_true, hname,
    anyComponentTail_iff, hname]
  simp only [hname]
  constructor
  · rintro (hstart | ⟨after, hempty⟩ | ⟨before, rest, rfl, after, rfl⟩)
    · exact .inl hstart
    · simp at hempty
    · exact .inr ⟨before, after, rfl⟩
  · rintro (hstart | ⟨before, after, rfl⟩)
    · exact .inl hstart
    · exact .inr (.inr ⟨before, _, rfl, after, rfl⟩)

end ExcludePattern

namespace Analyzer

variable {name : String}

/-! ## The plain name of a pattern -/

/-- A piece is taken away from the front until another character comes. -/
theorem dropFront_append {c : Char} {piece rest : List Char} (hc : rest.head? ≠ some c)
    (bound : Nat) : dropFront (c :: piece) (bound + 2) ((c :: piece) ++ rest) = rest := by
  have htake : ∀ piece : List Char, Text.dropLeading? piece (piece ++ rest) = some rest := by
    intro piece
    induction piece with
    | nil => rfl
    | cons d piece ih => simpa [Text.dropLeading?] using ih
  have hstop : Text.dropLeading? (c :: piece) rest = none := by
    cases rest with
    | nil => rfl
    | cons d rest =>
        have hne : c ≠ d := by
          rintro rfl
          exact hc rfl
        rw [Text.dropLeading?, if_neg hne]
  rw [dropFront, htake]
  simp only [dropFront, hstop]

/-- The pattern around a plain name excludes the name. -/
theorem plainName?_aroundName (h : FilePath.IsPlainName name) :
    plainName? (ExcludePattern.aroundName name) = some name := by
  have hempty := h.1.toList_ne_nil
  have hstar : '*' ∉ name.toList := fun hmem => h.2 _ hmem (by simp)
  have hfirst : (name.toList ++ ['/', '*', '*']).head? ≠ some '*' := by
    rw [List.head?_append_of_ne_nil _ hempty]
    exact fun hhead => hstar (List.mem_of_mem_head? hhead)
  have hlast : name.toList.reverse.head? ≠ some '*' := by
    intro hhead
    exact hstar (List.mem_reverse.mp (List.mem_of_mem_head? hhead))
  have hfront : dropFront ['*', '*', '/'] (ExcludePattern.aroundName name).toList.length
      (ExcludePattern.aroundName name).toList = name.toList ++ ['/', '*', '*'] := by
    rw [ExcludePattern.toList_aroundName]
    exact dropFront_append hfirst _
  have hend : dropFront ['*', '*', '/'] (name.toList ++ ['/', '*', '*']).length
      (name.toList ++ ['/', '*', '*']).reverse = name.toList.reverse := by
    rw [List.reverse_append]
    have hlength : (name.toList ++ ['/', '*', '*']).length = name.toList.length + 1 + 2 := by simp
    rw [hlength]
    exact dropFront_append hlast _
  unfold plainName?
  simp only [hfront, hend, List.reverse_reverse]
  rw [if_neg (by simp [hstar, hempty]), String.ofList_toList]

/-! ## What one pattern leaves out -/

/-- A pattern leaves a path out: it matches the path or the path below the root, or is the plain
name of a component of the latter. -/
def LeavesOut (root path : FilePath) (pattern : String) : Prop :=
  (∃ parts, ExcludePattern.parse pattern = .ok parts ∧
    (ExcludePattern.matchParts parts path.text.toList ∨
      ExcludePattern.matchParts parts (path.relativeTo root).text.toList)) ∨
  ∃ name, plainName? pattern = some name ∧ ∃ c ∈ (path.relativeTo root).components,
    isWritten name c

end Analyzer

namespace AnalyzerRequest

/-- The patterns that the request and its configuration give. -/
def givenPatterns (r : AnalyzerRequest) : List String :=
  r.exclude ++ (r.config.map fun c => c.analyzer.exclude).getD []

/-- The patterns that are used: the given ones, or else the defaults. -/
def usedPatterns (r : AnalyzerRequest) : List String :=
  if r.givenPatterns.isEmpty then Analyzer.defaultExclude else r.givenPatterns

/-- The root that the request or its configuration names. -/
def givenRoot (r : AnalyzerRequest) : FilePath :=
  r.root.getD ((r.config.map fun c => c.analyzer.root).getD ⟨"."⟩)

/-- The request with one more pattern. -/
def excluding (r : AnalyzerRequest) (pattern : String) : AnalyzerRequest :=
  { r with exclude := r.exclude ++ [pattern] }

end AnalyzerRequest

namespace Analyzer

variable (directory : FilePath) {r : AnalyzerRequest} {registry : Registry}

/-- A pattern with its parts, or what is wrong with it. -/
def readPattern (pattern : String) : Except AnalyzerError (String × List ExcludePattern.Part) :=
  match ExcludePattern.parse pattern with
  | .ok parts => .ok (pattern, parts)
  | .error e => .error (.pattern e)

/-- The parts of a pattern; none if it cannot be read. -/
def partsOf (pattern : String) : List ExcludePattern.Part :=
  (ExcludePattern.parse pattern).toOption.getD []

/-- An analysis leaves out what one of its patterns does. -/
theorem excludes_iff {a : Analyzer} {patterns : List String}
    (hvalid : ∀ p ∈ patterns, ExcludePattern.IsValid p)
    (ha : a.patterns = patterns.map fun p => (p, partsOf p)) (path : FilePath) :
    a.excludes path ↔ ∃ p ∈ patterns, LeavesOut a.root path p := by
  simp only [excludes, ha, Bool.or_eq_true, List.any_map, List.any_eq_true, Function.comp_apply]
  rw [← exists_or]
  refine exists_congr fun p => ?_
  rw [← and_or_left]
  refine and_congr_right fun hp => ?_
  obtain ⟨parts, hparts⟩ := hvalid p hp
  cases hname : plainName? p with
  | none => simp [LeavesOut, partsOf, hparts, hname, Except.toOption]
  | some name => simp [LeavesOut, partsOf, hparts, hname, Except.toOption]

/-- **The analysis of a request with valid patterns**: its root, and the files it leaves out. -/
theorem exists_build (hregistry : r.registry = some registry)
    (hvalid : ∀ p ∈ r.usedPatterns, ExcludePattern.IsValid p) :
    ∃ a, build directory r = .ok a ∧ a.root = directory.join r.givenRoot ∧
      ∀ path, a.excludes path ↔ ∃ p ∈ r.usedPatterns, LeavesOut a.root path p := by
  have hread : r.usedPatterns.mapM readPattern =
      .ok (r.usedPatterns.map fun p => (p, partsOf p)) := by
    rw [mapM_eq_ok_iff, List.forall₂_map_right_iff, List.forall₂_same]
    intro p hp
    obtain ⟨parts, hparts⟩ := hvalid p hp
    simp only [readPattern, partsOf, hparts]
    rfl
  refine ⟨⟨directory.join r.givenRoot, registry, r.rules,
    r.usedPatterns.map fun p => (p, partsOf p), r.config.getD {}, r.faultOf⟩, ?_, rfl,
    excludes_iff hvalid rfl⟩
  simp only [build, hregistry]
  show (r.usedPatterns.mapM readPattern >>= _) = _
  rw [hread]
  rfl

/-! ## One more pattern -/

/-- The patterns of a request with one more. -/
theorem mem_givenPatterns_excluding {p q : String} :
    p ∈ (r.excluding q).givenPatterns ↔ p ∈ r.givenPatterns ∨ p = q := by
  simp only [AnalyzerRequest.givenPatterns, AnalyzerRequest.excluding, List.mem_append,
    List.mem_singleton]
  tauto

/-- Both default patterns are about names. -/
theorem isValid_default : ∀ p ∈ defaultExclude, ExcludePattern.IsValid p := by
  have hnames : defaultExclude = ["target", "vendor"].map ExcludePattern.aroundName := rfl
  rw [hnames]
  intro p hp
  obtain ⟨name, hname, rfl⟩ := List.mem_map.mp hp
  have hplain : ∀ name ∈ ["target", "vendor"], FilePath.IsPlainName name := by decide
  exact ⟨_, ExcludePattern.parse_aroundName (hplain name hname)⟩

/-- **A further pattern leaves out more.**  If the request or its configuration gives a pattern,
then with a further one the analysis leaves out what it left out before and what the new pattern
leaves out.  If none is given, the defaults are used, and the new pattern takes their place. -/
theorem excludes_mono (hregistry : r.registry = some registry) {q : String}
    (hvalid : ∀ p ∈ q :: r.givenPatterns, ExcludePattern.IsValid p) :
    ∃ a a', build directory r = .ok a ∧ build directory (r.excluding q) = .ok a' ∧
      (r.givenPatterns ≠ [] → ∀ path,
        (a.excludes path → a'.excludes path) ∧
        (a'.excludes path → a.excludes path ∨ LeavesOut a.root path q)) ∧
      (r.givenPatterns = [] → ∀ path,
        (a.excludes path ↔ ∃ p ∈ defaultExclude, LeavesOut a.root path p) ∧
        (a'.excludes path ↔ LeavesOut a.root path q)) := by
  obtain ⟨hq, hgiven⟩ := List.forall_mem_cons.mp hvalid
  have hmore : (r.excluding q).usedPatterns = (r.excluding q).givenPatterns := by
    unfold AnalyzerRequest.usedPatterns
    rw [if_neg]
    rw [List.isEmpty_iff]
    exact List.ne_nil_of_mem (mem_givenPatterns_excluding.mpr (.inr rfl))
  -- Without given patterns the defaults are used, and these are valid.
  have hused : ∀ p ∈ r.usedPatterns, ExcludePattern.IsValid p := by
    unfold AnalyzerRequest.usedPatterns
    split_ifs
    · exact isValid_default
    · exact hgiven
  have hused' : ∀ p ∈ (r.excluding q).usedPatterns, ExcludePattern.IsValid p := by
    rw [hmore]
    intro p hp
    rcases mem_givenPatterns_excluding.mp hp with hp | rfl
    · exact hgiven p hp
    · exact hq
  obtain ⟨a, ha, hroot, hexcludes⟩ := exists_build directory hregistry hused
  obtain ⟨a', ha', hroot', hexcludes'⟩ :=
    exists_build directory (r := r.excluding q) hregistry hused'
  have hsame : a'.root = a.root := hroot'.trans hroot.symm
  simp only [hmore, mem_givenPatterns_excluding, hsame] at hexcludes'
  refine ⟨a, a', ha, ha', fun hne path => ?_, fun hnone path => ?_⟩
  · have hkept : r.usedPatterns = r.givenPatterns := by
      simp [AnalyzerRequest.usedPatterns, hne]
    rw [hexcludes, hexcludes', hkept]
    constructor
    · rintro ⟨p, hp, hout⟩
      exact ⟨p, .inl hp, hout⟩
    · rintro ⟨p, hp | rfl, hout⟩
      · exact .inl ⟨p, hp, hout⟩
      · exact .inr hout
  · have hdefault : r.usedPatterns = defaultExclude := by
      simp [AnalyzerRequest.usedPatterns, hnone]
    rw [hexcludes, hexcludes', hdefault, hnone]
    simp

/-- A request for all files of a directory without generated ones. -/
def sampleRequest : AnalyzerRequest :=
  { root := some ⟨"/work"⟩, registry := some ⟨[]⟩, exclude := ["**/generated/**"] }

/-- A file that a configured pattern leaves out stays out with one more pattern. -/
theorem excludes_mono_sample :
    ∃ a a', build ⟨"/"⟩ sampleRequest = .ok a ∧
      build ⟨"/"⟩ (sampleRequest.excluding "*.tmp.rs") = .ok a' ∧
      a.excludes ⟨"/work/generated/a.rs"⟩ ∧ a'.excludes ⟨"/work/generated/a.rs"⟩ := by
  have hvalid : ∀ p ∈ "*.tmp.rs" :: sampleRequest.givenPatterns, ExcludePattern.IsValid p := by
    have hgiven : sampleRequest.givenPatterns = ["**/generated/**"] := rfl
    rw [hgiven]
    simp only [List.forall_mem_cons]
    exact ⟨⟨_, rfl⟩, ⟨_, rfl⟩, nofun⟩
  obtain ⟨a, a', ha, ha', hmore, -⟩ :=
    excludes_mono ⟨"/"⟩ (r := sampleRequest) rfl hvalid
  have hout : a.excludes ⟨"/work/generated/a.rs"⟩ := by
    obtain rfl := Except.ok.inj ha
    decide +kernel
  exact ⟨a, a', ha, ha', hout, (hmore (by decide) _).1 hout⟩

/-- Without any pattern the defaults leave `target` out; the first pattern brings it back. -/
theorem defaults_give_way :
    ¬ ∀ (directory : FilePath) (r : AnalyzerRequest) (q : String) (a a' : Analyzer),
      (∀ p ∈ q :: r.givenPatterns, ExcludePattern.IsValid p) → build directory r = .ok a →
      build directory (r.excluding q) = .ok a' →
      ∀ path, a.excludes path → a'.excludes path := by
  intro h
  have hvalid : ∀ p ∈ ["**/generated/**"], ExcludePattern.IsValid p := by
    simp only [List.forall_mem_cons]
    exact ⟨⟨_, rfl⟩, nofun⟩
  have hback := h ⟨"/"⟩ { sampleRequest with exclude := [] } "**/generated/**" _ _ hvalid rfl rfl
    ⟨"/work/target/a.rs"⟩
  exact absurd (hback (by decide +kernel)) (by decide +kernel)

/-! ## Names of directories -/

/-- A name is written as a component exactly if the component is the entry of that name. -/
theorem isWritten_iff {name : String} (h : FilePath.IsName name) (c : PathComponent) :
    isWritten name c ↔ c = .entry name := by
  cases c with
  | root =>
      have hne : name ≠ "/" := by
        rintro rfl
        exact h.2 (by decide)
      simp [isWritten, hne]
  | current =>
      have hne : name ≠ "." := fun heq => h.1 (by simp [heq])
      simp [isWritten, hne]
  | parent =>
      have hne : name ≠ ".." := fun heq => h.1 (by simp [heq])
      simp [isWritten, hne]
  | entry n => simp [isWritten]

/-- **What the pattern of a name leaves out below a root**: paths on which the name occurs, on the
way from the root or on the way to it. -/
theorem leavesOut_aroundName_iff {root p : FilePath} {name : String}
    (hname : FilePath.IsPlainName name) (hroot : root.isAbsolute) (hp : p.IsPlain) :
    LeavesOut root (root.join p) (ExcludePattern.aroundName name) ↔
      .entry name ∈ p.components ∨ .entry name ∈ root.components := by
  have hrelative : (root.join p).relativeTo root = p.trimmed :=
    FilePath.relativeTo_join hp.not_isAbsolute hroot
  have hcomponents : p.trimmed.components = p.components := by
    rw [FilePath.components_trimmed, hp.components_eq]
  -- As a pattern, the name has to be a directory of the path, so the last piece does not count; as
  -- a plain name, it may be any component below the root.
  have hmatch : ∀ q : FilePath, ExcludePattern.matchParts (ExcludePattern.aroundParts name)
      q.text.toList ↔ name.toList ∈ q.pieces.dropLast := by
    intro q
    rw [ExcludePattern.matchParts_aroundName_iff hname.1, FilePath.pieces_eq]
  have hmem : ∀ q : FilePath, .entry name ∈ q.components ↔ name.toList ∈ q.pieces :=
    FilePath.entry_mem_components hname.1
  have hempty := hname.1.toList_ne_nil
  obtain ⟨front, hfront, hjoin⟩ := FilePath.exists_pieces_join hp.not_isAbsolute hroot
  have hpieces : p.pieces ≠ [] := by
    rw [FilePath.pieces_eq]
    exact List.splitOn_ne_nil '/' _
  have habsolute : name.toList ∈ (root.join p).pieces.dropLast ↔
      name.toList ∈ front ∨ name.toList ∈ p.pieces.dropLast := by
    rw [hjoin, List.dropLast_append_of_ne_nil hpieces]
    simp [hempty]
  have hinside : .entry name ∈ root.components ↔ name.toList ∈ front := by
    rw [hmem]
    rcases hfront with hfront | hfront <;> simp [hfront, hempty]
  have hrelative' : name.toList ∈ p.trimmed.pieces.dropLast → .entry name ∈ p.components := by
    intro hlast
    rw [← hcomponents, hmem]
    exact (List.dropLast_sublist _).mem hlast
  have hsome : (∃ c ∈ p.trimmed.components, isWritten name c) ↔ .entry name ∈ p.components := by
    simp [hcomponents, isWritten_iff hname.1]
  unfold LeavesOut
  rw [hrelative, ExcludePattern.parse_aroundName hname, plainName?_aroundName hname]
  simp only [Except.ok.injEq, exists_eq_left', Option.some.injEq, hmatch, habsolute, hsome, hinside]
  constructor
  · rintro (((hin | hlast) | hlast) | hin)
    · exact .inr hin
    · exact .inl ((hmem p).mpr ((List.dropLast_sublist _).mem hlast))
    · exact .inl (hrelative' hlast)
    · exact .inl hin
  · rintro (hin | hin)
    · exact .inr hin
    · exact .inl (.inl (.inl hin))

/-- **The name of a directory leaves out what is below such a directory, wherever the root is**, as
long as the root itself is not below one.  For all absolute roots without the name the answer is the
same: a path is left out if and only if one of its components is the name.  Below a root with the
name among its own components everything is left out. -/
theorem excludes_name_iff {name : String} (hname : FilePath.IsPlainName name)
    (hregistry : r.registry = some registry)
    (hpattern : r.givenPatterns = [ExcludePattern.aroundName name]) {root root' : FilePath}
    (hroot : root.isAbsolute) (hroot' : root'.isAbsolute) :
    ∃ a a', build directory { r with root := some root } = .ok a ∧
      build directory { r with root := some root' } = .ok a' ∧
      ∀ p : FilePath, p.IsPlain →
        (.entry name ∉ root.components → .entry name ∉ root'.components →
          a.excludes (root.join p) = a'.excludes (root'.join p) ∧
          (a.excludes (root.join p) ↔ .entry name ∈ p.components)) ∧
        (.entry name ∈ root.components → a.excludes (root.join p)) := by
  -- One root at a time: the answer depends on the root only by whether the name occurs on it.
  have hbuild : ∀ root : FilePath, root.isAbsolute →
      ∃ a, build directory { r with root := some root } = .ok a ∧ ∀ p : FilePath, p.IsPlain →
        (a.excludes (root.join p) ↔
          .entry name ∈ p.components ∨ .entry name ∈ root.components) := by
    intro root hroot
    have hused : AnalyzerRequest.usedPatterns { r with root := some root } =
        [ExcludePattern.aroundName name] := by
      have hgiven : AnalyzerRequest.givenPatterns { r with root := some root } =
          [ExcludePattern.aroundName name] := hpattern
      simp [AnalyzerRequest.usedPatterns, hgiven]
    obtain ⟨a, ha, hat, hexcludes⟩ := exists_build directory
      (r := { r with root := some root }) hregistry (by
        rw [hused]
        intro p hp
        rw [List.mem_singleton.mp hp]
        exact ⟨_, ExcludePattern.parse_aroundName hname⟩)
    have hplace : a.root = root := by
      rw [hat]
      simp [AnalyzerRequest.givenRoot, FilePath.join, hroot]
    refine ⟨a, ha, fun p hp => ?_⟩
    rw [hexcludes, hused, hplace, ← leavesOut_aroundName_iff hname hroot hp]
    simp
  obtain ⟨a, ha, hexcludes⟩ := hbuild root hroot
  obtain ⟨a', ha', hexcludes'⟩ := hbuild root' hroot'
  refine ⟨a, a', ha, ha', fun p hp => ⟨fun hout hout' => ⟨?_, ?_⟩, fun hin => ?_⟩⟩
  · rw [Bool.eq_iff_iff, hexcludes p hp, hexcludes' p hp, or_iff_left hout, or_iff_left hout']
  · rw [hexcludes p hp, or_iff_left hout]
  · exact (hexcludes p hp).mpr (.inr hin)

/-- The same file below two roots: the name of a directory on the way leaves it out in both. -/
theorem excludes_name_iff_sample :
    ∃ a a', build ⟨"/"⟩ { sampleRequest with root := some ⟨"/work"⟩ } = .ok a ∧
      build ⟨"/"⟩ { sampleRequest with root := some ⟨"/home/me/"⟩ } = .ok a' ∧
      a.excludes (FilePath.join ⟨"/work"⟩ ⟨"src/generated/a.rs"⟩) =
        a'.excludes (FilePath.join ⟨"/home/me/"⟩ ⟨"src/generated/a.rs"⟩) ∧
      a.excludes (FilePath.join ⟨"/work"⟩ ⟨"src/generated/a.rs"⟩) := by
  obtain ⟨a, a', ha, ha', hexcludes⟩ := excludes_name_iff ⟨"/"⟩ (r := sampleRequest)
    (show FilePath.IsPlainName "generated" by decide) rfl rfl
    (show FilePath.isAbsolute ⟨"/work"⟩ from rfl) (show FilePath.isAbsolute ⟨"/home/me/"⟩ from rfl)
  have hplain : FilePath.IsPlain ⟨"src/generated/a.rs"⟩ := by
    have hcomponents : FilePath.components ⟨"src/generated/a.rs"⟩ =
        [.entry "src", .entry "generated", .entry "a.rs"] := by decide +kernel
    simp [FilePath.IsPlain, hcomponents]
  obtain ⟨hsame, hin⟩ := (hexcludes _ hplain).1 (by decide +kernel) (by decide +kernel)
  exact ⟨a, a', ha, ha', hsame, hin.mpr (by decide +kernel)⟩

/-- A pattern is tried on the whole path as well: below a root of that name everything is left
out. -/
theorem excludes_by_root_name :
    ¬ ∀ (directory : FilePath) (r : AnalyzerRequest) (name : String) (root root' : FilePath)
      (a a' : Analyzer), FilePath.IsPlainName name →
      r.givenPatterns = [ExcludePattern.aroundName name] → root.isAbsolute → root'.isAbsolute →
      build directory { r with root := some root } = .ok a →
      build directory { r with root := some root' } = .ok a' →
      ∀ p : FilePath, p.IsPlain → p.components ≠ [] →
        a.excludes (root.join p) = a'.excludes (root'.join p) ∧
          (a.excludes (root.join p) ↔ .entry name ∈ p.components) := by
  intro h
  have hplain : FilePath.IsPlain ⟨"a.rs"⟩ := by
    have hcomponents : FilePath.components ⟨"a.rs"⟩ = [.entry "a.rs"] := by decide +kernel
    simp [FilePath.IsPlain, hcomponents]
  obtain ⟨hsame, -⟩ := h ⟨"/"⟩ sampleRequest "generated" ⟨"/work/generated"⟩ ⟨"/work"⟩ _ _
    (by decide) rfl rfl rfl rfl rfl ⟨"a.rs"⟩ hplain (by decide +kernel)
  exact absurd hsame (by decide +kernel)

end Analyzer

end SchemaLint

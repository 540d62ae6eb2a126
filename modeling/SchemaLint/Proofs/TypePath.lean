import Mathlib.Data.List.Forall2
import Mathlib.Data.List.Infix
import SchemaLint.PathPattern

/-!
# Matching type paths

A pattern matches a path if the segments of the path can be cut into pieces that lie one after
another, one for each segment of the pattern: `**` takes any number of segments, `*` takes one, and
any other segment takes itself.  The matcher tries the pieces of a `**` from the left; here it is
compared with the cuts themselves, and what it says of segments is brought back to the texts that
paths and patterns are written as.

* `PathPattern.Fits`: a path is cut along a pattern.
* `PathPattern.matchSegments_iff`: the matcher finds a cut exactly if there is one.
* `Text.colonSegments_join`: joined segments without colons are found again.
* **`PathPattern.matches_iff_fits`**: whole paths, ends of paths, and patterns without wildcards.
-/

namespace SchemaLint

/-! ## Texts of segments -/

namespace Text

/-- Splitting gives at least one piece. -/
theorem splitAtPair_ne_nil (a b : Char) (cs : List Char) : splitAtPair a b cs ≠ [] := by
  fun_induction splitAtPair a b cs <;> simp_all

/-- A character that does not begin the mark belongs to the first piece. -/
theorem splitAtPair_cons {a b c : Char} (hc : c ≠ a) (cs : List Char) :
    splitAtPair a b (c :: cs) = (splitAtPair a b cs).modifyHead (c :: ·) := by
  cases cs with
  | nil => rfl
  | cons d cs =>
      rw [splitAtPair, if_neg fun h => hc h.1]
      cases hpieces : splitAtPair a b (d :: cs) with
      | nil => exact absurd hpieces (splitAtPair_ne_nil a b _)
      | cons piece pieces => rfl

/-- A piece ends at the first mark. -/
theorem splitAtPair_append {a b : Char} {piece : List Char} (h : a ∉ piece) (cs : List Char) :
    splitAtPair a b (piece ++ a :: b :: cs) = piece :: splitAtPair a b cs := by
  induction piece with
  | nil => simp [splitAtPair]
  | cons c piece ih =>
      rw [List.mem_cons, not_or] at h
      rw [List.cons_append, splitAtPair_cons (Ne.symm h.1), ih h.2]
      rfl

/-- A text without the mark is one piece. -/
theorem splitAtPair_eq_singleton {a b : Char} {piece : List Char} (h : a ∉ piece) :
    splitAtPair a b piece = [piece] := by
  induction piece with
  | nil => rfl
  | cons c piece ih =>
      rw [List.mem_cons, not_or] at h
      rw [splitAtPair_cons (Ne.symm h.1), ih h.2]
      rfl

/-- Segments that a path can be written with: at least one, and no colon in any of them. -/
structure IsSegments (segments : List String) : Prop where
  ne_nil : segments ≠ []
  no_colon : ∀ s ∈ segments, ':' ∉ s.toList

/-- Segments behind the first are segments. -/
theorem IsSegments.tail {s : String} {segments : List String} (h : IsSegments (s :: segments))
    (hne : segments ≠ []) : IsSegments segments :=
  ⟨hne, (List.forall_mem_cons.mp h.no_colon).2⟩

variable {s : String} {segments tail : List String}

/-- Joined segments, one in front. -/
theorem toList_join_cons (h : segments ≠ []) (s : String) :
    (join "::" (s :: segments)).toList =
      s.toList ++ ':' :: ':' :: (join "::" segments).toList := by
  rw [join, String.intercalate_cons_of_ne_nil h]
  simp [join]

/-- **The segments of a path that is written with them** are found again. -/
theorem colonSegments_join (h : IsSegments segments) :
    colonSegments (join "::" segments) = segments := by
  obtain ⟨hne, hcolon⟩ := h
  induction segments with
  | nil => exact absurd rfl hne
  | cons s segments ih =>
      obtain ⟨hs, hrest⟩ := List.forall_mem_cons.mp hcolon
      by_cases hlast : segments = []
      · subst hlast
        simp [join, colonSegments, splitAtPair_eq_singleton hs]
      · have hih := ih hlast hrest
        rw [colonSegments] at hih ⊢
        rw [toList_join_cons hlast, splitAtPair_append hs, List.map_cons, hih, String.ofList_toList]

/-- Paths of different segments are written differently. -/
theorem join_inj (h : IsSegments segments) (h' : IsSegments tail)
    (heq : join "::" segments = join "::" tail) : segments = tail := by
  rw [← colonSegments_join h, heq, colonSegments_join h']

/-- The colons of a written path come in pairs. -/
theorem count_colon_join (h : IsSegments segments) :
    (join "::" segments).toList.count ':' = 2 * (segments.length - 1) := by
  obtain ⟨hne, hcolon⟩ := h
  induction segments with
  | nil => exact absurd rfl hne
  | cons s segments ih =>
      obtain ⟨hs, hrest⟩ := List.forall_mem_cons.mp hcolon
      have hcount : s.toList.count ':' = 0 := List.count_eq_zero.mpr hs
      by_cases hlast : segments = []
      · subst hlast
        simpa [join] using hcount
      · have hpos : 0 < segments.length := List.length_pos_iff.mpr hlast
        rw [toList_join_cons hlast, List.count_append, List.count_cons_self, List.count_cons_self,
          ih hlast hrest, hcount, List.length_cons]
        omega

/-- The written form of the end of a path begins after a double colon: by induction on the path,
since a double colon that is not the first one lies behind it. -/
theorem suffix_of_suffix_join (h : IsSegments segments) (h' : IsSegments tail)
    (hsuffix : ':' :: ':' :: (join "::" tail).toList <:+ (join "::" segments).toList) :
    tail <:+ segments := by
  induction segments with
  | nil => exact absurd rfl h.ne_nil
  | cons s segments ih =>
      obtain ⟨hs, -⟩ := List.forall_mem_cons.mp h.no_colon
      by_cases hlast : segments = []
      · subst hlast
        have hmem : ':' ∈ (join "::" [s]).toList := hsuffix.subset List.mem_cons_self
        exact absurd hmem (by simpa [join] using hs)
      have hrest := h.tail hlast
      have htail : (join "::" tail).toList = (join "::" segments).toList →
          tail <:+ s :: segments := by
        intro heq
        rw [join_inj h' hrest (String.toList_injective heq)]
        exact List.suffix_cons s segments
      obtain ⟨front, hfront⟩ := hsuffix
      rw [toList_join_cons hlast] at hfront
      rcases List.append_eq_append_iff.mp hfront with ⟨more, hmore, heq⟩ | ⟨more, -, heq⟩
      · -- the double colon begins no later than the first one
        cases more with
        | nil => exact htail (by simpa using heq)
        | cons c more =>
            obtain rfl : ':' = c := (List.cons.inj heq).1
            exact absurd (hmore ▸ List.mem_append_right front List.mem_cons_self) hs
      · rcases more with _ | ⟨c, _ | ⟨d, more⟩⟩
        · exact htail (by simpa using heq.symm)
        · -- it cannot share one colon with the first
          have hshift : ':' :: (join "::" segments).toList = ':' :: ':' :: (join "::" tail).toList :=
            (List.cons.inj heq).2
          have hcount := congrArg (List.count ':') hshift
          rw [List.count_cons_self, List.count_cons_self, List.count_cons_self,
            count_colon_join hrest, count_colon_join h'] at hcount
          omega
        · have hinner : ':' :: ':' :: (join "::" tail).toList <:+ (join "::" segments).toList :=
            ⟨more, (List.cons.inj (List.cons.inj heq).2).2.symm⟩
          exact (ih hrest hinner).trans (List.suffix_cons s segments)

/-- **The end of a path, by its written form**: it is all of the path, or what follows a double
colon. -/
theorem suffix_iff_join (h : IsSegments segments) (h' : IsSegments tail) :
    tail <:+ segments ↔ join "::" segments = join "::" tail ∨
      ("::" ++ join "::" tail).toList <:+ (join "::" segments).toList := by
  have htext : ("::" ++ join "::" tail).toList = ':' :: ':' :: (join "::" tail).toList := by simp
  rw [htext]
  constructor
  · rintro ⟨front, rfl⟩
    by_cases hfront : front = []
    · exact .inl (by rw [hfront, List.nil_append])
    · refine .inr ⟨(join "::" front).toList, ?_⟩
      rw [join, join, join, String.intercalate_append_of_ne_nil hfront h'.ne_nil]
      simp
  · rintro (heq | hsuffix)
    · rw [join_inj h h' heq]
    · exact suffix_of_suffix_join h h' hsuffix

end Text

namespace PathPattern

/-! ## Cuts -/

/-- A segment of a pattern takes a piece of a path: `**` takes any segments, `*` takes one, and any
other segment takes itself. -/
def Takes (segment : String) (piece : List String) : Prop :=
  if segment = "**" then True else if segment = "*" then piece.length = 1 else piece = [segment]

/-- A path is cut into pieces that lie one after another, one for each segment of a pattern. -/
def Fits (pattern path : List String) : Prop :=
  ∃ pieces : List (List String), pieces.flatten = path ∧ List.Forall₂ Takes pattern pieces

variable {segment : String} {pattern path : List String}

/-- An empty pattern fits the empty path only. -/
theorem fits_nil_iff : Fits [] path ↔ path = [] := by
  constructor
  · rintro ⟨pieces, rfl, hpieces⟩
    rw [List.forall₂_nil_left_iff.mp hpieces]
    rfl
  · rintro rfl
    exact ⟨[], rfl, .nil⟩

/-- A pattern fits if its first segment takes a beginning and the others fit the rest. -/
theorem fits_cons_iff :
    Fits (segment :: pattern) path ↔
      ∃ piece rest, path = piece ++ rest ∧ Takes segment piece ∧ Fits pattern rest := by
  constructor
  · rintro ⟨pieces, rfl, hpieces⟩
    obtain ⟨piece, pieces, htakes, hrest, rfl⟩ := List.forall₂_cons_left_iff.mp hpieces
    exact ⟨piece, pieces.flatten, rfl, htakes, pieces, rfl, hrest⟩
  · rintro ⟨piece, _, rfl, htakes, pieces, rfl, hrest⟩
    exact ⟨piece :: pieces, rfl, .cons htakes hrest⟩

/-- `**` leaves any end of the path to the rest of the pattern. -/
theorem fits_anySegments_iff :
    Fits ("**" :: pattern) path ↔ ∃ tail, tail <:+ path ∧ Fits pattern tail := by
  rw [fits_cons_iff]
  constructor
  · rintro ⟨piece, rest, rfl, -, hrest⟩
    exact ⟨rest, List.suffix_append piece rest, hrest⟩
  · rintro ⟨tail, ⟨piece, rfl⟩, htail⟩
    exact ⟨piece, tail, rfl, by simp [Takes], htail⟩

/-- A star takes one segment, whatever it is. -/
theorem fits_anySegment_iff :
    Fits ("*" :: pattern) path ↔ ∃ s rest, path = s :: rest ∧ Fits pattern rest := by
  rw [fits_cons_iff]
  constructor
  · rintro ⟨piece, rest, rfl, htakes, hrest⟩
    obtain ⟨s, rfl⟩ : ∃ s, piece = [s] := by simpa [Takes, List.length_eq_one_iff] using htakes
    exact ⟨s, rest, rfl, hrest⟩
  · rintro ⟨s, rest, rfl, hrest⟩
    exact ⟨[s], rest, rfl, by simp [Takes], hrest⟩

/-- A segment that is no wildcard. -/
def IsLiteral (segment : String) : Prop :=
  segment ≠ "*" ∧ segment ≠ "**"

/-- A segment without wildcards takes itself. -/
theorem fits_literal_iff (h : IsLiteral segment) :
    Fits (segment :: pattern) path ↔ ∃ rest, path = segment :: rest ∧ Fits pattern rest := by
  have htakes : ∀ piece, Takes segment piece ↔ piece = [segment] := by
    intro piece
    rw [Takes, if_neg h.2, if_neg h.1]
  rw [fits_cons_iff]
  constructor
  · rintro ⟨piece, rest, rfl, hpiece, hrest⟩
    rw [(htakes piece).mp hpiece]
    exact ⟨rest, rfl, hrest⟩
  · rintro ⟨rest, rfl, hrest⟩
    exact ⟨[segment], rest, rfl, (htakes _).mpr rfl, hrest⟩

/-- Without wildcards, only the pattern itself can be cut along it. -/
theorem fits_iff_eq (h : ∀ s ∈ pattern, IsLiteral s) : Fits pattern path ↔ path = pattern := by
  induction pattern generalizing path with
  | nil => exact fits_nil_iff
  | cons s pattern ih =>
      obtain ⟨hs, hpattern⟩ := List.forall_mem_cons.mp h
      rw [fits_literal_iff hs]
      simp only [ih hpattern, exists_eq_right]

/-! ## The matcher -/

/-- Every tail of a path is tried. -/
theorem anyTail_iff (p : List String → Bool) :
    anyTail p path ↔ ∃ tail, tail <:+ path ∧ p tail := by
  induction path with
  | nil => simp [anyTail]
  | cons s path ih =>
      rw [anyTail, Bool.or_eq_true, ih]
      constructor
      · rintro (hp | ⟨tail, htail, hp⟩)
        · exact ⟨s :: path, List.suffix_rfl, hp⟩
        · exact ⟨tail, htail.trans (List.suffix_cons s path), hp⟩
      · rintro ⟨tail, htail, hp⟩
        rcases List.suffix_cons_iff.mp htail with rfl | htail
        · exact .inl hp
        · exact .inr ⟨tail, htail, hp⟩

/-- **The matcher finds a cut exactly if there is one**: by induction on the pattern, whose first
segment takes the first piece. -/
theorem matchSegments_iff : matchSegments pattern path ↔ Fits pattern path := by
  induction pattern generalizing path with
  | nil => rw [fits_nil_iff, matchSegments, List.isEmpty_iff]
  | cons segment pattern ih =>
      by_cases hmany : segment = "**"
      · subst hmany
        rw [fits_anySegments_iff, matchSegments, anyTail_iff]
        simp only [ih]
      by_cases hone : segment = "*"
      · subst hone
        rw [fits_anySegment_iff]
        cases path with
        | nil => simp [matchSegments]
        | cons s path => simp [matchSegments, ih]
      · rw [fits_literal_iff ⟨hone, hmany⟩]
        cases path with
        | nil => simp [matchSegments]
        | cons s path => simp [matchSegments, ih]

/-- The whole path is matched by its cuts. -/
theorem matchesPath_join_iff (hpath : Text.IsSegments path) (hpattern : Text.IsSegments pattern) :
    matchesPath (Text.join "::" path) (Text.join "::" pattern) ↔ Fits pattern path := by
  rw [matchesPath, Text.colonSegments_join hpath, Text.colonSegments_join hpattern,
    matchSegments_iff]

/-- A pattern with `**` in front matches the ends of what it matches without. -/
theorem matchesType_join_iff (hpath : Text.IsSegments path) (hpattern : Text.IsSegments pattern) :
    matchesType (Text.join "::" path) (Text.join "::" pattern) ↔
      ∃ tail, tail <:+ path ∧ Fits pattern tail := by
  have hany : Text.IsSegments ("**" :: pattern) := by
    refine ⟨List.cons_ne_nil _ _, ?_⟩
    rw [List.forall_mem_cons]
    exact ⟨by decide, hpattern.no_colon⟩
  have htext : "**::" ++ Text.join "::" pattern = Text.join "::" ("**" :: pattern) := by
    apply String.toList_injective
    rw [Text.toList_join_cons hpattern.ne_nil]
    simp
  rw [matchesType, htext, Bool.or_eq_true, matchesPath_join_iff hpath hpattern,
    matchesPath_join_iff hpath hany, fits_anySegments_iff]
  constructor
  · rintro (hfits | htail)
    · exact ⟨path, List.suffix_rfl, hfits⟩
    · exact htail
  · exact .inr

/-- **Type paths are matched by their ends.**  A pattern matches a whole path if the path can be cut
along it, and a type if some end of the path can be.  Without wildcards this is to be the pattern,
or to end with a double colon and the pattern. -/
theorem matches_iff_fits (hpath : Text.IsSegments path) (hpattern : Text.IsSegments pattern) :
    (matchesPath (Text.join "::" path) (Text.join "::" pattern) ↔ Fits pattern path) ∧
      (matchesType (Text.join "::" path) (Text.join "::" pattern) ↔
        ∃ tail, tail <:+ path ∧ Fits pattern tail) ∧
      ((∀ s ∈ pattern, IsLiteral s) →
        (matchesType (Text.join "::" path) (Text.join "::" pattern) ↔
          Text.join "::" path = Text.join "::" pattern ∨
            ("::" ++ Text.join "::" pattern).toList <:+ (Text.join "::" path).toList)) := by
  refine ⟨matchesPath_join_iff hpath hpattern, matchesType_join_iff hpath hpattern, ?_⟩
  intro hliteral
  rw [matchesType_join_iff hpath hpattern, ← Text.suffix_iff_join hpath hpattern]
  simp only [fits_iff_eq hliteral, exists_eq_right]

/-- A path that begins with an empty segment cannot be cut along `vendor::**::*::Schema`, but its end
after that segment can, and `tfschema::Schema` is another end of it. -/
theorem matches_iff_fits_sample :
    Text.IsSegments ["", "vendor", "tfschema", "Schema"] ∧
      Text.IsSegments ["vendor", "**", "*", "Schema"] ∧ Text.IsSegments ["tfschema", "Schema"] ∧
      (∀ s ∈ ["tfschema", "Schema"], IsLiteral s) ∧
      ¬ matchesPath "::vendor::tfschema::Schema" "vendor::**::*::Schema" ∧
      matchesType "::vendor::tfschema::Schema" "vendor::**::*::Schema" ∧
      matchesType "::vendor::tfschema::Schema" "tfschema::Schema" := by
  have hpath : Text.IsSegments ["", "vendor", "tfschema", "Schema"] := ⟨by simp, by decide⟩
  have hwild : Text.IsSegments ["vendor", "**", "*", "Schema"] := ⟨by simp, by decide⟩
  have hplain : Text.IsSegments ["tfschema", "Schema"] := ⟨by simp, by decide⟩
  have hliteral : ∀ s ∈ ["tfschema", "Schema"], IsLiteral s := by simp [IsLiteral]
  obtain ⟨hwhole, hend, -⟩ := matches_iff_fits hpath hwild
  obtain ⟨-, -, htext⟩ := matches_iff_fits hpath hplain
  refine ⟨hpath, hwild, hplain, hliteral, fun hmatches => ?_, hend.mpr ?_, ?_⟩
  · obtain ⟨rest, hrest, -⟩ := (fits_literal_iff (by simp [IsLiteral])).mp (hwhole.mp hmatches)
    exact absurd (List.cons.inj hrest).1 (by decide)
  · refine ⟨["vendor", "tfschema", "Schema"], List.suffix_cons _ _, ?_⟩
    exact ⟨[["vendor"], [], ["tfschema"], ["Schema"]], rfl, by simp [Takes]⟩
  · exact (htext hliteral).mpr (.inr ⟨"::vendor".toList, by decide⟩)

end PathPattern

end SchemaLint

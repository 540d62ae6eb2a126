import Mathlib.Data.Finset.Card
import Mathlib.Data.Prod.Lex
import SchemaLint.Proofs.Path
import SchemaLint.Proofs.Sink

/-!
# Collecting findings in batches

A sink compares findings by parts, one after the other.  Here the order is said once more, over the
key of a finding alone: the components of its file, its line and column, its rule and its message,
compared lexicographically.  The two agree (`Diagnostic.compareKey_eq_lt_iff`), and two findings have
one key exactly if they compare as equal (`Diagnostic.compareKey_eq_iff_key`), so what is known of a
sink by comparisons is known by keys.

* `FilePath.components_idle`: repeated slashes, inner `.` components and a slash at the end make no
  difference to the components of a path.
* `Diagnostic.key`, `Diagnostic.KeyBefore`: the key of a finding and the order of keys.
* `Sink.collectAll`: a sink that is given one batch after the other.
* **`Sink.keeps_first_of_keys`**: it holds the first finding of every key, in the order of keys, and
  how the findings were batched makes no difference.
-/

namespace SchemaLint

/-! ## Parts of a path that do not count -/

namespace FilePath

/-- A slash divides the components of the body of a path. -/
theorem bodyComponents_append_slash (cs ds : List Char) :
    bodyComponents (cs ++ '/' :: ds) = bodyComponents cs ++ bodyComponents ds := by
  unfold bodyComponents
  rw [Text.splitAtChar_eq_splitOn, Text.splitAtChar_eq_splitOn, Text.splitAtChar_eq_splitOn,
    List.splitOn_append_cons_self, List.filterMap_append]

/-- What the start of a path stands for is decided before or at its first slash. -/
theorem start_append_slash (a b : String) : (mk (a ++ "/" ++ b)).start = (mk (a ++ "/")).start := by
  unfold start
  simp only [String.toList_append, String.reduceToList]
  rcases a.toList with _ | ⟨c, _ | ⟨d, cs⟩⟩
  · rfl
  · by_cases hslash : c = '/'
    · subst hslash
      rfl
    · by_cases hdot : c = '.'
      · subst hdot
        rfl
      · simp [hslash, hdot]
  · by_cases hslash : c = '/'
    · subst hslash
      rfl
    · by_cases hdot : c = '.'
      · subst hdot
        by_cases hd : d = '/'
        · subst hd
          rfl
        · simp [hd]
      · simp [hslash, hdot]

/-- The components of a path are those up to a slash and those after it. -/
theorem components_append_slash (a b : String) :
    (mk (a ++ "/" ++ b)).components = (mk (a ++ "/")).components ++ bodyComponents b.toList := by
  have hpieces : ∀ cs : List Char, ∀ p : FilePath, p.text.toList = a.toList ++ '/' :: cs →
      p.pieces.filterMap componentOf = bodyComponents a.toList ++ bodyComponents cs := by
    intro cs p hp
    rw [pieces, hp]
    exact bodyComponents_append_slash a.toList cs
  rw [components_eq, components_eq, start_append_slash, hpieces b.toList _ (by simp),
    hpieces [] _ (by simp), List.append_assoc, List.append_assoc]
  rfl

/-- **Repeated slashes, inner `.` components and a slash at the end do not count.** -/
theorem components_idle (a b : String) :
    (mk (a ++ "//" ++ b)).components = (mk (a ++ "/" ++ b)).components ∧
      (mk (a ++ "/./" ++ b)).components = (mk (a ++ "/" ++ b)).components ∧
      (mk (a ++ "/" ++ b ++ "/")).components = (mk (a ++ "/" ++ b)).components := by
  have hidle : ∀ idle : String, bodyComponents idle.toList = [] →
      (mk (a ++ "/" ++ idle ++ "/" ++ b)).components = (mk (a ++ "/" ++ b)).components := by
    intro idle hnone
    have hregroup : a ++ "/" ++ idle ++ "/" = a ++ "/" ++ (idle ++ "/") := String.append_assoc
    rw [components_append_slash, hregroup, components_append_slash, components_append_slash a b]
    have hbody : bodyComponents (idle ++ "/").toList = [] := by
      rw [String.toList_append]
      exact (bodyComponents_append_slash _ []).trans (by rw [hnone]; rfl)
    rw [hbody, List.append_nil]
  refine ⟨?_, ?_, ?_⟩
  · have htext : a ++ "//" ++ b = a ++ "/" ++ "" ++ "/" ++ b := by
      rw [← String.toList_inj]
      simp
    rw [htext]
    exact hidle "" rfl
  · have htext : a ++ "/./" ++ b = a ++ "/" ++ "." ++ "/" ++ b := by
      rw [← String.toList_inj]
      simp
    rw [htext]
    exact hidle "." rfl
  · rw [String.append_assoc, components_append_slash, components_append_slash a b,
      String.toList_append]
    have hbody : bodyComponents (b.toList ++ "/".toList) = bodyComponents b.toList :=
      (bodyComponents_append_slash _ []).trans (List.append_nil _)
    rw [hbody]

end FilePath

/-! ## Keys -/

/-- A text that comes before another: they are compared character by character, by number. -/
def TextBefore (s t : String) : Prop :=
  List.Lex (fun c d : Char => c.toNat < d.toNat) s.toList t.toList

/-- Texts are compared by their bytes. -/
theorem compare_text_eq_lt_iff {s t : String} : Ord.compare s t = .lt ↔ TextBefore s t := by
  have hlt : Ord.compare s t = .lt ↔ s < t := by
    show compareOfLessAndEq s t = .lt ↔ _
    exact compareOfLessAndEq_eq_lt
  rw [hlt, String.lt_iff]
  rfl

namespace PathComponent

/-- The kind of a component, in the order of kinds, and the name of one that has a name. -/
def rank : PathComponent → Nat × String
  | .root => (0, "")
  | .current => (1, "")
  | .parent => (2, "")
  | .entry name => (3, name)

/-- A component that comes before another. -/
def Before (a b : PathComponent) : Prop :=
  Prod.Lex (· < ·) TextBefore a.rank b.rank

/-- Components are compared by their kinds, and names by their texts. -/
theorem compare_eq_lt_iff {a b : PathComponent} : a.compare b = .lt ↔ a.Before b := by
  unfold Before
  rw [Prod.lex_def]
  cases a <;> cases b <;> simp [compare, rank, compare_text_eq_lt_iff, TextBefore]

end PathComponent

namespace FilePath

/-- Lists of components are compared lexicographically. -/
theorem compareComponents_eq_lt_iff {as bs : List PathComponent} :
    compareComponents as bs = .lt ↔ List.Lex PathComponent.Before as bs := by
  induction as generalizing bs with
  | nil =>
      cases bs with
      | nil => simp [compareComponents]
      | cons b bs => exact iff_of_true rfl .nil
  | cons a as ih =>
      cases bs with
      | nil => simp [compareComponents]
      | cons b bs =>
          rw [compareComponents, Ordering.then_eq_lt, PathComponent.compare_eq_lt_iff,
            Std.LawfulEqCmp.compare_eq_iff_eq, ih, List.cons_lex_cons_iff]

variable {p q : FilePath}

/-- Paths are compared lexicographically by their components. -/
theorem compare_eq_lt_iff :
    p.compare q = .lt ↔ List.Lex PathComponent.Before p.components q.components :=
  compareComponents_eq_lt_iff

/-- Paths are equal in the order exactly if they have the same components. -/
theorem compare_eq_iff_components : p.compare q = .eq ↔ p.components = q.components := by
  rw [compare_eq_iff, same, beq_iff_eq]

end FilePath

namespace Diagnostic

/-- The key of a finding: the components of its file, its line and column, its rule and its
message. -/
def key (d : Diagnostic) : List PathComponent × Nat × Nat × String × String :=
  (d.location.file.components, d.location.line, d.location.column, d.rule, d.message)

/-- A finding whose key comes before that of another, part by part. -/
def KeyBefore (a b : Diagnostic) : Prop :=
  Prod.Lex (List.Lex PathComponent.Before)
    (Prod.Lex (· < ·) (Prod.Lex (· < ·) (Prod.Lex TextBefore TextBefore))) a.key b.key

variable {a b : Diagnostic}

/-- **Findings are compared by their keys.** -/
theorem compareKey_eq_lt_iff : a.compareKey b = .lt ↔ a.KeyBefore b := by
  unfold compareKey KeyBefore key
  simp only [Prod.lex_def, Ordering.then_eq_lt, FilePath.compare_eq_lt_iff,
    FilePath.compare_eq_iff_components, Nat.compare_eq_lt, compare_text_eq_lt_iff,
    Std.compare_eq_iff_eq]

/-- Findings compare as equal exactly if they have one key. -/
theorem compareKey_eq_iff_key : a.compareKey b = .eq ↔ a.key = b.key := by
  unfold compareKey key
  simp only [Prod.mk.injEq, Ordering.then_eq_eq, FilePath.compare_eq_iff_components,
    Std.compare_eq_iff_eq]

/-- The keys of two findings agree exactly if they are equal as keys. -/
theorem sameKey_eq (d : Diagnostic) : d.sameKey = fun e => decide (e.key = d.key) := by
  funext e
  rw [Bool.eq_iff_iff, sameKey_iff, compareKey_eq_iff_key, decide_eq_true_iff, eq_comm]

end Diagnostic

/-! ## Batches -/

namespace Sink

/-- A sink that is given one batch after the other. -/
def collectAll (batches : List (List Diagnostic)) : Sink :=
  batches.foldl collect empty

/-- Batches are collected like one. -/
theorem toList_collectAll (batches : List (List Diagnostic)) :
    (collectAll batches).toList = kept batches.flatten := by
  have hflatten : ∀ s : Sink, batches.foldl collect s = s.collect batches.flatten := by
    induction batches with
    | nil => exact fun s => rfl
    | cons ds batches ih =>
        intro s
        rw [List.foldl_cons, ih, List.flatten_cons, collect_append]
  rw [collectAll, hflatten, kept]

/-- The keys that are kept are those that were given. -/
theorem mem_map_key_kept {ds : List Diagnostic}
    {k : List PathComponent × Nat × Nat × String × String} :
    k ∈ (kept ds).map Diagnostic.key ↔ k ∈ ds.map Diagnostic.key := by
  constructor
  · intro hk
    obtain ⟨d, hd, rfl⟩ := List.mem_map.mp hk
    exact List.mem_map_of_mem (mem_of_mem_kept hd)
  · intro hk
    obtain ⟨d, hd, rfl⟩ := List.mem_map.mp hk
    obtain ⟨e, he, hkey⟩ := exists_mem_kept hd
    rw [Diagnostic.compareKey_eq_iff_key.mp hkey]
    exact List.mem_map_of_mem he

/-- No two findings that are kept have one key. -/
theorem nodup_keys_kept (ds : List Diagnostic) : ((kept ds).map Diagnostic.key).Nodup := by
  refine List.Nodup.map_on ?_ ?_
  · intro d hd e he hkey
    exact (strictlySorted_kept ds).eq_of_compare hd he (Diagnostic.compareKey_eq_iff_key.mpr hkey)
  · refine (strictlySorted_kept ds).imp ?_
    rintro d e hlt rfl
    rw [Diagnostic.compareKey_eq_iff_key.mpr rfl] at hlt
    cases hlt

/-- As many findings are kept as there are keys. -/
theorem length_kept (ds : List Diagnostic) :
    (kept ds).length = (ds.map Diagnostic.key).toFinset.card := by
  rw [← List.length_map Diagnostic.key, ← List.toFinset_card_of_nodup (nodup_keys_kept ds)]
  congr 1
  ext k
  rw [List.mem_toFinset, List.mem_toFinset, mem_map_key_kept]

/-- Where findings with one key are equal, the order in which they come makes no difference. -/
theorem kept_perm {ds ds' : List Diagnostic} (h : ds.Perm ds')
    (hkeys : ∀ a ∈ ds, ∀ b ∈ ds, a.key = b.key → a = b) : kept ds = kept ds' := by
  have hcompare : ∀ a ∈ ds, ∀ b ∈ ds, a.compareKey b = .eq → a = b :=
    fun a ha b hb heq => hkeys a ha b hb (Diagnostic.compareKey_eq_iff_key.mp heq)
  have hcompare' : ∀ a ∈ ds', ∀ b ∈ ds', a.compareKey b = .eq → a = b :=
    fun a ha b hb => hcompare a (h.mem_iff.mpr ha) b (h.mem_iff.mpr hb)
  refine eq_of_strictlySorted (strictlySorted_kept ds) (strictlySorted_kept ds') fun d => ?_
  rw [mem_kept hcompare, mem_kept hcompare', h.mem_iff]

/-- **A sink keeps the first finding of every key.**  Whatever batches it is given, its findings
strictly increase in their keys; their keys are those of all findings it was given; each is, as it
was, the first with its key; after every batch its size is the number of different keys so far; and
only the findings one after the other count, not their batches.  If moreover findings with one key
are equal, not even their order counts.  Files are compared by their components, for which repeated
slashes, inner `.` components and a slash at the end make no difference. -/
theorem keeps_first_of_keys (batches : List (List Diagnostic)) :
    (collectAll batches).toList.Pairwise Diagnostic.KeyBefore ∧
    (∀ k, k ∈ (collectAll batches).toList.map Diagnostic.key ↔
      k ∈ batches.flatten.map Diagnostic.key) ∧
    (∀ d, d ∈ (collectAll batches).toList ↔
      batches.flatten.find? (fun e => e.key = d.key) = some d) ∧
    (∀ n, (collectAll (batches.take n)).size =
      ((batches.take n).flatten.map Diagnostic.key).toFinset.card) ∧
    (∀ others : List (List Diagnostic), others.flatten = batches.flatten →
      (collectAll others).toList = (collectAll batches).toList) ∧
    (∀ others : List (List Diagnostic), others.flatten.Perm batches.flatten →
      (∀ a ∈ batches.flatten, ∀ b ∈ batches.flatten, a.key = b.key → a = b) →
        (collectAll others).toList = (collectAll batches).toList) ∧
    ∀ a b : String,
      (FilePath.mk (a ++ "//" ++ b)).components = (FilePath.mk (a ++ "/" ++ b)).components ∧
      (FilePath.mk (a ++ "/./" ++ b)).components = (FilePath.mk (a ++ "/" ++ b)).components ∧
      (FilePath.mk (a ++ "/" ++ b ++ "/")).components = (FilePath.mk (a ++ "/" ++ b)).components := by
  simp only [size, toList_collectAll]
  refine ⟨?_, fun k => mem_map_key_kept, fun d => ?_, fun n => length_kept _, fun others h => ?_,
    fun others h hkeys => (kept_perm h.symm hkeys).symm, FilePath.components_idle⟩
  · exact (strictlySorted_kept _).imp Diagnostic.compareKey_eq_lt_iff.mp
  · rw [mem_kept_iff, Diagnostic.sameKey_eq]
  · rw [h]

/-- A finding on a line of a file. -/
def sampleFinding (file : String) (line : Nat) (severity : Severity) : Diagnostic :=
  ⟨"S001", "rule", severity, ⟨⟨file⟩, line, 1, 0, 0⟩, "message", none⟩

/-- Two findings with one key, their file written differently, and one that comes before them. -/
def sampleBatches : List (List Diagnostic) :=
  [[sampleFinding "src//a.rs" 2 .error],
    [sampleFinding "src/./a.rs" 2 .info, sampleFinding "src/a.rs" 1 .error]]

/-- The first of two findings of a key stays, and two ways to write a path make one key. -/
theorem keeps_first_of_keys_sample :
    (collectAll sampleBatches).toList =
        [sampleFinding "src/a.rs" 1 .error, sampleFinding "src//a.rs" 2 .error] ∧
      (sampleFinding "src/a.rs" 1 .error).KeyBefore (sampleFinding "src//a.rs" 2 .error) ∧
      (collectAll [sampleBatches.flatten]).toList = (collectAll sampleBatches).toList := by
  have hkept : (collectAll sampleBatches).toList =
      [sampleFinding "src/a.rs" 1 .error, sampleFinding "src//a.rs" 2 .error] := by
    decide +kernel
  obtain ⟨hsorted, -, -, -, hbatches, -, -⟩ := keeps_first_of_keys sampleBatches
  rw [hkept] at hsorted
  exact ⟨hkept, List.rel_of_pairwise_cons hsorted List.mem_cons_self, hbatches _ (by simp)⟩

end Sink

end SchemaLint

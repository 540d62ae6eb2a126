import SchemaLint.Proofs.Comparison

/-!
# What a sink keeps

A sink keeps its findings strictly sorted by their keys, and of several with one key the one that
came first.  Which finding it has for a key is what `List.find?` finds first among all it was given
(`Sink.find?_kept`), and by its order that is all there is to know about it.

* `Sink.strictlySorted_kept`, **`Sink.mem_kept_iff`**: the findings that are kept.
* `Sink.kept_flatMap`: what is kept of several batches is what is kept of what was kept of each.
* `Sink.mem_kept`: where no two findings share a key, all are kept.
-/

namespace SchemaLint

open Std (OrientedCmp TransCmp)

/-- Whether two findings have the same key. -/
def Diagnostic.sameKey (a b : Diagnostic) : Bool :=
  a.compareKey b == .eq

/-- Keys agree exactly if findings are equal in the order. -/
theorem Diagnostic.sameKey_iff {a b : Diagnostic} : a.sameKey b ↔ a.compareKey b = .eq := by
  simp [sameKey]

namespace Sink

variable {d e k : Diagnostic} {ds ds' : List Diagnostic}

/-! ## One more finding -/

/-- Inserting a finding adds at most that one. -/
theorem mem_of_mem_insertInto (h : e ∈ insertInto d ds) : e = d ∨ e ∈ ds := by
  induction ds with
  | nil => simpa [insertInto] using h
  | cons f rest ih =>
      unfold insertInto at h
      split at h
      · simpa using h
      · exact .inr h
      · rcases List.mem_cons.mp h with rfl | h
        · exact .inr List.mem_cons_self
        · exact (ih h).imp_right (List.mem_cons_of_mem f)

/-- A finding is put where the order stays strict. -/
theorem strictlySorted_insertInto (h : StrictlySorted Diagnostic.compareKey ds) :
    StrictlySorted Diagnostic.compareKey (insertInto d ds) := by
  induction ds with
  | nil => exact List.pairwise_singleton _ _
  | cons f rest ih =>
      obtain ⟨hf, hrest⟩ := List.pairwise_cons.mp h
      unfold insertInto
      split
      · rename_i hlt
        refine List.pairwise_cons.mpr ⟨?_, h⟩
        intro e he
        rcases List.mem_cons.mp he with rfl | he
        · exact hlt
        · exact TransCmp.lt_trans hlt (hf e he)
      · exact h
      · rename_i hgt
        refine List.pairwise_cons.mpr ⟨?_, ih hrest⟩
        intro e he
        rcases mem_of_mem_insertInto he with rfl | he
        · exact OrientedCmp.lt_of_gt hgt
        · exact hf e he

/-- After one more finding, the one that is there for a key is the one that was there, or else the
new one. -/
theorem find?_insertInto (h : StrictlySorted Diagnostic.compareKey ds) :
    (insertInto d ds).find? k.sameKey = (ds ++ [d]).find? k.sameKey := by
  induction ds with
  | nil => rfl
  | cons f rest ih =>
      obtain ⟨hf, hrest⟩ := List.pairwise_cons.mp h
      unfold insertInto
      split
      · rename_i hlt
        rw [List.find?_append]
        by_cases hk : k.sameKey d
        · -- everything after the new finding has a greater key
          have hnone : (f :: rest).find? k.sameKey = none := by
            rw [List.find?_eq_none]
            intro e he hke
            have hde : d.compareKey e = .lt := by
              rcases List.mem_cons.mp he with rfl | he
              · exact hlt
              · exact TransCmp.lt_trans hlt (hf e he)
            rw [Diagnostic.sameKey_iff] at hk hke
            rw [← TransCmp.congr_left hk, hke] at hde
            cases hde
          rw [hnone, List.find?_cons_of_pos hk, List.find?_cons_of_pos hk]
          rfl
        · rw [List.find?_cons_of_neg hk, List.find?_cons_of_neg hk]
          simp
      · rename_i heq
        rw [List.find?_append]
        cases hfind : (f :: rest).find? k.sameKey with
        | some e => rfl
        | none =>
            have hkf : ¬ k.sameKey f := List.find?_eq_none.mp hfind f List.mem_cons_self
            have hkd : ¬ k.sameKey d := by
              rw [Diagnostic.sameKey_iff] at hkf ⊢
              exact fun hkd => hkf (TransCmp.eq_trans hkd heq)
            rw [List.find?_cons_of_neg hkd]
            rfl
      · rw [List.cons_append, List.find?_cons, List.find?_cons, ih hrest]

/-! ## Many findings -/

/-- A sorted sink stays sorted when findings are collected. -/
theorem strictlySorted_collect {s : Sink} (h : StrictlySorted Diagnostic.compareKey s.toList)
    (ds : List Diagnostic) : StrictlySorted Diagnostic.compareKey (s.collect ds).toList := by
  induction ds generalizing s with
  | nil => exact h
  | cons d ds ih => exact ih (s := s.insert d) (strictlySorted_insertInto h)

/-- For every key a sink has the finding that came first. -/
theorem find?_collect {s : Sink} (h : StrictlySorted Diagnostic.compareKey s.toList)
    (ds : List Diagnostic) :
    (s.collect ds).toList.find? k.sameKey = (s.toList ++ ds).find? k.sameKey := by
  induction ds generalizing s with
  | nil => simp [collect]
  | cons d ds ih =>
      have hinsert : StrictlySorted Diagnostic.compareKey (s.insert d).toList :=
        strictlySorted_insertInto h
      have hstep : s.collect (d :: ds) = (s.insert d).collect ds := rfl
      rw [hstep, ih hinsert, List.find?_append, insert, find?_insertInto h, ← List.find?_append,
        List.append_assoc, List.singleton_append]

/-- Batches can be collected one after the other. -/
theorem collect_append (s : Sink) (ds ds' : List Diagnostic) :
    s.collect (ds ++ ds') = (s.collect ds).collect ds' := by
  simp [collect]

/-- The findings that an empty sink keeps of those it is given. -/
def kept (ds : List Diagnostic) : List Diagnostic :=
  (empty.collect ds).toList

/-- The findings that are kept are sorted. -/
theorem strictlySorted_kept (ds : List Diagnostic) :
    StrictlySorted Diagnostic.compareKey (kept ds) :=
  strictlySorted_collect .nil ds

/-- Of the findings with a key the first is kept. -/
theorem find?_kept : (kept ds).find? k.sameKey = ds.find? k.sameKey :=
  find?_collect .nil ds

/-- Where findings with one key are equal, every finding is the first with its key. -/
theorem find?_sameKey_of_mem (h : ∀ a ∈ ds, ∀ b ∈ ds, a.compareKey b = .eq → a = b) (hd : d ∈ ds) :
    ds.find? d.sameKey = some d := by
  have hself : d.sameKey d := Diagnostic.sameKey_iff.mpr Std.ReflCmp.compare_self
  obtain ⟨e, he⟩ := Option.isSome_iff_exists.mp (List.find?_isSome.mpr ⟨d, hd, hself⟩)
  have hde := Diagnostic.sameKey_iff.mp (List.find?_some he)
  rw [he, h d hd e (List.mem_of_find?_eq_some he) hde]

/-- **A finding is kept exactly if it came first among those with its key.** -/
theorem mem_kept_iff : d ∈ kept ds ↔ ds.find? d.sameKey = some d := by
  rw [← find?_kept]
  have hkeys : ∀ a ∈ kept ds, ∀ b ∈ kept ds, a.compareKey b = .eq → a = b :=
    fun a ha b hb => (strictlySorted_kept ds).eq_of_compare ha hb
  exact ⟨find?_sameKey_of_mem hkeys, List.mem_of_find?_eq_some⟩

/-- A finding that is kept was given. -/
theorem mem_of_mem_kept (h : d ∈ kept ds) : d ∈ ds :=
  List.mem_of_find?_eq_some (mem_kept_iff.mp h)

/-- What is kept depends on the first findings of all keys only. -/
theorem kept_congr (h : ∀ k : Diagnostic, ds.find? k.sameKey = ds'.find? k.sameKey) :
    kept ds = kept ds' := by
  refine eq_of_strictlySorted (strictlySorted_kept ds) (strictlySorted_kept ds') fun d => ?_
  rw [mem_kept_iff, mem_kept_iff, h]

/-- Batches can be thinned out one by one before they are put together. -/
theorem kept_flatMap {β : Type} (bs : List β) (g : β → List Diagnostic) :
    kept (bs.flatMap fun b => kept (g b)) = kept (bs.flatMap g) := by
  refine kept_congr fun k => ?_
  rw [List.find?_flatMap, List.find?_flatMap]
  simp only [find?_kept]

/-- Of every finding one with its key is kept. -/
theorem exists_mem_kept (hd : d ∈ ds) : ∃ e ∈ kept ds, d.compareKey e = .eq := by
  have hself : d.sameKey d := Diagnostic.sameKey_iff.mpr Std.ReflCmp.compare_self
  obtain ⟨e, he⟩ := Option.isSome_iff_exists.mp (List.find?_isSome.mpr ⟨d, hd, hself⟩)
  rw [← find?_kept] at he
  exact ⟨e, List.mem_of_find?_eq_some he, Diagnostic.sameKey_iff.mp (List.find?_some he)⟩

/-- Where findings with one key are equal, every finding is kept. -/
theorem mem_kept (h : ∀ a ∈ ds, ∀ b ∈ ds, a.compareKey b = .eq → a = b) : d ∈ kept ds ↔ d ∈ ds := by
  rw [mem_kept_iff]
  exact ⟨List.mem_of_find?_eq_some, find?_sameKey_of_mem h⟩

end Sink

end SchemaLint

import Mathlib.Data.List.Pairwise
import SchemaLint.Failure
import SchemaLint.Sink

/-!
# The orders of paths, findings and failures

Paths are compared by their components, findings and failures by several parts one after the other.
All of these comparisons are transitive and agree with themselves the other way round, so sorted
lists can be reasoned about by their members alone.

* `FilePath.compare_eq_iff`: two paths compare as equal exactly if they have the same components.
* `Diagnostic.compareKey_eq_iff`, `UnitFailure.compare_eq_iff`: what findings and failures share
  when they compare as equal.
* **`eq_of_strictlySorted`**: a list that is strictly sorted is determined by its members.
-/

namespace SchemaLint

open Std (OrientedCmp OrientedOrd TransCmp TransOrd LawfulEqCmp LawfulEqOrd ReflOrd)

/-! ## Paths -/

instance : OrientedCmp PathComponent.compare where
  eq_swap {a b} := by
    cases a <;> cases b <;> first | rfl | exact OrientedOrd.eq_swap (α := String)

instance : TransCmp PathComponent.compare where
  isLE_trans {a b c} hab hbc := by
    cases a <;> cases b <;> cases c <;>
      first
        | rfl
        | exact TransOrd.isLE_trans (α := String) hab hbc
        | exact absurd hab Bool.false_ne_true
        | exact absurd hbc Bool.false_ne_true

instance : LawfulEqCmp PathComponent.compare where
  compare_self {a} := by
    cases a <;> first | rfl | exact ReflOrd.compare_self (α := String)
  eq_of_compare {a b} h := by
    cases a <;> cases b <;>
      first | rfl | exact congrArg _ (LawfulEqOrd.eq_of_compare (α := String) h) | cases h

namespace FilePath

/-- Components are compared lexicographically. -/
theorem compareComponents_eq (as bs : List PathComponent) :
    compareComponents as bs = List.compareLex PathComponent.compare as bs := by
  induction as generalizing bs with
  | nil => cases bs <;> rfl
  | cons a as ih =>
      cases bs with
      | nil => rfl
      | cons b bs => rw [compareComponents, ih, List.compareLex_cons_cons]

instance : OrientedCmp compare where
  eq_swap {p q} := by
    rw [compare, compare, compareComponents_eq, compareComponents_eq]
    exact OrientedCmp.eq_swap

instance : TransCmp compare where
  isLE_trans {p q r} hpq hqr := by
    rw [compare, compareComponents_eq] at hpq hqr ⊢
    exact TransCmp.isLE_trans hpq hqr

/-- Paths are equal in the order exactly if they are the same path. -/
theorem compare_eq_iff {p q : FilePath} : p.compare q = .eq ↔ p.same q := by
  rw [compare, compareComponents_eq, LawfulEqCmp.compare_eq_iff_eq, same, beq_iff_eq]

/-- Being the same path is symmetric. -/
theorem same_symm {p q : FilePath} (h : p.same q) : q.same p := by
  rw [same, beq_iff_eq] at h ⊢
  exact h.symm

end FilePath

/-! ## Findings and failures -/

/-- A comparison of parts is transitive if that of the parts is. -/
theorem transCmp_of_part {α β : Type} (c : β → β → Ordering) [TransCmp c] (f : α → β) :
    TransCmp fun a b => c (f a) (f b) where
  eq_swap := OrientedCmp.eq_swap
  isLE_trans := TransCmp.isLE_trans

instance : TransCmp Diagnostic.compareKey :=
  have : TransCmp fun a b : Diagnostic => a.location.file.compare b.location.file :=
    transCmp_of_part FilePath.compare fun d : Diagnostic => d.location.file
  inferInstanceAs <| TransCmp <|
    compareLex (fun a b => a.location.file.compare b.location.file) <|
    compareLex (compareOn fun d => d.location.line) <|
    compareLex (compareOn fun d => d.location.column) <|
    compareLex (compareOn Diagnostic.rule) (compareOn Diagnostic.message)

instance : TransCmp UnitFailure.compare :=
  have : TransCmp fun a b : UnitFailure => a.file.compare b.file :=
    transCmp_of_part FilePath.compare UnitFailure.file
  inferInstanceAs <| TransCmp <|
    compareLex (fun a b => a.file.compare b.file) (compareOn UnitFailure.unit)

/-- Findings compare as equal if they are of one rule, at one place and with one message. -/
theorem Diagnostic.compareKey_eq_iff {a b : Diagnostic} :
    a.compareKey b = .eq ↔
      a.location.file.same b.location.file ∧ a.location.line = b.location.line ∧
        a.location.column = b.location.column ∧ a.rule = b.rule ∧ a.message = b.message := by
  simp only [compareKey, Ordering.then_eq_eq, FilePath.compare_eq_iff, Std.compare_eq_iff_eq]

/-- Failures compare as equal if they are of one unit on one path. -/
theorem UnitFailure.compare_eq_iff {a b : UnitFailure} :
    a.compare b = .eq ↔ a.file.same b.file ∧ a.unit = b.unit := by
  simp only [compare, Ordering.then_eq_eq, FilePath.compare_eq_iff, Std.compare_eq_iff_eq]

/-! ## Sorted lists -/

section

variable {α : Type} {c : α → α → Ordering}

/-- Every element of the list compares as less than all that follow it. -/
def StrictlySorted (c : α → α → Ordering) (l : List α) : Prop :=
  l.Pairwise fun a b => c a b = .lt

/-- **A strictly sorted list is determined by its members.** -/
theorem eq_of_strictlySorted [TransCmp c] {l l' : List α} (h : StrictlySorted c l)
    (h' : StrictlySorted c l') (hmem : ∀ a, a ∈ l ↔ a ∈ l') : l = l' := by
  have hne : ∀ {a b}, c a b = .lt → a ≠ b := by
    rintro a b hab rfl
    have hself : c a a = .eq := Std.ReflCmp.compare_self
    rw [hself] at hab
    cases hab
  have hperm := (List.perm_ext_iff_of_nodup (h.imp hne) (h'.imp hne)).mpr hmem
  refine hperm.eq_of_pairwise ?_ h h'
  intro a b _ _ hab hba
  have hswap : c a b = (c b a).swap := OrientedCmp.eq_swap
  rw [hswap, hba] at hab
  cases hab

/-- In a strictly sorted list, elements that compare as equal are equal. -/
theorem StrictlySorted.eq_of_compare [TransCmp c] {l : List α} (h : StrictlySorted c l) {a b : α}
    (ha : a ∈ l) (hb : b ∈ l) (hab : c a b = .eq) : a = b := by
  by_contra hne
  have : Std.Symm fun a b => c a b ≠ .eq := ⟨fun a b h heq => h (OrientedCmp.eq_comm.mp heq)⟩
  have hpairs : l.Pairwise fun a b => c a b ≠ .eq := h.imp fun hlt => by simp [hlt]
  exact hpairs.forall ha hb hne hab

end

end SchemaLint

import SchemaLint.Cli.Report
import SchemaLint.Proofs.JsonText

/-!
# Reports can be read back

A report in JSON holds all of a result: what was written is read as the result it was made from.  A
reader also takes other forms of it, with members of unknown names anywhere, with null for advice
that is not there, and without the failures if there are none.  The values of unknown members are
any values, but for those of an error: a reader has to hold them until it knows the kind of the
error, and gives up on a value that it cannot hold.

* `Json.isFinite_of_lt`: numbers of at most 308 digits can be held.
* `Json.Holds`: objects with given members among unknown ones.
* `Diagnostic.Form`, `UnitFailure.Form`, `LintResult.Form`: the forms of a result.
* `LintResult.ofJson?_of_form`: every form is read as the result.
* `LintResult.ofJson?_eq_none_of_error`: what cannot be held in an error spoils the report.
* **`LintResult.report_lossless`**: so is the printed report, which therefore determines the result.
-/

namespace SchemaLint

namespace Json

/-! ## Values that can be held -/

/-- A number with few digits behind those of 64 bits has few digits in excess. -/
theorem excess_le {n k : Nat} (h : n < UInt64.size * 10 ^ k) : excess n ≤ k := by
  induction k generalizing n with
  | zero =>
      rw [excess, if_pos (by simpa using h)]
  | succ k ih =>
      rw [excess]
      split
      · exact Nat.zero_le _
      · have hless : n / 10 < UInt64.size * 10 ^ k :=
          Nat.div_lt_of_lt_mul (by rwa [Nat.pow_succ, ← Nat.mul_assoc, Nat.mul_comm] at h)
        exact Nat.succ_le_succ (ih hless)

/-- Double precision is off by at most one unit of a mantissa of 53 bits. -/
theorem nearestDouble_le (n : Nat) : nearestDouble n * 2 ^ 52 ≤ n * (2 ^ 52 + 1) := by
  have hrounded : nearestDouble n ≤ (n / 2 ^ (n.log2 - 52) + 1) * 2 ^ (n.log2 - 52) := by
    simp only [nearestDouble, Nat.one_shiftLeft]
    refine Nat.mul_le_mul_right _ ?_
    split
    · exact Nat.le_succ _
    · exact Nat.le_refl _
  have hcut : n / 2 ^ (n.log2 - 52) * 2 ^ (n.log2 - 52) ≤ n := Nat.div_mul_le_self _ _
  rcases Nat.lt_or_ge n.log2 53 with hsmall | hlarge
  · -- without a unit above one nothing is rounded
    have hunit : n.log2 - 52 = 0 := by omega
    have hsame : nearestDouble n = n := by
      simp [nearestDouble, hunit, Nat.mod_one]
    rw [hsame]
    exact Nat.mul_le_mul_left n (by decide)
  · have hunit : 2 ^ (n.log2 - 52) * 2 ^ 52 ≤ n := by
      rw [← Nat.pow_add, Nat.sub_add_cancel (by omega)]
      exact Nat.log2_self_le (by rintro rfl; simp at hlarge)
    calc nearestDouble n * 2 ^ 52
        ≤ (n / 2 ^ (n.log2 - 52) + 1) * 2 ^ (n.log2 - 52) * 2 ^ 52 :=
          Nat.mul_le_mul_right _ hrounded
      _ = n / 2 ^ (n.log2 - 52) * 2 ^ (n.log2 - 52) * 2 ^ 52 + 2 ^ (n.log2 - 52) * 2 ^ 52 := by
          ring
      _ ≤ n * 2 ^ 52 + n := Nat.add_le_add (Nat.mul_le_mul_right _ hcut) hunit
      _ = n * (2 ^ 52 + 1) := by ring

/-- **A number of at most 308 digits can be held.** -/
theorem isFinite_of_lt {n : Nat} (h : n < 10 ^ 308) : isFinite n := by
  have hexcess : excess n ≤ 308 :=
    excess_le (h.trans_le (Nat.le_mul_of_pos_left _ (by decide)))
  have hproduct : nearestDouble (n / 10 ^ excess n) * nearestDouble (10 ^ excess n) * 2 ^ 104 ≤
      n * (2 ^ 52 + 1) ^ 2 := by
    calc nearestDouble (n / 10 ^ excess n) * nearestDouble (10 ^ excess n) * 2 ^ 104
        = nearestDouble (n / 10 ^ excess n) * 2 ^ 52 *
            (nearestDouble (10 ^ excess n) * 2 ^ 52) := by ring
      _ ≤ n / 10 ^ excess n * (2 ^ 52 + 1) * (10 ^ excess n * (2 ^ 52 + 1)) :=
          Nat.mul_le_mul (nearestDouble_le _) (nearestDouble_le _)
      _ = n / 10 ^ excess n * 10 ^ excess n * (2 ^ 52 + 1) ^ 2 := by ring
      _ ≤ n * (2 ^ 52 + 1) ^ 2 := Nat.mul_le_mul_right _ (Nat.div_mul_le_self _ _)
  have hlargest : 10 ^ 308 * (2 ^ 52 + 1) ^ 2 < doubleBound * 2 ^ 104 := by decide +kernel
  have hbound : n * (2 ^ 52 + 1) ^ 2 < doubleBound * 2 ^ 104 :=
    (Nat.mul_lt_mul_of_pos_right h (by decide)).trans hlargest
  unfold isFinite
  rw [Bool.and_eq_true, decide_eq_true_iff, decide_eq_true_iff]
  exact ⟨hexcess, Nat.lt_of_mul_lt_mul_right (hproduct.trans_lt hbound)⟩

/-! ## Objects and lists -/

/-- A value that is an object with given members, in order, among others whose names are not
known.  A member is given by its name and by what its value has to be. -/
def Holds (known : List String) (fields : List (String × (Json → Prop))) (v : Json) : Prop :=
  ∃ ms, v = .object ms ∧ List.Forall₂ (fun m field => m.1 = field.1 ∧ field.2 m.2)
    (ms.filter fun m => known.contains m.1) fields

/-- A value that is a list of forms of given things. -/
def ListOf {α : Type} (form : α → Json → Prop) (xs : List α) (v : Json) : Prop :=
  ∃ vs, v = .array vs ∧ List.Forall₂ form xs vs

variable {known : List String} {fields : List (String × (Json → Prop))} {v : Json}
  {ms : List (String × Json)} {name : String}

/-- Unknown members do not hide a known one. -/
theorem lookup_filter_known (hname : name ∈ known) :
    (ms.filter fun m => known.contains m.1).lookup name = ms.lookup name := by
  induction ms with
  | nil => rfl
  | cons m ms ih =>
      obtain ⟨other, w⟩ := m
      rw [List.filter_cons, List.lookup_cons]
      by_cases hother : other ∈ known
      · rw [if_pos (by simpa using hother), List.lookup_cons, ih]
      · have hne : (name == other) = false := by
          rw [beq_eq_false_iff_ne]
          rintro rfl
          exact hother hname
        rw [if_neg (by simpa using hother), hne, ih]

/-- Reading a member of a given name. -/
theorem lookup_of_forall₂ (h : List.Forall₂ (fun m field => m.1 = field.1 ∧ field.2 m.2) ms fields)
    (name : String) :
    match fields.lookup name with
    | some P => ∃ w, ms.lookup name = some w ∧ P w
    | none => ms.lookup name = none := by
  induction h with
  | nil => rfl
  | @cons m field ms fields hm _ ih =>
      obtain ⟨other, w⟩ := m
      obtain ⟨_, P⟩ := field
      obtain ⟨rfl, hw⟩ := hm
      simp only [List.lookup_cons]
      cases name == other with
      | true => exact ⟨w, rfl, hw⟩
      | false => exact ih

/-- An object has its given members, -/
theorem Holds.exists_lookup (h : Holds known fields (.object ms)) (name : String)
    (hname : name ∈ known) {P : Json → Prop} (hfield : fields.lookup name = some P) :
    ∃ w, ms.lookup name = some w ∧ P w := by
  obtain ⟨_, heq, hfields⟩ := h
  obtain rfl := Json.object.inj heq
  have hlookup := lookup_of_forall₂ hfields name
  rwa [hfield, lookup_filter_known hname] at hlookup

/-- and no others of known names. -/
theorem Holds.lookup_eq_none (h : Holds known fields (.object ms)) (name : String)
    (hname : name ∈ known) (hfield : fields.lookup name = none) : ms.lookup name = none := by
  obtain ⟨_, heq, hfields⟩ := h
  obtain rfl := Json.object.inj heq
  have hlookup := lookup_of_forall₂ hfields name
  rwa [hfield, lookup_filter_known hname] at hlookup

/-- An object of given members is a record of them. -/
theorem Holds.record?_eq (h : Holds known fields (.object ms))
    (hnodup : (fields.map Prod.fst).Nodup) : (Json.object ms).record? known = some ms := by
  obtain ⟨_, heq, hfields⟩ := h
  obtain rfl := Json.object.inj heq
  refine if_pos ?_
  have hnames : (ms.map Prod.fst).filter known.contains = fields.map Prod.fst := by
    have hmembers : (ms.filter fun m => known.contains m.1).map Prod.fst = fields.map Prod.fst :=
      List.forall₂_eq_eq_eq ▸ List.forall₂_map_right_iff.mpr
        (List.forall₂_map_left_iff.mpr (hfields.imp fun _ _ h => h.1))
    rw [← hmembers, List.filter_map]
    rfl
  rwa [hnames]

/-- An object without unknown members. -/
theorem holds_object (h : List.Forall₂ (fun m field => m.1 = field.1 ∧ field.2 m.2) ms fields)
    (hknown : ∀ m ∈ ms, m.1 ∈ known) : Holds known fields (.object ms) := by
  refine ⟨ms, rfl, ?_⟩
  rwa [List.filter_eq_self.mpr fun m hm => by simpa using hknown m hm]

/-- A list of encoded things is a list of their forms. -/
theorem listOf_map {α : Type} {form : α → Json → Prop} {encode : α → Json} {xs : List α}
    (h : ∀ x ∈ xs, form x (encode x)) : ListOf form xs (.array (xs.map encode)) := by
  refine ⟨_, rfl, ?_⟩
  rw [List.forall₂_map_right_iff, List.forall₂_same]
  exact h

/-- A list is read if all its elements are. -/
theorem ListOf.mapM_eq {α : Type} {form : α → Json → Prop} {read : Json → Option α} {xs : List α}
    (h : ListOf form xs v) (hread : ∀ x ∈ xs, ∀ w, form x w → read w = some x) :
    (v.array?).bind (fun vs => vs.mapM read) = some xs := by
  obtain ⟨vs, rfl, hvs⟩ := h
  show vs.mapM read = some xs
  induction hvs with
  | nil => rfl
  | @cons x w xs vs hx _ ih =>
      rw [List.mapM_cons, hread x List.mem_cons_self w hx,
        ih fun y hy => hread y (List.mem_cons_of_mem x hy)]
      rfl

/-- A number of 64 bits is read as it is. -/
@[simp] theorem natural?_natCast {n : Nat} (h : n < UInt64.size) :
    (Json.number (n : Int)).natural? = some n :=
  if_pos h

end Json

/-! ## Findings -/

/-- A location whose numbers have 64 bits. -/
structure Location.Fits (l : Location) : Prop where
  /-- The line. -/
  line : l.line < UInt64.size
  /-- The column. -/
  column : l.column < UInt64.size
  /-- The offset. -/
  offset : l.offset < UInt64.size
  /-- The length. -/
  length : l.length < UInt64.size

/-- The forms of a location. -/
def Location.Form (l : Location) : Json → Prop :=
  Json.Holds ["file", "line", "column", "offset", "length"]
    [("file", (· = .text l.file.text)), ("line", (· = .number l.line)),
      ("column", (· = .number l.column)), ("offset", (· = .number l.offset)),
      ("length", (· = .number l.length))]

/-- The encoding of a location is a form of it. -/
theorem Location.form_toJson (l : Location) : l.Form l.toJson :=
  Json.holds_object (by simp) (by simp)

/-- Every form of a location is read as the location. -/
theorem Location.ofJson?_of_form {l : Location} (hfits : l.Fits) {v : Json} (h : l.Form v) :
    Location.ofJson? v = some l := by
  obtain ⟨ms, rfl, -⟩ := id h
  obtain ⟨_, hfile, rfl⟩ := h.exists_lookup "file" (by simp) rfl
  obtain ⟨_, hline, rfl⟩ := h.exists_lookup "line" (by simp) rfl
  obtain ⟨_, hcolumn, rfl⟩ := h.exists_lookup "column" (by simp) rfl
  obtain ⟨_, hoffset, rfl⟩ := h.exists_lookup "offset" (by simp) rfl
  obtain ⟨_, hlength, rfl⟩ := h.exists_lookup "length" (by simp) rfl
  simp [Location.ofJson?, h.record?_eq (by simp), hfile, hline, hcolumn, hoffset, hlength,
    Json.text?, hfits.line, hfits.column, hfits.offset, hfits.length]

/-- The forms of advice. -/
def adviceForm (help : String) : Json → Prop :=
  Json.Holds ["message"] [("message", (· = .text help))]

/-- The forms of the member for advice: there is one if there is advice, and there may be null
otherwise. -/
inductive AdviceMember : Option String → List (String × (Json → Prop)) → Prop
  /-- The advice. -/
  | given (help : String) : AdviceMember (some help) [("suggestion", adviceForm help)]
  /-- No member. -/
  | omitted : AdviceMember none []
  /-- Null. -/
  | null : AdviceMember none [("suggestion", (· = .null))]

/-- The forms of a finding. -/
def Diagnostic.Form (d : Diagnostic) (v : Json) : Prop :=
  ∃ advice, AdviceMember d.suggestion advice ∧
    Json.Holds ["code", "rule", "severity", "location", "message", "suggestion"]
      ([("code", (· = .text d.code)), ("rule", (· = .text d.rule)),
        ("severity", (· = .text d.severity.name)), ("location", d.location.Form),
        ("message", (· = .text d.message))] ++ advice) v

/-- The encoding of a finding is a form of it. -/
theorem Diagnostic.form_toJson (d : Diagnostic) : d.Form d.toJson := by
  unfold Form toJson
  rcases d.suggestion with _ | help
  · exact ⟨_, .omitted, Json.holds_object (by simp [Location.form_toJson]) (by simp)⟩
  · refine ⟨_, .given help, Json.holds_object ?_ (by simp)⟩
    have hhelp : adviceForm help (.object [("message", .text help)]) :=
      Json.holds_object (by simp) (by simp)
    simp [Location.form_toJson, hhelp]

/-- Every form of advice is read as the advice. -/
theorem suggestionOfJson?_of_form {help : String} {v : Json} (h : adviceForm help v) :
    suggestionOfJson? (some v) = some (some help) := by
  obtain ⟨ms, rfl, -⟩ := id h
  obtain ⟨_, hmessage, rfl⟩ := h.exists_lookup "message" (by simp) rfl
  simp [suggestionOfJson?, h.record?_eq (by simp), hmessage, Json.text?]

/-- A severity is read from its name. -/
theorem Severity.ofJson?_text (s : Severity) : Severity.ofJson? (.text s.name) = some s :=
  s.ofName?_name

/-- Every form of a finding is read as the finding. -/
theorem Diagnostic.ofJson?_of_form {d : Diagnostic} (hfits : d.location.Fits) {v : Json}
    (h : d.Form v) : Diagnostic.ofJson? v = some d := by
  obtain ⟨advice, hadvice, h⟩ := h
  obtain ⟨ms, rfl, -⟩ := id h
  obtain ⟨_, hcode, rfl⟩ := h.exists_lookup "code" (by simp) rfl
  obtain ⟨_, hrule, rfl⟩ := h.exists_lookup "rule" (by simp) rfl
  obtain ⟨_, hseverity, rfl⟩ := h.exists_lookup "severity" (by simp) rfl
  obtain ⟨_, hlocation, hform⟩ := h.exists_lookup "location" (by simp) rfl
  obtain ⟨_, hmessage, rfl⟩ := h.exists_lookup "message" (by simp) rfl
  have hsuggestion : suggestionOfJson? (ms.lookup "suggestion") = some d.suggestion := by
    generalize hgiven : d.suggestion = suggestion at hadvice
    cases hadvice with
    | given help =>
        obtain ⟨_, hlookup, hhelp⟩ := h.exists_lookup "suggestion" (by simp) rfl
        rw [hlookup, suggestionOfJson?_of_form hhelp]
    | omitted =>
        rw [h.lookup_eq_none "suggestion" (by simp) rfl]
        rfl
    | null =>
        obtain ⟨_, hlookup, rfl⟩ := h.exists_lookup "suggestion" (by simp) rfl
        rw [hlookup]
        rfl
  have hrecord := h.record?_eq (by
    generalize d.suggestion = suggestion at hadvice
    cases hadvice <;> simp)
  simp only [Diagnostic.ofJson?, hrecord, hcode, hrule, hseverity, hlocation, hmessage,
    hsuggestion, Json.text?, Severity.ofJson?_text, Location.ofJson?_of_form hfits hform,
    Option.bind_eq_bind, Option.bind_some, Option.pure_def]

/-! ## Failures -/

/-- The member of an error beside its kind. -/
def UnitError.detail : UnitError → String × String
  | .parse m => ("message", m)
  | .failed m => ("message", m)
  | .dependencyFailed d => ("dependency", d)
  | .factType u => ("unit", u)
  | .undeclared u => ("unit", u)

/-- The forms of an error.  Only the members of its own kind are known, and the values of others
are such as a reader can hold. -/
structure UnitError.Form (e : UnitError) (v : Json) : Prop where
  /-- The members. -/
  holds : v.Holds ["kind", e.detail.1]
    [("kind", (· = .text e.kindName)), (e.detail.1, (· = .text e.detail.2))]
  /-- Their values are not too deep, and the numbers in them not too large. -/
  held : v.isHeld levels

/-- The encoding of an error is a form of it; its values are texts, which can be held. -/
theorem UnitError.form_toJson (e : UnitError) : e.Form e.toJson where
  holds := by
    cases e <;> exact Json.holds_object (by simp [kindName, detail]) (by simp [detail])
  held := by
    cases e <;> rfl

/-- The name of the kind tells how an error is made from its member. -/
theorem UnitError.exists_ofKind? (e : UnitError) :
    ∃ make, ofKind? e.kindName = some (e.detail.1, make) ∧ make e.detail.2 = e := by
  cases e <;> exact ⟨_, rfl, rfl⟩

/-- The member of an error is not taken for its kind. -/
theorem UnitError.detail_ne_kind (e : UnitError) : (e.detail.1 == "kind") = false := by
  cases e <;> rfl

/-- Every form of an error is read as the error. -/
theorem UnitError.ofJson?_of_form {e : UnitError} {v : Json} (h : e.Form v) :
    UnitError.ofJson? v = some e := by
  obtain ⟨h, hheld⟩ := h
  obtain ⟨ms, rfl, -⟩ := id h
  obtain ⟨_, hkind, rfl⟩ := h.exists_lookup "kind" (by simp) rfl
  obtain ⟨_, hdetail, rfl⟩ := h.exists_lookup e.detail.1 (by simp)
    (P := (· = .text e.detail.2))
    (by simp only [List.lookup_cons, e.detail_ne_kind, beq_self_eq_true])
  obtain ⟨make, hmake, heq⟩ := e.exists_ofKind?
  have hrecord := h.record?_eq (by cases e <;> simp [detail])
  simp [UnitError.ofJson?, hheld, hkind, hdetail, hmake, heq, hrecord, Json.text?]

/-- An error is not read if the value of a member cannot be held. -/
theorem UnitError.ofJson?_eq_none {ms : List (String × Json)}
    (h : (Json.object ms).isHeld levels = false) : UnitError.ofJson? (.object ms) = none := by
  simp [UnitError.ofJson?, h]

/-- The forms of a failure. -/
def UnitFailure.Form (f : UnitFailure) : Json → Prop :=
  Json.Holds ["unit", "file", "error"]
    [("unit", (· = .text f.unit)), ("file", (· = .text f.file.text)), ("error", f.error.Form)]

/-- The encoding of a failure is a form of it. -/
theorem UnitFailure.form_toJson (f : UnitFailure) : f.Form f.toJson :=
  Json.holds_object (by simp [f.error.form_toJson]) (by simp)

/-- Every form of a failure is read as the failure. -/
theorem UnitFailure.ofJson?_of_form {f : UnitFailure} {v : Json} (h : f.Form v) :
    UnitFailure.ofJson? v = some f := by
  obtain ⟨ms, rfl, -⟩ := id h
  obtain ⟨_, hunit, rfl⟩ := h.exists_lookup "unit" (by simp) rfl
  obtain ⟨_, hfile, rfl⟩ := h.exists_lookup "file" (by simp) rfl
  obtain ⟨_, herror, hform⟩ := h.exists_lookup "error" (by simp) rfl
  simp [UnitFailure.ofJson?, h.record?_eq (by simp), hunit, hfile, herror, Json.text?,
    UnitError.ofJson?_of_form hform]

/-- A failure is read only if its error is. -/
theorem UnitFailure.ofJson?_eq_none {ms : List (String × Json)} {v : Json}
    (herror : ms.lookup "error" = some v) (hv : UnitError.ofJson? v = none) :
    UnitFailure.ofJson? (.object ms) = none := by
  rw [Option.eq_none_iff_forall_ne_some]
  intro f hf
  simp only [UnitFailure.ofJson?, Option.bind_eq_bind, Option.bind_eq_some_iff] at hf
  obtain ⟨ms', hrecord, _, -, _, -, _, -, _, -, v', hv', e, he, -⟩ := hf
  simp only [Json.record?, Option.ite_none_right_eq_some, Option.some.injEq] at hrecord
  obtain ⟨-, rfl⟩ := hrecord
  rw [herror, Option.some.injEq] at hv'
  rw [← hv', hv] at he
  cases he

/-! ## Results -/

namespace LintResult

variable {r : LintResult} {v : Json}

/-- A result whose numbers have 64 bits. -/
structure Fits (r : LintResult) : Prop where
  /-- Those of the findings. -/
  diagnostics : ∀ d ∈ r.diagnostics, d.location.Fits
  /-- The number of files. -/
  filesChecked : r.filesChecked < UInt64.size

/-- The forms of the member for failures: it may be missing if there are none. -/
inductive FailuresMember : List UnitFailure → List (String × (Json → Prop)) → Prop
  /-- The failures. -/
  | listed (fs : List UnitFailure) :
      FailuresMember fs [("failures", Json.ListOf UnitFailure.Form fs)]
  /-- No member. -/
  | omitted : FailuresMember [] []

/-- The forms of a result. -/
def Form (r : LintResult) (v : Json) : Prop :=
  ∃ failures, FailuresMember r.failures failures ∧
    Json.Holds ["diagnostics", "failures", "files_checked"]
      (("diagnostics", Json.ListOf Diagnostic.Form r.diagnostics) ::
        (failures ++ [("files_checked", (· = .number r.filesChecked))])) v

/-- The encoding of a result is a form of it, with all its members. -/
theorem form_toJson (r : LintResult) : r.Form r.toJson := by
  refine ⟨_, .listed r.failures, Json.holds_object ?_ (by simp)⟩
  have hdiagnostics := Json.listOf_map fun d (_ : d ∈ r.diagnostics) => d.form_toJson
  have hfailures := Json.listOf_map fun f (_ : f ∈ r.failures) => f.form_toJson
  simp [hdiagnostics, hfailures]

/-- **Every form of a result is read as the result.** -/
theorem ofJson?_of_form (hfits : r.Fits) (h : r.Form v) : LintResult.ofJson? v = some r := by
  obtain ⟨failures, hmember, h⟩ := h
  obtain ⟨ms, rfl, -⟩ := id h
  obtain ⟨_, hdiagnostics, hforms⟩ := h.exists_lookup "diagnostics" (by simp) rfl
  have hread := hforms.mapM_eq fun d hd _ hform =>
    Diagnostic.ofJson?_of_form (hfits.diagnostics d hd) hform
  have hfailures : failuresOfJson? (ms.lookup "failures") = some r.failures := by
    generalize hgiven : r.failures = fs at hmember
    cases hmember with
    | listed =>
        obtain ⟨_, hlookup, hlist⟩ := h.exists_lookup "failures" (by simp) rfl
        rw [hlookup]
        exact hlist.mapM_eq fun f _ _ hform => UnitFailure.ofJson?_of_form hform
    | omitted =>
        rw [h.lookup_eq_none "failures" (by simp) rfl]
        rfl
  obtain ⟨_, hchecked, rfl⟩ := h.exists_lookup "files_checked" (by simp)
    (P := (· = .number r.filesChecked)) (by
      generalize r.failures = fs at hmember
      cases hmember <;> rfl)
  have hlist := show Diagnostic.listOfJson? _ = some r.diagnostics from hread
  have hrecord := h.record?_eq (by
    generalize r.failures = fs at hmember
    cases hmember <;> simp)
  simp [LintResult.ofJson?, hrecord, hdiagnostics, hlist, hfailures, hchecked, hfits.filesChecked]

/-- **The bound on the members of an error is sharp**: where one has a value that cannot be held,
nothing of the report is read. -/
theorem ofJson?_eq_none_of_error {ms fs es : List (String × Json)} {vs : List Json}
    (hfailures : ms.lookup "failures" = some (.array vs)) (hf : .object fs ∈ vs)
    (herror : fs.lookup "error" = some (.object es))
    (hheld : (Json.object es).isHeld UnitError.levels = false) :
    LintResult.ofJson? (.object ms) = none := by
  have hfailure : UnitFailure.ofJson? (.object fs) = none :=
    UnitFailure.ofJson?_eq_none herror (UnitError.ofJson?_eq_none hheld)
  have hnone : failuresOfJson? (some (.array vs)) = none := by
    show vs.mapM UnitFailure.ofJson? = none
    obtain ⟨before, after, rfl⟩ := List.append_of_mem hf
    rw [List.mapM_append, List.mapM_cons, hfailure]
    simp
  rw [Option.eq_none_iff_forall_ne_some]
  intro r hr
  simp only [LintResult.ofJson?, Option.bind_eq_bind, Option.bind_eq_some_iff] at hr
  obtain ⟨ms', hrecord, _, -, _, -, failures, hlist, -⟩ := hr
  simp only [Json.record?, Option.ite_none_right_eq_some, Option.some.injEq] at hrecord
  obtain ⟨-, rfl⟩ := hrecord
  rw [hfailures, hnone] at hlist
  cases hlist

/-- **Reports lose nothing.**  For every result whose numbers have 64 bits: whatever JSON value the
printed report is the text of, it is read as the result; the encoding of the result is one of its
forms; whatever has the text of a form, with unknown members, without an empty list of failures or
with null for missing advice anywhere in it, is read as the result as well; and no other result has
the same report.  Unknown members have any values, except in an error, where they have those that a
reader can hold. -/
theorem report_lossless (hfits : r.Fits) :
    ((∃ v : Json, asLine v.pretty = (r.render .json).output) ∧
      ∀ v : Json, asLine v.pretty = (r.render .json).output → LintResult.ofJson? v = some r) ∧
    r.Form r.toJson ∧
    (∀ v w : Json, r.Form v → w.pretty = v.pretty → LintResult.ofJson? w = some r) ∧
    ∀ r' : LintResult, r'.Fits → (r'.render .json).output = (r.render .json).output → r' = r := by
  have hread : ∀ v : Json, asLine v.pretty = (r.render .json).output → v = r.toJson :=
    fun v hv => Json.pretty_injective ((String.append_left_inj "\n").mp hv)
  refine ⟨⟨⟨r.toJson, rfl⟩, fun v hv => ?_⟩, r.form_toJson, fun v w hv hw => ?_,
    fun r' hfits' hr' => ?_⟩
  · rw [hread v hv]
    exact ofJson?_of_form hfits r.form_toJson
  · rw [Json.pretty_injective hw]
    exact ofJson?_of_form hfits hv
  · have hsame := hread r'.toJson hr'
    have hr := ofJson?_of_form hfits r.form_toJson
    rw [← hsame, ofJson?_of_form hfits' r'.form_toJson] at hr
    exact Option.some.inj hr

/-- A result with a finding that has advice, one that has none, and a failure of every kind. -/
def sample : LintResult where
  diagnostics :=
    [⟨"S004", "required-default-conflict", .error, ⟨⟨"a \"b\".rs"⟩, 7, 13, 120, 6⟩, "first\nsecond",
      some "remove one"⟩,
      ⟨"R001", "setter-key-literal", .warning, ⟨⟨"é.rs"⟩, 1, 2, 18446744073709551615, 0⟩, "", none⟩]
  failures := [.parse "", .failed "\t", .dependencyFailed "imports", .factType "x",
    .undeclared "y"].map fun e => ⟨"unit", ⟨"a.rs"⟩, e⟩
  filesChecked := 2

/-- A result without failures, -/
def bareSample : LintResult where
  diagnostics :=
    [⟨"R001", "setter-key-literal", .info, ⟨⟨"a.rs"⟩, 1, 2, 3, 1⟩, "key", none⟩]
  failures := []
  filesChecked := 1

/-- and a form of it with unknown members, null for advice and no failures. -/
def bareForm : Json :=
  .object [("version", .array [.null]),
    ("diagnostics", .array [.object [("code", .text "R001"), ("rule", .text "setter-key-literal"),
      ("severity", .text "info"),
      ("location", .object [("file", .text "a.rs"), ("line", .number 1), ("end", .number 2),
        ("column", .number 2), ("offset", .number 3), ("length", .number 1)]),
      ("message", .text "key"), ("suggestion", .null), ("url", .bool true)]]),
    ("files_checked", .number 1)]

/-- A result with one failure. -/
def failedSample : LintResult where
  diagnostics := []
  failures := [⟨"imports", ⟨"a.rs"⟩, .parse "1:4: no"⟩]
  filesChecked := 1

/-- A form of it in which the error has an unknown member, with a number of more than 64 bits. -/
def failedForm : Json :=
  .object [("diagnostics", .array []),
    ("failures", .array [.object [("unit", .text "imports"), ("file", .text "a.rs"),
      ("error", .object [("kind", .text "parse"),
        ("trace", .array [.number (10 ^ 30), .object [("next", .array [])]]),
        ("message", .text "1:4: no")])]]),
    ("files_checked", .number 1)]

/-- All kinds of errors are read back, and so are two forms with members that the encoding does not
have. -/
theorem report_lossless_sample :
    (∀ v : Json, asLine v.pretty = (sample.render .json).output →
      LintResult.ofJson? v = some sample) ∧
    LintResult.ofJson? bareForm = some bareSample ∧
    LintResult.ofJson? failedForm = some failedSample := by
  have hfits : sample.Fits := by
    refine ⟨fun d hd => ?_, by decide⟩
    simp only [sample, List.mem_cons, List.not_mem_nil, or_false] at hd
    rcases hd with rfl | rfl <;> exact ⟨by decide, by decide, by decide, by decide⟩
  have hbare : bareSample.Fits := by
    refine ⟨fun d hd => ?_, by decide⟩
    obtain rfl := List.mem_singleton.mp hd
    exact ⟨by decide, by decide, by decide, by decide⟩
  have hlocation : Location.Form ⟨⟨"a.rs"⟩, 1, 2, 3, 1⟩
      (.object [("file", .text "a.rs"), ("line", .number 1), ("end", .number 2),
        ("column", .number 2), ("offset", .number 3), ("length", .number 1)]) :=
    ⟨_, rfl, by simp⟩
  have hform : bareSample.Form bareForm := by
    refine ⟨[], .omitted, _, rfl, ?_⟩
    simp only [bareSample]
    refine .cons ⟨rfl, _, rfl, .cons ⟨_, .null, _, rfl, ?_⟩ .nil⟩ (.cons ⟨rfl, rfl⟩ .nil)
    simpa [Severity.name] using hlocation
  have hfailed : failedSample.Fits := ⟨fun d hd => absurd hd List.not_mem_nil, by decide⟩
  have herror : UnitError.Form (.parse "1:4: no") (.object [("kind", .text "parse"),
      ("trace", .array [.number (10 ^ 30), .object [("next", .array [])]]),
      ("message", .text "1:4: no")]) :=
    ⟨⟨_, rfl, by simp [UnitError.detail, UnitError.kindName]⟩, by decide +kernel⟩
  have hfailedForm : failedSample.Form failedForm := by
    refine ⟨_, .listed failedSample.failures, _, rfl, ?_⟩
    refine .cons ⟨rfl, [], rfl, .nil⟩ (.cons ⟨rfl, _, rfl, .cons ⟨_, rfl, ?_⟩ .nil⟩
      (.cons ⟨rfl, rfl⟩ .nil))
    simpa using herror
  exact ⟨(report_lossless hfits).1.2, (report_lossless hbare).2.2.1 _ _ hform rfl,
    (report_lossless hfailed).2.2.1 _ _ hfailedForm rfl⟩

end LintResult

end SchemaLint

import Mathlib.Data.List.Forall2
import Mathlib.Data.List.Nodup
import Mathlib.Logic.Relation
import SchemaLint.Rules.Schema

/-!
# Layers around field values

The value of a schema field may stand in brackets, behind references, and in calls that wrap it
without changing its meaning.  It is read as if none of these layers were there, however many there
are and in whatever order.  Fields are found by name, so if no two have the same name their order
does not matter either.

* `AbsentSpelling`, `WrapperSpelling`: the paths that are known by their spelling.
* `Layer`, `Wraps`, `Unlayered`: an expression in one layer, in any number of them, and in none.
* `Wraps.strip_eq`, `unlayered_strip`, `wraps_strip`: all layers are stripped, and nothing else.
* `FieldValue.Reading`: how an expression without layers is read; `FieldValue.classify_iff`.
* `SchemaLiteral.SameReadings`: literals of which all readings are the same;
  `Rules.isBrokenBy_congr`: the rules on schema literals tell no difference between them.
* **`SchemaLiteral.indirection_transparent`**: layers around field values and the order of fields
  make no difference.
-/

namespace SchemaLint

open Code

/-! ## Spellings -/

/-- What may stand in front of the name of the option type. -/
def optionHomes : List String :=
  ["", "std::option::", "core::option::"]

/-- The spellings of the absent value. -/
def AbsentSpelling (path : String) : Prop :=
  path = "None" ∨ ∃ home ∈ optionHomes, path = home ++ "Option::None"

/-- The spellings of the two functions that wrap a value without changing its meaning. -/
def WrapperSpelling (path : String) : Prop :=
  path = "Some" ∨ (∃ home ∈ optionHomes, path = home ++ "Option::Some") ∨
    ∃ home ∈ ["", "std::boxed::", "alloc::boxed::"], path = home ++ "Box::new"

instance (path : String) : Decidable (AbsentSpelling path) :=
  inferInstanceAs (Decidable (_ ∨ _))

instance (path : String) : Decidable (WrapperSpelling path) :=
  inferInstanceAs (Decidable (_ ∨ _ ∨ _))

/-- The paths that stand for a missing value. -/
theorem isAbsentPath_iff {path : String} : isAbsentPath path ↔ AbsentSpelling path := by
  simp [isAbsentPath, AbsentSpelling, optionHomes]

/-- The paths of functions that pass their argument on. -/
theorem isWrapperPath_iff {path : String} : isWrapperPath path ↔ WrapperSpelling path := by
  simp [isWrapperPath, WrapperSpelling, optionHomes, or_assoc]

/-! ## Layers -/

/-- An expression is another one in brackets, behind a reference, or as the one argument of a
function that wraps it.  Attributes in front of it do not matter. -/
inductive Layer (inner outer : Node) : Prop
  /-- Brackets. -/
  | paren {place : Position} (h : outer.bare = .paren place inner)
  /-- A reference, mutable or not. -/
  | reference {mark : List Node} (h : outer.bare = .reference mark inner)
  /-- A call of a function that is named in one of the spellings of the wrapping functions. -/
  | call {callee : Node} {place : Position} {trailing : Bool} {name : PathName} {parts : List Node}
      (h : outer.bare = .call callee place [inner] trailing)
      (hcallee : callee.bare = .path name parts) (hname : WrapperSpelling name.written)

/-- An expression is another one in any number of layers. -/
abbrev Wraps : Node → Node → Prop :=
  Relation.ReflTransGen Layer

/-- An expression has no layer around it. -/
def Unlayered (e : Node) : Prop :=
  ∀ inner, ¬ Layer inner e

variable {inner outer n e : Node}

/-- A callee that passes its argument on, through attributes and parentheses. -/
theorem isWrapper_iff {callee : Node} : isWrapper callee ↔
    ∃ name parts, callee.bare = .path name parts ∧ WrapperSpelling name.written := by
  unfold isWrapper
  split
  · rename_i name parts hpath
    constructor
    · intro hname
      exact ⟨name, parts, hpath, isWrapperPath_iff.mp hname⟩
    · rintro ⟨name', parts', hpath', hname⟩
      rw [hpath] at hpath'
      cases hpath'
      exact isWrapperPath_iff.mpr hname
  · rename_i hother
    constructor
    · intro hfalse
      cases hfalse
    · rintro ⟨name, parts, hpath, -⟩
      exact absurd hpath (hother name parts)

/-- Only what is behind the attributes counts. -/
theorem Layer.congr (h : Layer inner outer) (hbare : n.bare = outer.bare) : Layer inner n := by
  cases h with
  | paren h => exact .paren (hbare.trans h)
  | reference h => exact .reference (hbare.trans h)
  | call h hcallee hname => exact .call (hbare.trans h) hcallee hname

/-- A node without attributes is bare. -/
theorem bare_eq_self (h : ∀ attributes m, n = .attributed attributes m → False) : n.bare = n := by
  cases n
  case attributed attributes m => exact (h attributes m rfl).elim
  all_goals rfl

/-- A call of another function is no layer. -/
theorem unlayered_of_call {callee arg : Node} {place : Position} {trailing : Bool}
    (hcall : n.bare = .call callee place [arg] trailing) (hcallee : ¬ isWrapper callee) :
    Unlayered n := by
  intro inner h
  cases h with
  | paren h => cases hcall.symm.trans h
  | reference h => cases hcall.symm.trans h
  | call h hpath hname =>
      cases hcall.symm.trans h
      exact hcallee (isWrapper_iff.mpr ⟨_, _, hpath, hname⟩)

/-- What is neither in brackets nor a reference nor a call with one argument has no layer. -/
theorem unlayered_of_other (hparen : ∀ place m, n.bare = .paren place m → False)
    (hreference : ∀ mark m, n.bare = .reference mark m → False)
    (hcall : ∀ callee place arg trailing, n.bare = .call callee place [arg] trailing → False) :
    Unlayered n := by
  intro inner h
  cases h with
  | paren h => exact hparen _ _ h
  | reference h => exact hreference _ _ h
  | call h => exact hcall _ _ _ _ h

/-- In one layer or without it, the same is left of an expression. -/
theorem Layer.strip_eq (h : Layer inner outer) :
    stripIndirection outer = stripIndirection inner := by
  fun_induction Node.bare outer with
  | case1 attributes m ih =>
      -- attributes are in front of a layer, which is what is stripped
      have hm : Layer inner m := h.congr rfl
      rw [← ih hm]
      cases hm with
      | paren h => simp only [stripIndirection, h]
      | reference h => simp only [stripIndirection, h]
      | call h hcallee hname =>
          have hwrapper := isWrapper_iff.mpr ⟨_, _, hcallee, hname⟩
          simp only [stripIndirection, h, hwrapper, if_true]
  | case2 m hm =>
      have hbare := bare_eq_self hm
      cases h with
      | paren h =>
          obtain rfl := hbare.symm.trans h
          rfl
      | reference h =>
          obtain rfl := hbare.symm.trans h
          rfl
      | call h hcallee hname =>
          obtain rfl := hbare.symm.trans h
          have hwrapper := isWrapper_iff.mpr ⟨_, _, hcallee, hname⟩
          rw [stripIndirection, if_pos hwrapper]

/-- **Any number of layers**: by induction on them. -/
theorem Wraps.strip_eq (h : Wraps inner outer) :
    stripIndirection outer = stripIndirection inner := by
  induction h with
  | refl => rfl
  | tail _ hlayer ih => exact hlayer.strip_eq.trans ih

/-- What is left of an expression has no layer around it. -/
theorem unlayered_strip (n : Node) : Unlayered (stripIndirection n) := by
  fun_induction stripIndirection n with
  | case1 place m ih => exact ih
  | case2 mark m ih => exact ih
  | case3 callee place arg trailing hcallee ih => exact ih
  | case4 callee place arg trailing hcallee => exact unlayered_of_call rfl hcallee
  | case5 attributes m place inner' hbare ih => exact ih
  | case6 attributes m mark inner' hbare ih => exact ih
  | case7 attributes m callee place arg trailing hbare hcallee ih => exact ih
  | case8 attributes m callee place arg trailing hbare hcallee =>
      exact unlayered_of_call hbare hcallee
  | case9 attributes m hparen hreference hcall => exact unlayered_of_other hparen hreference hcall
  | case10 m hparen hreference hcall hattributed =>
      rw [← bare_eq_self hattributed] at hparen hreference hcall
      exact unlayered_of_other hparen hreference hcall

/-- Attributes in front of an expression that has a layer belong to the outermost one. -/
theorem Wraps.attributed {attributes : List Node} (h : Wraps e n) (hlayer : Layer inner n)
    (he : Unlayered e) : Wraps e (.attributed attributes n) := by
  rcases h.cases_tail with rfl | ⟨m, hm, hn⟩
  · exact absurd hlayer (he inner)
  · exact hm.tail (hn.congr rfl)

/-- **An expression is what is left of it in layers.** -/
theorem wraps_strip (n : Node) : Wraps (stripIndirection n) n := by
  fun_induction stripIndirection n with
  | case1 place m ih => exact ih.tail (.paren rfl)
  | case2 mark m ih => exact ih.tail (.reference rfl)
  | case3 callee place arg trailing hcallee ih =>
      obtain ⟨name, parts, hpath, hname⟩ := isWrapper_iff.mp hcallee
      exact ih.tail (.call rfl hpath hname)
  | case4 callee place arg trailing hcallee => exact .refl
  | case5 attributes m place inner hbare ih =>
      exact ih.attributed (.paren hbare) (unlayered_strip m)
  | case6 attributes m mark inner hbare ih =>
      exact ih.attributed (.reference hbare) (unlayered_strip m)
  | case7 attributes m callee place arg trailing hbare hcallee ih =>
      obtain ⟨name, parts, hpath, hname⟩ := isWrapper_iff.mp hcallee
      exact ih.attributed (.call hbare hpath hname) (unlayered_strip m)
  | case8 attributes m callee place arg trailing hbare hcallee => exact .refl
  | case9 attributes m hparen hreference hcall => exact .refl
  | case10 m hparen hreference hcall hattributed => exact .refl

/-- An expression without layers is left as it is. -/
theorem strip_eq_self (h : Unlayered e) : stripIndirection e = e := by
  rcases (wraps_strip e).cases_tail with heq | ⟨m, -, hm⟩
  · exact heq.symm
  · exact absurd hm (h m)

/-! ## Values -/

namespace FieldValue

variable {imports : ImportTable} {settings : SchemaSettings} {v v' : Option FieldValue}

/-- How an expression without layers is read. -/
inductive Reading (imports : ImportTable) (settings : SchemaSettings) (e : Node) :
    Option FieldValue → Prop
  /-- The literal of a truth value. -/
  | isTrue {place : Position} (h : e.bare = .literal [.ident "true" place]) :
      Reading imports settings e (some (.bool true))
  /-- The literal of the other one. -/
  | isFalse {place : Position} (h : e.bare = .literal [.ident "false" place]) :
      Reading imports settings e (some (.bool false))
  /-- A spelling of the absent value leaves the field unset. -/
  | absent {name : PathName} {parts : List Node} (h : e.bare = .path name parts)
      (hplain : name.qualified = false) (habsent : AbsentSpelling name.written) :
      Reading imports settings e none
  /-- A path to a variant of the value type. -/
  | valueType {name : PathName} {parts : List Node} {variant : String}
      (h : e.bare = .path name parts) (hplain : name.qualified = false)
      (habsent : ¬ AbsentSpelling name.written)
      (hvariant : variantOf? settings (imports.resolve name) = some variant) :
      Reading imports settings e (some (.valueType variant))
  /-- A path to anything else. -/
  | otherPath {name : PathName} {parts : List Node} (h : e.bare = .path name parts)
      (hother : name.qualified = true ∨
        ¬ AbsentSpelling name.written ∧ variantOf? settings (imports.resolve name) = none) :
      Reading imports settings e (some (.expression e.text))
  /-- Anything else. -/
  | other (htrue : ∀ place, e.bare ≠ .literal [.ident "true" place])
      (hfalse : ∀ place, e.bare ≠ .literal [.ident "false" place])
      (hpath : ∀ name parts, e.bare ≠ .path name parts) :
      Reading imports settings e (some (.expression e.text))

/-- What is left of an expression is read. -/
theorem reading_classify (n : Node) :
    Reading imports settings (stripIndirection n) (classify imports settings n) := by
  unfold classify
  simp only
  split
  · rename_i place hbare
    exact .isTrue hbare
  · rename_i place hbare
    exact .isFalse hbare
  · rename_i name parts hbare
    split_ifs with hqualified habsent
    · exact .otherPath hbare (.inl hqualified)
    · exact .absent hbare (Bool.eq_false_iff.mpr hqualified) (isAbsentPath_iff.mp habsent)
    · have hplain := Bool.eq_false_iff.mpr hqualified
      have hset : ¬ AbsentSpelling name.written := fun h => habsent (isAbsentPath_iff.mpr h)
      cases hvariant : variantOf? settings (imports.resolve name) with
      | some variant => exact .valueType hbare hplain hset hvariant
      | none => exact .otherPath hbare (.inr ⟨hset, hvariant⟩)
  · rename_i htrue hfalse hpath
    exact .other htrue hfalse hpath

/-- There is one way to read an expression. -/
theorem Reading.unique (h : Reading imports settings e v) (h' : Reading imports settings e v') :
    v = v' := by
  cases h <;> cases h' <;> simp_all

/-- **How an expression in any number of layers is read**: as what is in them. -/
theorem classify_iff (he : Unlayered e) (h : Wraps e n) :
    classify imports settings n = v ↔ Reading imports settings e v := by
  have hread : Reading imports settings e (classify imports settings n) := by
    have hstrip : stripIndirection n = e := by rw [h.strip_eq, strip_eq_self he]
    rw [← hstrip]
    exact reading_classify n
  constructor
  · rintro rfl
    exact hread
  · exact hread.unique

/-- A wrapped expression says the same as the expression. -/
theorem classify_congr (h : Wraps inner outer) :
    classify imports settings outer = classify imports settings inner := by
  unfold classify
  rw [h.strip_eq]

end FieldValue

/-! ## Fields -/

/-- The name of a field of a record literal, without raw mark. -/
def fieldName? : Node → Option String
  | .field _ member _ _ => some member.plain
  | _ => none

/-- A field of the same name, with any number of layers around its value.  A shorthand field has to
be written out for that. -/
inductive FieldWraps : Node → Node → Prop
  /-- Attributes and places do not matter. -/
  | field {attributes attributes' : List Node} {member member' : Ident}
      {shorthand shorthand' : Bool} {value value' : Node}
      (hname : member'.plain = member.plain) (hvalue : Wraps value value') :
      FieldWraps (.field attributes member shorthand value)
        (.field attributes' member' shorthand' value')

namespace SchemaLiteral

variable {imports : ImportTable} {settings : SchemaSettings} {l l' : SchemaLiteral}
  {fields fields' : List Node} {name : String}

/-- The fields of a literal as they are read: names and values. -/
def readings (l : SchemaLiteral) : List (String × FieldValue) :=
  l.fields.map fun f => (f.name, f.value)

/-- A value is found by name among what is read. -/
theorem value?_eq_lookup (l : SchemaLiteral) (name : String) :
    l.value? name = l.readings.lookup name := by
  unfold value? entry readings
  induction l.fields with
  | nil => rfl
  | cons f rest ih =>
      rw [List.find?_cons, List.map_cons, List.lookup_cons, BEq.comm (a := name)]
      cases f.name == name with
      | true => rfl
      | false => exact ih

/-- All readings of two literals are the same. -/
structure SameReadings (l l' : SchemaLiteral) : Prop where
  /-- Values of fields. -/
  value? (name : String) : l.value? name = l'.value? name
  /-- Whether a field is set. -/
  hasField (name : String) : l.hasField name = l'.hasField name
  /-- Truth-valued fields. -/
  flag (name : String) : l.flag name = l'.flag name
  /-- Whether a field is set to true. -/
  isSetTrue (name : String) : l.isSetTrue name = l'.isSetTrue name
  /-- Whether one of several fields is set. -/
  hasAnyField (names : List String) : l.hasAnyField names = l'.hasAnyField names
  /-- The declared value type. -/
  declaredType? : l.declaredType? = l'.declaredType?
  /-- Whether it is one of several. -/
  isOneOfTypes (types : List String) : l.isOneOfTypes types = l'.isOneOfTypes types
  /-- Fields that are set to an expression. -/
  expression? (name : String) : l.expression? name = l'.expression? name
  /-- Whether other fields are filled from somewhere else. -/
  hasRest : l.hasRest = l'.hasRest

/-- Everything that is read comes down to the values of fields. -/
theorem SameReadings.of_value? (h : ∀ name, l.value? name = l'.value? name)
    (hrest : l.hasRest = l'.hasRest) : SameReadings l l' := by
  have hset : ∀ name, l.hasField name = l'.hasField name := by
    intro name
    have hvalue : ∀ k : SchemaLiteral, k.hasField name = (k.value? name).isSome := by
      intro k
      rw [SchemaLiteral.hasField, SchemaLiteral.value?, Option.isSome_map]
    rw [hvalue, hvalue, h]
  have hflag : ∀ name, l.flag name = l'.flag name := by
    intro name
    rw [SchemaLiteral.flag, SchemaLiteral.flag, h]
  have hdeclared : l.declaredType? = l'.declaredType? := by
    rw [SchemaLiteral.declaredType?, SchemaLiteral.declaredType?, h]
  exact
    { value? := h
      hasField := hset
      flag := hflag
      isSetTrue := fun name => by rw [SchemaLiteral.isSetTrue, SchemaLiteral.isSetTrue, hflag]
      hasAnyField := fun names => by
        rw [SchemaLiteral.hasAnyField, SchemaLiteral.hasAnyField, funext hset]
      declaredType? := hdeclared
      isOneOfTypes := fun types => by
        rw [SchemaLiteral.isOneOfTypes, SchemaLiteral.isOneOfTypes, hdeclared]
      expression? := fun name => by
        rw [SchemaLiteral.expression?, SchemaLiteral.expression?, h]
      hasRest := hrest }

/-- Where no two fields have the same name, each is found by its name. -/
theorem entry_eq_some_iff (hnames : (l.fields.map FieldEntry.name).Nodup) {f : FieldEntry} :
    l.entry name = some f ↔ f ∈ l.fields ∧ f.name = name := by
  constructor
  · intro h
    exact ⟨List.mem_of_find?_eq_some h, by simpa using List.find?_some h⟩
  · rintro ⟨hf, rfl⟩
    obtain ⟨f', hfound⟩ : ∃ f', l.entry f.name = some f' := by
      apply Option.isSome_iff_exists.mp
      apply List.find?_isSome.mpr
      exact ⟨f, hf, beq_self_eq_true _⟩
    have hname : f'.name = f.name := by simpa using List.find?_some hfound
    rw [hfound, List.inj_on_of_nodup_map hnames (List.mem_of_find?_eq_some hfound) hf hname]

/-- The fields that are set are among those that are written. -/
theorem names_sublist (imports : ImportTable) (settings : SchemaSettings) (fields : List Node) :
    ((fields.filterMap (fieldOf? imports settings)).map FieldEntry.name).Sublist
      (fields.filterMap fieldName?) := by
  induction fields with
  | nil => exact .slnil
  | cons n rest ih =>
      rw [List.filterMap_cons, List.filterMap_cons]
      cases n
      case field attributes member shorthand value =>
        have hfield : fieldOf? imports settings (.field attributes member shorthand value) =
            (FieldValue.classify imports settings value).map fun v =>
              ⟨member.plain, v, member.place⟩ := rfl
        rw [hfield]
        cases FieldValue.classify imports settings value with
        | none => exact ih.cons member.plain
        | some v => exact ih.cons_cons member.plain
      all_goals exact ih

/-- Layers around the value of a field change neither whether it is set nor how it is read. -/
theorem fieldOf?_of_wraps (h : FieldWraps n outer) :
    (fieldOf? imports settings outer).map (fun f => (f.name, f.value)) =
      (fieldOf? imports settings n).map fun f => (f.name, f.value) := by
  obtain ⟨hname, hvalue⟩ := h
  simp only [fieldOf?, Option.map_map, FieldValue.classify_congr hvalue, Function.comp_def, hname]

/-- A schema literal is read off a record literal with some fields, wherever that stands. -/
def OfFields (imports : ImportTable) (settings : SchemaSettings) (enclosing : List String)
    (fields : List Node) (hasRest : Bool) (l : SchemaLiteral) : Prop :=
  ∃ start name openBrace,
    l = ofRecord imports settings enclosing start name openBrace fields hasRest

namespace OfFields

variable {enclosing : List String} {hasRest : Bool}
  (hl : OfFields imports settings enclosing fields hasRest l)
  (hl' : OfFields imports settings enclosing fields' hasRest l')

include hl

/-- The fields of a literal are those that have a value. -/
theorem fields_eq : l.fields = fields.filterMap (fieldOf? imports settings) := by
  obtain ⟨start, name, openBrace, rfl⟩ := hl
  rfl

/-- The enclosing field is the innermost one. -/
theorem enclosingField_eq : l.enclosingField = enclosing.head? := by
  obtain ⟨start, name, openBrace, rfl⟩ := hl
  rfl

/-- A literal has a rest if it is written with one. -/
theorem hasRest_eq : l.hasRest = hasRest := by
  obtain ⟨start, name, openBrace, rfl⟩ := hl
  rfl

include hl'

/-- Literals with the same values are read in the same way. -/
theorem sameReadings (h : ∀ name, l.value? name = l'.value? name) : SameReadings l l' :=
  .of_value? h (hl.hasRest_eq.trans hl'.hasRest_eq.symm)

/-- Layers around the values of fields change nothing that is read of them. -/
theorem readings_eq (h : List.Forall₂ FieldWraps fields fields') : l.readings = l'.readings := by
  rw [readings, readings, hl.fields_eq, hl'.fields_eq, List.map_filterMap, List.map_filterMap]
  clear hl hl'
  induction h with
  | nil => rfl
  | cons hfield _ ih => rw [List.filterMap_cons, List.filterMap_cons, fieldOf?_of_wraps hfield, ih]

/-- Neither does the order of fields, if no two have the same name. -/
theorem value?_of_perm (hnames : (fields.filterMap fieldName?).Nodup) (h : fields.Perm fields')
    (name : String) : l.value? name = l'.value? name := by
  have hperm : l.fields.Perm l'.fields := by
    rw [hl.fields_eq, hl'.fields_eq]
    exact h.filterMap _
  have hnodup : (l.fields.map FieldEntry.name).Nodup := by
    rw [hl.fields_eq]
    exact hnames.sublist (names_sublist imports settings fields)
  have hnodup' := (hperm.map FieldEntry.name).nodup_iff.mp hnodup
  have hentry : l.entry name = l'.entry name := by
    ext f
    rw [entry_eq_some_iff hnodup, entry_eq_some_iff hnodup', hperm.mem_iff]
  rw [value?, value?, hentry]

end OfFields

end SchemaLiteral

/-- The rules on schema literals look at nothing but what is read of a literal and the field that it
stands in. -/
theorem Rules.isBrokenBy_congr {l l' : SchemaLiteral} (h : l.SameReadings l')
    (henclosing : l.enclosingField = l'.enclosingField) :
    ∀ r ∈ schemaRules, r.isBrokenBy l = r.isBrokenBy l' := by
  have hoff : ∀ name, isSurelyOff l name = isSurelyOff l' name := by
    intro name
    rw [isSurelyOff, isSurelyOff, h.isSetTrue, h.expression?]
  have hcollection : isCollection l = isCollection l' := h.isOneOfTypes _
  intro r hr
  simp only [schemaRules, List.mem_cons, List.not_mem_nil, or_false] at hr
  rcases hr with rfl | rfl | rfl | rfl | rfl | rfl | rfl | rfl | rfl | rfl | rfl
  all_goals
    simp only [collectionMissingElem, requiredOptionalConflict, requiredComputedConflict,
      requiredDefaultConflict, computedOnlyDefault, mapMissingElem, collectionDefaultConflict,
      collectionValidateFunc, computedOnlyValidateFunc, missingType, missingPresence, schemaRule,
      hcollection, h.isSetTrue, h.hasField, h.isOneOfTypes, h.hasRest, henclosing, funext hoff]

namespace SchemaLiteral

/-- **Layers and order make no difference.**  An expression in any number of brackets, references
and wrapping calls, one around the other, is read as the one in them: a spelling of the absent value
leaves the field unset, a truth value is that value, a path to a variant of the value type is that
variant, and anything else is the text of the expression without the layers.  So a record literal
with layers around the values of its fields is read off with the same names and values, and if no
two of its fields have the same name, it may list them in any order: in both cases all readings of
the literal are the same, and so is the verdict of each rule on schema literals. -/
theorem indirection_transparent (imports : ImportTable) (settings : SchemaSettings) :
    (∀ n, ∃ e, Unlayered e ∧ Wraps e n) ∧
    (∀ e n, Unlayered e → Wraps e n → ∀ v,
      FieldValue.classify imports settings n = v ↔ FieldValue.Reading imports settings e v) ∧
    ∀ enclosing fields fields' hasRest l l',
      OfFields imports settings enclosing fields hasRest l →
      OfFields imports settings enclosing fields' hasRest l' →
      (List.Forall₂ FieldWraps fields fields' →
        l.readings = l'.readings ∧ SameReadings l l' ∧
          ∀ r ∈ Rules.schemaRules, r.isBrokenBy l = r.isBrokenBy l') ∧
      ((fields.filterMap fieldName?).Nodup → fields.Perm fields' →
        SameReadings l l' ∧ ∀ r ∈ Rules.schemaRules, r.isBrokenBy l = r.isBrokenBy l') := by
  refine ⟨fun n => ?_, fun e n he h v => FieldValue.classify_iff he h, ?_⟩
  · exact ⟨stripIndirection n, unlayered_strip n, wraps_strip n⟩
  · intro enclosing fields fields' hasRest l l' hl hl'
    have henclosing : l.enclosingField = l'.enclosingField := by
      rw [hl.enclosingField_eq, hl'.enclosingField_eq]
    constructor
    · intro h
      have hreadings := hl.readings_eq hl' h
      have hsame := hl.sameReadings hl' fun name => by
        rw [value?_eq_lookup, value?_eq_lookup, hreadings]
      exact ⟨hreadings, hsame, Rules.isBrokenBy_congr hsame henclosing⟩
    · intro hnames h
      have hsame := hl.sameReadings hl' (hl.value?_of_perm hl' hnames h)
      exact ⟨hsame, Rules.isBrokenBy_congr hsame henclosing⟩

/-- A path of given names. -/
def pathOf (names : List String) : Node :=
  .path ⟨false, false, false, names.map fun name => ⟨name, ⟨1, 1⟩⟩⟩ []

/-- A field of a given name and value. -/
def fieldOf (name : String) (value : Node) : Node :=
  .field [] ⟨name, ⟨1, 1⟩⟩ false value

/-- A schema that is required and is of a collection type, but has no default. -/
def plainFields : List Node :=
  [fieldOf "r#type" (pathOf ["tfschema", "ValueType", "List"]),
    fieldOf "required" (.literal [.ident "true" ⟨1, 1⟩]), fieldOf "default" (pathOf ["None"])]

/-- The same fields with layers around their values. -/
def layeredFields : List Node :=
  [fieldOf "type" (.call (pathOf ["Some"]) ⟨1, 1⟩
      [.reference [] (.paren ⟨1, 1⟩ (pathOf ["tfschema", "ValueType", "List"]))] false),
    fieldOf "required" (.call (pathOf ["Box", "new"]) ⟨1, 1⟩
      [.paren ⟨1, 1⟩ (.literal [.ident "true" ⟨1, 1⟩])] true),
    fieldOf "default" (.reference [] (.reference []
      (.call (pathOf ["core", "option", "Option", "Some"]) ⟨1, 1⟩ [pathOf ["None"]] false)))]

/-- A literal with plain values, one with wrapped values and one with these in reverse. -/
theorem indirection_transparent_sample :
    ∃ l l' l'', OfFields ⟨[], []⟩ {} [] plainFields false l ∧
      OfFields ⟨[], []⟩ {} [] layeredFields false l' ∧
      OfFields ⟨[], []⟩ {} [] layeredFields.reverse false l'' ∧
      l'.readings = [("type", .valueType "List"), ("required", .bool true)] ∧
      SameReadings l' l'' ∧ Rules.collectionMissingElem.isBrokenBy l'' ∧
      FieldValue.classify ⟨[], []⟩ {} (.paren ⟨1, 1⟩ (pathOf ["None"])) = none := by
  obtain ⟨-, hvalue, hfields⟩ := indirection_transparent ⟨[], []⟩ {}
  have hcore : Unlayered (pathOf ["None"]) := by
    apply unlayered_of_other
    · intro place m h
      cases h
    · intro mark m h
      cases h
    · intro callee place arg trailing h
      cases h
  let read (fields : List Node) : SchemaLiteral :=
    ofRecord ⟨[], []⟩ {} [] ⟨1, 1⟩ ⟨false, false, false, []⟩ ⟨1, 1⟩ fields false
  have hread : ∀ fields, OfFields ⟨[], []⟩ {} [] fields false (read fields) :=
    fun fields => ⟨_, _, _, rfl⟩
  have hlayers : List.Forall₂ FieldWraps plainFields layeredFields := by
    refine .cons ?_ (.cons ?_ (.cons ?_ .nil))
    · exact .field (by decide) (.tail (.tail (.tail .refl (.paren rfl)) (.reference rfl))
        (.call rfl rfl (by decide)))
    · exact .field rfl (.tail (.tail .refl (.paren rfl)) (.call rfl rfl (by decide)))
    · exact .field rfl (.tail (.tail (.tail .refl (.call rfl rfl (by decide))) (.reference rfl))
        (.reference rfl))
  obtain ⟨hreadings, -, hrules⟩ := (hfields _ _ _ _ _ _ (hread _) (hread _)).1 hlayers
  obtain ⟨hsame, hrules'⟩ :=
    (hfields _ _ _ _ _ _ (hread _) (hread _)).2 (by decide) layeredFields.reverse_perm.symm
  have hrule : Rules.collectionMissingElem ∈ Rules.schemaRules := by simp [Rules.schemaRules]
  refine ⟨_, _, _, hread _, hread _, hread _, ?_, hsame, ?_, ?_⟩
  · rw [← hreadings]
    decide
  · rw [← hrules' _ hrule, ← hrules _ hrule]
    decide
  · exact (hvalue _ _ hcore (.single (.paren rfl)) none).mpr (.absent rfl rfl (by decide))

end SchemaLiteral

end SchemaLint

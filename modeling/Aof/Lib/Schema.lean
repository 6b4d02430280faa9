import Aof.Lib.JsValue

/-!
# Schemas

A schema reads a value or rejects it, in the way of the `zod` library: defaults are filled in,
unknown properties are left out, and the properties come in the order of the schema.  A property
that is `undefined` is not told apart from one that is absent.
-/

namespace JsValue

def isUndefined : JsValue → Bool
  | undefined => true
  | _ => false

def property (key : String) (properties : JsObject) : JsValue :=
  (Dict.getEntries key properties).getD undefined

theorem property_setEntries (key other : String) (value : JsValue) (properties : JsObject) :
    property other (Dict.setEntries key value properties) =
      if other = key then value else property other properties := by
  rw [property, Dict.getEntries_setEntries]
  by_cases hother : other = key
  · rw [if_pos hother.symm, if_pos hother, Option.getD_some]
  · rw [if_neg fun h => hother h.symm, if_neg hother, property]

/-- `delete properties[key]` -/
def deleteProperty (key : String) (properties : JsObject) : JsObject :=
  properties.filter fun entry => entry.1 ≠ key

theorem property_deleteProperty (key other : String) (properties : JsObject) :
    property other (deleteProperty key properties) =
      if other = key then undefined else property other properties := by
  induction properties with
  | nil => exact (ite_self _).symm
  | cons entry properties ih =>
      rw [deleteProperty, List.filter_cons]
      by_cases hentry : entry.1 = key
      · rw [if_neg (by simpa using hentry)]
        refine ih.trans (if_ctx_congr Iff.rfl (fun _ => rfl) fun hother => ?_)
        rw [property, property, Dict.getEntries, if_neg fun h => hother (h.symm.trans hentry)]
      · rw [if_pos (by simpa using hentry), property, Dict.getEntries]
        by_cases hother : entry.1 = other
        · rw [if_pos hother, if_neg fun h => hentry (hother.trans h), property, Dict.getEntries,
            if_pos hother]
        · rw [if_neg hother]
          refine ih.trans (if_congr Iff.rfl rfl ?_)
          rw [property, property, Dict.getEntries, if_neg hother]

mutual

def depth : JsValue → Nat
  | arr items => depthOfItems items + 1
  | obj properties => depthOfProperties properties + 1
  | _ => 0

def depthOfItems : List JsValue → Nat
  | [] => 0
  | item :: items => max item.depth (depthOfItems items)

def depthOfProperties : JsObject → Nat
  | [] => 0
  | (_, value) :: properties => max value.depth (depthOfProperties properties)

end

theorem depth_lt_of_mem {item : JsValue} {items : List JsValue} (hmem : item ∈ items) :
    item.depth < (arr items).depth := by
  rw [depth, Nat.lt_succ_iff]
  induction items with
  | nil => cases hmem
  | cons first items ih =>
      rw [depthOfItems]
      cases List.mem_cons.mp hmem with
      | inl heq => exact heq ▸ le_max_left _ _
      | inr hmem => exact (ih hmem).trans (le_max_right _ _)

theorem depth_lt_of_mem_properties {key : String} {value : JsValue} {properties : JsObject}
    (hmem : (key, value) ∈ properties) : value.depth < (obj properties).depth := by
  rw [depth, Nat.lt_succ_iff]
  induction properties with
  | nil => cases hmem
  | cons entry properties ih =>
      rw [depthOfProperties]
      cases List.mem_cons.mp hmem with
      | inl heq => exact heq ▸ le_max_left _ _
      | inr hmem => exact (ih hmem).trans (le_max_right _ _)

theorem depth_property_lt (key : String) (properties : JsObject) :
    (property key properties).depth < (obj properties).depth := by
  rw [depth, Nat.lt_succ_iff]
  induction properties with
  | nil => exact le_rfl
  | cons entry properties ih =>
      rw [depthOfProperties, property, Dict.getEntries]
      split
      · exact le_max_left _ _
      · exact ih.trans (le_max_right _ _)

/-- One string somewhere in the value is another one. -/
inductive Edited : JsValue → JsValue → Prop
  | str {text other : String} (hne : text ≠ other) : Edited (str text) (str other)
  | item {value other : JsValue} (before after : List JsValue) (hedited : Edited value other) :
      Edited (arr (before ++ value :: after)) (arr (before ++ other :: after))
  | property {value other : JsValue} (before after : JsObject) (key : String)
      (hedited : Edited value other) :
      Edited (obj (before ++ (key, value) :: after)) (obj (before ++ (key, other) :: after))

theorem Edited.ne {value other : JsValue} (hedited : Edited value other) : value ≠ other := by
  induction hedited with
  | str hne => exact fun heq => hne (JsValue.str.inj heq)
  | item before after _ ih =>
      intro heq
      exact ih (List.cons.inj (List.append_cancel_left (JsValue.arr.inj heq))).1
  | property before after key _ ih =>
      intro heq
      have hentry := (List.cons.inj (List.append_cancel_left (JsValue.obj.inj heq))).1
      exact ih (Prod.mk.inj hentry).2

end JsValue

abbrev Schema := JsValue → Option JsValue

namespace Schema

open JsValue (property Edited)

def check (accepts : JsValue → Bool) : Schema := fun value =>
  if accepts value then some value else none

def unknown : Schema := some

def string (accepts : String → Bool := fun _ => true) : Schema :=
  check fun value => match value with
    | .str text => accepts text
    | _ => false

def number (accepts : JsNumber → Bool := fun _ => true) : Schema :=
  check fun value => match value with
    | .num number => number ≠ .nan && accepts number
    | _ => false

def boolean : Schema :=
  check fun value => match value with
    | .bool _ => true
    | _ => false

def enum (values : List String) : Schema := string fun text => values.contains text

def literal (text : String) : Schema := string fun other => other = text

def literals (values : List JsValue) : Schema :=
  check fun value => values.any fun literal => literal.strictEq value

def optional (schema : Schema) : Schema := fun value =>
  if value.isUndefined then some .undefined else schema value

/-- `schema.default(value)`: the default is read like any other value. -/
def withDefault (schema : Schema) (default : JsValue) : Schema := fun value =>
  schema (if value.isUndefined then default else value)

/-- `schema.nullable().optional().transform((v) => v ?? undefined)` -/
def nullish (schema : Schema) : Schema := fun value =>
  match value with
  | .null => some .undefined
  | value => optional schema value

/-- `schema.superRefine(…)` -/
def refine (schema : Schema) (accepts : JsValue → Bool) : Schema := fun value =>
  (schema value).filter accepts

def array (item : Schema) (minLength : Nat := 0) : Schema := fun value =>
  match value with
  | .arr items => if minLength ≤ items.length then (items.mapM item).map .arr else none
  | _ => none

def mergeObject : List (String × Option JsValue) → Option JsObject
  | [] => some []
  | (key, result) :: pairs => do
      let value ← result
      let rest ← mergeObject pairs
      pure (if value.isUndefined then rest else (key, value) :: rest)

def object (shape : List (String × Schema)) : Schema := fun value =>
  match value with
  | .obj properties =>
      (mergeObject (shape.map fun field =>
        (field.1, field.2 (property field.1 properties)))).map .obj
  | _ => none

def record (item : Schema) : Schema := fun value =>
  match value with
  | .obj properties =>
      (mergeObject (properties.map fun entry => (entry.1, item entry.2))).map .obj
  | _ => none

/-- Each option is an object with its tag as a literal. -/
def discriminatedUnion (key : String) (options : List (String × List (String × Schema))) :
    Schema := fun value =>
  match value with
  | .obj properties =>
      match property key properties with
      | .str tag =>
          (Dict.getEntries tag options).bind fun shape => object ((key, literal tag) :: shape) value
      | _ => none
  | _ => none

/-- `z.lazy`: a schema that uses itself is unfolded as often as the value is nested. -/
def unfolded (unfolding : Schema → Schema) : Nat → Schema
  | 0 => fun _ => none
  | times + 1 => unfolding (unfolded unfolding times)

def lazy (unfolding : Schema → Schema) : Schema := fun value =>
  unfolded unfolding (value.depth + 1) value

/-- What has been read is read as itself, and a string that is edited is not mended. -/
structure Lawful (schema : Schema) : Prop where
  stable : ∀ {value result}, schema value = some result → schema result = some result
  faithful : ∀ {value other}, schema value = some value → Edited value other →
    schema other ≠ some value

def Defined (schema : Schema) : Prop := ∀ value, schema value ≠ some .undefined

section Values

variable {accepts : JsValue → Bool} {value result : JsValue}

theorem check_eq_some_iff :
    check accepts value = some result ↔ accepts value = true ∧ value = result := by
  rw [check, Option.ite_none_right_eq_some, Option.some.injEq]

theorem lawful_of_filter {schema : Schema}
    (hfilter : ∀ value result, schema value = some result → value = result) : Lawful schema where
  stable := by
    intro value result hread
    exact hfilter value result hread ▸ hread
  faithful := by
    intro value other _ hedited hread
    exact hedited.ne (hfilter other value hread).symm

@[simp]
theorem lawful_check (accepts : JsValue → Bool) : Lawful (check accepts) :=
  lawful_of_filter fun _ _ hread => (check_eq_some_iff.mp hread).2

@[simp]
theorem lawful_unknown : Lawful unknown := lawful_of_filter fun _ _ hread => Option.some.inj hread

@[simp]
theorem lawful_string (accepts : String → Bool) : Lawful (string accepts) := lawful_check _

@[simp]
theorem lawful_number (accepts : JsNumber → Bool) : Lawful (number accepts) := lawful_check _

@[simp]
theorem lawful_boolean : Lawful boolean := lawful_check _

@[simp]
theorem lawful_enum (values : List String) : Lawful (enum values) := lawful_check _

@[simp]
theorem lawful_literal (text : String) : Lawful (literal text) := lawful_check _

@[simp]
theorem lawful_literals (values : List JsValue) : Lawful (literals values) := lawful_check _

theorem literal_eq_some_iff {text : String} :
    literal text value = some result ↔ value = .str text ∧ result = .str text := by
  rw [literal, string, check_eq_some_iff]
  constructor
  · rintro ⟨hliteral, rfl⟩
    cases value with
    | str other =>
        obtain rfl := of_decide_eq_true hliteral
        exact ⟨rfl, rfl⟩
    | _ => cases hliteral
  · rintro ⟨rfl, rfl⟩
    exact ⟨decide_eq_true rfl, rfl⟩

theorem defined_check (hundefined : accepts .undefined = false) : Defined (check accepts) := by
  intro value hread
  obtain ⟨haccepts, rfl⟩ := check_eq_some_iff.mp hread
  rw [hundefined] at haccepts
  cases haccepts

@[simp]
theorem defined_string (accepts : String → Bool) : Defined (string accepts) := defined_check rfl

@[simp]
theorem defined_number (accepts : JsNumber → Bool) : Defined (number accepts) := defined_check rfl

@[simp]
theorem defined_boolean : Defined boolean := defined_check rfl

@[simp]
theorem defined_enum (values : List String) : Defined (enum values) := defined_check rfl

end Values

section Modifiers

variable {schema : Schema}

theorem isUndefined_eq_true_iff {value : JsValue} :
    value.isUndefined = true ↔ value = .undefined := by
  cases value with
  | undefined => exact iff_of_true rfl rfl
  | _ => exact iff_of_false Bool.false_ne_true fun h => by cases h

theorem isUndefined_eq_false {value other : JsValue} (hedited : Edited value other) :
    value.isUndefined = false ∧ other.isUndefined = false := by
  cases hedited <;> exact ⟨rfl, rfl⟩

@[simp]
theorem lawful_optional (hlawful : Lawful schema) : Lawful (optional schema) where
  stable := by
    intro value result hread
    rw [optional] at hread ⊢
    split
    · rename_i hundefined
      rw [isUndefined_eq_true_iff.mp hundefined]
    · rename_i hdefined
      split at hread
      · obtain rfl := Option.some.inj hread
        exact absurd rfl hdefined
      · exact hlawful.stable hread
  faithful := by
    intro value other hread hedited
    obtain ⟨hvalue, hother⟩ := isUndefined_eq_false hedited
    rw [optional, hvalue] at hread
    rw [optional, hother]
    exact hlawful.faithful hread hedited

@[simp]
theorem lawful_withDefault (hlawful : Lawful schema) (hdefined : Defined schema)
    (default : JsValue) : Lawful (withDefault schema default) where
  stable := by
    intro value result hread
    have hresult : result.isUndefined = false := by
      rw [← Bool.not_eq_true, isUndefined_eq_true_iff]
      rintro rfl
      exact hdefined _ hread
    rw [withDefault, hresult]
    exact hlawful.stable hread
  faithful := by
    intro value other hread hedited
    obtain ⟨hvalue, hother⟩ := isUndefined_eq_false hedited
    rw [withDefault, hvalue] at hread
    rw [withDefault, hother]
    exact hlawful.faithful hread hedited

theorem nullish_of_ne_null {value : JsValue} (hne : value ≠ .null) :
    nullish schema value = optional schema value := by
  cases value with
  | null => exact absurd rfl hne
  | _ => rfl

@[simp]
theorem lawful_nullish (hlawful : Lawful schema) (hnull : schema .null = none) :
    Lawful (nullish schema) where
  stable := by
    intro value result hread
    have hresult : result = .undefined ∨ optional schema value = some result := by
      cases value with
      | null => exact .inl (Option.some.inj hread).symm
      | _ => exact .inr hread
    rcases hresult with rfl | hread
    · rfl
    · have hstable := (lawful_optional hlawful).stable hread
      rw [nullish_of_ne_null, hstable]
      rintro rfl
      rw [optional, if_neg (by decide), hnull] at hstable
      cases hstable
  faithful := by
    intro value other hread hedited
    have hne : value ≠ .null ∧ other ≠ .null := by
      cases hedited <;> constructor <;> exact fun h => by cases h
    rw [nullish_of_ne_null hne.1] at hread
    rw [nullish_of_ne_null hne.2]
    exact (lawful_optional hlawful).faithful hread hedited

theorem refine_eq_some_iff {accepts : JsValue → Bool} {value result : JsValue} :
    refine schema accepts value = some result ↔ schema value = some result ∧ accepts result :=
  Option.filter_eq_some_iff

@[simp]
theorem lawful_refine (hlawful : Lawful schema) (accepts : JsValue → Bool) :
    Lawful (refine schema accepts) where
  stable := by
    intro value result hread
    obtain ⟨hread, haccepts⟩ := refine_eq_some_iff.mp hread
    exact refine_eq_some_iff.mpr ⟨hlawful.stable hread, haccepts⟩
  faithful := by
    intro value other hread hedited hother
    exact hlawful.faithful (refine_eq_some_iff.mp hread).1 hedited (refine_eq_some_iff.mp hother).1

end Modifiers

section Objects

variable {item : Schema} {value result : JsValue} {items results : List JsValue} {key : String}
  {pairs : List (String × Option JsValue)} {properties : JsObject} {shape : List (String × Schema)}

theorem array_eq_some_iff {minLength : Nat} :
    array item minLength value = some result ↔ ∃ items results, value = .arr items ∧
      minLength ≤ items.length ∧ items.mapM item = some results ∧ result = .arr results := by
  constructor
  · intro hread
    cases value with
    | arr items =>
        rw [array, Option.ite_none_right_eq_some, Option.map_eq_some_iff] at hread
        obtain ⟨hlength, results, hitems, hresult⟩ := hread
        exact ⟨items, results, rfl, hlength, hitems, hresult.symm⟩
    | _ => cases hread
  · rintro ⟨items, results, rfl, hlength, hitems, rfl⟩
    rw [array, if_pos hlength, hitems]
    rfl

theorem mapM_cons_eq_some :
    (value :: items).mapM item = some results ↔ ∃ result rest, item value = some result ∧
      items.mapM item = some rest ∧ results = result :: rest := by
  rw [List.mapM_cons]
  constructor
  · intro hread
    obtain ⟨result, hvalue, hread⟩ := Option.bind_eq_some_iff.mp hread
    obtain ⟨rest, hrest, hread⟩ := Option.bind_eq_some_iff.mp hread
    exact ⟨result, rest, hvalue, hrest, (Option.some.inj hread).symm⟩
  · rintro ⟨result, rest, hvalue, hrest, rfl⟩
    rw [hvalue, hrest]
    rfl

theorem length_mapM (hread : items.mapM item = some results) : results.length = items.length := by
  induction items generalizing results with
  | nil =>
      obtain rfl := Option.some.inj hread
      rfl
  | cons value items ih =>
      obtain ⟨result, rest, -, hrest, rfl⟩ := mapM_cons_eq_some.mp hread
      rw [List.length_cons, List.length_cons, ih hrest]

theorem mapM_stable (hlawful : Lawful item) (hread : items.mapM item = some results) :
    results.mapM item = some results := by
  induction items generalizing results with
  | nil =>
      obtain rfl := Option.some.inj hread
      rfl
  | cons value items ih =>
      obtain ⟨result, rest, hvalue, hrest, rfl⟩ := mapM_cons_eq_some.mp hread
      exact mapM_cons_eq_some.mpr ⟨result, rest, hlawful.stable hvalue, ih hrest, rfl⟩

theorem mapM_append_cons {other : JsValue} (before after : List JsValue)
    (hread : (before ++ value :: after).mapM item = some (before ++ other :: after)) :
    item value = some other := by
  suffices hsuffix : ∀ items results, items.length = results.length →
      (items ++ value :: after).mapM item = some (results ++ other :: after) →
      item value = some other from hsuffix before before rfl hread
  intro items
  induction items with
  | nil =>
      intro results hlength hread
      obtain rfl := List.eq_nil_of_length_eq_zero hlength.symm
      obtain ⟨result, rest, hvalue, -, hcons⟩ := mapM_cons_eq_some.mp hread
      rw [hvalue, (List.cons.inj hcons).1]
  | cons first items ih =>
      intro results hlength hread
      cases results with
      | nil => cases hlength
      | cons firstResult results =>
          obtain ⟨result, rest, -, hrest, hcons⟩ := mapM_cons_eq_some.mp hread
          obtain rfl := (List.cons.inj hcons).2
          exact ih results (Nat.succ.inj hlength) hrest

@[simp]
theorem lawful_array (hlawful : Lawful item) (minLength : Nat) :
    Lawful (array item minLength) where
  stable := by
    intro value result hread
    obtain ⟨items, results, rfl, hlength, hitems, rfl⟩ := array_eq_some_iff.mp hread
    apply array_eq_some_iff.mpr
    exact ⟨results, results, rfl, length_mapM hitems ▸ hlength, mapM_stable hlawful hitems, rfl⟩
  faithful := by
    intro value other hread hedited hother
    obtain ⟨items, results, rfl, -, hitems, hvalue⟩ := array_eq_some_iff.mp hread
    obtain rfl := JsValue.arr.inj hvalue
    cases hedited with
    | item before after hedited =>
        obtain ⟨_, results, harr, -, hitems', hresult⟩ := array_eq_some_iff.mp hother
        obtain rfl := JsValue.arr.inj harr
        obtain rfl := JsValue.arr.inj hresult
        exact hlawful.faithful (mapM_append_cons before after hitems) hedited
          (mapM_append_cons before after hitems')

@[simp]
theorem defined_array (item : Schema) (minLength : Nat) : Defined (array item minLength) := by
  intro value hread
  obtain ⟨_, _, _, _, _, hresult⟩ := array_eq_some_iff.mp hread
  cases hresult

theorem mergeObject_cons_eq_some {result : Option JsValue} :
    mergeObject ((key, result) :: pairs) = some properties ↔ ∃ value rest, result = some value ∧
      mergeObject pairs = some rest ∧
      properties = if value.isUndefined then rest else (key, value) :: rest := by
  rw [mergeObject]
  constructor
  · intro hmerge
    obtain ⟨value, hvalue, hmerge⟩ := Option.bind_eq_some_iff.mp hmerge
    obtain ⟨rest, hrest, hmerge⟩ := Option.bind_eq_some_iff.mp hmerge
    exact ⟨value, rest, hvalue, hrest, (Option.some.inj hmerge).symm⟩
  · rintro ⟨value, rest, rfl, hrest, rfl⟩
    rw [hrest]
    rfl

theorem keys_mergeObject (hmerge : mergeObject pairs = some properties) :
    (properties.map Prod.fst).Sublist (pairs.map Prod.fst) := by
  induction pairs generalizing properties with
  | nil =>
      obtain rfl := Option.some.inj hmerge
      exact List.Sublist.refl _
  | cons pair pairs ih =>
      obtain ⟨value, rest, -, hrest, rfl⟩ := mergeObject_cons_eq_some.mp hmerge
      split
      · exact (ih hrest).cons _
      · exact (ih hrest).cons_cons _

theorem property_mergeObject (hmerge : mergeObject pairs = some properties)
    (hnodup : (pairs.map Prod.fst).Nodup) {result : Option JsValue} (hmem : (key, result) ∈ pairs) :
    result = some (property key properties) := by
  induction pairs generalizing properties with
  | nil => cases hmem
  | cons pair pairs ih =>
      obtain ⟨value, rest, hvalue, hrest, rfl⟩ := mergeObject_cons_eq_some.mp hmerge
      rw [List.map_cons, List.nodup_cons] at hnodup
      cases List.mem_cons.mp hmem with
      | inl hpair =>
          obtain rfl := hpair
          have hresult : result = some value := hvalue
          rw [hresult]
          split
          · rename_i hundefined
            have habsent : Dict.getEntries key rest = none := by
              rw [Dict.getEntries_eq_none_iff]
              exact fun h => hnodup.1 ((keys_mergeObject hrest).subset h)
            rw [property, habsent, isUndefined_eq_true_iff.mp hundefined]
            rfl
          · rw [property, Dict.getEntries, if_pos rfl]
            rfl
      | inr hmem =>
          have hne : pair.1 ≠ key := by
            intro hkey
            exact hnodup.1 (hkey ▸ List.mem_map_of_mem (f := Prod.fst) hmem)
          rw [ih hrest hnodup.2 hmem]
          split
          · rfl
          · rw [property, property, Dict.getEntries, if_neg hne]

theorem object_eq_some_iff :
    object shape value = some result ↔ ∃ properties results, value = .obj properties ∧
      mergeObject (shape.map fun field => (field.1, field.2 (property field.1 properties))) =
        some results ∧ result = .obj results := by
  constructor
  · intro hread
    cases value with
    | obj properties =>
        obtain ⟨results, hmerge, hresult⟩ := Option.map_eq_some_iff.mp hread
        exact ⟨properties, results, rfl, hmerge, hresult.symm⟩
    | _ => cases hread
  · rintro ⟨properties, results, rfl, hmerge, rfl⟩
    rw [object, hmerge]
    rfl

theorem object_congr {shape : List (String × Schema)} {properties others : JsObject}
    (hfields : ∀ field ∈ shape,
      field.2 (property field.1 properties) = field.2 (property field.1 others)) :
    object shape (.obj properties) = object shape (.obj others) := by
  rw [object, object]
  congr 2
  apply List.map_congr_left
  exact fun field hfield => congrArg (Prod.mk field.1) (hfields field hfield)

theorem map_fst_fields (shape : List (String × Schema)) (properties : JsObject) :
    (shape.map fun field => (field.1, field.2 (property field.1 properties))).map Prod.fst =
      shape.map Prod.fst := by
  rw [List.map_map]
  rfl

section Shape

variable {shape : List (String × Schema)} {properties results : JsObject}

variable {key : String} {schema : Schema} {value : JsValue} {others : JsObject}

theorem property_object (hnodup : (shape.map Prod.fst).Nodup)
    (hread : object shape (.obj properties) = some (.obj results)) (hmem : (key, schema) ∈ shape) :
    schema (property key properties) = some (property key results) := by
  obtain ⟨_, _, hobj, hmerge, hresult⟩ := object_eq_some_iff.mp hread
  obtain rfl := JsValue.obj.inj hobj
  obtain rfl := JsValue.obj.inj hresult
  apply property_mergeObject hmerge
  · rw [map_fst_fields]
    exact hnodup
  · exact List.mem_map.mpr ⟨(key, schema), hmem, rfl⟩

theorem keys_object (hread : object shape (.obj properties) = some (.obj results)) :
    (results.map Prod.fst).Sublist (shape.map Prod.fst) := by
  obtain ⟨_, _, hobj, hmerge, hresult⟩ := object_eq_some_iff.mp hread
  obtain rfl := JsValue.obj.inj hobj
  obtain rfl := JsValue.obj.inj hresult
  have hkeys := keys_mergeObject hmerge
  rw [map_fst_fields] at hkeys
  exact hkeys

theorem property_of_not_mem_shape (hread : object shape (.obj properties) = some (.obj results))
    (hkey : key ∉ shape.map Prod.fst) : property key results = .undefined := by
  have habsent : Dict.getEntries key results = none := by
    rw [Dict.getEntries_eq_none_iff]
    exact fun h => hkey ((keys_object hread).subset h)
  rw [property, habsent]
  rfl

theorem property_append_cons {before after : JsObject} (hkey : key ∉ before.map Prod.fst) :
    property key (before ++ (key, value) :: after) = value := by
  induction before with
  | nil => rw [List.nil_append, property, Dict.getEntries, if_pos rfl, Option.getD_some]
  | cons entry before ih =>
      rw [List.map_cons, List.mem_cons, not_or] at hkey
      rw [List.cons_append, property, Dict.getEntries, if_neg fun h => hkey.1 h.symm]
      exact ih hkey.2

theorem lawful_object (hnodup : (shape.map Prod.fst).Nodup)
    (hlawful : ∀ field ∈ shape, Lawful field.2) : Lawful (object shape) where
  stable := by
    intro value result hread
    obtain ⟨properties, results, rfl, -, rfl⟩ := object_eq_some_iff.mp hread
    refine (object_congr fun field hfield => ?_).trans hread
    have hproperty := property_object hnodup hread hfield
    exact ((hlawful field hfield).stable hproperty).trans hproperty.symm
  faithful := by
    intro value other hread hedited hother
    obtain ⟨properties, results, rfl, -, hvalue⟩ := object_eq_some_iff.mp hread
    cases hedited with
    | @property value other before after key hedited =>
        have hsublist := keys_object hread
        have hkey : key ∈ shape.map Prod.fst := by
          apply hsublist.subset
          rw [List.map_append, List.map_cons]
          exact List.mem_append_right _ List.mem_cons_self
        have hbefore : key ∉ before.map Prod.fst := by
          have hkeys := hsublist.nodup hnodup
          rw [List.map_append, List.map_cons] at hkeys
          exact fun h => List.disjoint_of_nodup_append hkeys h List.mem_cons_self
        obtain ⟨field, hfield, rfl⟩ := List.mem_map.mp hkey
        have hvalue := property_object hnodup hread hfield
        have hother := property_object hnodup hother hfield
        rw [property_append_cons hbefore] at hvalue hother
        rw [property_append_cons hbefore] at hother
        exact (hlawful field hfield).faithful hvalue hedited hother

theorem mergeObject_exists {pairs : List (String × Option JsValue)}
    (hpairs : ∀ pair ∈ pairs, ∃ value, pair.2 = some value) :
    ∃ merged, mergeObject pairs = some merged := by
  induction pairs with
  | nil => exact ⟨[], rfl⟩
  | cons pair pairs ih =>
      rw [List.forall_mem_cons] at hpairs
      obtain ⟨value, hvalue⟩ := hpairs.1
      obtain ⟨rest, hrest⟩ := ih hpairs.2
      exact ⟨_, mergeObject_cons_eq_some.mpr ⟨value, rest, hvalue, hrest, rfl⟩⟩

theorem object_replace (hnodup : (shape.map Prod.fst).Nodup)
    (hread : object shape (.obj properties) = some (.obj results))
    (hagree : ∀ other, property other others = if other =
      key then value else property other properties)
    (hfield : (key, schema) ∈ shape) (hvalue : schema value = some value) :
    ∃ replaced, object shape (.obj others) = some (.obj replaced) ∧ ∀ other,
      property other replaced = if other = key then value else property other results := by
  have hkey : ∀ field ∈ shape, field.1 = key → field.2 = schema := by
    intro field hmem heq
    have hfields := List.inj_on_of_nodup_map hnodup hmem hfield heq
    rw [hfields]
  have hfields : ∀ field ∈ shape, field.2 (property field.1 others) =
      some (if field.1 = key then value else property field.1 results) := by
    intro field hmem
    rw [hagree]
    split
    · rename_i heq
      rw [hkey field hmem heq, hvalue]
    · exact property_object hnodup hread hmem
  obtain ⟨replaced, hmerge⟩ : ∃ replaced, mergeObject
      (shape.map fun field => (field.1, field.2 (property field.1 others))) = some replaced := by
    apply mergeObject_exists
    intro pair hpair
    obtain ⟨field, hmem, rfl⟩ := List.mem_map.mp hpair
    exact ⟨_, hfields field hmem⟩
  have hreplaced : object shape (.obj others) = some (.obj replaced) :=
    object_eq_some_iff.mpr ⟨others, replaced, rfl, hmerge, rfl⟩
  refine ⟨replaced, hreplaced, fun other => ?_⟩
  by_cases hmem : other ∈ shape.map Prod.fst
  · obtain ⟨field, hmember, rfl⟩ := List.mem_map.mp hmem
    have hproperty := property_object hnodup hreplaced hmember
    exact Option.some.inj (hproperty.symm.trans (hfields field hmember))
  · rw [if_neg, property_of_not_mem_shape hreplaced hmem, property_of_not_mem_shape hread hmem]
    rintro rfl
    exact hmem (List.mem_map_of_mem (f := Prod.fst) hfield)

theorem object_ext (hnodup : (shape.map Prod.fst).Nodup)
    (hlawful : ∀ field ∈ shape, Lawful field.2) {other : JsValue}
    (hvalue : object shape value = some (.obj results))
    (hother : object shape other = some (.obj others))
    (hsame : ∀ key, property key results = property key others) : results = others := by
  have hstable := (lawful_object hnodup hlawful).stable hvalue
  rw [object_congr fun field _ => congrArg field.2 (hsame field.1)] at hstable
  have hothers := (lawful_object hnodup hlawful).stable hother
  exact JsValue.obj.inj (Option.some.inj (hstable.symm.trans hothers))

end Shape

@[simp]
theorem defined_object (shape : List (String × Schema)) : Defined (object shape) := by
  intro value hread
  obtain ⟨_, _, _, _, hresult⟩ := object_eq_some_iff.mp hread
  cases hresult

section Record

variable {item : Schema}

theorem record_eq_some_iff {value result : JsValue} :
    record item value = some result ↔ ∃ properties results, value = .obj properties ∧
      mergeObject (properties.map fun entry => (entry.1, item entry.2)) = some results ∧
      result = .obj results := by
  constructor
  · intro hread
    cases value with
    | obj properties =>
        obtain ⟨results, hmerge, hresult⟩ := Option.map_eq_some_iff.mp hread
        exact ⟨properties, results, rfl, hmerge, hresult.symm⟩
    | _ => cases hread
  · rintro ⟨properties, results, rfl, hmerge, rfl⟩
    rw [record, hmerge]
    rfl

theorem mergeObject_stable (hlawful : Lawful item) {properties results : JsObject}
    (hmerge : mergeObject (properties.map fun entry => (entry.1, item entry.2)) = some results) :
    mergeObject (results.map fun entry => (entry.1, item entry.2)) = some results := by
  induction properties generalizing results with
  | nil =>
      obtain rfl := Option.some.inj hmerge
      rfl
  | cons entry properties ih =>
      obtain ⟨value, rest, hvalue, hrest, rfl⟩ := mergeObject_cons_eq_some.mp hmerge
      split
      · exact ih hrest
      · rename_i hdefined
        apply mergeObject_cons_eq_some.mpr
        exact ⟨value, rest, hlawful.stable hvalue, ih hrest, (if_neg hdefined).symm⟩

theorem mergeObject_full {pairs : List (String × Option JsValue)} {properties : JsObject}
    (hmerge : mergeObject pairs = some properties) (hlength : pairs.length ≤ properties.length) :
    pairs = properties.map fun entry => (entry.1, some entry.2) := by
  induction pairs generalizing properties with
  | nil =>
      obtain rfl := Option.some.inj hmerge
      rfl
  | cons pair pairs ih =>
      obtain ⟨value, rest, hvalue, hrest, rfl⟩ := mergeObject_cons_eq_some.mp hmerge
      have hle : rest.length ≤ pairs.length := by
        simpa only [List.length_map] using (keys_mergeObject hrest).length_le
      split at hlength
      · rw [List.length_cons] at hlength
        omega
      · rename_i hdefined
        rw [List.length_cons, List.length_cons] at hlength
        rw [if_neg hdefined, List.map_cons, ← ih hrest (by omega)]
        exact congrArg (· :: pairs) (Prod.ext rfl hvalue)

theorem lawful_record (hlawful : Lawful item) : Lawful (record item) where
  stable := by
    intro value result hread
    obtain ⟨properties, results, rfl, hmerge, rfl⟩ := record_eq_some_iff.mp hread
    exact record_eq_some_iff.mpr ⟨results, results, rfl, mergeObject_stable hlawful hmerge, rfl⟩
  faithful := by
    intro value other hread hedited hother
    obtain ⟨properties, results, rfl, hmerge, hvalue⟩ := record_eq_some_iff.mp hread
    obtain rfl := JsValue.obj.inj hvalue
    cases hedited with
    | @property value other before after key hedited =>
        obtain ⟨_, _, hobj, hmerge', hresult⟩ := record_eq_some_iff.mp hother
        obtain rfl := JsValue.obj.inj hobj
        obtain rfl := JsValue.obj.inj hresult
        have hsame := mergeObject_full hmerge (by rw [List.length_map])
        have hother := mergeObject_full hmerge' (by simp)
        simp only [List.map_append, List.map_cons] at hsame hother
        have hvalue := (List.cons.inj (List.append_inj_right hsame (by simp))).1
        have hothers := (List.cons.inj (List.append_inj_right hother (by simp))).1
        exact hlawful.faithful (Prod.mk.inj hvalue).2 hedited (Prod.mk.inj hothers).2

theorem defined_record : Defined (record item) := by
  intro value hread
  obtain ⟨_, _, _, _, hresult⟩ := record_eq_some_iff.mp hread
  cases hresult

end Record

section Union

variable {key : String} {options : List (String × List (String × Schema))}

theorem discriminatedUnion_eq_some_iff {value result : JsValue} :
    discriminatedUnion key options value = some result ↔ ∃ properties tag shape,
      value = .obj properties ∧ property key properties = .str tag ∧
      Dict.getEntries tag options = some shape ∧
      object ((key, literal tag) :: shape) value = some result := by
  constructor
  · intro hread
    cases value with
    | obj properties =>
        rw [discriminatedUnion] at hread
        split at hread
        · rename_i tag htag
          obtain ⟨shape, hshape, hread⟩ := Option.bind_eq_some_iff.mp hread
          exact ⟨properties, tag, shape, rfl, htag, hshape, hread⟩
        · cases hread
    | _ => cases hread
  · rintro ⟨properties, tag, shape, rfl, htag, hshape, hread⟩
    rw [discriminatedUnion]
    simp only [htag, hshape]
    exact hread

theorem property_discriminator {tag : String} {shape : List (String × Schema)}
    (hnodup : (((key, literal tag) :: shape).map Prod.fst).Nodup) {properties results : JsObject}
    (hread : object ((key, literal tag) :: shape) (.obj properties) = some (.obj results)) :
    property key results = .str tag :=
  (literal_eq_some_iff.mp (property_object hnodup hread List.mem_cons_self)).2

theorem lawful_discriminatedUnion
    (hoptions : ∀ option ∈ options, (key :: option.2.map Prod.fst).Nodup ∧
      ∀ field ∈ option.2, Lawful field.2) : Lawful (discriminatedUnion key options) := by
  have hoption : ∀ {tag : String} {shape : List (String × Schema)},
      Dict.getEntries tag options = some shape →
      (((key, literal tag) :: shape).map Prod.fst).Nodup ∧
        Lawful (object ((key, literal tag) :: shape)) := by
    intro tag shape hshape
    obtain ⟨hnodup, hlawful⟩ := hoptions _ (Dict.mem_of_getEntries hshape)
    refine ⟨hnodup, lawful_object hnodup fun field hfield => ?_⟩
    cases List.mem_cons.mp hfield with
    | inl heq => exact heq ▸ lawful_literal tag
    | inr hmem => exact hlawful field hmem
  constructor
  · intro value result hread
    obtain ⟨properties, tag, shape, rfl, -, hshape, hread⟩ :=
      discriminatedUnion_eq_some_iff.mp hread
    obtain ⟨hnodup, hlawful⟩ := hoption hshape
    obtain ⟨_, results, _, _, rfl⟩ := object_eq_some_iff.mp hread
    apply discriminatedUnion_eq_some_iff.mpr
    exact ⟨results, tag, shape, rfl, property_discriminator hnodup hread, hshape,
      hlawful.stable hread⟩
  · intro value other hread hedited hother
    obtain ⟨properties, tag, shape, rfl, htag, hshape, hread⟩ :=
      discriminatedUnion_eq_some_iff.mp hread
    obtain ⟨others, tag', shape', rfl, -, hshape', hother⟩ :=
      discriminatedUnion_eq_some_iff.mp hother
    -- The tag is read from the result, which is the same one.
    obtain rfl : tag = tag' := by
      have htag' := property_discriminator (hoption hshape').1 hother
      rw [htag] at htag'
      exact JsValue.str.inj htag'
    obtain rfl : shape = shape' := Option.some.inj (hshape.symm.trans hshape')
    exact (hoption hshape).2.faithful hread hedited hother

end Union

end Objects

section Lazy

/-- Whatever the first schema reads in values below the depth, the second one reads alike. -/
def Below (depth : Nat) (schema other : Schema) : Prop :=
  ∀ value result, value.depth < depth → schema value = some result → other value = some result

def Guarded (unfolding : Schema → Schema) : Prop :=
  ∀ schema other depth, Below depth schema other →
    Below (depth + 1) (unfolding schema) (unfolding other)

theorem below_refl (depth : Nat) (schema : Schema) : Below depth schema schema :=
  fun _ _ _ hread => hread

variable {depth : Nat}

theorem below_array {schema other : Schema} (hbelow : Below depth schema other) (minLength : Nat) :
    Below depth (array schema minLength) (array other minLength) := by
  intro value result hdepth hread
  obtain ⟨items, results, rfl, hlength, hitems, rfl⟩ := array_eq_some_iff.mp hread
  apply array_eq_some_iff.mpr
  refine ⟨items, results, rfl, hlength, ?_, rfl⟩
  have hinner : ∀ item ∈ items, item.depth < depth :=
    fun item hmem => (JsValue.depth_lt_of_mem hmem).trans hdepth
  clear hdepth hlength hread
  induction items generalizing results with
  | nil => exact hitems
  | cons item items ih =>
      obtain ⟨result, rest, hitem, hrest, rfl⟩ := mapM_cons_eq_some.mp hitems
      rw [List.forall_mem_cons] at hinner
      apply mapM_cons_eq_some.mpr
      exact ⟨result, rest, hbelow item result hinner.1 hitem, ih rest hrest hinner.2, rfl⟩

def ShapeBelow (depth : Nat) : List (String × Schema) → List (String × Schema) → Prop :=
  List.Forall₂ fun field other => field.1 = other.1 ∧ Below depth field.2 other.2

theorem below_object {shape other : List (String × Schema)}
    (hshape : ShapeBelow depth shape other) : Below (depth + 1) (object shape) (object other) := by
  intro value result hdepth hread
  obtain ⟨properties, results, rfl, hmerge, rfl⟩ := object_eq_some_iff.mp hread
  apply object_eq_some_iff.mpr
  refine ⟨properties, results, rfl, ?_, rfl⟩
  clear hread
  induction hshape generalizing results with
  | nil => exact hmerge
  | @cons field field' shape other hfield _ ih =>
      obtain ⟨value, rest, hvalue, hrest, rfl⟩ := mergeObject_cons_eq_some.mp hmerge
      have hlt : (property field.1 properties).depth < depth :=
        (JsValue.depth_property_lt field.1 properties).trans_le (Nat.le_of_lt_succ hdepth)
      have hother := hfield.2 _ _ hlt hvalue
      rw [hfield.1] at hother ⊢
      exact mergeObject_cons_eq_some.mpr ⟨value, rest, hother, ih rest hrest, rfl⟩

theorem below_discriminatedUnion {key : String}
    {options others : List (String × List (String × Schema))}
    (hoptions : List.Forall₂ (fun option other => option.1 = other.1 ∧ ShapeBelow depth option.2
      other.2) options others) :
    Below (depth + 1) (discriminatedUnion key options) (discriminatedUnion key others) := by
  intro value result hdepth hread
  obtain ⟨properties, tag, shape, rfl, htag, hshape, hobject⟩ :=
    discriminatedUnion_eq_some_iff.mp hread
  obtain ⟨shape', hshape', hbelow⟩ : ∃ shape', Dict.getEntries tag others = some shape' ∧
      ShapeBelow depth shape shape' := by
    clear hread
    induction hoptions with
    | nil => cases hshape
    | cons hoption _ ih =>
        rw [Dict.getEntries] at hshape ⊢
        rw [← hoption.1]
        split at hshape
        · rename_i heq
          obtain rfl := Option.some.inj hshape
          exact ⟨_, if_pos heq, hoption.2⟩
        · rename_i hne
          rw [if_neg hne]
          exact ih hshape
  apply discriminatedUnion_eq_some_iff.mpr
  refine ⟨properties, tag, shape', rfl, htag, hshape', ?_⟩
  exact below_object (.cons ⟨rfl, below_refl _ _⟩ hbelow) _ _ hdepth hobject

variable {unfolding : Schema → Schema}

theorem below_unfolded (hguarded : Guarded unfolding) (times depth : Nat) :
    Below depth (unfolded unfolding times) (unfolded unfolding depth) := by
  induction depth generalizing times with
  | zero => exact fun _ _ hdepth => absurd hdepth (Nat.not_lt_zero _)
  | succ depth ih =>
      cases times with
      | zero => exact fun _ _ _ hread => by cases hread
      | succ times => exact hguarded _ _ depth (ih times)

theorem lawful_unfolded (hlawful : ∀ schema, Lawful schema → Lawful (unfolding schema))
    (times : Nat) : Lawful (unfolded unfolding times) := by
  induction times with
  | zero => exact lawful_of_filter fun _ _ hread => by cases hread
  | succ times ih => exact hlawful _ ih

theorem lawful_lazy (hguarded : Guarded unfolding)
    (hlawful : ∀ schema, Lawful schema → Lawful (unfolding schema)) : Lawful (lazy unfolding) where
  stable := by
    intro value result hread
    apply below_unfolded hguarded (value.depth + 1) _ _ _ (Nat.lt_succ_self _)
    exact (lawful_unfolded hlawful _).stable hread
  faithful := by
    intro value other hread hedited hother
    have hfold : ∀ {value result}, lazy unfolding value = some result → ∀ {times},
        value.depth < times → unfolded unfolding times value = some result :=
      fun hread _ hlt => below_unfolded hguarded _ _ _ _ hlt hread
    have hvalue := hfold hread (Nat.lt_succ_of_le (Nat.le_max_left value.depth other.depth))
    have hothers := hfold hother (Nat.lt_succ_of_le (Nat.le_max_right value.depth other.depth))
    exact (lawful_unfolded hlawful _).faithful hvalue hedited hothers

end Lazy

end Schema

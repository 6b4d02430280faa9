import Aof.Lib.Schema

/-!
# Values that are written as JSON

`JSON.stringify` writes `null` for a number that is not finite.  `JSON.parse` reads such numbers,
since a literal may be too large for a double.  It never reads `undefined`.
-/

namespace JsValue

mutual

/-- The value that is read back, after it was written. -/
def stringified : JsValue → JsValue
  | num (.finite value) => num (.finite value)
  | num _ => null
  | arr items => arr (stringifiedItems items)
  | obj properties => obj (stringifiedProperties properties)
  | value => value

def stringifiedItems : List JsValue → List JsValue
  | [] => []
  | item :: items => (if item.isUndefined then null else item.stringified) :: stringifiedItems items

def stringifiedProperties : JsObject → JsObject
  | [] => []
  | (key, value) :: properties =>
      if value.isUndefined then stringifiedProperties properties
      else (key, value.stringified) :: stringifiedProperties properties

end

mutual

def isJson : JsValue → Bool
  | undefined => false
  | arr items => areJson items
  | obj properties => propertiesAreJson properties
  | _ => true

def areJson : List JsValue → Bool
  | [] => true
  | item :: items => item.isJson && areJson items

def propertiesAreJson : JsObject → Bool
  | [] => true
  | (_, value) :: properties => value.isJson && propertiesAreJson properties

end

mutual

def isFinite : JsValue → Bool
  | num (.finite _) => true
  | num _ => false
  | arr items => areFinite items
  | obj properties => propertiesAreFinite properties
  | _ => true

def areFinite : List JsValue → Bool
  | [] => true
  | item :: items => item.isFinite && areFinite items

def propertiesAreFinite : JsObject → Bool
  | [] => true
  | (_, value) :: properties => value.isFinite && propertiesAreFinite properties

end

variable {value : JsValue} {properties : JsObject} {items : List JsValue}

theorem isUndefined_of_isJson (hvalue : value.isJson = true) : value.isUndefined = false := by
  cases value <;> first | rfl | cases hvalue

mutual

theorem stringified_eq_self_iff :
    ∀ value : JsValue, value.isJson = true → (value.stringified = value ↔ value.isFinite = true)
  | undefined, hvalue => by cases hvalue
  | null, _ => by simp [stringified, isFinite]
  | bool _, _ => by simp [stringified, isFinite]
  | str _, _ => by simp [stringified, isFinite]
  | num (.finite _), _ => by simp [stringified, isFinite]
  | num .posInf, _ => by simp [stringified, isFinite]
  | num .negInf, _ => by simp [stringified, isFinite]
  | num .nan, _ => by simp [stringified, isFinite]
  | arr items, hvalue => by
      rw [stringified, isFinite, JsValue.arr.injEq]
      exact stringifiedItems_eq_self_iff items hvalue
  | obj properties, hvalue => by
      rw [stringified, isFinite, JsValue.obj.injEq]
      exact stringifiedProperties_eq_self_iff properties hvalue

theorem stringifiedItems_eq_self_iff :
    ∀ items : List JsValue, areJson items = true →
      (stringifiedItems items = items ↔ areFinite items = true)
  | [], _ => by simp [stringifiedItems, areFinite]
  | item :: items, hitems => by
      rw [areJson, Bool.and_eq_true] at hitems
      have hitem := stringified_eq_self_iff item hitems.1
      have hrest := stringifiedItems_eq_self_iff items hitems.2
      rw [stringifiedItems, isUndefined_of_isJson hitems.1, areFinite, List.cons.injEq,
        Bool.and_eq_true]
      exact and_congr hitem hrest

theorem stringifiedProperties_eq_self_iff :
    ∀ properties : JsObject, propertiesAreJson properties = true →
      (stringifiedProperties properties = properties ↔ propertiesAreFinite properties = true)
  | [], _ => by simp [stringifiedProperties, propertiesAreFinite]
  | (key, value) :: properties, hproperties => by
      rw [propertiesAreJson, Bool.and_eq_true] at hproperties
      have hvalue := stringified_eq_self_iff value hproperties.1
      have hrest := stringifiedProperties_eq_self_iff properties hproperties.2
      rw [stringifiedProperties, isUndefined_of_isJson hproperties.1, propertiesAreFinite,
        if_neg Bool.false_ne_true, List.cons.injEq, Prod.mk.injEq, Bool.and_eq_true]
      exact and_congr ((and_iff_right rfl).trans hvalue) hrest

end

mutual

theorem isJson_stringified :
    ∀ value : JsValue, value.isJson = true → value.stringified.isJson = true
  | undefined, hvalue => by cases hvalue
  | null, _ => rfl
  | bool _, _ => rfl
  | str _, _ => rfl
  | num (.finite _), _ => rfl
  | num .posInf, _ => rfl
  | num .negInf, _ => rfl
  | num .nan, _ => rfl
  | arr items, hvalue => by
      rw [stringified, isJson]
      exact areJson_stringifiedItems items hvalue
  | obj properties, hvalue => by
      rw [stringified, isJson]
      exact propertiesAreJson_stringified properties hvalue

theorem areJson_stringifiedItems :
    ∀ items : List JsValue, areJson items = true → areJson (stringifiedItems items) = true
  | [], _ => rfl
  | item :: items, hitems => by
      rw [areJson, Bool.and_eq_true] at hitems
      rw [stringifiedItems, isUndefined_of_isJson hitems.1, areJson, Bool.and_eq_true]
      exact ⟨isJson_stringified item hitems.1, areJson_stringifiedItems items hitems.2⟩

theorem propertiesAreJson_stringified :
    ∀ properties : JsObject, propertiesAreJson properties = true →
      propertiesAreJson (stringifiedProperties properties) = true
  | [], _ => rfl
  | (key, value) :: properties, hproperties => by
      rw [propertiesAreJson, Bool.and_eq_true] at hproperties
      rw [stringifiedProperties, isUndefined_of_isJson hproperties.1, if_neg Bool.false_ne_true,
        propertiesAreJson, Bool.and_eq_true]
      exact ⟨isJson_stringified value hproperties.1,
        propertiesAreJson_stringified properties hproperties.2⟩

end

section

variable (hproperties : propertiesAreJson properties = true)
include hproperties

theorem property_stringifiedProperties (key : String) :
    property key (stringifiedProperties properties) = (property key properties).stringified := by
  induction properties with
  | nil => rfl
  | cons entry properties ih =>
      obtain ⟨other, value⟩ := entry
      rw [propertiesAreJson, Bool.and_eq_true] at hproperties
      rw [stringifiedProperties, isUndefined_of_isJson hproperties.1, if_neg Bool.false_ne_true]
      by_cases hkey : other = key
      · rw [property, property, Dict.getEntries, Dict.getEntries, if_pos hkey, if_pos hkey]
        rfl
      · have hrest := ih hproperties.2
        rw [property, property] at hrest ⊢
        rw [Dict.getEntries, Dict.getEntries, if_neg hkey, if_neg hkey]
        exact hrest

theorem isJson_property (key : String) :
    property key properties = undefined ∨ (property key properties).isJson := by
  induction properties with
  | nil => exact .inl rfl
  | cons entry properties ih =>
      obtain ⟨other, value⟩ := entry
      rw [propertiesAreJson, Bool.and_eq_true] at hproperties
      rw [property, Dict.getEntries]
      split
      · exact .inr hproperties.1
      · exact ih hproperties.2

theorem stringified_property_eq_self_iff (key : String) :
    (property key properties).stringified = property key properties ↔
      (property key properties).isFinite = true := by
  cases isJson_property hproperties key with
  | inl habsent => simp [habsent, stringified, isFinite]
  | inr hjson => exact stringified_eq_self_iff _ hjson

theorem propertiesAreJson_setEntries {key : String} (hvalue : value.isJson = true) :
    propertiesAreJson (Dict.setEntries key value properties) = true := by
  induction properties with
  | nil =>
      rw [Dict.setEntries, propertiesAreJson, Bool.and_eq_true]
      exact ⟨hvalue, rfl⟩
  | cons entry properties ih =>
      obtain ⟨other, old⟩ := entry
      rw [propertiesAreJson, Bool.and_eq_true] at hproperties
      rw [Dict.setEntries]
      split
      · rw [propertiesAreJson, Bool.and_eq_true]
        exact ⟨hvalue, hproperties.2⟩
      · rw [propertiesAreJson, Bool.and_eq_true]
        exact ⟨hproperties.1, ih hproperties.2⟩

end

theorem areJson_iff : areJson items = true ↔ ∀ item ∈ items, item.isJson := by
  induction items with
  | nil => exact iff_of_true rfl fun _ hitem => absurd hitem List.not_mem_nil
  | cons item items ih => rw [areJson, Bool.and_eq_true, ih, List.forall_mem_cons]

theorem map_stringified_eq_self_iff (hitems : ∀ item ∈ items, item.isJson) :
    items.map stringified = items ↔ ∀ item ∈ items, item.isFinite = true := by
  have hself : items.map stringified = items ↔ ∀ item ∈ items, item.stringified = item := by
    conv_lhs => rhs; rw [← List.map_id items]
    exact List.map_inj_left
  rw [hself]
  exact forall₂_congr fun item hitem => stringified_eq_self_iff item (hitems item hitem)

theorem stringifiedItems_eq_map (hitems : areJson items = true) :
    stringifiedItems items = items.map stringified := by
  induction items with
  | nil => rfl
  | cons item items ih =>
      rw [areJson, Bool.and_eq_true] at hitems
      rw [stringifiedItems, isUndefined_of_isJson hitems.1, ih hitems.2]
      rfl

end JsValue

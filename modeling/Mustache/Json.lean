import Mustache.Json.Number

/-!
# JSON values

The data that a template is filled with. The members of an object are kept in ascending order of
their keys, each key once.
-/

namespace Mustache

/-- A JSON value. -/
inductive Json where
  | null
  | bool (value : Bool)
  | number (value : Json.Number)
  | string (value : Text)
  | array (items : List Json)
  | object (members : List (Text × Json))

namespace Json

/-- The member of an object. -/
def member? (key : Text) : Json → Option Json
  | .object members => members.lookup key
  | _ => none

/-- The word for a kind of value. -/
def kindName : Json → Text
  | .null => "null".toList
  | .bool _ => "boolean".toList
  | .number _ => "number".toList
  | .string _ => "string".toList
  | .array _ => "array".toList
  | .object _ => "object".toList

/-- The text of a truth value. What counts as false has no text. -/
def boolText (value : Bool) : Text := if value then "true".toList else []

/-- The text of a value that is neither an array nor an object. -/
def scalarText? : Json → Option Text
  | .null => some []
  | .bool value => some (boolText value)
  | .number n => some n.text
  | .string s => some s
  | .array _ | .object _ => none

/-- The members of an object with their texts, when all of them are scalars. -/
def flatMembers? (members : List (Text × Json)) : Option (List (Text × Text)) :=
  members.mapM fun (key, value) => value.scalarText?.map (key, ·)

/-! ## Induction -/

theorem sizeOf_lt_array {items : List Json} {item : Json} (h : item ∈ items) :
    sizeOf item < sizeOf (Json.array items) := by
  have hlt := List.sizeOf_lt_of_mem h
  simp only [Json.array.sizeOf_spec]
  omega

theorem sizeOf_lt_object {members : List (Text × Json)} {m : Text × Json} (h : m ∈ members) :
    sizeOf m.2 < sizeOf (Json.object members) := by
  have hlt := List.sizeOf_lt_of_mem h
  obtain ⟨key, value⟩ := m
  simp only [Prod.mk.sizeOf_spec] at hlt
  simp only [Json.object.sizeOf_spec]
  omega

/-- What holds of scalars, of arrays of values that it holds of, and of objects with such members
holds of every value. -/
theorem value_induction {motive : Json → Prop}
    (scalar : ∀ value text, value.scalarText? = some text → motive value)
    (array : ∀ items, (∀ item ∈ items, motive item) → motive (.array items))
    (object : ∀ members, (∀ m ∈ members, motive m.2) → motive (.object members)) :
    ∀ value, motive value
  | .null => scalar .null _ rfl
  | .bool b => scalar (.bool b) _ rfl
  | .number n => scalar (.number n) _ rfl
  | .string s => scalar (.string s) _ rfl
  | .array items => array items fun item _ => value_induction scalar array object item
  | .object members => object members fun m _ => value_induction scalar array object m.2
termination_by value => sizeOf value
decreasing_by
  · exact sizeOf_lt_array ‹_›
  · exact sizeOf_lt_object ‹_›

end Json

end Mustache

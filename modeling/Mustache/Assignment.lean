import Mustache.Context.Populate
import Mustache.Decimal.Layout
import Mustache.Decimal.Read

/-!
# Assignments

What a program may bind a name to directly. The shape of the value decides how the name is bound: a
text becomes a variable, fields and functions become sections.
-/

namespace Mustache

/-- A value for one name. -/
inductive Assignment where
  | text (value : Text)
  | fields (map : Table Text)
  | function (f : Text → Text)

namespace Assignment

/-! ## Values with a text -/

/-- A truth value. What is false has no text, so that it counts as false in sections too. -/
def ofBool (value : Bool) : Assignment := .text (Json.boolText value)

/-- A whole number. -/
def ofInt (value : Int) : Assignment := .text (Json.Number.integer value).text

/-- Numbers of a binary format are written without an exponent; a whole number has no point. -/
def layout : Layout where
  isPlain _ := true
  wholePoint := false
  tie := .up

/-- A number of a binary format. -/
def ofReal (f : BinaryFormat) : RealValue → Assignment
  | .finite negative magnitude => .text (layout.write f negative magnitude)
  | .infinite negative => .text (if negative then "-inf".toList else "inf".toList)
  | .notANumber => .text "NaN".toList

/-- The value that a JSON value stands for. Arrays, and objects that hold more than scalars, stand
for none. -/
def ofJson : Json → Except UnsupportedData Assignment
  | .object members =>
    match Json.flatMembers? members with
    | some entries => .ok (.fields (.ofList entries))
    | none => .error .nestedObject
  | .array _ => .error .bareArray
  | .null => .ok (.text [])
  | .bool value => .ok (ofBool value)
  | .number n => .ok (.text n.text)
  | .string s => .ok (.text s)

end Assignment

namespace Context

/-- Binds a name to a value. -/
def set (c : Context) (id : ScopeId) (key : Text) : Assignment → Except NoSuchScope Context
  | .text value => c.setText id key value
  | .fields map => c.setSection id key (.fields map)
  | .function f => c.setSection id key (.function f)

/-- Binds a name to a JSON value, if it stands for a value of one name. -/
def setJson (c : Context) (id : ScopeId) (key : Text) (data : Json) : Except ContextError Context :=
  match Assignment.ofJson data with
  | .ok value => (c.set id key value).mapError .noSuchScope
  | .error e => .error (.unsupported e)

end Context

end Mustache

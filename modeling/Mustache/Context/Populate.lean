import Mustache.Context
import Mustache.Json

/-!
# Contexts from JSON

A scope takes in the members of an object. A scalar becomes a text. An object of scalars becomes
fields. An object that holds more becomes a scope of its own, the only item of its name. An array
becomes one scope for each of its items; an item that is no object is bound to the name `.` there.
-/

namespace Mustache

/-- Data that cannot be bound. -/
inductive UnsupportedData where
  /-- Data for a scope that is not an object. -/
  | notAnObject (kind : Text)
  /-- An object with a member that is not a scalar, where fields are wanted. -/
  | nestedObject
  /-- An array where one value is wanted. -/
  | bareArray
deriving DecidableEq, Repr

/-- The words for data that cannot be bound. -/
def UnsupportedData.message : UnsupportedData → Text
  | .notAnObject kind => "Root data must be an object, got ".toList ++ kind
  | .nestedObject => "object with nested values cannot be a value section".toList
  | .bareArray => "cannot bind array directly".toList

/-- Why a context could not be asked or changed. -/
inductive ContextError where
  | keyNotFound (key : Text)
  | unsupported (data : UnsupportedData)
  | noSuchScope (missing : NoSuchScope)
deriving DecidableEq, Repr

/-- The words for a context that could not be asked or changed. -/
def ContextError.message : ContextError → Text
  | .keyNotFound key => "Key not found: '".toList ++ key ++ ['\'']
  | .unsupported data => "Unsupported binding type: ".toList ++ data.message
  | .noSuchScope missing => "no scope ".toList ++ Text.ofNat missing.id

namespace Context

/-- The text that a scope itself binds a name to; it is an error if there is none. -/
def get (c : Context) (id : ScopeId) (key : Text) : Except ContextError Text :=
  match c.get? id key with
  | .ok (some value) => .ok value
  | .ok none => .error (.keyNotFound key)
  | .error e => .error (.noSuchScope e)

/-- The name of an item that is not an object, in the scope that stands for it. -/
def itemName : Text := ['.']

mutual

/-- Binds a name to a JSON value. -/
def bindValue (id : ScopeId) (key : Text) (c : Context) : Json → Except NoSuchScope Context
  | .object members =>
    match Json.flatMembers? members with
    | some fields => c.setSection id key (.fields (.ofList fields))
    | none => do
      let (c, child) ← c.addItem id key
      bindMembers child c members
  | .array items => do
    let c ← c.reserveItems id key
    let (c, scopes) ← bindItems id [] c items
    c.appendItems id key scopes
  | .null => c.setText id key []
  | .bool b => c.setText id key (Json.boolText b)
  | .number n => c.setText id key n.text
  | .string s => c.setText id key s

/-- Binds the members of an object, one after the other. -/
def bindMembers (id : ScopeId) (c : Context) : List (Text × Json) → Except NoSuchScope Context
  | [] => .ok c
  | (key, value) :: rest => do
    let c ← bindValue id key c value
    bindMembers id c rest

/-- Adds a scope below `id` for each item of an array. The answer names the scopes in the order of
the items; `done` holds those of the items before, the last one first. -/
def bindItems (id : ScopeId) (done : List ScopeId) (c : Context) :
    List Json → Except NoSuchScope (Context × List ScopeId)
  | [] => .ok (c, done.reverse)
  | item :: rest => do
    let (c, child) := c.addScope id
    let c ← match item with
      | .object members => bindMembers child c members
      | item => bindValue child itemName c item
    bindItems id (child :: done) c rest

end

/-- Takes the members of an object into a scope. -/
def extendJson (c : Context) (id : ScopeId) : Json → Except ContextError Context
  | .object members => (c.bindMembers id members).mapError .noSuchScope
  | data => .error (.unsupported (.notAnObject data.kindName))

/-- The context whose root holds the members of an object. -/
def ofJson (data : Json) : Except ContextError Context := empty.extendJson root data

end Context

end Mustache

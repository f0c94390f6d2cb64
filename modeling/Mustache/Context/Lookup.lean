import Mustache.Context

/-!
# Lookup of names

A name is looked up in a scope, then in the scope's parent, and so on up to the root. Sections of
different kinds do not hide each other: a lookup for one kind passes over the other kinds.
-/

namespace Mustache.Context

/-- The scopes from one scope up to the root. A context holds no more than `fuel` of them when
`fuel` is the number of its scopes. -/
def ancestors (c : Context) : (fuel : Nat) → ScopeId → List Scope
  | 0, _ => []
  | fuel + 1, id =>
    match c.scopes[id]? with
    | none => []
    | some s =>
      match s.parent with
      | none => [s]
      | some parent => s :: c.ancestors fuel parent

/-- The scope and those above it, the nearest first. -/
def chain (c : Context) (id : ScopeId) : Except NoSuchScope (List Scope) :=
  if id < c.scopes.size then .ok (c.ancestors c.scopes.size id) else .error ⟨id⟩

/-- The text of a name in the nearest scope that binds it. -/
def fetch (c : Context) (id : ScopeId) (key : Text) : Except NoSuchScope (Option Text) :=
  (c.chain id).map (·.findSome? (·.texts[key]?))

/-- The nearest section of a name that is of the kind that `pick` picks. -/
def fetchSection {α : Type} (pick : Section → Option α) (c : Context) (id : ScopeId) (key : Text) :
    Except NoSuchScope (Option α) :=
  (c.chain id).map (·.findSome? fun s => s.sections[key]?.bind pick)

/-- The nearest fields of a name. -/
def fetchFields : Context → ScopeId → Text → Except NoSuchScope (Option (Table Text)) :=
  fetchSection Section.fields?

/-- The nearest function of a name. -/
def fetchFunction : Context → ScopeId → Text → Except NoSuchScope (Option (Text → Text)) :=
  fetchSection Section.function?

/-- The nearest items of a name. -/
def fetchItems : Context → ScopeId → Text → Except NoSuchScope (Option (List ScopeId)) :=
  fetchSection Section.items?

/-- What a section tag with this name stands for: the nearest fields, or else the nearest function,
or else the nearest items, wherever in the chain they are. -/
def resolve (c : Context) (id : ScopeId) (key : Text) : Except NoSuchScope (Option Section) := do
  match ← c.fetchFields id key with
  | some map => return some (.fields map)
  | none =>
    match ← c.fetchFunction id key with
    | some f => return some (.function f)
    | none => return (← c.fetchItems id key).map .items

end Mustache.Context

import Mustache.Table
import Mustache.Text

/-!
# Contexts

The data that a template is filled with: scopes that bind names to texts and to sections. All
scopes of a context stand in one sequence and are named by their place in it; place 0 is the root.
A scope knows its parent, and a section can list scopes as its items.

An operation on a scope that is not there has no result but `NoSuchScope`.
-/

namespace Mustache

/-- The place of a scope in its context. -/
abbrev ScopeId := Nat

/-- What a name is bound to as a section. -/
inductive Section where
  /-- Names with their texts. -/
  | fields (map : Table Text)
  /-- A function on template text. -/
  | function (f : Text → Text)
  /-- Scopes to go through. -/
  | items (scopes : List ScopeId)

/-- The kinds of sections. -/
inductive Section.Kind where
  | fields
  | function
  | items
deriving DecidableEq, Repr

namespace Section

/-- The kind of a section. -/
def kind : Section → Kind
  | .fields _ => .fields
  | .function _ => .function
  | .items _ => .items

/-- Whether a section counts as false. A function never does. -/
def isEmpty : Section → Bool
  | .fields map => map.isEmpty
  | .function _ => false
  | .items scopes => scopes.isEmpty

def fields? : Section → Option (Table Text)
  | .fields map => some map
  | _ => none

def function? : Section → Option (Text → Text)
  | .function f => some f
  | _ => none

def items? : Section → Option (List ScopeId)
  | .items scopes => some scopes
  | _ => none

end Section

/-- A level of names. -/
structure Scope where
  texts : Table Text := ∅
  sections : Table Section := ∅
  parent : Option ScopeId := none

instance : Inhabited Scope := ⟨{}⟩

/-- The items that a scope itself binds a name to; any other section counts as no items. -/
def Scope.itemsOf (s : Scope) (key : Text) : List ScopeId :=
  (s.sections[key]?.bind Section.items?).getD []

/-- A scope that is not part of the context. -/
structure NoSuchScope where
  id : ScopeId
deriving DecidableEq, Repr

/-- A sequence of scopes. -/
structure Context where
  scopes : Array Scope

namespace Context

/-- The context with an empty root and no other scope. -/
def empty : Context := ⟨#[{}]⟩

instance : Inhabited Context := ⟨empty⟩

/-- The place of the scope that every other scope descends from. -/
def root : ScopeId := 0

/-- A scope of the context. -/
def scope (c : Context) (id : ScopeId) : Except NoSuchScope Scope :=
  match c.scopes[id]? with
  | some s => .ok s
  | none => .error ⟨id⟩

/-- Changes one scope. -/
def modify (c : Context) (id : ScopeId) (f : Scope → Scope) : Except NoSuchScope Context :=
  if h : id < c.scopes.size then .ok ⟨c.scopes.set id (f c.scopes[id])⟩ else .error ⟨id⟩

/-! ## One scope -/

/-- The parent of a scope. -/
def parent (c : Context) (id : ScopeId) : Except NoSuchScope (Option ScopeId) :=
  (c.scope id).map (·.parent)

/-- The text that a scope itself binds a name to. -/
def get? (c : Context) (id : ScopeId) (key : Text) : Except NoSuchScope (Option Text) :=
  (c.scope id).map (·.texts[key]?)

/-- The section that a scope itself binds a name to. -/
def section? (c : Context) (id : ScopeId) (key : Text) : Except NoSuchScope (Option Section) :=
  (c.scope id).map (·.sections[key]?)

/-- Binds a name to a text. -/
def setText (c : Context) (id : ScopeId) (key value : Text) : Except NoSuchScope Context :=
  c.modify id fun s => { s with texts := s.texts.insert key value }

/-- Binds a name to a section, in place of the one that it was bound to. -/
def setSection (c : Context) (id : ScopeId) (key : Text) (value : Section) :
    Except NoSuchScope Context :=
  c.modify id fun s => { s with sections := s.sections.insert key value }

/-- Adds items behind those that a name is bound to. A name that was not bound to items before is
bound to the new ones alone. -/
def appendItems (c : Context) (id : ScopeId) (key : Text) (scopes : List ScopeId) :
    Except NoSuchScope Context :=
  c.modify id fun s =>
    { s with sections := s.sections.insert key (.items (s.itemsOf key ++ scopes)) }

/-- Binds a name to items, none if it was not bound to items yet. -/
def reserveItems (c : Context) (id : ScopeId) (key : Text) : Except NoSuchScope Context :=
  c.appendItems id key []

/-- Adds a scope below `parent`. -/
def addScope (c : Context) (parent : ScopeId) : Context × ScopeId :=
  let child := c.scopes.size
  (⟨c.scopes.push { parent := some parent }⟩, child)

/-- Adds a scope below `id` and makes it the last item of `key` there. -/
def addItem (c : Context) (id : ScopeId) (key : Text) : Except NoSuchScope (Context × ScopeId) :=
  let (c, child) := c.addScope id
  (c.appendItems id key [child]).map (·, child)

end Context

end Mustache

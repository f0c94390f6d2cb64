import Mustache.Assignment

/-!
# Contexts that a program can make

`Context.Reachable` holds of the contexts that come about by operations on scopes that are there,
`Context.Closed` of those in which every section goes through scopes of the context.
-/

namespace Mustache

/-- The sections of a scope go through the first `n` scopes only. -/
def Scope.ItemsBelow (n : Nat) (s : Scope) : Prop :=
  ∀ (key : Text) (scopes : List ScopeId), s.sections[key]? = some (.items scopes) →
    ∀ id ∈ scopes, id < n

namespace Context

/-- What a program can make of the empty context. Each operation is given a scope that is there. -/
inductive Reachable : Context → Prop
  | empty : Reachable .empty
  | set {c c' id key value} : Reachable c → id < c.scopes.size → c.set id key value = .ok c' →
    Reachable c'
  | addItem {c c' id key child} : Reachable c → id < c.scopes.size →
    c.addItem id key = .ok (c', child) → Reachable c'
  | reserveItems {c c' id key} : Reachable c → id < c.scopes.size →
    c.reserveItems id key = .ok c' → Reachable c'
  | extendJson {c c' id data} : Reachable c → id < c.scopes.size →
    c.extendJson id data = .ok c' → Reachable c'

theorem reachable_ofJson {c : Context} {data : Json} (h : ofJson data = .ok c) : Reachable c :=
  .extendJson .empty (by decide) h

/-- Every section goes through scopes of the context. -/
def Closed (c : Context) : Prop := ∀ s ∈ c.scopes, s.ItemsBelow c.scopes.size

end Context

end Mustache

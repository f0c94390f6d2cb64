import Mustache.Context.Lookup

/-!
# Contexts without functions

Where no name is bound to a function, a lookup finds none.
-/

namespace Mustache

/-- No name is bound to a function. -/
def Context.LambdaFree (c : Context) : Prop :=
  ∀ s ∈ c.scopes, ∀ (key : Text) (f : Text → Text), s.sections[key]? ≠ some (.function f)

namespace Context

theorem mem_scopes_of_mem_ancestors {c : Context} {fuel : Nat} {id : ScopeId} {s : Scope}
    (h : s ∈ c.ancestors fuel id) : s ∈ c.scopes := by
  induction fuel generalizing id with
  | zero => cases h
  | succ fuel ih =>
    rw [ancestors] at h
    split at h
    · cases h
    · next s' hs' =>
      have hmem := Array.mem_of_getElem? hs'
      split at h
      · rw [List.mem_singleton] at h
        exact h ▸ hmem
      · rcases List.mem_cons.1 h with rfl | h
        · exact hmem
        · exact ih h

theorem LambdaFree.fetchFunction_eq {c : Context} (hc : c.LambdaFree) {id : ScopeId} {key : Text}
    {f : Option (Text → Text)} (h : c.fetchFunction id key = .ok f) : f = none := by
  rw [fetchFunction, fetchSection, chain] at h
  split at h
  · cases h
    rw [List.findSome?_eq_none_iff]
    intro s hs
    have hmem := mem_scopes_of_mem_ancestors hs
    cases hsection : s.sections[key]? with
    | none => rfl
    | some section? =>
      cases section? with
      | function f => exact absurd hsection (hc s hmem key f)
      | fields | items => rfl
  · cases h

theorem LambdaFree.fetchFunction {c : Context} (hc : c.LambdaFree) {id : ScopeId} (key : Text)
    (hid : id < c.scopes.size) : c.fetchFunction id key = .ok none := by
  have hchain : c.chain id = .ok (c.ancestors c.scopes.size id) := if_pos hid
  have hfetch : c.fetchFunction id key = .ok ((c.ancestors c.scopes.size id).findSome? fun s =>
      s.sections[key]?.bind Section.function?) := by
    rw [Context.fetchFunction, fetchSection, hchain]
    rfl
  rw [hfetch, hc.fetchFunction_eq hfetch]

theorem LambdaFree.resolve_ne {c : Context} (hc : c.LambdaFree) (id : ScopeId) (key : Text)
    (f : Text → Text) : c.resolve id key ≠ .ok (some (.function f)) := by
  intro h
  rw [resolve] at h
  cases hfields : c.fetchFields id key with
  | error e => rw [hfields] at h; cases h
  | ok map? =>
    rw [hfields] at h
    cases map? with
    | some map => cases h
    | none =>
      change (c.fetchFunction id key >>= _) = _ at h
      cases hfunction : c.fetchFunction id key with
      | error e => rw [hfunction] at h; cases h
      | ok f? =>
        rw [hfunction, hc.fetchFunction_eq hfunction] at h
        change (c.fetchItems id key >>= _) = _ at h
        cases hitems : c.fetchItems id key with
        | error e => rw [hitems] at h; cases h
        | ok items? => rw [hitems] at h; cases items? <;> cases h

end Context

end Mustache

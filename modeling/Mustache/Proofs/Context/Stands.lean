import Mustache.Context.Lookup
import Mustache.Proofs.Json.Flat

/-!
# Scopes that stand for JSON objects

`Context.Stands c id members` says that the scope `id`, with all that is below it, holds what the
members hold. A context that is made from an object has a root that stands for it
(`Context.exists_ofJson`).
-/

namespace Mustache

namespace Context

open Json (Members)

/-- The scope `id` and the scopes below it stand for the members of an object. `children` holds, by
name, the scopes that a section goes through, each with the members that it stands for. -/
inductive Stands (c : Context) : ScopeId → Members → Prop
  | intro {id s members} (children : Text → Option (List (ScopeId × Members))) :
    c.scopes[id]? = some s →
    (∀ key : Text, s.texts[key]? = (members.lookup key).bind Json.scalarText?) →
    (∀ key : Text, s.sections[key]?.bind Section.fields? =
      (members.lookup key).bind Json.fields?) →
    (∀ key : Text, s.sections[key]?.bind Section.function? = none) →
    (∀ key : Text, s.sections[key]?.bind Section.items? =
      (children key).map (·.map Prod.fst)) →
    (∀ key, (members.lookup key).bind Json.items? = (children key).map (·.map Prod.snd)) →
    (∀ key, ∀ below ∈ children key, ∀ child ∈ below,
      id < child.1 ∧ c.parent child.1 = .ok (some id)) →
    (∀ key, ∀ below ∈ children key, ∀ child ∈ below, Stands c child.1 child.2) →
    Stands c id members

/-- A scope that a section of `id` goes through, with the members that it stands for. -/
structure Child (c : Context) (id : ScopeId) (child : ScopeId × Members) : Prop where
  lt : id < child.1
  parent_eq : c.parent child.1 = .ok (some id)
  stands : Stands c child.1 child.2

/-- A scope binds a name to what a value says, or to nothing where there is no value. -/
structure Binds (c : Context) (id : ScopeId) (s : Scope) (key : Text) (value : Option Json) :
    Prop where
  text : s.texts[key]? = value.bind Json.scalarText?
  fields : s.sections[key]?.bind Section.fields? = value.bind Json.fields?
  function : s.sections[key]?.bind Section.function? = none
  items : ∃ children : Option (List (ScopeId × Members)),
    s.sections[key]?.bind Section.items? = children.map (·.map Prod.fst) ∧
    value.bind Json.items? = children.map (·.map Prod.snd) ∧
    ∀ below ∈ children, ∀ child ∈ below, Child c id child

variable {c c' : Context} {id : ScopeId} {s : Scope} {key : Text} {members : Members}

theorem stands_of_binds (hs : c.scopes[id]? = some s)
    (h : ∀ key, Binds c id s key (members.lookup key)) : Stands c id members := by
  obtain ⟨children, hchildren⟩ := Classical.axiomOfChoice fun key => (h key).items
  refine .intro children hs (fun key => (h key).text) (fun key => (h key).fields)
    (fun key => (h key).function) (fun key => (hchildren key).1) (fun key => (hchildren key).2.1)
    (fun key below hbelow child hchild => ?_) (fun key below hbelow child hchild => ?_)
  · have := (hchildren key).2.2 below hbelow child hchild
    exact ⟨this.lt, this.parent_eq⟩
  · exact ((hchildren key).2.2 below hbelow child hchild).stands

/-- A scope that stands for members is there, and binds each name as the members do. -/
theorem Stands.exists_scope (h : Stands c id members) :
    ∃ s, c.scopes[id]? = some s ∧ ∀ key, Binds c id s key (members.lookup key) := by
  obtain ⟨children, hs, htext, hfields, hfunction, hids, hitems, hparents, hstands⟩ := h
  refine ⟨_, hs, fun key => ⟨htext key, hfields key, hfunction key, children key, hids key,
    hitems key, fun below hbelow child hchild => ?_⟩⟩
  obtain ⟨hlt, hparent⟩ := hparents key below hbelow child hchild
  exact ⟨hlt, hparent, hstands key below hbelow child hchild⟩

/-! ### Scopes that are left alone -/

theorem parent_eq_of_scopes_eq {j : ScopeId} (h : c'.scopes[j]? = c.scopes[j]?) :
    c'.parent j = c.parent j := by
  rw [parent, parent, scope, scope, h]

theorem lt_size_of_parent_eq {j : ScopeId} {p : Option ScopeId} (h : c.parent j = .ok p) :
    j < c.scopes.size := by
  rw [parent, scope] at h
  split at h
  · next hs => exact (Array.getElem?_eq_some_iff.1 hs).1
  · cases h

/-- What a scope stands for lies in the scopes from it on. -/
theorem Stands.mono (h : Stands c id members)
    (hkept : ∀ j, id ≤ j → j < c.scopes.size → c'.scopes[j]? = c.scopes[j]?) :
    Stands c' id members := by
  induction h with
  | intro children hs htext hfields hfunction hids hitems hparents _ ih =>
    have hlt := (Array.getElem?_eq_some_iff.1 hs).1
    refine .intro children ((hkept _ (Nat.le_refl _) hlt).trans hs) htext hfields hfunction hids
      hitems (fun key below hbelow child hchild => ?_) (fun key below hbelow child hchild => ?_)
    · obtain ⟨hid, hparent⟩ := hparents key below hbelow child hchild
      have hkept := hkept child.1 (Nat.le_of_lt hid) (lt_size_of_parent_eq hparent)
      exact ⟨hid, (parent_eq_of_scopes_eq hkept).trans hparent⟩
    · obtain ⟨hid, -⟩ := hparents key below hbelow child hchild
      exact ih key below hbelow child hchild fun j hj =>
        hkept j (Nat.le_trans (Nat.le_of_lt hid) hj)

theorem Child.mono {child : ScopeId × Members} (h : Child c id child)
    (hkept : ∀ j, id < j → j < c.scopes.size → c'.scopes[j]? = c.scopes[j]?) :
    Child c' id child := by
  obtain ⟨hlt, hparent, hstands⟩ := h
  have hparent' := parent_eq_of_scopes_eq (hkept child.1 hlt (lt_size_of_parent_eq hparent))
  exact ⟨hlt, hparent'.trans hparent, hstands.mono fun j hj => hkept j (Nat.lt_of_lt_of_le hlt hj)⟩

end Context

end Mustache

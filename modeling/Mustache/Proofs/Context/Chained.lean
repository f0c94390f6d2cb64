import Mustache.Frame
import Mustache.Proofs.Context.Stands
import Mustache.Proofs.Render.Direct

/-!
# Lookup in scopes that stand for objects

Where each scope of a chain stands for one of the objects around, a lookup in the chain finds what
the objects hold.
-/

namespace Mustache

open Json (Members)
open Direct (nearestFields? nearestItems? head? walk? Spot)

namespace Context

/-- The scope, if there is one, and those above it stand for the objects, one for one. -/
inductive Chained (c : Context) : Option ScopeId → List Members → Prop
  | nil : Chained c none []
  | cons {id members parent outer} : Stands c id members → c.parent id = .ok parent →
    (∀ p ∈ parent, p < id) → Chained c parent outer → Chained c (some id) (members :: outer)

variable {c : Context} {id fuel : Nat} {from? : Option ScopeId} {s : Scope} {around : List Members}

theorem Chained.lt_size (h : Chained c (some id) around) : id < c.scopes.size := by
  cases h with
  | cons _ hparent => exact lt_size_of_parent_eq hparent

theorem Chained.chain_eq (h : Chained c (some id) around) :
    c.chain id = .ok (c.ancestors c.scopes.size id) := if_pos h.lt_size

theorem Chained.child {child : ScopeId × Members} (h : Chained c (some id) around)
    (hchild : Child c id child) : Chained c (some child.1) (child.2 :: around) := by
  refine .cons hchild.stands hchild.parent_eq ?_ h
  rintro _ ⟨⟩
  exact hchild.lt

theorem ancestors_succ {parent : Option ScopeId} (hs : c.scopes[id]? = some s)
    (hparent : c.parent id = .ok parent) :
    c.ancestors (fuel + 1) id = s :: parent.elim [] (c.ancestors fuel) := by
  rw [Context.parent, scope, hs] at hparent
  cases hparent
  rw [ancestors, hs]
  cases hs' : s.parent with
  | none | some p => simp [hs']

/-- A search that agrees on each scope and its object agrees on the chain. -/
theorem Chained.findSome?_eq {α : Type} {f : Scope → Option α} {g : Members → Option α}
    (hfg : ∀ {id s members}, (∀ key, Binds c id s key (members.lookup key)) → f s = g members)
    (h : Chained c from? around) (hfuel : ∀ id ∈ from?, id < fuel) :
    (from?.elim [] (c.ancestors fuel)).findSome? f = around.findSome? g := by
  induction h generalizing fuel with
  | nil => rfl
  | cons hstands hparent hlt _ ih =>
    obtain ⟨s, hs, hbinds⟩ := hstands.exists_scope
    have hfuel := hfuel _ rfl
    obtain ⟨fuel, rfl⟩ := Nat.exists_eq_add_one_of_ne_zero (Nat.ne_of_gt (Nat.zero_lt_of_lt hfuel))
    rw [Option.elim_some, ancestors_succ hs hparent, List.findSome?_cons, List.findSome?_cons,
      hfg hbinds, ih fun p hp => Nat.lt_of_lt_of_le (hlt p hp) (Nat.le_of_lt_succ hfuel)]

/-- The search over the chain of a scope. -/
theorem Chained.map_chain_eq {α : Type} {f : Scope → Option α} {g : Members → Option α}
    (hfg : ∀ {id s members}, (∀ key, Binds c id s key (members.lookup key)) → f s = g members)
    (h : Chained c (some id) around) :
    (c.chain id).map (·.findSome? f) = .ok (around.findSome? g) := by
  rw [h.chain_eq]
  refine congrArg _ (h.findSome?_eq hfg ?_)
  rintro _ ⟨⟩
  exact h.lt_size

theorem Chained.fetch_eq (h : Chained c (some id) around) (key : Text) :
    c.fetch id key =
      .ok (around.findSome? fun members => (members.lookup key).bind Json.scalarText?) :=
  h.map_chain_eq fun hbinds => (hbinds key).text

theorem Chained.fetchFields_eq (h : Chained c (some id) around) (key : Text) :
    c.fetchFields id key = .ok (nearestFields? around key) :=
  h.map_chain_eq fun hbinds => (hbinds key).fields

theorem Chained.fetchFunction_eq (h : Chained c (some id) around) (key : Text) :
    c.fetchFunction id key = .ok none := by
  refine (h.map_chain_eq fun hbinds => (hbinds key).function).trans (congrArg _ ?_)
  exact List.findSome?_eq_none_iff.2 fun _ _ => rfl

/-- The nearest items of a name in the chain stand for those in the objects, below the scope that
stands for the object they are in. -/
theorem Chained.exists_items (h : Chained c from? around) (hfuel : ∀ id ∈ from?, id < fuel)
    (key : Text) :
    ∃ nearest : Option (List (ScopeId × Members) × List Members),
      (from?.elim [] (c.ancestors fuel)).findSome?
          (fun s => s.sections[key]?.bind Section.items?) = nearest.map (·.1.map Prod.fst) ∧
      nearestItems? around key = nearest.map (fun n => (n.1.map Prod.snd, n.2)) ∧
      ∀ n ∈ nearest, ∀ child ∈ n.1, Chained c (some child.1) (child.2 :: n.2) := by
  induction h generalizing fuel with
  | nil => exact ⟨none, rfl, rfl, nofun⟩
  | cons hstands hparent hlt houter ih =>
    have hchained := Chained.cons hstands hparent hlt houter
    obtain ⟨s, hs, hbinds⟩ := hstands.exists_scope
    have hfuel := hfuel _ rfl
    obtain ⟨fuel, rfl⟩ := Nat.exists_eq_add_one_of_ne_zero (Nat.ne_of_gt (Nat.zero_lt_of_lt hfuel))
    obtain ⟨children, hids, hitems, hchildren⟩ := (hbinds key).items
    rw [Option.elim_some, ancestors_succ hs hparent, List.findSome?_cons, hids, nearestItems?,
      hitems]
    cases children with
    | none => exact ih fun p hp => Nat.lt_of_lt_of_le (hlt p hp) (Nat.le_of_lt_succ hfuel)
    | some children =>
      refine ⟨some (children, _), rfl, rfl, ?_⟩
      rintro _ ⟨⟩ child hchild
      exact hchained.child (hchildren _ rfl child hchild)

theorem Chained.exists_fetchItems (h : Chained c (some id) around) (key : Text) :
    ∃ nearest : Option (List (ScopeId × Members) × List Members),
      c.fetchItems id key = .ok (nearest.map (·.1.map Prod.fst)) ∧
      nearestItems? around key = nearest.map (fun n => (n.1.map Prod.snd, n.2)) ∧
      ∀ n ∈ nearest, ∀ child ∈ n.1, Chained c (some child.1) (child.2 :: n.2) := by
  have hfuel : ∀ j ∈ some id, j < c.scopes.size := by
    rintro _ ⟨⟩
    exact h.lt_size
  obtain ⟨nearest, hids, hitems, hchildren⟩ := h.exists_items hfuel key
  refine ⟨nearest, ?_, hitems, hchildren⟩
  rw [fetchItems, fetchSection, h.chain_eq]
  exact congrArg _ hids

/-- A section tag finds the nearest fields, or else the nearest items. -/
theorem Chained.exists_resolve (h : Chained c (some id) around) (key : Text) :
    ∃ nearest : Option (List (ScopeId × Members) × List Members),
      c.resolve id key = .ok (((nearestFields? around key).map .fields).or
        (nearest.map (.items <| ·.1.map Prod.fst))) ∧
      nearestItems? around key = nearest.map (fun n => (n.1.map Prod.snd, n.2)) ∧
      ∀ n ∈ nearest, ∀ child ∈ n.1, Chained c (some child.1) (child.2 :: n.2) := by
  obtain ⟨nearest, hids, hitems, hchildren⟩ := h.exists_fetchItems key
  refine ⟨nearest, ?_, hitems, hchildren⟩
  rw [resolve, h.fetchFields_eq, h.fetchFunction_eq, hids]
  cases nearestFields? around key with
  | some map => rfl
  | none => cases nearest <;> rfl

end Context

end Mustache

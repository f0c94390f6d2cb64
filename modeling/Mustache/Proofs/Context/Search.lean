import Mustache.Context.Lookup
import Mustache.Proofs.Context.Tree
import Mathlib.Logic.Relation

/-!
# Lookups in a tree of scopes

`Context.Searches` follows a lookup scope by scope, with no bound on its steps. In a tree it ends:
from the place `id` it looks at no more than `id + 1` scopes, and what it finds is what the lookups
answer (`Context.Tree.exists_fetch`, `Context.Tree.exists_fetchSection`). No scope of a tree is above
itself; from a scope that is its own parent a lookup that finds nothing never ends.
-/

namespace Mustache.Context

/-- A lookup from the scope `id` upwards looks at the scopes of `path` and ends with `result`: where
`pick` finds something, or at a scope that has no parent. -/
inductive Searches {α : Type} (c : Context) (pick : Scope → Option α) :
    ScopeId → List ScopeId → Option α → Prop
  | found {id s a} : c.scopes[id]? = some s → pick s = some a → Searches c pick id [id] (some a)
  | missed {id s} : c.scopes[id]? = some s → pick s = none → s.parent = none →
    Searches c pick id [id] none
  | up {id s p path result} : c.scopes[id]? = some s → pick s = none → s.parent = some p →
    Searches c pick p path result → Searches c pick id (id :: path) result

/-- The scope `p` is above the scope `id`. -/
def IsAbove (c : Context) (p id : ScopeId) : Prop :=
  Relation.TransGen (fun id p => c.parent id = .ok (some p)) id p

variable {α : Type} {c : Context} {pick : Scope → Option α} {id : ScopeId} {s : Scope}
  {path : List ScopeId} {result : Option α}

/-- Parents stand in front of their children. -/
def Ranked (c : Context) : Prop := ∀ id p, c.parent id = .ok (some p) → p < id

theorem Tree.ranked (h : c.Tree) : c.Ranked := fun _ _ => h.lt_of_parent

namespace Ranked

theorem lt_of_isAbove {p : ScopeId} (h : c.Ranked) (habove : c.IsAbove p id) : p < id := by
  induction habove with
  | single hparent => exact h _ _ hparent
  | tail _ hparent ih => exact Nat.lt_trans (h _ _ hparent) ih

theorem lt_of_parent_eq {p : ScopeId} (h : c.Ranked) (hs : c.scopes[id]? = some s)
    (hparent : s.parent = some p) : p < id :=
  h _ _ ((parent_of_scope hs).trans (congrArg _ hparent))

theorem exists_searches (h : c.Ranked) (pick : Scope → Option α) (hid : id < c.scopes.size) :
    ∃ path result, Searches c pick id path result := by
  induction id using Nat.strongRecOn with
  | ind id ih =>
    obtain ⟨s, hs⟩ := exists_scope hid
    cases hpick : pick s with
    | some a => exact ⟨_, _, .found hs hpick⟩
    | none =>
      cases hparent : s.parent with
      | none => exact ⟨_, _, .missed hs hpick hparent⟩
      | some p =>
        have hlt : p < id := h.lt_of_parent_eq hs hparent
        obtain ⟨path, result, hsearch⟩ := ih p hlt (Nat.lt_trans hlt hid)
        exact ⟨_, _, .up hs hpick hparent hsearch⟩

theorem length_le_of_searches (h : c.Ranked) (hsearch : Searches c pick id path result) :
    path.length ≤ id + 1 := by
  induction hsearch with
  | found => exact Nat.le_add_left 1 _
  | missed => exact Nat.le_add_left 1 _
  | @up id s p path result hs _ hparent _ ih =>
    exact Nat.succ_le_succ (Nat.le_trans ih (h.lt_of_parent_eq hs hparent))

end Ranked

/-- **No scope of a tree is above itself.** -/
theorem Tree.not_isAbove_self (h : c.Tree) (id : ScopeId) : ¬ c.IsAbove id id :=
  fun habove => Nat.lt_irrefl id (h.ranked.lt_of_isAbove habove)

/-- The list of the scopes above a scope is cut off behind `fuel` of them; a lookup that looks at
no more finds the same in it. -/
theorem Searches.findSome?_eq (h : Searches c pick id path result) {fuel : Nat}
    (hfuel : path.length ≤ fuel) : (c.ancestors fuel id).findSome? pick = result := by
  induction h generalizing fuel with
  | found hs hpick =>
    obtain _ | fuel := fuel
    · cases hfuel
    · simp only [ancestors, hs]
      split <;> rw [List.findSome?_cons, hpick]
  | missed hs hpick hparent =>
    obtain _ | fuel := fuel
    · cases hfuel
    · simp [ancestors, hs, hparent, hpick]
  | up hs hpick hparent _ ih =>
    obtain _ | fuel := fuel
    · cases hfuel
    · simp only [ancestors, hs, hparent, List.findSome?_cons, hpick]
      exact ih (Nat.le_of_succ_le_succ hfuel)

theorem Ranked.exists_searches_chain (h : c.Ranked) (pick : Scope → Option α)
    (hid : id < c.scopes.size) :
    ∃ path result, Searches c pick id path result ∧ path.length ≤ id + 1 ∧
      (c.chain id).map (·.findSome? pick) = .ok result := by
  obtain ⟨path, result, hsearch⟩ := h.exists_searches pick hid
  have hlength := h.length_le_of_searches hsearch
  refine ⟨path, result, hsearch, hlength, ?_⟩
  rw [chain, if_pos hid]
  exact congrArg _ (hsearch.findSome?_eq (Nat.le_trans hlength hid))

/-- **The lookup of a text ends** after `id + 1` scopes at the latest. -/
theorem Tree.exists_fetch (h : c.Tree) (hid : id < c.scopes.size) (key : Text) :
    ∃ path value, Searches c (·.texts[key]?) id path value ∧ path.length ≤ id + 1 ∧
      c.fetch id key = .ok value :=
  h.ranked.exists_searches_chain _ hid

/-- **The lookup of a section of some kind ends** after `id + 1` scopes at the latest. -/
theorem Tree.exists_fetchSection (h : c.Tree) (hid : id < c.scopes.size)
    (pick : Section → Option α) (key : Text) :
    ∃ path value, Searches c (fun s => s.sections[key]?.bind pick) id path value ∧
      path.length ≤ id + 1 ∧ c.fetchSection pick id key = .ok value :=
  h.ranked.exists_searches_chain _ hid

/-- A lookup that finds nothing in a scope that is its own parent never ends. -/
theorem not_searches_of_parent_self (hs : c.scopes[id]? = some s) (hparent : s.parent = some id)
    (hpick : pick s = none) (path : List ScopeId) (result : Option α) :
    ¬ Searches c pick id path result := by
  intro h
  generalize hj : id = j at h
  induction h with
  | found hs' hpick' =>
    rw [← hj, hs] at hs'
    cases hs'
    rw [hpick] at hpick'
    cases hpick'
  | missed hs' _ hparent' =>
    rw [← hj, hs] at hs'
    cases hs'
    rw [hparent] at hparent'
    cases hparent'
  | up hs' _ hparent' _ ih =>
    rw [← hj, hs] at hs'
    cases hs'
    rw [hparent] at hparent'
    cases hparent'
    exact ih rfl

end Mustache.Context

import Mustache.Proofs.Context.Search

/-!
# The nearest scope that has something

Every lookup along the chain of a scope is one for the nearest scope in which a function `pick` finds
something (`Context.nearest`). When one scope changes, a lookup is affected only if it reaches this
scope (`Context.Reaches`), and then by what `pick` finds there now (`Context.Altered.nearest_eq`).
-/

namespace Mustache.Context

variable {α : Type} {c c' : Context} {pick : Scope → Option α} {id j : ScopeId} {s s' : Scope}

/-- What `pick` finds in the nearest scope in which it finds anything, from the scope `id` on. -/
def nearest (c : Context) (pick : Scope → Option α) (id : ScopeId) :
    Except NoSuchScope (Option α) :=
  (c.chain id).map (·.findSome? pick)

/-- What `pick` finds in the nearest scope above the scope `id`. -/
def nearestAbove (c : Context) (pick : Scope → Option α) (id : ScopeId) :
    Except NoSuchScope (Option α) := do
  match ← c.parent id with
  | some p => c.nearest pick p
  | none => return none

theorem fetch_eq_nearest (c : Context) (id : ScopeId) (key : Text) :
    c.fetch id key = c.nearest (·.texts[key]?) id := rfl

theorem fetchSection_eq_nearest (kind : Section → Option α) (c : Context) (id : ScopeId)
    (key : Text) :
    c.fetchSection kind id key = c.nearest (fun s => s.sections[key]?.bind kind) id := rfl

theorem nearestAbove_of_parent_eq_some {p : ScopeId} (hs : c.scopes[id]? = some s)
    (hparent : s.parent = some p) : c.nearestAbove pick id = c.nearest pick p := by
  rw [nearestAbove, parent_of_scope hs, hparent]
  rfl

theorem nearestAbove_of_parent_eq_none (hs : c.scopes[id]? = some s) (hparent : s.parent = none) :
    c.nearestAbove pick id = .ok none := by
  rw [nearestAbove, parent_of_scope hs, hparent]
  rfl

/-! ### One scope, then those above it -/

theorem Searches.lt_size {path : List ScopeId} {result : Option α}
    (h : Searches c pick id path result) : id < c.scopes.size := by
  cases h with
  | found hs | missed hs | up hs => exact (Array.getElem?_eq_some_iff.1 hs).1

theorem Ranked.nearest_of_searches {path : List ScopeId} {result : Option α} (hc : c.Ranked)
    (h : Searches c pick id path result) : c.nearest pick id = .ok result := by
  have hid := h.lt_size
  rw [nearest, chain, if_pos hid]
  exact congrArg _ (h.findSome?_eq (Nat.le_trans (hc.length_le_of_searches h) hid))

theorem Ranked.nearest_of_pick (hc : c.Ranked) (hs : c.scopes[id]? = some s) {a : α}
    (hpick : pick s = some a) : c.nearest pick id = .ok (some a) :=
  hc.nearest_of_searches (.found hs hpick)

theorem Ranked.nearest_of_not_pick (hc : c.Ranked) (hs : c.scopes[id]? = some s)
    (hpick : pick s = none) : c.nearest pick id = c.nearestAbove pick id := by
  cases hparent : s.parent with
  | none =>
    rw [nearestAbove_of_parent_eq_none hs hparent]
    exact hc.nearest_of_searches (.missed hs hpick hparent)
  | some p =>
    have hp : p < c.scopes.size :=
      Nat.lt_trans (hc.lt_of_parent_eq hs hparent) (Array.getElem?_eq_some_iff.1 hs).1
    obtain ⟨path, result, hsearch⟩ := hc.exists_searches pick hp
    rw [nearestAbove_of_parent_eq_some hs hparent, hc.nearest_of_searches hsearch]
    exact hc.nearest_of_searches (.up hs hpick hparent hsearch)

/-! ### Lookups that come to a scope -/

/-- A lookup from the scope `j` comes to the scope `id`: they are one scope, or `id` is above `j`,
and `pick` finds nothing in the scopes from `j` up to `id`. -/
inductive Reaches (c : Context) (pick : Scope → Option α) (id : ScopeId) : ScopeId → Prop
  | here : Reaches c pick id id
  | up {j s p} : c.scopes[j]? = some s → pick s = none → s.parent = some p →
    Reaches c pick id p → Reaches c pick id j

theorem Ranked.le_of_reaches (hc : c.Ranked) (h : Reaches c pick id j) : id ≤ j := by
  induction h with
  | here => exact Nat.le_refl id
  | up hs _ hparent _ ih => exact Nat.le_trans ih (Nat.le_of_lt (hc.lt_of_parent_eq hs hparent))

theorem Reaches.eq_or_isAbove (h : Reaches c pick id j) : j = id ∨ c.IsAbove id j := by
  induction h with
  | here => exact .inl rfl
  | up hs _ hparent _ ih =>
    have hparent := (parent_of_scope hs).trans (congrArg _ hparent)
    rcases ih with rfl | habove
    · exact .inr (.single hparent)
    · exact .inr (.head hparent habove)

/-- A lookup that comes to a scope goes on from there. -/
theorem Ranked.nearest_of_reaches (hc : c.Ranked) (h : Reaches c pick id j) :
    c.nearest pick j = c.nearest pick id := by
  induction h with
  | here => rfl
  | up hs hpick hparent _ ih =>
    rw [hc.nearest_of_not_pick hs hpick, nearestAbove_of_parent_eq_some hs hparent, ih]

/-! ### When one scope changes -/

section Altered

variable (hc : c.Ranked) (hc' : c'.Ranked) (h : Altered id c c')
include hc h

theorem Altered.reaches (hreaches : Reaches c pick id j) : Reaches c' pick id j := by
  induction hreaches with
  | here => exact .here
  | @up j s p hs hpick hparent hreaches ih =>
    have hj := (Array.getElem?_eq_some_iff.1 hs).1
    -- The scopes on the way are behind `id`, so they are as they were.
    have hlt : id < j := Nat.lt_of_le_of_lt (hc.le_of_reaches hreaches)
      (hc.lt_of_parent_eq hs hparent)
    exact .up ((h.kept j hj (Nat.ne_of_gt hlt)).trans hs) hpick hparent ih

include hc'

/-- A lookup that does not come to the scope is not affected. -/
theorem Altered.nearest_eq_of_not_reaches (hj : j < c.scopes.size)
    (hreaches : ¬ Reaches c pick id j) : c'.nearest pick j = c.nearest pick j := by
  -- Both lookups go up step by step, and meet the same scopes.
  induction j using Nat.strongRecOn with
  | ind j ih =>
    have hne : j ≠ id := by
      rintro rfl
      exact hreaches .here
    obtain ⟨s, hs⟩ := exists_scope hj
    have hs' : c'.scopes[j]? = some s := (h.kept j hj hne).trans hs
    cases hpick : pick s with
    | some a => rw [hc.nearest_of_pick hs hpick, hc'.nearest_of_pick hs' hpick]
    | none =>
      rw [hc.nearest_of_not_pick hs hpick, hc'.nearest_of_not_pick hs' hpick]
      cases hparent : s.parent with
      | none =>
        rw [nearestAbove_of_parent_eq_none hs hparent, nearestAbove_of_parent_eq_none hs' hparent]
      | some p =>
        rw [nearestAbove_of_parent_eq_some hs hparent, nearestAbove_of_parent_eq_some hs' hparent]
        have hlt := hc.lt_of_parent_eq hs hparent
        exact ih p hlt (Nat.lt_trans hlt hj) fun hp => hreaches (.up hs hpick hparent hp)

theorem Altered.nearestAbove_eq (hs : c.scopes[id]? = some s) :
    c'.nearestAbove pick id = c.nearestAbove pick id := by
  rw [nearestAbove, nearestAbove, h.parent_eq, parent_of_scope hs]
  cases hparent : s.parent with
  | none => rfl
  | some p =>
    have hlt := hc.lt_of_parent_eq hs hparent
    have hp : p < c.scopes.size := Nat.lt_trans hlt (Array.getElem?_eq_some_iff.1 hs).1
    exact h.nearest_eq_of_not_reaches hc hc' hp fun hreaches =>
      Nat.not_le_of_lt hlt (hc.le_of_reaches hreaches)

/-- A lookup that comes to the scope finds what is there now, and looks above it if there is
nothing. -/
theorem Altered.nearest_eq_of_reaches (hs : c.scopes[id]? = some s)
    (hs' : c'.scopes[id]? = some s') (hreaches : Reaches c pick id j) :
    c'.nearest pick j =
      match pick s' with
      | some a => .ok (some a)
      | none => c.nearestAbove pick id := by
  rw [hc'.nearest_of_reaches (h.reaches hc hreaches)]
  split
  · next hpick => exact hc'.nearest_of_pick hs' hpick
  · next hpick =>
    rw [hc'.nearest_of_not_pick hs' hpick, h.nearestAbove_eq hc hc' hs]

/-- Where `pick` finds in the scope what it found there, nothing is affected. -/
theorem Altered.nearest_eq_of_pick_eq (hs : c.scopes[id]? = some s)
    (hs' : c'.scopes[id]? = some s') (hpick : pick s' = pick s) (hj : j < c.scopes.size) :
    c'.nearest pick j = c.nearest pick j := by
  by_cases hreaches : Reaches c pick id j
  · rw [h.nearest_eq_of_reaches hc hc' hs hs' hreaches, hpick,
      ← Altered.refl.nearest_eq_of_reaches hc hc hs hs hreaches]
  · exact h.nearest_eq_of_not_reaches hc hc' hj hreaches

end Altered

end Mustache.Context

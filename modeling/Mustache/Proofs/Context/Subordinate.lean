import Mustache.Proofs.Context.Shape
import Mustache.Proofs.Context.Write

/-!
# Fields as a scope

Fields that were entered in a frame could as well be the texts of a scope of its own, below the scope
that the frame stands on (`Context.subordinate`): names are found in it as in the frame
(`Frame.lookup_subordinate`). No section goes through this scope, and nothing changes for the scopes
that were there.
-/

namespace Mustache

theorem BothOk.exists_self {α ε : Type} {R : α → α → Prop} {x : Except ε α} (h : BothOk R x x) :
    ∃ a, x = .ok a ∧ R a a := by
  obtain ⟨a, b, ha, hb, hab⟩ := h
  rw [ha] at hb
  cases hb
  exact ⟨a, ha, hab⟩

namespace Context

/-- The context with one more scope, which has the texts and is below the scope `id`. -/
def subordinate (c : Context) (id : ScopeId) (map : Table Text) : Context :=
  ⟨c.scopes.push { texts := map, parent := some id }⟩

/-- The context with one more scope for each of the fields above the scope `id`, the last ones
entered first, and the place of the last scope. -/
def stacked (c : Context) (id : ScopeId) : List (Table Text) → Context × ScopeId
  | [] => (c, id)
  | map :: maps =>
    let (c, id) := c.stacked id maps
    (c.subordinate id map, c.scopes.size)

variable {c : Context} {id j : ScopeId} {map : Table Text} {key : Text}

theorem getElem?_subordinate_self (c : Context) (id : ScopeId) (map : Table Text) :
    (c.subordinate id map).scopes[c.scopes.size]? = some { texts := map, parent := some id } :=
  Array.getElem?_push_size

theorem getElem?_subordinate_of_lt (hj : j < c.scopes.size) :
    (c.subordinate id map).scopes[j]? = c.scopes[j]? :=
  (Array.getElem?_push_lt hj).trans (Array.getElem?_eq_getElem hj).symm

theorem size_subordinate (c : Context) (id : ScopeId) (map : Table Text) :
    (c.subordinate id map).scopes.size = c.scopes.size + 1 := Array.size_push _

theorem altered_subordinate (map : Table Text) (hj : j < c.scopes.size) :
    Altered j c (c.subordinate id map) where
  size_le := size_subordinate c id map ▸ Nat.le_succ _
  kept _ hi _ := getElem?_subordinate_of_lt hi
  parent_eq := parent_eq_of_scopes_eq (getElem?_subordinate_of_lt hj)

theorem Ranked.subordinate (hc : c.Ranked) (hid : id < c.scopes.size) (map : Table Text) :
    (c.subordinate id map).Ranked := by
  intro j p hp
  have hj := lt_size_of_parent_eq hp
  rw [size_subordinate] at hj
  rcases Nat.lt_succ_iff_lt_or_eq.1 hj with hlt | rfl
  · rw [parent_eq_of_scopes_eq (getElem?_subordinate_of_lt hlt)] at hp
    exact hc j p hp
  · rw [parent_of_scope (getElem?_subordinate_self c id map)] at hp
    cases hp
    exact hid

theorem Closed.subordinate (hc : c.Closed) (id : ScopeId) (map : Table Text) :
    (c.subordinate id map).Closed := by
  intro s hs key scopes hscopes i hi
  rw [size_subordinate]
  rcases Array.mem_push.1 hs with hs | rfl
  · exact Nat.lt_succ_of_lt (hc s hs key scopes hscopes i hi)
  · simp at hscopes

/-- No section goes through the new scope. -/
theorem Closed.not_mem_itemsOf_subordinate (hc : c.Closed) {s : Scope}
    (hs : (c.subordinate id map).scope j = .ok s) (key : Text) : c.scopes.size ∉ s.itemsOf key := by
  intro hmem
  have hmem' : s ∈ (c.subordinate id map).scopes := Array.mem_of_getElem? (getElem?_of_scope hs)
  rcases Array.mem_push.1 hmem' with hs | rfl
  · cases hitems : s.sections[key]?.bind Section.items? with
    | none => simp [Scope.itemsOf, hitems] at hmem
    | some scopes =>
      rw [Scope.itemsOf, hitems] at hmem
      exact Nat.lt_irrefl _ (hc.lt_of_section? hs hitems _ hmem)
  · simp [Scope.itemsOf] at hmem

theorem inside_stacked (hc : c.Ranked) (hclosed : c.Closed) (hid : id < c.scopes.size)
    (maps : List (Table Text)) :
    (c.stacked id maps).1.Ranked ∧ (c.stacked id maps).1.Closed ∧
      (c.stacked id maps).2 < (c.stacked id maps).1.scopes.size := by
  induction maps with
  | nil => exact ⟨hc, hclosed, hid⟩
  | cons map maps ih =>
    obtain ⟨hranked, hclosed, hlt⟩ := ih
    refine ⟨hranked.subordinate hlt map, hclosed.subordinate _ map, ?_⟩
    exact size_subordinate _ _ map ▸ Nat.lt_succ_self _

/-! ### What is found -/

/-- What is looked up from a scope that was there is not affected. -/
theorem Ranked.sameLookups_subordinate (hc : c.Ranked) (hid : id < c.scopes.size)
    (hj : j < c.scopes.size) (key : Text) :
    SameLookups c j (c.subordinate id map) j key := by
  obtain ⟨s, hs⟩ := exists_scope hj
  have hs' : (c.subordinate id map).scopes[j]? = some s := (getElem?_subordinate_of_lt hj).trans hs
  have hnearest {α : Type} (pick : Scope → Option α) :
      (c.subordinate id map).nearest pick j = c.nearest pick j :=
    (altered_subordinate map hj).nearest_eq_of_pick_eq hc (hc.subordinate hid map) hs hs' rfl hj
  have hsections {α : Type} (kind : Section → Option α) :
      (c.subordinate id map).fetchSection kind j key = c.fetchSection kind j key := hnearest _
  exact ⟨hnearest _, hsections, resolve_eq_of_fetchSection_eq hsections⟩

/-- The new scope has no sections. -/
theorem Ranked.fetchSection_subordinate (hc : c.Ranked) (hid : id < c.scopes.size)
    {α : Type} (kind : Section → Option α) :
    (c.subordinate id map).fetchSection kind c.scopes.size key = c.fetchSection kind id key := by
  have hnew := getElem?_subordinate_self c id map
  rw [fetchSection_eq_nearest, (hc.subordinate hid map).nearest_of_not_pick hnew (by simp),
    nearestAbove_of_parent_eq_some hnew rfl]
  exact (hc.sameLookups_subordinate hid hid key).fetchSection_eq kind

theorem Ranked.fetch_subordinate (hc : c.Ranked) (hid : id < c.scopes.size) :
    (c.subordinate id map).fetch c.scopes.size key =
      match map[key]? with
      | some value => .ok (some value)
      | none => c.fetch id key := by
  have hnew := getElem?_subordinate_self c id map
  have hranked := hc.subordinate hid map
  rw [fetch_eq_nearest]
  split
  · next hvalue => exact hranked.nearest_of_pick hnew hvalue
  · next hnone =>
    rw [hranked.nearest_of_not_pick hnew hnone, nearestAbove_of_parent_eq_some hnew rfl]
    exact (hc.sameLookups_subordinate hid hid key).fetch_eq

end Context

namespace Frame

open Context

variable {c c' : Context} {id id' : ScopeId} {map : Table Text}

/-! ### Names with points -/

/-- Where a name leads inside a context is the same in all contexts that have its scopes. -/
theorem follow_eq_of_scope_eq (hc : c.Closed)
    (hscope : ∀ i < c.scopes.size, c'.scope i = c.scope i) {landing : Landing}
    (hlanding : Landing.SameShape c.scopes.size landing landing) (parts : List Text) :
    follow c' landing parts = follow c landing parts := by
  induction parts generalizing landing with
  | nil => rw [follow, follow]
  | cons part parts ih =>
    cases hlanding with
    | fields => rw [follow, follow]
    | @scope i hi =>
      obtain ⟨binding, hbinding, hrel⟩ :=
        ((Context.SameShape.refl c).section? hc hi part).exists_self
      have hbinding' : c'.section? i part = .ok binding := by
        rw [← hbinding, section?, section?, hscope i hi]
      rw [follow, follow, hbinding, hbinding']
      have hnext := rel_bind hrel fun _ _ hvalue =>
        rel_ofSection?_of_sameShape hvalue.1 hvalue.2
      dsimp only [bind, Except.bind]
      generalize binding.bind Landing.ofSection? = next at hnext ⊢
      cases next with
      | none => rfl
      | some landing =>
        cases hnext with
        | some hlanding => exact ih hlanding

theorem Landing.get?_eq_of_scope_eq (hscope : ∀ i < c.scopes.size, c'.scope i = c.scope i)
    {landing : Landing} (hlanding : Landing.SameShape c.scopes.size landing landing)
    (part : Text) : landing.get? c' part = landing.get? c part := by
  cases hlanding with
  | fields => rfl
  | @scope i hi => rw [Landing.get?, Landing.get?, Context.get?, Context.get?, hscope i hi]

theorem fetchDotted_eq_of_scope_eq (hc : c.Closed) (hid : id < c.scopes.size)
    (hscope : ∀ i < c.scopes.size, c'.scope i = c.scope i)
    (hsections : ∀ {α : Type} (kind : Section → Option α) (key : Text),
      c'.fetchSection kind id' key = c.fetchSection kind id key) (key : Text) :
    fetchDotted c' id' key = fetchDotted c id key := by
  rw [fetchDotted, fetchDotted]
  rcases Text.splitAt (· == '.') key with _ | ⟨first, _ | ⟨second, more⟩⟩
  · rfl
  · rfl
  · have hland : land c' id' first = land c id first := by
      rw [land, land, fetchFields, fetchItems, hsections, hsections]
    obtain ⟨landing, hlands, hrel⟩ := (bothOk_land (.refl c) hc hid first).exists_self
    dsimp only
    split
    · rfl
    · rw [hland, hlands]
      cases hrel with
      | none => rfl
      | @some landing _ hlanding =>
        obtain ⟨last, hlast, hrel⟩ :=
          (bothOk_follow (.refl c) hc hlanding (second :: more).dropLast).exists_self
        change (follow c' landing _ >>= _) = (follow c landing _ >>= _)
        rw [follow_eq_of_scope_eq hc hscope hlanding, hlast]
        cases hrel with
        | none => rfl
        | some hlast => exact Landing.get?_eq_of_scope_eq hscope hlast _

/-! ### Frames -/

theorem fetchDotted_subordinate (hc : c.Ranked) (hclosed : c.Closed) (hid : id < c.scopes.size)
    (key : Text) :
    fetchDotted (c.subordinate id map) c.scopes.size key = fetchDotted c id key :=
  fetchDotted_eq_of_scope_eq hclosed hid
    (fun _ hi => scope_eq_of_getElem? (getElem?_subordinate_of_lt hi))
    (fun kind _ => hc.fetchSection_subordinate hid kind) key

/-- A frame on a scope that was there finds what it found. -/
theorem lookup_subordinate_of_lt (hc : c.Ranked) (hclosed : c.Closed) (hid : id < c.scopes.size)
    {frame : Frame} (hframe : frame.base < c.scopes.size) (key : Text) :
    frame.lookup (c.subordinate id map) key = frame.lookup c key := by
  have hsame (key : Text) : SameLookups c frame.base (c.subordinate id map) frame.base key :=
    hc.sameLookups_subordinate hid hframe key
  have hdotted := fetchDotted_eq_of_scope_eq hclosed hframe
    (fun _ hi => scope_eq_of_getElem? (getElem?_subordinate_of_lt hi))
    (fun kind key => (hsame key).fetchSection_eq kind) key
  rw [lookup, lookup, fetch, fetch, (hsame key).fetch_eq, hdotted]

/-- **Names are found in the scope as in the frame** that has the fields right above the scope `id`,
whatever was entered since. -/
theorem lookup_subordinate (hc : c.Ranked) (hclosed : c.Closed) (hid : id < c.scopes.size)
    (pushed : List (Table Text)) (key : Text) :
    Frame.lookup (c.subordinate id map) { base := c.scopes.size, pushed } key =
      Frame.lookup c { base := id, pushed := pushed ++ [map] } key := by
  have hfetch : Frame.fetch (c.subordinate id map) { base := c.scopes.size, pushed } key =
      Frame.fetch c { base := id, pushed := pushed ++ [map] } key := by
    rw [fetch, fetch, hc.fetch_subordinate hid, List.findSome?_append, List.findSome?_singleton]
    cases pushed.findSome? (·[key]?) with
    | some value => rfl
    | none => rfl
  rw [lookup, lookup, hfetch, fetchDotted_subordinate hc hclosed hid]

end Frame

end Mustache

import Mustache.Proofs.Context.Change
import Mustache.Proofs.Context.Shape
import Mustache.Proofs.Render.Errors

/-!
# Renderings stay inside their context

A rendering goes from the scope that it begins with to the items of scopes and to nothing else. In a
context that a program can make these are all scopes of the context, so that no lookup asks for a
scope that is not there (`Context.Closed.renderScope_ne`).

`Context.Reachable.stays_inside` gathers what holds of such contexts: their scopes are a tree, which
every change to it keeps and extends, lookups in it end, and renderings stay inside.
-/

namespace Mustache

namespace Context

variable {c : Context} {id : ScopeId} {key : Text}

theorem items_of_section? {scopes : List ScopeId}
    (h : c.section? id key = .ok (some (.items scopes))) :
    ∃ s, c.scopes[id]? = some s ∧ s.itemsOf key = scopes := by
  rw [section?, scope] at h
  split at h
  · next s hs =>
    refine ⟨s, hs, ?_⟩
    have hkey : s.sections[key]? = some (.items scopes) := Except.ok.inj h
    simp [Scope.itemsOf, hkey, Section.items?]
  · cases h

/-- A section that is looked up from a scope of the context goes through scopes of the context. -/
theorem Closed.exists_resolve (hc : c.Closed) (hid : id < c.scopes.size) (key : Text) :
    ∃ section?, c.resolve id key = .ok section? ∧
      ∀ scopes, section? = some (.items scopes) → ∀ i ∈ scopes, i < c.scopes.size := by
  have hpick : ∀ {α : Type} (pick : Section → Option α),
      ∃ value, c.fetchSection pick id key = .ok value := by
    intro α pick
    rw [fetchSection, chain, if_pos hid]
    exact ⟨_, rfl⟩
  obtain ⟨fields?, hfields⟩ : ∃ fields?, c.fetchFields id key = .ok fields? := hpick _
  obtain ⟨function?, hfunction⟩ : ∃ function?, c.fetchFunction id key = .ok function? := hpick _
  obtain ⟨items?, hitems⟩ : ∃ items?, c.fetchItems id key = .ok items? := hpick _
  rw [resolve, hfields]
  cases fields? with
  | some map => exact ⟨_, rfl, fun _ hscopes => by cases hscopes⟩
  | none =>
    change ∃ section?, (c.fetchFunction id key >>= _) = _ ∧ _
    rw [hfunction]
    cases function? with
    | some f => exact ⟨_, rfl, fun _ hscopes => by cases hscopes⟩
    | none =>
      change ∃ section?, (c.fetchItems id key >>= _) = _ ∧ _
      rw [hitems]
      refine ⟨_, rfl, fun scopes hscopes => ?_⟩
      cases items? with
      | none => cases hscopes
      | some scopes' =>
        cases hscopes
        exact hc.lt_of_fetchItems hitems

theorem Closed.exists_lookup {frame : Frame} (hc : c.Closed) (hframe : frame.base < c.scopes.size)
    (key : Text) : ∃ value, frame.lookup c key = .ok value := by
  obtain ⟨value, _, hvalue, -⟩ := Frame.SameShape.lookup (.refl c) hc (.refl hframe) key
  exact ⟨value, hvalue⟩

theorem Closed.covers (hc : c.Closed) {ε : Type} :
    Render.Covers (fun e : RenderError ε => ∀ missing, e ≠ .noSuchScope missing) c
      (· < c.scopes.size) where
  parse _ := nofun
  loader _ := nofun
  lookup {frame key missing} hframe hmissing := by
    obtain ⟨value, hvalue⟩ := hc.exists_lookup hframe key
    rw [hvalue] at hmissing
    cases hmissing
  resolve {id key missing} hid hmissing := by
    obtain ⟨section?, hsection, -⟩ := hc.exists_resolve hid key
    rw [hsection] at hmissing
    cases hmissing
  items {id key scopes} hid hscopes := by
    obtain ⟨section?, hsection, hlt⟩ := hc.exists_resolve hid key
    rw [hsection] at hscopes
    exact hlt scopes (Except.ok.inj hscopes)

/-- **A rendering never asks for a scope that is not there.** -/
theorem Closed.renderScope_ne (hc : c.Closed) (hid : id < c.scopes.size) {σ ε : Type}
    (r : Renderer σ ε) (ns : List Node) (missing : NoSuchScope) :
    (r.renderScope ns c id).1 ≠ .error (.noSuchScope missing) := by
  intro h
  exact Render.throws_renderWithin hc.covers (fun _ => nofun) r.maxDepth ns { base := id } hid
    r.state _ h missing rfl

/-- **A context is a tree of scopes.** In every context that a program can make, every scope but the
root has a parent in front of it, and items are children of the scope that they are items of, in
ascending order, each under one name. A change to a scope that is there keeps all scopes and their
parents, and leads to such a context again. From a scope that is there every lookup ends, after no
more scopes than its place says, and every rendering stays inside the context. -/
theorem Reachable.stays_inside (h : c.Reachable) :
    c.parent root = .ok none ∧
    (∀ id, root < id → id < c.scopes.size → ∃ p < id, c.parent id = .ok (some p)) ∧
    (∀ id key scopes, c.section? id key = .ok (some (.items scopes)) →
      scopes.Pairwise (· < ·) ∧
      ∀ i ∈ scopes, id < i ∧ i < c.scopes.size ∧ c.parent i = .ok (some id)) ∧
    (∀ id id' key key' scopes scopes' i, c.section? id key = .ok (some (.items scopes)) →
      c.section? id' key' = .ok (some (.items scopes')) → i ∈ scopes → i ∈ scopes' →
      id = id' ∧ key = key') ∧
    (∀ change : Change, change.scope < c.scopes.size → ∃ c', c.apply change = .ok c' ∧
      c'.Reachable ∧ c.scopes.size ≤ c'.scopes.size ∧ KeepsParents c c') ∧
    ∀ id < c.scopes.size,
      (∀ key, ∃ path value, Searches c (·.texts[key]?) id path value ∧ path.length ≤ id + 1 ∧
        c.fetch id key = .ok value) ∧
      (∀ (α : Type) (pick : Section → Option α) (key : Text), ∃ path value,
        Searches c (fun s => s.sections[key]?.bind pick) id path value ∧ path.length ≤ id + 1 ∧
        c.fetchSection pick id key = .ok value) ∧
      (∀ key, ∃ section?, c.resolve id key = .ok section?) ∧
      ∀ (σ ε : Type) (r : Renderer σ ε) ns missing,
        (r.renderScope ns c id).1 ≠ .error (.noSuchScope missing) := by
  have htree := h.tree
  refine ⟨htree.parent_root, htree.exists_parent, fun id key scopes hsection => ?_,
    fun id id' key key' scopes scopes' i hsection hsection' hi hi' => ?_, fun change hid => ?_,
    fun id hid => ⟨fun key => htree.exists_fetch hid key,
      fun _ pick key => htree.exists_fetchSection hid pick key, fun key => ?_,
      fun _ _ r ns => h.closed.renderScope_ne hid r ns⟩⟩
  · obtain ⟨s, hs, rfl⟩ := items_of_section? hsection
    refine ⟨(htree.owns hs).ascending key, fun i hi => ?_⟩
    obtain ⟨hlt, hparent⟩ := (htree.owns hs).child_of_mem hi
    exact ⟨hlt, lt_size_of_parent_eq hparent, hparent⟩
  · obtain ⟨s, hs, rfl⟩ := items_of_section? hsection
    obtain ⟨s', hs', rfl⟩ := items_of_section? hsection'
    exact htree.eq_of_mem_itemsOf hs hs' hi hi'
  · obtain ⟨c', hc', -, haltered⟩ := invariant_true.exists_apply (c := c) trivial hid
    exact ⟨c', hc', h.apply hid hc', haltered.size_le, haltered.keepsParents⟩
  · obtain ⟨section?, hsection, -⟩ := h.closed.exists_resolve hid key
    exact ⟨section?, hsection⟩

theorem Reachable.stays_inside_of_nested_items :
    ∃ c, ofJson (.object [(['l'], .array [.object [(['m'], .array [.null])], .bool true])]) = .ok c ∧
      c.Reachable ∧ c.section? 0 ['l'] = .ok (some (.items [1, 3])) ∧
      c.section? 1 ['m'] = .ok (some (.items [2])) ∧ c.parent 3 = .ok (some 0) ∧
      c.parent 2 = .ok (some 1) ∧
      (∃ c', c.apply (.set 1 ['m'] (.text ['x'])) = .ok c' ∧ c'.parent 2 = .ok (some 1)) ∧
      (∃ path value, Searches c (·.texts[['x']]?) 2 path value ∧ path.length ≤ 3) ∧
      ∀ (r : Renderer Unit Empty) ns missing,
        (r.renderScope ns c 2).1 ≠ .error (.noSuchScope missing) := by
  obtain ⟨c, hc, hl, hm⟩ : ∃ c,
      ofJson (.object [(['l'], .array [.object [(['m'], .array [.null])], .bool true])]) = .ok c ∧
      c.section? 0 ['l'] = .ok (some (.items [1, 3])) ∧
      c.section? 1 ['m'] = .ok (some (.items [2])) := ⟨_, rfl, rfl, rfl⟩
  have hreachable : c.Reachable := reachable_ofJson hc
  obtain ⟨-, -, hitems, -, hchange, hinside⟩ := Reachable.stays_inside hreachable
  have hthree := (hitems 0 ['l'] [1, 3] hl).2 3 (by decide)
  have htwo := (hitems 1 ['m'] [2] hm).2 2 (by decide)
  obtain ⟨c', hc', -, -, hkept⟩ :=
    hchange (.set 1 ['m'] (.text ['x'])) (Nat.lt_trans (Nat.lt_succ_self 1) htwo.2.1)
  obtain ⟨hfetch, -, -, hrender⟩ := hinside 2 htwo.2.1
  obtain ⟨path, value, hsearch, hlength, -⟩ := hfetch ['x']
  exact ⟨c, hc, hreachable, hl, hm, hthree.2.2, htwo.2.2, ⟨c', hc', hkept 2 _ htwo.2.2⟩,
    ⟨path, value, hsearch, hlength⟩, hrender Unit Empty⟩

end Context

end Mustache

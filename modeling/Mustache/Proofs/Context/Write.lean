import Mustache.Proofs.Context.Change
import Mustache.Proofs.Context.Nearest

/-!
# Lookups after a change

A name that is newly bound in a scope is found from there and from below, as far as no nearer scope
hides it; all else is found as before (`Context.TextWritten`, `Context.SectionWritten`). A section
takes the place of the one that the scope had under the name, whatever its kind: a lookup for another
kind goes past the scope, as if nothing was bound there. `Context.Reachable.lookups_of_changes` says
so of every change to one name.
-/

namespace Mustache.Context

variable {c c' c₀ : Context} {id j : ScopeId} {s s' : Scope} {key : Text}

/-- The scope binds the name to no section any more. -/
def unbindSection (c : Context) (id : ScopeId) (key : Text) : Except NoSuchScope Context :=
  c.modify id fun s => { s with sections := s.sections.erase key }

/-- All lookups of the name from the scope `j` of `c'` answer as those from the scope `i` of `c`. -/
structure SameLookups (c : Context) (i : ScopeId) (c' : Context) (j : ScopeId) (key : Text) :
    Prop where
  fetch_eq : c'.fetch j key = c.fetch i key
  fetchSection_eq : ∀ {α : Type} (kind : Section → Option α),
    c'.fetchSection kind j key = c.fetchSection kind i key
  resolve_eq : c'.resolve j key = c.resolve i key

/-- In `c'` the name is bound to the text in the scope `id`, and lookups answer accordingly. -/
structure TextWritten (c : Context) (id : ScopeId) (key value : Text) (c' : Context) : Prop where
  /-- It is found from where no nearer scope binds the name to a text. -/
  seen : ∀ j < c.scopes.size, Reaches c (·.texts[key]?) id j →
    c'.fetch j key = .ok (some value)
  hidden : ∀ j < c.scopes.size, ¬ Reaches c (·.texts[key]?) id j →
    c'.fetch j key = c.fetch j key
  other_key : ∀ j < c.scopes.size, ∀ key' ≠ key, SameLookups c j c' j key'
  sections_eq : ∀ j < c.scopes.size, ∀ {α : Type} (kind : Section → Option α),
    c'.fetchSection kind j key = c.fetchSection kind j key
  resolve_eq : ∀ j < c.scopes.size, c'.resolve j key = c.resolve j key

/-- In `c'` the name is bound to the section in the scope `id`, and lookups answer accordingly. -/
structure SectionWritten (c : Context) (id : ScopeId) (key : Text) (value : Section)
    (c' : Context) : Prop where
  bound : c'.section? id key = .ok (some value)
  /-- A lookup for a kind that it is of finds it from where no nearer scope has a section of this
  kind. -/
  seen : ∀ {α : Type} (kind : Section → Option α) (a : α), kind value = some a →
    ∀ j < c.scopes.size, Reaches c (fun s => s.sections[key]?.bind kind) id j →
      c'.fetchSection kind j key = .ok (some a)
  hidden : ∀ {α : Type} (kind : Section → Option α), ∀ j < c.scopes.size,
    ¬ Reaches c (fun s => s.sections[key]?.bind kind) id j →
      c'.fetchSection kind j key = c.fetchSection kind j key
  /-- A lookup for another kind finds what is above the scope, as if no section was bound there. -/
  passed : ∀ {α : Type} (kind : Section → Option α), kind value = none → ∀ j < c.scopes.size,
    Reaches c (fun s => s.sections[key]?.bind kind) id j →
      c'.fetchSection kind j key = c.nearestAbove (fun s => s.sections[key]?.bind kind) id
  unbound : ∃ c₀, c.unbindSection id key = .ok c₀ ∧
    ∀ {α : Type} (kind : Section → Option α), kind value = none → ∀ j < c.scopes.size,
      c'.fetchSection kind j key = c₀.fetchSection kind j key
  other_key : ∀ j < c.scopes.size, ∀ key' ≠ key, SameLookups c j c' j key'
  outside : ∀ j < c.scopes.size, j ≠ id → ¬ c.IsAbove id j → SameLookups c j c' j key
  fetch_eq : ∀ j < c.scopes.size, c'.fetch j key = c.fetch j key

theorem resolve_eq_of_fetchSection_eq {i : ScopeId}
    (h : ∀ {α : Type} (kind : Section → Option α),
      c'.fetchSection kind j key = c.fetchSection kind i key) :
    c'.resolve j key = c.resolve i key := by
  rw [resolve, resolve, fetchFields, fetchFunction, fetchItems, h, h, h]

theorem Grown.altered {ts us : List Text} (hs : c.scopes[id]? = some s)
    (h : Grown id ts us c s c' s') : Altered id c c' where
  size_le := h.size_le
  kept := h.kept
  parent_eq := by rw [parent_of_scope h.scope_eq, parent_of_scope hs, h.parent_eq]

theorem Altered.ranked (h : Altered id c c') (hsize : c'.scopes.size = c.scopes.size)
    (hc : c.Ranked) : c'.Ranked := by
  intro j p hp
  have hj := hsize ▸ lt_size_of_parent_eq hp
  obtain ⟨s, hs⟩ := exists_scope hj
  have hparent := h.keepsParents j s.parent (parent_of_scope hs)
  rw [hp] at hparent
  exact hc j p ((parent_of_scope hs).trans hparent.symm)

theorem size_of_modify {f : Scope → Scope} (h : c.modify id f = .ok c') :
    c'.scopes.size = c.scopes.size := by
  rw [modify] at h
  split at h
  · next hid =>
    cases h
    exact Array.size_set hid
  · cases h

section Written

variable (hs : c.scopes[id]? = some s) (hc : c.Ranked) (hc' : c'.Ranked)
include hs hc hc'

theorem fetch_eq_of_grown {ts us : List Text} (h : Grown id ts us c s c' s') (hkey : key ∉ ts)
    (hj : j < c.scopes.size) : c'.fetch j key = c.fetch j key :=
  (h.altered hs).nearest_eq_of_pick_eq hc hc' hs h.scope_eq (h.texts_eq key hkey) hj

theorem fetchSection_eq_of_grown {ts us : List Text} (h : Grown id ts us c s c' s')
    (hkey : key ∉ us) (hj : j < c.scopes.size) {α : Type} (kind : Section → Option α) :
    c'.fetchSection kind j key = c.fetchSection kind j key :=
  (h.altered hs).nearest_eq_of_pick_eq hc hc' hs h.scope_eq
    (congrArg (Option.bind · kind) (h.sections_eq key hkey)) hj

theorem sameLookups_of_grown {ts us : List Text} (h : Grown id ts us c s c' s') (hts : key ∉ ts)
    (hus : key ∉ us) (hj : j < c.scopes.size) : SameLookups c j c' j key :=
  have hsections {α : Type} (kind : Section → Option α) :=
    fetchSection_eq_of_grown hs hc hc' h hus hj kind
  ⟨fetch_eq_of_grown hs hc hc' h hts hj, hsections, resolve_eq_of_fetchSection_eq hsections⟩

theorem textWritten_of_grown {value : Text} (h : Grown id [key] [] c s c' s')
    (hvalue : s'.texts[key]? = some value) : TextWritten c id key value c' where
  seen j hj hreaches := by
    refine ((h.altered hs).nearest_eq_of_reaches hc hc' hs h.scope_eq hreaches).trans ?_
    rw [hvalue]
  hidden j hj hreaches := (h.altered hs).nearest_eq_of_not_reaches hc hc' hj hreaches
  other_key j hj key' hne :=
    sameLookups_of_grown hs hc hc' h (List.mem_singleton.not.2 hne) List.not_mem_nil hj
  sections_eq j hj := fetchSection_eq_of_grown hs hc hc' h List.not_mem_nil hj
  resolve_eq j hj :=
    resolve_eq_of_fetchSection_eq (fetchSection_eq_of_grown hs hc hc' h List.not_mem_nil hj)

omit hc hc' in
theorem exists_unbindSection (key : Text) :
    ∃ c₀ s₀, c.unbindSection id key = .ok c₀ ∧ Altered id c c₀ ∧
      c₀.scopes.size = c.scopes.size ∧ c₀.scopes[id]? = some s₀ ∧ s₀.sections[key]? = none := by
  obtain ⟨c₀, hc₀, haltered, hs₀, hsize⟩ :=
    exists_altered (f := fun s => { s with sections := s.sections.erase key }) hs rfl
  exact ⟨c₀, _, hc₀, haltered, hsize, hs₀, Std.ExtTreeMap.getElem?_erase_self⟩

/-- A section that is not of the kind is like no section. -/
theorem exists_unbindSection_of_grown {value : Section} (h : Grown id [] [key] c s c' s')
    (hvalue : s'.sections[key]? = some value) :
    ∃ c₀, c.unbindSection id key = .ok c₀ ∧
      ∀ {α : Type} (kind : Section → Option α), kind value = none → ∀ j < c.scopes.size,
        c'.fetchSection kind j key = c₀.fetchSection kind j key := by
  obtain ⟨c₀, s₀, hc₀, haltered, hsize, hs₀, hnone⟩ := exists_unbindSection hs key
  refine ⟨c₀, hc₀, fun {α} kind hkind j hj => ?_⟩
  have hranked := haltered.ranked hsize hc
  rw [fetchSection_eq_nearest, fetchSection_eq_nearest]
  by_cases hreaches : Reaches c (fun s => s.sections[key]?.bind kind) id j
  · rw [(h.altered hs).nearest_eq_of_reaches hc hc' hs h.scope_eq hreaches,
      haltered.nearest_eq_of_reaches hc hranked hs hs₀ hreaches, hvalue, hnone, Option.bind_some,
      hkind, Option.bind_none]
  · rw [(h.altered hs).nearest_eq_of_not_reaches hc hc' hj hreaches,
      haltered.nearest_eq_of_not_reaches hc hranked hj hreaches]

theorem sectionWritten_of_grown {value : Section} (h : Grown id [] [key] c s c' s')
    (hvalue : s'.sections[key]? = some value) : SectionWritten c id key value c' where
  bound := by
    rw [section?, scope, h.scope_eq]
    exact congrArg _ hvalue
  seen {α} kind a ha j hj hreaches := by
    refine ((h.altered hs).nearest_eq_of_reaches hc hc' hs h.scope_eq hreaches).trans ?_
    rw [hvalue, Option.bind_some, ha]
  hidden kind j hj hreaches := (h.altered hs).nearest_eq_of_not_reaches hc hc' hj hreaches
  passed {α} kind hkind j hj hreaches := by
    refine ((h.altered hs).nearest_eq_of_reaches hc hc' hs h.scope_eq hreaches).trans ?_
    rw [hvalue, Option.bind_some, hkind]
  unbound := exists_unbindSection_of_grown hs hc hc' h hvalue
  other_key j hj key' hne :=
    sameLookups_of_grown hs hc hc' h List.not_mem_nil (List.mem_singleton.not.2 hne) hj
  outside j hj hne habove := by
    have hsections {α : Type} (kind : Section → Option α) :
        c'.fetchSection kind j key = c.fetchSection kind j key :=
      (h.altered hs).nearest_eq_of_not_reaches hc hc' hj fun hreaches =>
        hreaches.eq_or_isAbove.elim hne habove
    exact ⟨fetch_eq_of_grown hs hc hc' h List.not_mem_nil hj, hsections,
      resolve_eq_of_fetchSection_eq hsections⟩
  fetch_eq j hj := fetch_eq_of_grown hs hc hc' h List.not_mem_nil hj

omit hc' in
theorem exists_textWritten (key value : Text) :
    ∃ c', c.setText id key value = .ok c' ∧ TextWritten c id key value c' := by
  obtain ⟨c', s', hc', hgrown, hvalue⟩ := exists_setText hs key value
  have hranked := (hgrown.altered hs).ranked (size_of_modify hc') hc
  exact ⟨c', hc', textWritten_of_grown hs hc hranked hgrown hvalue⟩

omit hc' in
theorem exists_sectionWritten (key : Text) (value : Scope → Section) :
    ∃ c', c.modify id (fun s => { s with sections := s.sections.insert key (value s) }) = .ok c' ∧
      SectionWritten c id key (value s) c' := by
  obtain ⟨c', s', hc', hgrown, hvalue⟩ := exists_modify_sections hs key value
  have hranked := (hgrown.altered hs).ranked (size_of_modify hc') hc
  exact ⟨c', hc', sectionWritten_of_grown hs hc hranked hgrown hvalue⟩

end Written

/-- From a scope that binds nothing everything is found as from its parent. -/
theorem sameLookups_of_new (hc : c.Ranked) (hj : c.scopes[j]? = some { parent := some id })
    (key : Text) : SameLookups c id c j key := by
  have hnearest {α : Type} {pick : Scope → Option α} (hpick : pick { parent := some id } = none) :
      c.nearest pick j = c.nearest pick id :=
    (hc.nearest_of_not_pick hj hpick).trans (nearestAbove_of_parent_eq_some hj rfl)
  have hsections {α : Type} (kind : Section → Option α) :
      c.fetchSection kind j key = c.fetchSection kind id key := hnearest (by simp)
  exact ⟨hnearest (by simp), hsections, resolve_eq_of_fetchSection_eq hsections⟩

/-- **What lookups answer after a change.** A name of a scope is bound to a text, to fields, to a
function, to the items that it had, or to these and one more behind them. From the scope of the new
item all names are found as from the scope that has the item. -/
theorem Reachable.lookups_of_changes (hc : c.Reachable) (hs : c.scope id = .ok s) (key : Text) :
    (∀ value, ∃ c', c.set id key (.text value) = .ok c' ∧ TextWritten c id key value c') ∧
    (∀ map, ∃ c', c.set id key (.fields map) = .ok c' ∧
      SectionWritten c id key (.fields map) c') ∧
    (∀ f, ∃ c', c.set id key (.function f) = .ok c' ∧
      SectionWritten c id key (.function f) c') ∧
    (∃ c', c.reserveItems id key = .ok c' ∧
      SectionWritten c id key (.items (s.itemsOf key)) c') ∧
    ∃ c', c.addItem id key = .ok (c', c.scopes.size) ∧
      SectionWritten c id key (.items (s.itemsOf key ++ [c.scopes.size])) c' ∧
      ∀ key', SameLookups c' id c' c.scopes.size key' := by
  have hs := getElem?_of_scope hs
  have hid := (Array.getElem?_eq_some_iff.1 hs).1
  have hranked := hc.tree.ranked
  refine ⟨exists_textWritten hs hranked key, fun map => ?_, fun f => ?_, ?_, ?_⟩
  · exact exists_sectionWritten hs hranked key fun _ => .fields map
  · exact exists_sectionWritten hs hranked key fun _ => .function f
  · have hreserved := exists_sectionWritten hs hranked key fun s => .items (s.itemsOf key ++ [])
    rwa [List.append_nil] at hreserved
  · obtain ⟨c', s', hc', hgrown, hnew, hvalue⟩ := exists_addItem hs key
    have hranked' := (Reachable.addItem hc hid hc').tree.ranked
    exact ⟨c', hc', sectionWritten_of_grown hs hranked hranked' hgrown hvalue,
      sameLookups_of_new hranked' hnew⟩

/-- The root has fields of a name, and the scope of an item below it gets a function of this name:
from there the function is found, and it does not hide the fields. -/
theorem Reachable.lookups_of_function_below_fields :
    ∃ c₁ c₂ child c₃,
      Context.empty.set root ['k'] (.fields ∅) = .ok c₁ ∧
      c₁.addItem root ['r'] = .ok (c₂, child) ∧
      c₂.set child ['k'] (.function List.reverse) = .ok c₃ ∧
      c₃.fetchFunction child ['k'] = .ok (some List.reverse) ∧
      c₃.fetchFields child ['k'] = .ok (some ∅) := by
  have hroot : Context.empty.scope root = .ok {} := rfl
  obtain ⟨-, hfields, -⟩ := Reachable.lookups_of_changes .empty hroot ['k']
  obtain ⟨c₁, hc₁, hwritten₁⟩ := hfields ∅
  have hreachable₁ : c₁.Reachable := .set .empty Nat.one_pos hc₁
  obtain ⟨s₁, hs₁, -⟩ := exists_ok_of_map_eq_ok hwritten₁.bound
  have hlt₁ := (Array.getElem?_eq_some_iff.1 (getElem?_of_scope hs₁)).1
  obtain ⟨-, -, -, -, c₂, hc₂, hwritten₂, -⟩ := hreachable₁.lookups_of_changes hs₁ ['r']
  have hreachable₂ : c₂.Reachable := .addItem hreachable₁ hlt₁ hc₂
  obtain ⟨c₂', -, hc₂', -, hnew, -⟩ := exists_addItem (getElem?_of_scope hs₁) ['r']
  rw [hc₂] at hc₂'
  cases hc₂'
  have hs₂ : c₂.scope c₁.scopes.size = .ok { parent := some root } := by rw [scope, hnew]
  have hlt₂ := (Array.getElem?_eq_some_iff.1 hnew).1
  obtain ⟨-, -, hfunction, -⟩ := hreachable₂.lookups_of_changes hs₂ ['k']
  obtain ⟨c₃, hc₃, hwritten₃⟩ := hfunction List.reverse
  refine ⟨c₁, c₂, c₁.scopes.size, c₃, hc₁, hc₂, hc₃, ?_, ?_⟩
  · exact hwritten₃.seen Section.function? _ rfl _ hlt₂ .here
  · calc
      c₃.fetchFields c₁.scopes.size ['k'] = c₂.fetchFields root ['k'] :=
        (hwritten₃.passed Section.fields? rfl _ hlt₂ .here).trans
          (nearestAbove_of_parent_eq_some hnew rfl)
      _ = c₁.fetchFields root ['k'] :=
        (hwritten₂.other_key root hlt₁ ['k'] (by decide)).fetchSection_eq Section.fields?
      _ = .ok (some ∅) := hwritten₁.seen Section.fields? ∅ rfl root Nat.one_pos .here

end Mustache.Context

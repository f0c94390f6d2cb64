import Mathlib.Data.List.Forall2
import Mathlib.Data.List.Nodup
import Mustache.Proofs.Context.Stands
import Mustache.Proofs.Json.Distinct

/-!
# Contexts made from JSON

Binding a value to a name adds scopes behind those that are there and changes one of them at one
name: a scalar changes a text, any other value a section (`Context.Grown`). Where the name had no
items before, it is bound to the value and to nothing else (`Context.Holds`). The root of a context
made from an object stands for it (`Context.exists_ofJson`).
-/

namespace Mustache

/-- Of entries with different names, each is found under its name. -/
theorem Table.getElem?_ofList {α : Type} {entries : List (Text × α)}
    (h : (entries.map Prod.fst).Nodup) (name : Text) :
    (Std.ExtTreeMap.ofList entries : Table α)[name]? = entries.lookup name := by
  cases hlookup : entries.lookup name with
  | none =>
    rw [List.lookup_eq_none_iff] at hlookup
    apply Std.ExtTreeMap.getElem?_ofList_of_contains_eq_false
    rw [← Bool.not_eq_true, List.contains_iff_mem]
    intro hmem
    obtain ⟨entry, hentry, rfl⟩ := List.mem_map.1 hmem
    simpa using hlookup entry hentry
  | some value =>
    obtain ⟨front, rest, rfl, -⟩ := List.lookup_eq_some_iff.1 hlookup
    refine Std.ExtTreeMap.getElem?_ofList_of_mem Std.ReflCmp.compare_self ?_ (by simp)
    rw [List.nodup_iff_pairwise_ne, List.pairwise_map] at h
    exact h.imp fun hne heq => hne (Std.LawfulEqCmp.eq_of_compare heq)

namespace Json

/-- The names of the members that are scalars. -/
def scalarNames (members : Members) : List Text :=
  (members.filter (·.2.scalarText?.isSome)).map Prod.fst

/-- The names of the members that are arrays or objects. -/
def sectionNames (members : Members) : List Text :=
  (members.filter (·.2.scalarText?.isNone)).map Prod.fst

variable {members : Members} {m : Text × Json} {key : Text} {value : Json}

theorem scalarNames_cons (m : Text × Json) (members : Members) :
    scalarNames (m :: members) = scalarNames [m] ++ scalarNames members := by
  rw [scalarNames, ← List.singleton_append, List.filter_append, List.map_append]
  rfl

theorem sectionNames_cons (m : Text × Json) (members : Members) :
    sectionNames (m :: members) = sectionNames [m] ++ sectionNames members := by
  rw [sectionNames, ← List.singleton_append, List.filter_append, List.map_append]
  rfl

theorem mem_scalarNames_iff :
    key ∈ scalarNames members ↔ ∃ value, (key, value) ∈ members ∧ value.scalarText?.isSome := by
  simp [scalarNames]

theorem mem_sectionNames_iff :
    key ∈ sectionNames members ↔ ∃ value, (key, value) ∈ members ∧ value.scalarText? = none := by
  simp [sectionNames]

theorem scalarNames_subset (members : Members) : scalarNames members ⊆ members.map Prod.fst :=
  List.map_subset _ (List.filter_subset_self _)

theorem sectionNames_subset (members : Members) : sectionNames members ⊆ members.map Prod.fst :=
  List.map_subset _ (List.filter_subset_self _)

end Json

namespace Context

open Json (Members scalarNames sectionNames)

variable {c c' c'' : Context} {id n : ScopeId} {s s' s'' : Scope} {key : Text} {value : Json}
  {members : Members} {ts ts' us us' : List Text}

/-- The scope `id`, which was `s`, is now `s'`. It has other texts for the names `ts` only and other
sections for the names `us` only, and all scopes that were there before are left alone but for
it. -/
structure Grown (id : ScopeId) (ts us : List Text) (c : Context) (s : Scope) (c' : Context)
    (s' : Scope) : Prop where
  scope_eq : c'.scopes[id]? = some s'
  size_le : c.scopes.size ≤ c'.scopes.size
  kept : ∀ j, j < c.scopes.size → j ≠ id → c'.scopes[j]? = c.scopes[j]?
  parent_eq : s'.parent = s.parent
  texts_eq : ∀ key ∉ ts, s'.texts[key]? = s.texts[key]?
  sections_eq : ∀ key ∉ us, s'.sections[key]? = s.sections[key]?

theorem Grown.refl (hs : c.scopes[id]? = some s) : Grown id [] [] c s c s :=
  ⟨hs, Nat.le_refl _, fun _ _ _ => rfl, rfl, fun _ _ => rfl, fun _ _ => rfl⟩

theorem Grown.trans (h : Grown id ts us c s c' s') (h' : Grown id ts' us' c' s' c'' s'') :
    Grown id (ts ++ ts') (us ++ us') c s c'' s'' where
  scope_eq := h'.scope_eq
  size_le := Nat.le_trans h.size_le h'.size_le
  kept j hj hne := (h'.kept j (Nat.lt_of_lt_of_le hj h.size_le) hne).trans (h.kept j hj hne)
  parent_eq := h'.parent_eq.trans h.parent_eq
  texts_eq key hkey := by
    rw [List.mem_append, not_or] at hkey
    exact (h'.texts_eq key hkey.2).trans (h.texts_eq key hkey.1)
  sections_eq key hkey := by
    rw [List.mem_append, not_or] at hkey
    exact (h'.sections_eq key hkey.2).trans (h.sections_eq key hkey.1)

theorem Grown.subset (h : Grown id ts us c s c' s') (hus : us ⊆ us') :
    Grown id ts us' c s c' s' :=
  { h with sections_eq := fun key hkey => h.sections_eq key fun hmem => hkey (hus hmem) }

/-- A scope that was added is filled, and all that was there before is left alone. -/
theorem Grown.fill {j : ScopeId} {r r' : Scope} (h : Grown id ts us c s c' s')
    (hid : id < c.scopes.size) (hj : c.scopes.size ≤ j) (h' : Grown j ts' us' c' r c'' r') :
    Grown id ts us c s c'' s' :=
  have hkept : ∀ i < c.scopes.size, c''.scopes[i]? = c'.scopes[i]? := fun i hi =>
    h'.kept i (Nat.lt_of_lt_of_le hi h.size_le) (Nat.ne_of_lt (Nat.lt_of_lt_of_le hi hj))
  { h with
    scope_eq := (hkept id hid).trans h.scope_eq
    size_le := Nat.le_trans h.size_le h'.size_le
    kept := fun i hi hne => (hkept i hi).trans (h.kept i hi hne) }

theorem Grown.itemsOf_eq (h : Grown id ts us c s c' s') (hkey : key ∉ us) :
    s'.itemsOf key = s.itemsOf key := by
  rw [Scope.itemsOf, Scope.itemsOf, h.sections_eq key hkey]

/-! ### One change -/

theorem exists_modify (hs : c.scopes[id]? = some s) (f : Scope → Scope) :
    ∃ c', c.modify id f = .ok c' ∧ c'.scopes[id]? = some (f s) ∧
      c'.scopes.size = c.scopes.size ∧ ∀ j, j ≠ id → c'.scopes[j]? = c.scopes[j]? := by
  obtain ⟨hlt, heq⟩ := Array.getElem?_eq_some_iff.1 hs
  rw [modify, dif_pos hlt, heq]
  refine ⟨_, rfl, ?_, ?_, fun j hj => ?_⟩
  · exact Array.getElem?_set_self hlt
  · exact Array.size_set hlt
  · exact Array.getElem?_set_ne hlt hj.symm

/-- Binding a name to a text. -/
theorem exists_setText (hs : c.scopes[id]? = some s) (key text : Text) :
    ∃ c' s', c.setText id key text = .ok c' ∧ Grown id [key] [] c s c' s' ∧
      s'.texts[key]? = some text := by
  obtain ⟨c', hc', hid, hsize, hkept⟩ :=
    exists_modify hs fun s => { s with texts := s.texts.insert key text }
  refine ⟨c', _, hc', ⟨hid, Nat.le_of_eq hsize.symm, fun j _ => hkept j, rfl, ?_, fun _ _ => rfl⟩,
    ?_⟩
  · intro key' hne
    rw [List.mem_singleton] at hne
    exact (Table.getElem?_insert _ _ _ _).trans (if_neg (Ne.symm hne))
  · exact (Table.getElem?_insert _ _ _ _).trans (if_pos rfl)

/-- Binding a name to a section. -/
theorem exists_modify_sections (hs : c.scopes[id]? = some s) (key : Text)
    (value : Scope → Section) :
    ∃ c' s', c.modify id (fun s => { s with sections := s.sections.insert key (value s) }) =
        .ok c' ∧ Grown id [] [key] c s c' s' ∧ s'.sections[key]? = some (value s) := by
  obtain ⟨c', hc', hid, hsize, hkept⟩ :=
    exists_modify hs fun s => { s with sections := s.sections.insert key (value s) }
  refine ⟨c', _, hc', ⟨hid, Nat.le_of_eq hsize.symm, fun j _ => hkept j, rfl, fun _ _ => rfl, ?_⟩,
    ?_⟩
  · intro key' hne
    rw [List.mem_singleton] at hne
    exact (Table.getElem?_insert _ _ _ _).trans (if_neg (Ne.symm hne))
  · exact (Table.getElem?_insert _ _ _ _).trans (if_pos rfl)

theorem getElem?_addScope_self (c : Context) (id : ScopeId) :
    (c.addScope id).1.scopes[c.scopes.size]? = some { parent := some id } :=
  Array.getElem?_push_size

theorem getElem?_addScope_of_lt {j : ScopeId} (hj : j < c.scopes.size) :
    (c.addScope id).1.scopes[j]? = c.scopes[j]? :=
  (Array.getElem?_push_lt hj).trans (Array.getElem?_eq_getElem hj).symm

theorem size_addScope (c : Context) (id : ScopeId) :
    (c.addScope id).1.scopes.size = c.scopes.size + 1 := Array.size_push _

/-- Adding a last item of a name. -/
theorem exists_addItem (hs : c.scopes[id]? = some s) (key : Text) :
    ∃ c' s', c.addItem id key = .ok (c', c.scopes.size) ∧ Grown id [] [key] c s c' s' ∧
      c'.scopes[c.scopes.size]? = some { parent := some id } ∧
      s'.sections[key]? = some (.items (s.itemsOf key ++ [c.scopes.size])) := by
  have hlt := (Array.getElem?_eq_some_iff.1 hs).1
  have hsize := size_addScope c id
  obtain ⟨c', s', hc', hgrown, hsection⟩ :=
    exists_modify_sections ((getElem?_addScope_of_lt hlt).trans hs) key
      fun s => .items (s.itemsOf key ++ [c.scopes.size])
  refine ⟨c', s', congrArg (Except.map _) hc', ⟨hgrown.scope_eq, ?_, fun j hj hne => ?_,
    hgrown.parent_eq, hgrown.texts_eq, hgrown.sections_eq⟩, ?_, hsection⟩
  · exact Nat.le_trans (Nat.le_of_lt (hsize ▸ Nat.lt_succ_self _)) hgrown.size_le
  · exact (hgrown.kept j (hsize ▸ Nat.lt_succ_of_lt hj) hne).trans (getElem?_addScope_of_lt hj)
  · exact (hgrown.kept _ (hsize ▸ Nat.lt_succ_self _) (Nat.ne_of_gt hlt)).trans
      (getElem?_addScope_self c id)

/-! ### Values, members and items -/

/-- The scope `s` at the place `id` binds a name to a value: a scalar as a text, an object of scalars
as fields, and anything else as items. Each item is a scope below `id`, at the place `n` or behind
it, that stands for an object, or for the value under the name `.` alone. -/
inductive Holds (n : Nat) (c : Context) (id : ScopeId) (s : Scope) (key : Text) : Json → Prop
  | scalar {value text} : value.scalarText? = some text → s.texts[key]? = some text →
    Holds n c id s key value
  | flat {members map} : (∀ m ∈ members, m.2.scalarText?.isSome) →
    (∀ name : Text, map[name]? = (members.lookup name).bind Json.scalarText?) →
    s.sections[key]? = some (.fields map) → Holds n c id s key (.object members)
  | nested {members child} : (∃ m ∈ members, m.2.scalarText? = none) →
    s.sections[key]? = some (.items [child]) → n ≤ child → Child c id (child, members) →
    Holds n c id s key (.object members)
  | array {items scopes} : s.sections[key]? = some (.items scopes) →
    List.Forall₂ (fun i item => n ≤ i ∧ Child c id (i, item.itemMembers)) scopes items →
    Holds n c id s key (.array items)

theorem Holds.text_eq {text : Text} (h : Holds n c id s key value)
    (hscalar : value.scalarText? = some text) : s.texts[key]? = some text := by
  cases h with
  | scalar hscalar' hs =>
    rw [hscalar] at hscalar'
    exact hscalar' ▸ hs
  | flat | nested | array => cases hscalar

theorem Holds.exists_fields (h : Holds n c id s key (.object members)) (hflat : Json.Flat members) :
    ∃ map, s.sections[key]? = some (.fields map) ∧
      ∀ name : Text, map[name]? = (members.lookup name).bind Json.scalarText? := by
  cases h with
  | scalar hscalar => cases hscalar
  | flat _ hmap hs => exact ⟨_, hs, hmap⟩
  | nested hnested => exact absurd hflat (Json.not_flat_iff.2 hnested)

theorem Holds.exists_child (h : Holds n c id s key (.object members))
    (hnested : ¬ Json.Flat members) :
    ∃ child, s.sections[key]? = some (.items [child]) ∧ n ≤ child ∧
      Child c id (child, members) := by
  cases h with
  | scalar hscalar => cases hscalar
  | flat hflat => exact absurd hflat hnested
  | nested _ hs hnew hchild => exact ⟨_, hs, hnew, hchild⟩

theorem Holds.exists_scopes {items : List Json} (h : Holds n c id s key (.array items)) :
    ∃ scopes, s.sections[key]? = some (.items scopes) ∧
      List.Forall₂ (fun i item => n ≤ i ∧ Child c id (i, item.itemMembers)) scopes items := by
  cases h with
  | scalar hscalar => cases hscalar
  | array hs hscopes => exact ⟨_, hs, hscopes⟩

/-- A binding stays when its name and the scopes behind `id` do. -/
theorem Holds.mono {n' : Nat} (h : Holds n c id s key value) (hn : n' ≤ n)
    (htexts : s'.texts[key]? = s.texts[key]?) (hsections : s'.sections[key]? = s.sections[key]?)
    (hkept : ∀ j, id < j → j < c.scopes.size → c'.scopes[j]? = c.scopes[j]?) :
    Holds n' c' id s' key value := by
  cases h with
  | scalar htext hs => exact .scalar htext (htexts.trans hs)
  | flat hflat hmap hs => exact .flat hflat hmap (hsections.trans hs)
  | nested hnested hs hnew hchild =>
    exact .nested hnested (hsections.trans hs) (Nat.le_trans hn hnew) (hchild.mono hkept)
  | array hs hscopes =>
    exact .array (hsections.trans hs)
      (hscopes.imp fun _ _ h => ⟨Nat.le_trans hn h.1, h.2.mono hkept⟩)

theorem exists_children {scopes : List ScopeId} {items : List Json}
    (h : List.Forall₂ (fun i item => n ≤ i ∧ Child c id (i, item.itemMembers)) scopes items) :
    ∃ children : List (ScopeId × Members), scopes = children.map Prod.fst ∧
      items.map Json.itemMembers = children.map Prod.snd ∧
      ∀ child ∈ children, Child c id child := by
  induction h with
  | nil => exact ⟨[], rfl, rfl, nofun⟩
  | @cons i item _ _ hchild _ ih =>
    obtain ⟨children, hscopes, hitems, hchildren⟩ := ih
    refine ⟨(i, item.itemMembers) :: children, ?_, ?_, ?_⟩
    · rw [hscopes, List.map_cons]
    · rw [List.map_cons, hitems, List.map_cons]
    · exact List.forall_mem_cons.2 ⟨hchild.2, hchildren⟩

/-- A name that is bound to the scopes of the items stands for the value that has these items. -/
theorem binds_items (children : List (ScopeId × Members)) (htext : s.texts[key]? = none)
    (hsection : s.sections[key]? = some (.items (children.map Prod.fst)))
    (hscalar : value.scalarText? = none) (hfields : value.fields? = none)
    (hitems : value.items? = some (children.map Prod.snd))
    (hchildren : ∀ child ∈ children, Child c id child) : Binds c id s key (some value) := by
  refine ⟨htext.trans hscalar.symm, ?_, ?_, some children, ?_, hitems, ?_⟩
  · rw [hsection]
    exact hfields.symm
  · rw [hsection]
    rfl
  · rw [hsection]
    rfl
  · rintro _ ⟨⟩ child hchild
    exact hchildren child hchild

/-- A name that is bound to a value and to nothing else stands for the value. -/
theorem Holds.binds (h : Holds n c id s key value)
    (htext : value.scalarText? = none → s.texts[key]? = none)
    (hsection : value.scalarText?.isSome → s.sections[key]? = none) :
    Binds c id s key (some value) := by
  cases h with
  | @scalar value text hscalar hs =>
    have hnone : value.fields? = none ∧ value.items? = none := by
      cases value with
      | array | object => cases hscalar
      | _ => exact ⟨rfl, rfl⟩
    have hsection := hsection (by rw [hscalar]; rfl)
    refine ⟨hs.trans hscalar.symm, ?_, ?_, none, ?_, hnone.2, nofun⟩
    · rw [hsection]
      exact hnone.1.symm
    · rw [hsection]
      rfl
    · rw [hsection]
      rfl
  | flat hflat hmap hs =>
    refine ⟨htext rfl, ?_, ?_, none, ?_, Json.items?_object_eq_none hflat, nofun⟩
    · rw [hs]
      exact (Json.fields?_object hflat hmap).symm
    · rw [hs]
      rfl
    · rw [hs]
      rfl
  | @nested members child hnested hs _ hchild =>
    have hflat := Json.not_flat_iff.2 hnested
    exact binds_items [(child, members)] (htext rfl) hs rfl (Json.fields?_object_eq_none hflat)
      (Json.items?_object hflat) (List.forall_mem_singleton.2 hchild)
  | array hs hscopes =>
    obtain ⟨children, rfl, hitems, hchildren⟩ := exists_children hscopes
    exact binds_items children (htext rfl) hs rfl rfl (congrArg some hitems) hchildren

/-- Binding a name without items to the value makes the name hold it. -/
def Bindable (value : Json) : Prop :=
  ∀ {c : Context} {id : ScopeId} {s : Scope} {key : Text}, c.scopes[id]? = some s →
    s.itemsOf key = [] → ∃ c' s', c.bindValue id key value = .ok c' ∧
      Grown id (scalarNames [(key, value)]) (sectionNames [(key, value)]) c s c' s' ∧
      Holds c.scopes.size c' id s' key value

theorem exists_bindMembers (h : ∀ m ∈ members, Bindable m.2)
    (hnodup : (members.map Prod.fst).Nodup) (hs : c.scopes[id]? = some s)
    (hitems : ∀ m ∈ members, s.itemsOf m.1 = []) :
    ∃ c' s', c.bindMembers id members = .ok c' ∧
      Grown id (scalarNames members) (sectionNames members) c s c' s' ∧
      ∀ m ∈ members, Holds c.scopes.size c' id s' m.1 m.2 := by
  induction members generalizing c s with
  | nil => exact ⟨c, s, by rw [bindMembers], .refl hs, nofun⟩
  | cons m members ih =>
    rw [List.map_cons, List.nodup_cons] at hnodup
    obtain ⟨c₁, s₁, hc₁, hgrown₁, hholds₁⟩ :=
      h m List.mem_cons_self hs (hitems m List.mem_cons_self)
    have hitems₁ : ∀ m' ∈ members, s₁.itemsOf m'.1 = [] := by
      intro m' hm'
      have hne : m'.1 ∉ sectionNames [m] := by
        intro hmem
        have heq := List.mem_singleton.1 (Json.sectionNames_subset [m] hmem)
        exact hnodup.1 (heq ▸ List.mem_map_of_mem hm')
      exact (hgrown₁.itemsOf_eq hne).trans (hitems m' (List.mem_cons_of_mem _ hm'))
    obtain ⟨c₂, s₂, hc₂, hgrown₂, hholds₂⟩ :=
      ih (fun m hm => h m (List.mem_cons_of_mem _ hm)) hnodup.2 hgrown₁.scope_eq hitems₁
    refine ⟨c₂, s₂, ?_, ?_, List.forall_mem_cons.2 ⟨?_, fun m' hm' => ?_⟩⟩
    · rw [bindMembers, hc₁]
      exact hc₂
    · rw [Json.scalarNames_cons, Json.sectionNames_cons]
      exact hgrown₁.trans hgrown₂
    · exact hholds₁.mono (Nat.le_refl _)
        (hgrown₂.texts_eq _ fun hmem => hnodup.1 (Json.scalarNames_subset members hmem))
        (hgrown₂.sections_eq _ fun hmem => hnodup.1 (Json.sectionNames_subset members hmem))
        fun j hlt hj => hgrown₂.kept j hj (Nat.ne_of_gt hlt)
    · exact (hholds₂ m' hm').mono hgrown₁.size_le rfl rfl fun _ _ _ => rfl

theorem mem_of_lookup_eq_some {members : Members} {key : Text} {value : Json}
    (h : members.lookup key = some value) : (key, value) ∈ members := by
  obtain ⟨front, rest, rfl, -⟩ := List.lookup_eq_some_iff.1 h
  simp

theorem not_mem_of_lookup_eq_none {members : Members} {key : Text}
    (h : members.lookup key = none) : key ∉ members.map Prod.fst := by
  rw [List.lookup_eq_none_iff] at h
  intro hkey
  obtain ⟨m, hm, rfl⟩ := List.mem_map.1 hkey
  simpa using h m hm

/-- A name that a scope does not bind. -/
def Unbound (s : Scope) (key : Text) : Prop := s.texts[key]? = none ∧ s.sections[key]? = none

theorem unbound_new (parent : Option ScopeId) (key : Text) :
    Unbound { parent := parent } key := by
  constructor <;> simp

theorem Unbound.itemsOf_eq (h : Unbound s key) : s.itemsOf key = [] := by
  simp [Scope.itemsOf, h.2]

theorem binds_none (h : Unbound s key) : Binds c id s key none := by
  refine ⟨h.1, ?_, ?_, none, ?_, rfl, nofun⟩
  all_goals
    rw [h.2]
    rfl

/-- A new scope that takes in members stands for them. -/
theorem exists_stands (h : ∀ m ∈ members, Bindable m.2) (hnodup : (members.map Prod.fst).Nodup)
    (hs : c.scopes[id]? = some s) (hnew : ∀ key, Unbound s key) :
    ∃ c' s', c.bindMembers id members = .ok c' ∧
      Grown id (scalarNames members) (sectionNames members) c s c' s' ∧ Stands c' id members := by
  obtain ⟨c', s', hc', hgrown, hholds⟩ :=
    exists_bindMembers h hnodup hs fun m _ => (hnew m.1).itemsOf_eq
  have htext : ∀ key ∉ scalarNames members, s'.texts[key]? = none := fun key hkey =>
    (hgrown.texts_eq key hkey).trans (hnew key).1
  have hsection : ∀ key ∉ sectionNames members, s'.sections[key]? = none := fun key hkey =>
    (hgrown.sections_eq key hkey).trans (hnew key).2
  refine ⟨c', s', hc', hgrown, stands_of_binds hgrown.scope_eq fun key => ?_⟩
  cases hlookup : members.lookup key with
  | none =>
    have hkey := not_mem_of_lookup_eq_none hlookup
    exact binds_none ⟨htext key fun hmem => hkey (Json.scalarNames_subset members hmem),
      hsection key fun hmem => hkey (Json.sectionNames_subset members hmem)⟩
  | some value =>
    have hmem := mem_of_lookup_eq_some hlookup
    -- The name has no other value, so it is bound on one side only.
    have hvalue : ∀ value', (key, value') ∈ members → value' = value := fun value' hmem' =>
      congrArg Prod.snd (List.inj_on_of_nodup_map hnodup hmem' hmem rfl)
    refine (hholds _ hmem).binds (fun hscalar => htext key fun hkey => ?_)
      fun hscalar => hsection key fun hkey => ?_
    · obtain ⟨value', hmem', hsome⟩ := Json.mem_scalarNames_iff.1 hkey
      rw [hvalue value' hmem', hscalar] at hsome
      cases hsome
    · obtain ⟨value', hmem', hnone⟩ := Json.mem_sectionNames_iff.1 hkey
      rw [hvalue value' hmem'] at hnone
      rw [hnone] at hscalar
      cases hscalar

theorem bindMembers_itemMembers (item : Json) :
    c.bindMembers id item.itemMembers =
      match item with
      | .object members => c.bindMembers id members
      | item => c.bindValue id itemName item := by
  cases item with
  | object members => rfl
  | _ =>
    rw [Json.itemMembers, bindMembers]
    · simp only [bindMembers]
      exact bind_pure _
    · intro members h
      cases h

theorem bindItems_cons (done : List ScopeId) (item : Json) (items : List Json) :
    bindItems id done c (item :: items) =
      (bindMembers c.scopes.size (c.addScope id).1 item.itemMembers).bind fun c' =>
        bindItems id (c.scopes.size :: done) c' items := by
  rw [bindMembers_itemMembers, bindItems]
  cases item <;> rfl

theorem exists_bindItems {items : List Json}
    (h : ∀ item ∈ items, (∀ m ∈ item.itemMembers, Bindable m.2) ∧
      (item.itemMembers.map Prod.fst).Nodup)
    (hid : id < c.scopes.size) (done : List ScopeId) :
    ∃ c' scopes, bindItems id done c items = .ok (c', done.reverse ++ scopes) ∧
      List.Forall₂ (fun i item => c.scopes.size ≤ i ∧ Child c' id (i, item.itemMembers))
        scopes items ∧
      c.scopes.size ≤ c'.scopes.size ∧ ∀ j < c.scopes.size, c'.scopes[j]? = c.scopes[j]? := by
  induction items generalizing c done with
  | nil => exact ⟨c, [], by simp [bindItems], .nil, Nat.le_refl _, fun _ _ => rfl⟩
  | cons item items ih =>
    obtain ⟨hbindable, hnodup⟩ := h item List.mem_cons_self
    -- The scope of the item takes its place behind the ones that are there.
    have hnew := getElem?_addScope_self c id
    have hsize := size_addScope c id
    obtain ⟨c₁, s₁, hc₁, hgrown, hstands⟩ :=
      exists_stands hbindable hnodup hnew (unbound_new _)
    have hsize₁ := hgrown.size_le
    rw [hsize] at hsize₁
    obtain ⟨c₂, scopes, hc₂, hscopes, hsize₂, hkept⟩ :=
      ih (fun item hitem => h item (List.mem_cons_of_mem _ hitem))
        (Nat.lt_of_lt_of_le hid (Nat.le_of_succ_le hsize₁)) (c.scopes.size :: done)
    have hle : c.scopes.size ≤ c₁.scopes.size := Nat.le_of_succ_le hsize₁
    refine ⟨c₂, c.scopes.size :: scopes, ?_, .cons ⟨Nat.le_refl _, hid, ?_, ?_⟩ ?_,
      Nat.le_trans hle hsize₂, fun j hj => ?_⟩
    · rw [bindItems_cons, hc₁]
      exact hc₂.trans (by simp)
    · rw [parent_eq_of_scopes_eq (hkept c.scopes.size hsize₁), parent, scope, hgrown.scope_eq]
      exact congrArg _ hgrown.parent_eq
    · exact hstands.mono fun j _ hj => hkept j hj
    · exact hscopes.imp fun _ _ h => ⟨Nat.le_trans hle h.1, h.2⟩
    · rw [hkept j (by omega), hgrown.kept j (by omega) (by omega), getElem?_addScope_of_lt hj]

theorem bindValue_of_scalarText? {value : Json} {key text : Text}
    (h : value.scalarText? = some text) : c.bindValue id key value = c.setText id key text := by
  cases value with
  | array | object => cases h
  | _ =>
    rw [bindValue]
    cases h
    rfl

theorem bindable_of_scalarText? {text : Text} (h : value.scalarText? = some text) :
    Bindable value := by
  intro c id s key hs _
  obtain ⟨c', s', hc', hgrown, htext⟩ := exists_setText hs key text
  refine ⟨c', s', (bindValue_of_scalarText? h).trans hc', ?_, .scalar h htext⟩
  simpa [scalarNames, sectionNames, h] using hgrown

theorem bindable_array {items : List Json}
    (h : ∀ item ∈ items, (∀ m ∈ item.itemMembers, Bindable m.2) ∧
      (item.itemMembers.map Prod.fst).Nodup) : Bindable (.array items) := by
  intro c id s key hs hkey
  obtain ⟨c₁, s₁, hc₁, hgrown₁, hsection₁⟩ :=
    exists_modify_sections hs key fun s => .items (s.itemsOf key ++ [])
  have hlt := (Array.getElem?_eq_some_iff.1 hgrown₁.scope_eq).1
  obtain ⟨c₂, scopes, hc₂, hscopes, hsize₂, hkept₂⟩ := exists_bindItems h hlt []
  have hs₂ : c₂.scopes[id]? = some s₁ := (hkept₂ id hlt).trans hgrown₁.scope_eq
  obtain ⟨c₃, s₃, hc₃, hgrown₃, hsection₃⟩ :=
    exists_modify_sections hs₂ key fun s => .items (s.itemsOf key ++ scopes)
  have hitems₁ : s₁.itemsOf key = [] := by
    rw [Scope.itemsOf, hsection₁, hkey]
    rfl
  rw [hitems₁, List.nil_append] at hsection₃
  have hgrown₂ : Grown id [] [] c₁ s₁ c₂ s₁ :=
    ⟨hs₂, hsize₂, fun j hj _ => hkept₂ j hj, rfl, fun _ _ => rfl, fun _ _ => rfl⟩
  have hgrown : Grown id [] [key] c s c₃ s₃ :=
    ((hgrown₁.trans hgrown₂).trans hgrown₃).subset (by simp)
  have hkept₃ : ∀ j, id < j → j < c₂.scopes.size → c₃.scopes[j]? = c₂.scopes[j]? :=
    fun j hlt hj => hgrown₃.kept j hj (Nat.ne_of_gt hlt)
  refine ⟨c₃, s₃, ?_, hgrown, .array hsection₃ (hscopes.imp fun _ _ h => ⟨?_, h.2.mono hkept₃⟩)⟩
  · rw [bindValue, reserveItems, appendItems, hc₁]
    change (bindItems id [] c₁ items >>= _) = _
    rw [hc₂]
    exact hc₃
  · exact Nat.le_trans hgrown₁.size_le h.1

theorem bindable_object (h : ∀ m ∈ members, Bindable m.2)
    (hnodup : (members.map Prod.fst).Nodup) : Bindable (.object members) := by
  intro c id s key hs hkey
  cases hflat : Json.flatMembers? members with
  | some fields =>
    obtain ⟨c', s', hc', hgrown, hsection⟩ :=
      exists_modify_sections hs key fun _ => .fields (.ofList fields)
    obtain ⟨hnames, hlookup⟩ := Json.of_flatMembers? hflat
    have hmap : ∀ name : Text, (Std.ExtTreeMap.ofList fields : Table Text)[name]? =
        (members.lookup name).bind Json.scalarText? := fun name => by
      rw [Table.getElem?_ofList (hnames ▸ hnodup), hlookup]
    refine ⟨c', s', ?_, hgrown, .flat (Json.flat_of_flatMembers? hflat) hmap hsection⟩
    rw [bindValue, hflat]
    exact hc'
  | none =>
    have hlt := (Array.getElem?_eq_some_iff.1 hs).1
    obtain ⟨c₁, s₁, hc₁, hgrown₁, hnew, hsection⟩ := exists_addItem hs key
    rw [hkey, List.nil_append] at hsection
    obtain ⟨c₂, s₂, hc₂, hgrown₂, hstands⟩ := exists_stands h hnodup hnew (unbound_new _)
    have hchild : Child c₂ id (c.scopes.size, members) := by
      refine ⟨hlt, ?_, hstands⟩
      rw [parent, scope, hgrown₂.scope_eq]
      exact congrArg _ hgrown₂.parent_eq
    have hnested := Json.not_flat_iff.1 (Json.flatMembers?_eq_none_iff.1 hflat)
    refine ⟨c₂, s₁, ?_, hgrown₁.fill hlt (Nat.le_refl _) hgrown₂,
      .nested hnested hsection (Nat.le_refl _) hchild⟩
    rw [bindValue, hflat]
    change (c.addItem id key >>= _) = _
    rw [hc₁]
    exact hc₂

theorem bindable_of_distinct {value : Json} (h : value.Distinct) :
    Bindable value ∧ (∀ m ∈ value.itemMembers, Bindable m.2) ∧
      (value.itemMembers.map Prod.fst).Nodup := by
  have hitem : ∀ {value : Json}, value.itemMembers = [(itemName, value)] → Bindable value →
      Bindable value ∧ (∀ m ∈ value.itemMembers, Bindable m.2) ∧
        (value.itemMembers.map Prod.fst).Nodup := by
    intro value heq hvalue
    rw [heq]
    refine ⟨hvalue, fun m hm => ?_, by simp⟩
    rw [List.mem_singleton] at hm
    exact hm ▸ hvalue
  induction h with
  | null => exact hitem rfl (bindable_of_scalarText? (rfl : Json.null.scalarText? = _))
  | @bool b => exact hitem rfl (bindable_of_scalarText? (rfl : (Json.bool b).scalarText? = _))
  | @number n => exact hitem rfl (bindable_of_scalarText? (rfl : (Json.number n).scalarText? = _))
  | @string s => exact hitem rfl (bindable_of_scalarText? (rfl : (Json.string s).scalarText? = _))
  | array _ ih => exact hitem rfl (bindable_array fun item hmem => (ih item hmem).2)
  | @object members hnodup _ ih =>
    have hmembers : ∀ m ∈ members, Bindable m.2 := fun m hmem => (ih m hmem).1
    exact ⟨bindable_object hmembers hnodup, hmembers, hnodup⟩

/-- A context is made from any object, and its root stands for the object. -/
theorem exists_ofJson {members : Members} (h : (Json.object members).Distinct) :
    ∃ c s, ofJson (.object members) = .ok c ∧ c.scopes[root]? = some s ∧ s.parent = none ∧
      Stands c root members := by
  obtain ⟨-, hmembers, hnodup⟩ := bindable_of_distinct h
  have hempty : empty.scopes[root]? = some { parent := none } := rfl
  obtain ⟨c, s, hc, hgrown, hstands⟩ := exists_stands hmembers hnodup hempty (unbound_new none)
  refine ⟨c, s, ?_, hgrown.scope_eq, hgrown.parent_eq, hstands⟩
  have hc : empty.bindMembers root members = .ok c := hc
  rw [ofJson, extendJson, hc]
  rfl

end Context

end Mustache

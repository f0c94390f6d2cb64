import Mustache.Proofs.Context.Populate

/-!
# The tree of scopes

`Context.Tree` says that the scopes of a context form a tree: every scope but the root has a parent
in front of it, and the items of a scope are children of this scope, each under one name only.

An operation on a scope that is there has a result and leaves all other scopes alone
(`Context.Altered`). Binding a value is made of such operations, so it keeps what they keep
(`Context.Invariant.exists_bindMembers`), and they keep the tree (`Context.invariant_tree`).
-/

namespace Mustache

theorem Scope.itemsOf_insert (s : Scope) (key key' : Text) (value : Section) :
    Scope.itemsOf { s with sections := s.sections.insert key value } key' =
      if key = key' then value.items?.getD [] else s.itemsOf key' := by
  rw [itemsOf, itemsOf, Table.getElem?_insert]
  split
  · rfl
  · rfl

theorem Scope.itemsOf_new (parent : Option ScopeId) (key : Text) :
    Scope.itemsOf { parent := parent } key = [] := by
  simp [itemsOf]

namespace Context

open Json (Members)

variable {c c' c'' c₀ : Context} {id n : ScopeId} {s : Scope} {key : Text} {scopes : List ScopeId}

theorem exists_scope (h : id < c.scopes.size) : ∃ s, c.scopes[id]? = some s :=
  ⟨_, Array.getElem?_eq_getElem h⟩

theorem getElem?_of_scope (h : c.scope id = .ok s) : c.scopes[id]? = some s := by
  rw [scope] at h
  split at h
  · next hs =>
    cases h
    exact hs
  · cases h

theorem scope_eq_of_getElem? {j : ScopeId} (h : c'.scopes[j]? = c.scopes[j]?) :
    c'.scope j = c.scope j := by
  rw [scope, scope, h]

theorem parent_of_scope (hs : c.scopes[id]? = some s) : c.parent id = .ok s.parent := by
  rw [parent, scope, hs]
  rfl

/-! ### What a change leaves alone -/

/-- No scope is gone, and none has another parent. -/
def KeepsParents (c c' : Context) : Prop := ∀ id p, c.parent id = .ok p → c'.parent id = .ok p

/-- `c` has become `c'` by changes to the scope `id`: the others that were there are as they were,
and `id` has its parent. -/
structure Altered (id : ScopeId) (c c' : Context) : Prop where
  size_le : c.scopes.size ≤ c'.scopes.size
  kept : ∀ j < c.scopes.size, j ≠ id → c'.scopes[j]? = c.scopes[j]?
  parent_eq : c'.parent id = c.parent id

theorem Altered.keepsParents (h : Altered id c c') : KeepsParents c c' := by
  intro j p hj
  by_cases hne : j = id
  · rw [hne] at hj ⊢
    exact h.parent_eq.trans hj
  · exact (parent_eq_of_scopes_eq (h.kept j (lt_size_of_parent_eq hj) hne)).trans hj

theorem Altered.refl : Altered id c c := ⟨Nat.le_refl _, fun _ _ _ => rfl, rfl⟩

theorem Altered.trans (h : Altered id c c') (h' : Altered id c' c'') : Altered id c c'' where
  size_le := Nat.le_trans h.size_le h'.size_le
  kept j hj hne := (h'.kept j (Nat.lt_of_lt_of_le hj h.size_le) hne).trans (h.kept j hj hne)
  parent_eq := h'.parent_eq.trans h.parent_eq

/-- A scope that was added is changed, and with it nothing that was there before. -/
theorem Altered.fill {j : ScopeId} (h : Altered id c c') (hid : id < c.scopes.size)
    (hj : c.scopes.size ≤ j) (h' : Altered j c' c'') : Altered id c c'' := by
  have hkept : ∀ i < c.scopes.size, c''.scopes[i]? = c'.scopes[i]? := fun i hi =>
    h'.kept i (Nat.lt_of_lt_of_le hi h.size_le) (Nat.ne_of_lt (Nat.lt_of_lt_of_le hi hj))
  refine ⟨Nat.le_trans h.size_le h'.size_le, fun i hi hne => ?_, ?_⟩
  · exact (hkept i hi).trans (h.kept i hi hne)
  · exact (parent_eq_of_scopes_eq (hkept id hid)).trans h.parent_eq

theorem exists_altered (hs : c.scopes[id]? = some s) {f : Scope → Scope}
    (hparent : (f s).parent = s.parent) :
    ∃ c', c.modify id f = .ok c' ∧ Altered id c c' ∧ c'.scopes[id]? = some (f s) ∧
      c'.scopes.size = c.scopes.size := by
  obtain ⟨c', hc', hid, hsize, hkept⟩ := exists_modify hs f
  have hparents : c'.parent id = c.parent id := by
    rw [parent_of_scope hid, parent_of_scope hs, hparent]
  exact ⟨c', hc', ⟨Nat.le_of_eq hsize.symm, fun j _ => hkept j, hparents⟩, hid, hsize⟩

theorem exists_altered_setText (hid : id < c.scopes.size) (key value : Text) :
    ∃ c', c.setText id key value = .ok c' ∧ Altered id c c' := by
  obtain ⟨s, hs⟩ := exists_scope hid
  obtain ⟨c', hc', haltered, -⟩ :=
    exists_altered (f := fun s => { s with texts := s.texts.insert key value }) hs rfl
  exact ⟨c', hc', haltered⟩

theorem exists_altered_setSection (hid : id < c.scopes.size) (key : Text) (value : Section) :
    ∃ c', c.setSection id key value = .ok c' ∧ Altered id c c' := by
  obtain ⟨s, hs⟩ := exists_scope hid
  obtain ⟨c', hc', haltered, -⟩ :=
    exists_altered (f := fun s => { s with sections := s.sections.insert key value }) hs rfl
  exact ⟨c', hc', haltered⟩

theorem exists_altered_appendItems (hid : id < c.scopes.size) (key : Text)
    (scopes : List ScopeId) :
    ∃ c', c.appendItems id key scopes = .ok c' ∧ Altered id c c' := by
  obtain ⟨s, hs⟩ := exists_scope hid
  obtain ⟨c', hc', haltered, -⟩ := exists_altered
    (f := fun s => { s with sections := s.sections.insert key (.items (s.itemsOf key ++ scopes)) })
    hs rfl
  exact ⟨c', hc', haltered⟩

theorem parent_addScope (c : Context) (id : ScopeId) :
    (c.addScope id).1.parent c.scopes.size = .ok (some id) :=
  parent_of_scope (getElem?_addScope_self c id)

theorem keepsParents_addScope (c : Context) (id : ScopeId) : KeepsParents c (c.addScope id).1 :=
  fun _ _ hj => (parent_eq_of_scopes_eq (getElem?_addScope_of_lt (lt_size_of_parent_eq hj))).trans hj

/-! ### What is kept when values are bound -/

/-- Children of a scope in ascending order, from the place `n` on. -/
structure Children (c : Context) (id n : ScopeId) (scopes : List ScopeId) : Prop where
  child_of_mem : ∀ i ∈ scopes, id < i ∧ c.parent i = .ok (some id)
  ascending : scopes.Pairwise (· < ·)
  le_of_mem : ∀ i ∈ scopes, n ≤ i

theorem children_nil : Children c id n [] := ⟨nofun, .nil, nofun⟩

/-- What is kept by the operations that binding a value is made of. Items are appended to a name of
a scope that has not changed since the first of them was added. -/
structure Invariant (I : Context → Prop) : Prop where
  setText : ∀ {c c' id key value}, I c → c.setText id key value = .ok c' → I c'
  setSection : ∀ {c c' id key value}, I c → value.items? = none →
    c.setSection id key value = .ok c' → I c'
  addScope : ∀ {c id}, I c → id < c.scopes.size → I (c.addScope id).1
  appendItems : ∀ {c₀ c c' id s key scopes}, I c₀ → c₀.scopes[id]? = some s → I c →
    c.scopes[id]? = some s → Children c id c₀.scopes.size scopes →
    c.appendItems id key scopes = .ok c' → I c'

/-- Binding a name to the value has a result, in which only the scope is altered, and keeps `I`. -/
def Keeps (I : Context → Prop) (value : Json) : Prop :=
  ∀ (c : Context) (id : ScopeId) (key : Text), I c → id < c.scopes.size →
    ∃ c', c.bindValue id key value = .ok c' ∧ I c' ∧ Altered id c c'

namespace Invariant

variable {I : Context → Prop}

theorem exists_reserveItems (hI : Invariant I) (hc : I c) (hid : id < c.scopes.size)
    (key : Text) : ∃ c', c.reserveItems id key = .ok c' ∧ I c' ∧ Altered id c c' := by
  obtain ⟨s, hs⟩ := exists_scope hid
  obtain ⟨c', hc', haltered⟩ := exists_altered_appendItems hid key []
  exact ⟨c', hc', hI.appendItems hc hs hc hs children_nil hc', haltered⟩

theorem exists_addItem (hI : Invariant I) (hc : I c) (hid : id < c.scopes.size) (key : Text) :
    ∃ c', c.addItem id key = .ok (c', c.scopes.size) ∧ I c' ∧ Altered id c c' ∧
      c.scopes.size < c'.scopes.size := by
  obtain ⟨s, hs⟩ := exists_scope hid
  have hs' : (c.addScope id).1.scopes[id]? = some s := (getElem?_addScope_of_lt hid).trans hs
  have hnew : Children (c.addScope id).1 id c.scopes.size [c.scopes.size] := by
    refine ⟨?_, List.pairwise_singleton _ _, ?_⟩
    · exact List.forall_mem_singleton.2 ⟨hid, parent_addScope c id⟩
    · exact List.forall_mem_singleton.2 (Nat.le_refl _)
  have hsize : c.scopes.size < (c.addScope id).1.scopes.size :=
    size_addScope c id ▸ Nat.lt_succ_self _
  obtain ⟨c', hc', haltered⟩ :=
    exists_altered_appendItems (Nat.lt_trans hid hsize) key [c.scopes.size]
  have hlt : c.scopes.size < c'.scopes.size := Nat.lt_of_lt_of_le hsize haltered.size_le
  refine ⟨c', congrArg (Except.map _) hc', ?_, ⟨Nat.le_of_lt hlt, fun j hj hne => ?_, ?_⟩, hlt⟩
  · exact hI.appendItems hc hs (hI.addScope hc hid) hs' hnew hc'
  · rw [haltered.kept j (Nat.lt_trans hj hsize) hne, getElem?_addScope_of_lt hj]
  · rw [haltered.parent_eq, parent_eq_of_scopes_eq (getElem?_addScope_of_lt hid)]

theorem exists_members {members : Members} (h : ∀ m ∈ members, Keeps I m.2) (hc : I c)
    (hid : id < c.scopes.size) :
    ∃ c', c.bindMembers id members = .ok c' ∧ I c' ∧ Altered id c c' := by
  induction members generalizing c with
  | nil => exact ⟨c, by rw [bindMembers], hc, .refl⟩
  | cons m members ih =>
    obtain ⟨c₁, hc₁, hI₁, h₁⟩ := h m List.mem_cons_self c id m.1 hc hid
    obtain ⟨c₂, hc₂, hI₂, h₂⟩ := ih (fun m hm => h m (List.mem_cons_of_mem _ hm)) hI₁
      (Nat.lt_of_lt_of_le hid h₁.size_le)
    refine ⟨c₂, ?_, hI₂, h₁.trans h₂⟩
    rw [bindMembers, hc₁]
    exact hc₂

/-- The scopes for the items of an array are new children, and all that was there is as it was. -/
theorem exists_bindItems (hI : Invariant I) {items : List Json}
    (h : ∀ item ∈ items, ∀ m ∈ item.itemMembers, Keeps I m.2) (hc : I c)
    (hid : id < c.scopes.size) (done : List ScopeId) :
    ∃ c' scopes, bindItems id done c items = .ok (c', done.reverse ++ scopes) ∧ I c' ∧
      Children c' id c.scopes.size scopes ∧ c.scopes.size ≤ c'.scopes.size ∧
      ∀ j < c.scopes.size, c'.scopes[j]? = c.scopes[j]? := by
  induction items generalizing c done with
  | nil => exact ⟨c, [], by simp [bindItems], hc, children_nil, Nat.le_refl _, fun _ _ => rfl⟩
  | cons item items ih =>
    have hlt : c.scopes.size < (c.addScope id).1.scopes.size :=
      size_addScope c id ▸ Nat.lt_succ_self _
    -- The scope of the first item is filled before the scopes of the others come behind it.
    obtain ⟨c₁, hc₁, hI₁, h₁⟩ := exists_members (h item List.mem_cons_self) (hI.addScope hc hid) hlt
    have hsize₁ : c.scopes.size < c₁.scopes.size := Nat.lt_of_lt_of_le hlt h₁.size_le
    obtain ⟨c₂, scopes, hc₂, hI₂, hnew, hsize₂, hkept⟩ :=
      ih (fun item hitem => h item (List.mem_cons_of_mem _ hitem)) hI₁ (Nat.lt_trans hid hsize₁)
        (c.scopes.size :: done)
    have hchild : c₂.parent c.scopes.size = .ok (some id) := by
      rw [parent_eq_of_scopes_eq (hkept _ hsize₁), h₁.parent_eq, parent_addScope]
    refine ⟨c₂, c.scopes.size :: scopes, ?_, hI₂, ⟨?_, ?_, ?_⟩, ?_, fun j hj => ?_⟩
    · rw [bindItems_cons, hc₁]
      exact hc₂.trans (by simp)
    · exact List.forall_mem_cons.2 ⟨⟨hid, hchild⟩, hnew.child_of_mem⟩
    · exact List.pairwise_cons.2 ⟨fun i hi => Nat.lt_of_lt_of_le hsize₁ (hnew.le_of_mem i hi),
        hnew.ascending⟩
    · exact List.forall_mem_cons.2 ⟨Nat.le_refl _, fun i hi =>
        Nat.le_trans (Nat.le_of_lt hsize₁) (hnew.le_of_mem i hi)⟩
    · exact Nat.le_trans (Nat.le_of_lt hsize₁) hsize₂
    · rw [hkept j (Nat.lt_trans hj hsize₁), h₁.kept j (Nat.lt_trans hj hlt) (Nat.ne_of_lt hj),
        getElem?_addScope_of_lt hj]

theorem keeps_of_scalarText? (hI : Invariant I) {value : Json} {text : Text}
    (h : value.scalarText? = some text) : Keeps I value := by
  intro c id key hc hid
  obtain ⟨c', hc', haltered⟩ := exists_altered_setText hid key text
  exact ⟨c', (bindValue_of_scalarText? h).trans hc', hI.setText hc hc', haltered⟩

theorem keeps_array (hI : Invariant I) {items : List Json}
    (h : ∀ item ∈ items, ∀ m ∈ item.itemMembers, Keeps I m.2) : Keeps I (.array items) := by
  intro c id key hc hid
  obtain ⟨c₁, hc₁, hI₁, h₁⟩ := hI.exists_reserveItems hc hid key
  have hid₁ := Nat.lt_of_lt_of_le hid h₁.size_le
  obtain ⟨s, hs⟩ := exists_scope hid₁
  obtain ⟨c₂, scopes, hc₂, hI₂, hnew, hsize, hkept⟩ := hI.exists_bindItems h hI₁ hid₁ []
  obtain ⟨c₃, hc₃, h₃⟩ := exists_altered_appendItems (Nat.lt_of_lt_of_le hid₁ hsize) key scopes
  have hI₃ := hI.appendItems hI₁ hs hI₂ ((hkept id hid₁).trans hs) hnew hc₃
  have h₂ : Altered id c₁ c₂ :=
    ⟨hsize, fun j hj _ => hkept j hj, parent_eq_of_scopes_eq (hkept id hid₁)⟩
  refine ⟨c₃, ?_, hI₃, (h₁.trans h₂).trans h₃⟩
  rw [bindValue, hc₁]
  change (bindItems id [] c₁ items >>= _) = _
  rw [hc₂]
  exact hc₃

theorem keeps_object (hI : Invariant I) {members : Members} (h : ∀ m ∈ members, Keeps I m.2) :
    Keeps I (.object members) := by
  intro c id key hc hid
  cases hflat : Json.flatMembers? members with
  | some fields =>
    obtain ⟨c', hc', haltered⟩ := exists_altered_setSection hid key (.fields (.ofList fields))
    refine ⟨c', ?_, hI.setSection hc rfl hc', haltered⟩
    rw [bindValue, hflat]
    exact hc'
  | none =>
    obtain ⟨c₁, hc₁, hI₁, h₁, hlt⟩ := hI.exists_addItem hc hid key
    obtain ⟨c₂, hc₂, hI₂, h₂⟩ := exists_members h hI₁ hlt
    refine ⟨c₂, ?_, hI₂, h₁.fill hid (Nat.le_refl _) h₂⟩
    rw [bindValue, hflat]
    change (c.addItem id key >>= _) = _
    rw [hc₁]
    exact hc₂

theorem keeps (hI : Invariant I) (value : Json) : Keeps I value := by
  have hboth : Keeps I value ∧ ∀ m ∈ value.itemMembers, Keeps I m.2 := by
    induction value using Json.value_induction with
    | scalar value text h =>
      have hvalue := hI.keeps_of_scalarText? h
      refine ⟨hvalue, ?_⟩
      cases value with
      | array | object => cases h
      | null | bool | number | string => exact List.forall_mem_singleton.2 hvalue
    | array items ih =>
      have hitems := hI.keeps_array fun item hitem => (ih item hitem).2
      exact ⟨hitems, List.forall_mem_singleton.2 hitems⟩
    | object members ih =>
      have hmembers : ∀ m ∈ members, Keeps I m.2 := fun m hm => (ih m hm).1
      exact ⟨hI.keeps_object hmembers, hmembers⟩
  exact hboth.1

/-- **Binding the members of an object** in a scope that is there has a result, leaves all other
scopes alone, and keeps what its operations keep. -/
theorem exists_bindMembers (hI : Invariant I) (hc : I c) (hid : id < c.scopes.size)
    (members : Members) : ∃ c', c.bindMembers id members = .ok c' ∧ I c' ∧ Altered id c c' :=
  exists_members (fun m _ => hI.keeps m.2) hc hid

end Invariant

/-- There is always a result. -/
theorem invariant_true : Invariant fun _ => True :=
  ⟨fun _ _ => trivial, fun _ _ _ => trivial, fun _ _ => trivial, fun _ _ _ _ _ _ => trivial⟩

/-! ### Trees -/

/-- The items of the scope `s` at the place `id` are children of this scope, later ones behind
earlier ones, and none of them is an item of two names. -/
structure Owns (c : Context) (id : ScopeId) (s : Scope) : Prop where
  child_of_mem : ∀ {key i}, i ∈ s.itemsOf key → id < i ∧ c.parent i = .ok (some id)
  ascending : ∀ key, (s.itemsOf key).Pairwise (· < ·)
  key_eq : ∀ {key key' i}, i ∈ s.itemsOf key → i ∈ s.itemsOf key' → key = key'

/-- The scopes form a tree with the root at its place. -/
structure Tree (c : Context) : Prop where
  parent_root : c.parent root = .ok none
  exists_parent : ∀ id, root < id → id < c.scopes.size → ∃ p < id, c.parent id = .ok (some p)
  owns : ∀ {id s}, c.scopes[id]? = some s → c.Owns id s

theorem owns_new (c : Context) (id : ScopeId) (parent : Option ScopeId) :
    c.Owns id { parent := parent } := by
  refine ⟨fun {key i} hi => ?_, fun key => ?_, fun {key key' i} hi => ?_⟩
  · simp [Scope.itemsOf_new] at hi
  · simp [Scope.itemsOf_new]
  · simp [Scope.itemsOf_new] at hi

theorem Owns.mono (h : c.Owns id s) (hkept : KeepsParents c c') : c'.Owns id s where
  child_of_mem hi := ⟨(h.child_of_mem hi).1, hkept _ _ (h.child_of_mem hi).2⟩
  ascending := h.ascending
  key_eq := h.key_eq

/-- A name is bound to children that are no items of another name. -/
theorem Owns.insert {value : Section} (h : c.Owns id s)
    (hchild : ∀ i ∈ value.items?.getD [], id < i ∧ c.parent i = .ok (some id))
    (hascending : (value.items?.getD []).Pairwise (· < ·))
    (hother : ∀ key', key ≠ key' → ∀ i ∈ value.items?.getD [], i ∉ s.itemsOf key') :
    c.Owns id { s with sections := s.sections.insert key value } where
  child_of_mem {key' i} hi := by
    rw [Scope.itemsOf_insert] at hi
    split at hi
    · exact hchild i hi
    · exact h.child_of_mem hi
  ascending key' := by
    rw [Scope.itemsOf_insert]
    split
    · exact hascending
    · exact h.ascending key'
  key_eq {key' key'' i} hi hi' := by
    rw [Scope.itemsOf_insert] at hi hi'
    split at hi
    · next heq =>
      split at hi'
      · next heq' => exact heq.symm.trans heq'
      · next hne => exact absurd hi' (hother key'' hne i hi)
    · next hne =>
      split at hi'
      · exact absurd hi (hother key' hne i hi')
      · exact h.key_eq hi hi'

/-- New children become the last items of a name. -/
theorem Owns.append (h : c.Owns id s) (hnew : Children c id n scopes)
    (hold : ∀ {key i}, i ∈ s.itemsOf key → i < n) :
    c.Owns id { s with sections := s.sections.insert key (.items (s.itemsOf key ++ scopes)) } := by
  have hitems : (Section.items (s.itemsOf key ++ scopes)).items?.getD [] =
      s.itemsOf key ++ scopes := rfl
  apply h.insert
  · intro i hi
    rw [hitems, List.mem_append] at hi
    exact hi.elim h.child_of_mem (hnew.child_of_mem i)
  · rw [hitems, List.pairwise_append]
    exact ⟨h.ascending key, hnew.ascending, fun i hi j hj =>
      Nat.lt_of_lt_of_le (hold hi) (hnew.le_of_mem j hj)⟩
  · intro key' hne i hi hi'
    rw [hitems, List.mem_append] at hi
    rcases hi with hi | hi
    · exact hne (h.key_eq hi hi')
    · exact absurd (hold hi') (Nat.not_lt.2 (hnew.le_of_mem i hi))

namespace Tree

theorem lt_size_of_mem {i : ScopeId} (h : c.Tree) (hs : c.scopes[id]? = some s)
    (hi : i ∈ s.itemsOf key) : i < c.scopes.size :=
  lt_size_of_parent_eq ((h.owns hs).child_of_mem hi).2

/-- Two names, of one scope or of two, have no item in common. -/
theorem eq_of_mem_itemsOf {id' i : ScopeId} {s' : Scope} {key' : Text} (h : c.Tree)
    (hs : c.scopes[id]? = some s) (hs' : c.scopes[id']? = some s') (hi : i ∈ s.itemsOf key)
    (hi' : i ∈ s'.itemsOf key') : id = id' ∧ key = key' := by
  have hparent := ((h.owns hs).child_of_mem hi).2
  rw [((h.owns hs').child_of_mem hi').2] at hparent
  cases hparent
  rw [hs] at hs'
  cases hs'
  exact ⟨rfl, (h.owns hs).key_eq hi hi'⟩

/-- A parent stands in front of its children. -/
theorem lt_of_parent {p : ScopeId} (h : c.Tree) (hparent : c.parent id = .ok (some p)) : p < id := by
  rcases Nat.eq_zero_or_pos id with rfl | hpos
  · rw [show c.parent 0 = .ok none from h.parent_root] at hparent
    cases hparent
  · obtain ⟨p', hlt, hparent'⟩ := h.exists_parent id hpos (lt_size_of_parent_eq hparent)
    rw [hparent] at hparent'
    cases hparent'
    exact hlt

/-- A scope is changed: its parent is left alone, and its items are its own. -/
theorem modify (hc : c.Tree) {f : Scope → Scope} (hparent : ∀ s, (f s).parent = s.parent)
    (howns : ∀ s, c.scopes[id]? = some s → c.Owns id (f s)) (h : c.modify id f = .ok c') :
    c'.Tree := by
  have hlt : id < c.scopes.size := by
    rw [Context.modify] at h
    split at h
    · assumption
    · cases h
  obtain ⟨s, hs⟩ := exists_scope hlt
  obtain ⟨c'', hc'', haltered, hid, hsize⟩ := exists_altered hs (hparent s)
  rw [h] at hc''
  cases hc''
  have hkeeps := haltered.keepsParents
  refine ⟨hkeeps _ _ hc.parent_root, fun j hpos hj => ?_, fun {j s'} hs' => ?_⟩
  · obtain ⟨p, hp, hparent⟩ := hc.exists_parent j hpos (hsize ▸ hj)
    exact ⟨p, hp, hkeeps _ _ hparent⟩
  · by_cases hne : j = id
    · rw [hne, hid] at hs'
      cases hs'
      exact hne ▸ (howns s hs).mono hkeeps
    · have hj : j < c.scopes.size := hsize ▸ (Array.getElem?_eq_some_iff.1 hs').1
      rw [haltered.kept j hj hne] at hs'
      exact (hc.owns hs').mono hkeeps

theorem addScope (hc : c.Tree) (hid : id < c.scopes.size) : (c.addScope id).1.Tree := by
  have hkeeps := keepsParents_addScope c id
  refine ⟨hkeeps _ _ hc.parent_root, fun j hpos hlt => ?_, fun {j s} hs => ?_⟩
  · rw [size_addScope] at hlt
    rcases Nat.lt_succ_iff_lt_or_eq.1 hlt with hlt | rfl
    · obtain ⟨p, hp, hparent⟩ := hc.exists_parent j hpos hlt
      exact ⟨p, hp, hkeeps _ _ hparent⟩
    · exact ⟨id, hid, parent_addScope c id⟩
  · have hlt := (Array.getElem?_eq_some_iff.1 hs).1
    rw [size_addScope] at hlt
    rcases Nat.lt_succ_iff_lt_or_eq.1 hlt with hlt | rfl
    · rw [getElem?_addScope_of_lt hlt] at hs
      exact (hc.owns hs).mono hkeeps
    · rw [getElem?_addScope_self] at hs
      cases hs
      exact owns_new _ _ _

end Tree

theorem tree_empty : empty.Tree where
  parent_root := rfl
  exists_parent id hpos hlt := absurd hpos (Nat.not_lt.2 (Nat.le_of_lt_succ hlt))
  owns {id s} hs := by
    obtain ⟨hlt, rfl⟩ := Array.getElem?_eq_some_iff.1 hs
    obtain rfl : id = 0 := Nat.lt_one_iff.1 hlt
    exact owns_new _ _ none

theorem invariant_tree : Invariant Tree where
  setText {c c' id key value} hc h := by
    refine hc.modify (f := fun s => { s with texts := s.texts.insert key value })
      (fun _ => rfl) (fun s hs => ?_) h
    have howns := hc.owns hs
    exact ⟨howns.child_of_mem, howns.ascending, howns.key_eq⟩
  setSection {c c' id key value} hc hvalue h := by
    refine hc.modify (f := fun s => { s with sections := s.sections.insert key value })
      (fun _ => rfl) (fun s hs => (hc.owns hs).insert ?_ ?_ ?_) h
    · simp [hvalue]
    · simp [hvalue]
    · simp [hvalue]
  addScope hc hid := hc.addScope hid
  appendItems {c₀ c c' id s key scopes} hc₀ hs₀ hc hs hnew h := by
    refine hc.modify
      (f := fun s => { s with sections := s.sections.insert key (.items (s.itemsOf key ++ scopes)) })
      (fun _ => rfl) (fun s' hs' => (hc.owns hs').append hnew fun hi => ?_) h
    rw [hs] at hs'
    cases hs'
    exact hc₀.lt_size_of_mem hs₀ hi

end Context

end Mustache

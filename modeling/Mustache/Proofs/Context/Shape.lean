import Mathlib.Data.List.Forall2
import Mustache.Frame
import Mustache.Proofs.Context.LambdaFree
import Mustache.Proofs.Context.Reachable

/-!
# Contexts of the same shape

Two contexts have the same shape when they differ in their texts only, and no text is empty in one
of them alone. A lookup then leads to the same place in both, and finds texts that are empty
together (`Frame.SameShape.lookup`).
-/

namespace Mustache

/-- Both texts are empty, or neither is. -/
def Text.SameTruth (s t : Text) : Prop := s.isEmpty = t.isEmpty

/-- The same names are bound, to texts that are empty together. -/
def Table.SameShape (map map' : Table Text) : Prop :=
  ∀ key : Text, Option.Rel Text.SameTruth map[key]? map'[key]?

/-- Two sections of one kind that go through the same scopes. -/
inductive Section.SameShape : Section → Section → Prop
  | fields {map map'} : Table.SameShape map map' → SameShape (.fields map) (.fields map')
  | function {f f'} : SameShape (.function f) (.function f')
  | items {scopes} : SameShape (.items scopes) (.items scopes)

/-- Two sections that a section tag can enter: they are no functions, and go through the first `n`
scopes only. -/
inductive Section.Entered (n : Nat) : Section → Section → Prop
  | fields {map map'} : Table.SameShape map map' → Entered n (.fields map) (.fields map')
  | items {scopes} : (∀ id ∈ scopes, id < n) → Entered n (.items scopes) (.items scopes)

/-- Two scopes with the same parent, the same names and the same kinds of sections. -/
structure Scope.SameShape (s s' : Scope) : Prop where
  texts : Table.SameShape s.texts s'.texts
  sections : ∀ key : Text, Option.Rel Section.SameShape s.sections[key]? s'.sections[key]?
  parent_eq : s.parent = s'.parent

/-- Two contexts with the same scopes, whose texts are empty together. -/
def Context.SameShape (c c' : Context) : Prop :=
  ∀ id : ScopeId, Option.Rel Scope.SameShape c.scopes[id]? c'.scopes[id]?

/-! ### Results of two lookups -/

section
variable {α α' β β' ε : Type} {R : α → α' → Prop} {S : β → β' → Prop}

/-- Both have a result, and the results are related. -/
def BothOk (R : α → α' → Prop) (x : Except ε α) (y : Except ε α') : Prop :=
  ∃ a b, x = .ok a ∧ y = .ok b ∧ R a b

theorem BothOk.bind {x : Except ε α} {y : Except ε α'} {f : α → Except ε β} {g : α' → Except ε β'}
    (h : BothOk R x y) (hfg : ∀ a b, R a b → BothOk S (f a) (g b)) :
    BothOk S (x >>= f) (y >>= g) := by
  obtain ⟨a, b, rfl, rfl, hab⟩ := h
  exact hfg a b hab

theorem BothOk.map {x : Except ε α} {y : Except ε α'} {f : α → β} {g : α' → β'}
    (h : BothOk R x y) (hfg : ∀ a b, R a b → S (f a) (g b)) : BothOk S (x.map f) (y.map g) := by
  obtain ⟨a, b, rfl, rfl, hab⟩ := h
  exact ⟨f a, g b, rfl, rfl, hfg a b hab⟩

theorem rel_eq_none_iff {x : Option α} {y : Option α'} (h : Option.Rel R x y) :
    x = none ↔ y = none := by
  cases h with
  | none => simp
  | some => simp

theorem rel_refl {R : α → α → Prop} (h : ∀ a, R a a) (x : Option α) : Option.Rel R x x := by
  cases x with
  | none => exact .none
  | some a => exact .some (h a)

theorem rel_bind {x : Option α} {y : Option α'} {f : α → Option β} {g : α' → Option β'}
    (h : Option.Rel R x y) (hfg : ∀ a b, R a b → Option.Rel S (f a) (g b)) :
    Option.Rel S (x.bind f) (y.bind g) := by
  cases h with
  | none => exact .none
  | some hab => exact hfg _ _ hab

theorem rel_findSome? {l : List α} {l' : List α'} {f : α → Option β} {g : α' → Option β'}
    (h : List.Forall₂ R l l') (hfg : ∀ a b, R a b → Option.Rel S (f a) (g b)) :
    Option.Rel S (l.findSome? f) (l'.findSome? g) := by
  induction h with
  | nil => exact .none
  | @cons a b l l' hab _ ih =>
    rw [List.findSome?_cons, List.findSome?_cons]
    have hrel := hfg a b hab
    generalize f a = x at hrel ⊢
    generalize g b = y at hrel ⊢
    cases hrel with
    | none => exact ih
    | some hxy => exact .some hxy

end

theorem Table.isEmpty_iff {α : Type} {map : Table α} :
    map.isEmpty ↔ ∀ key : Text, map[key]? = none := by
  rw [Std.ExtTreeMap.isEmpty_iff]
  constructor
  · rintro rfl key
    exact Std.ExtTreeMap.getElem?_empty
  · intro h
    apply Std.ExtTreeMap.ext_getElem?
    intro key
    rw [h key, Std.ExtTreeMap.getElem?_empty]

theorem Table.SameShape.refl (map : Table Text) : SameShape map map :=
  fun _ => rel_refl (fun _ => rfl : ∀ s : Text, s.SameTruth s) _

theorem Section.SameShape.refl (value : Section) : SameShape value value := by
  cases value with
  | fields map => exact .fields (.refl map)
  | function f => exact .function
  | items scopes => exact .items

theorem Scope.SameShape.refl (s : Scope) : SameShape s s :=
  ⟨.refl _, fun _ => rel_refl .refl _, rfl⟩

theorem Table.SameShape.isEmpty_eq {map map' : Table Text} (h : SameShape map map') :
    map.isEmpty = map'.isEmpty := by
  rw [Bool.eq_iff_iff, isEmpty_iff, isEmpty_iff]
  exact forall_congr' fun key => rel_eq_none_iff (h key)

namespace Context

variable {c c' : Context} {id : ScopeId} {key : Text}

theorem Closed.lt_of_section? {s : Scope} {scopes : List ScopeId} (hc : c.Closed)
    (hs : s ∈ c.scopes) (h : s.sections[key]?.bind Section.items? = some scopes) :
    ∀ i ∈ scopes, i < c.scopes.size := by
  obtain ⟨value, hvalue, hitems⟩ := Option.bind_eq_some_iff.1 h
  cases value with
  | items =>
    cases hitems
    exact hc s hs key scopes hvalue
  | fields | function => cases hitems

theorem Closed.lt_of_fetchItems {scopes : List ScopeId} (hc : c.Closed)
    (h : c.fetchItems id key = .ok (some scopes)) : ∀ i ∈ scopes, i < c.scopes.size := by
  rw [fetchItems, fetchSection, chain] at h
  split at h
  · obtain ⟨s, hs, hitems⟩ := List.exists_of_findSome?_eq_some (Except.ok.inj h)
    exact hc.lt_of_section? (mem_scopes_of_mem_ancestors hs) hitems
  · cases h

/-! ### Chains -/

namespace SameShape

theorem refl (c : Context) : SameShape c c := fun _ => rel_refl .refl _

theorem size_eq (h : SameShape c c') : c.scopes.size = c'.scopes.size := by
  apply Nat.le_antisymm
  · apply Array.getElem?_eq_none_iff.1
    exact (rel_eq_none_iff (h _)).2 (Array.getElem?_eq_none (Nat.le_refl _))
  · apply Array.getElem?_eq_none_iff.1
    exact (rel_eq_none_iff (h _)).1 (Array.getElem?_eq_none (Nat.le_refl _))

theorem lambdaFree (h : SameShape c c') (hc : c.LambdaFree) : c'.LambdaFree := by
  intro s' hs' key f hsection'
  obtain ⟨id, hid⟩ := Array.getElem?_of_mem hs'
  have hscope := h id
  rw [hid] at hscope
  generalize hs : c.scopes[id]? = s at hscope
  cases hscope with
  | @some s _ hscope =>
    have hsection := hscope.sections key
    rw [hsection'] at hsection
    generalize hvalue : s.sections[key]? = value at hsection
    cases hsection with
    | some hkind =>
      cases hkind with
      | function => exact hc s (Array.mem_of_getElem? hs) key _ hvalue

theorem ancestors (h : SameShape c c') (fuel : Nat) (id : ScopeId) :
    List.Forall₂ Scope.SameShape (c.ancestors fuel id) (c'.ancestors fuel id) := by
  induction fuel generalizing id with
  | zero => exact .nil
  | succ fuel ih =>
    have hid := h id
    rw [Context.ancestors, Context.ancestors]
    generalize c.scopes[id]? = s at hid ⊢
    generalize c'.scopes[id]? = s' at hid ⊢
    cases hid with
    | none => exact .nil
    | some hs =>
      dsimp only
      rw [hs.parent_eq]
      split
      · exact .cons hs .nil
      · exact .cons hs (ih _)

theorem chain (h : SameShape c c') (hid : id < c.scopes.size) :
    BothOk (List.Forall₂ Scope.SameShape) (c.chain id) (c'.chain id) := by
  rw [Context.chain, Context.chain, ← h.size_eq, if_pos hid, if_pos hid]
  exact ⟨_, _, rfl, rfl, h.ancestors _ id⟩

theorem scope (h : SameShape c c') (hid : id < c.scopes.size) :
    BothOk (fun s s' => s ∈ c.scopes ∧ Scope.SameShape s s') (c.scope id) (c'.scope id) := by
  have hscope := h id
  rw [Context.scope, Context.scope]
  rw [Array.getElem?_eq_getElem hid] at hscope ⊢
  generalize c'.scopes[id]? = s' at hscope ⊢
  cases hscope with
  | some hs => exact ⟨_, _, rfl, rfl, Array.getElem_mem hid, hs⟩

theorem get? (h : SameShape c c') (hid : id < c.scopes.size) (key : Text) :
    BothOk (Option.Rel Text.SameTruth) (c.get? id key) (c'.get? id key) :=
  (h.scope hid).map fun _ _ hs => hs.2.texts key

theorem section? (h : SameShape c c') (hc : c.Closed) (hid : id < c.scopes.size) (key : Text) :
    BothOk (Option.Rel fun value value' => Section.SameShape value value' ∧
        ∀ scopes ∈ value.items?, ∀ i ∈ scopes, i < c.scopes.size)
      (c.section? id key) (c'.section? id key) := by
  apply (h.scope hid).map
  rintro s s' ⟨hmem, hs⟩
  have hsection := hs.sections key
  have hitems : ∀ scopes ∈ s.sections[key]?.bind Section.items?, ∀ i ∈ scopes,
      i < c.scopes.size := fun scopes => hc.lt_of_section? hmem
  generalize s.sections[key]? = value at hsection hitems ⊢
  generalize s'.sections[key]? = value' at hsection ⊢
  cases hsection with
  | none => exact .none
  | some hvalue => exact .some ⟨hvalue, hitems⟩

/-! ### Lookups -/

theorem fetch (h : SameShape c c') (hid : id < c.scopes.size) (key : Text) :
    BothOk (Option.Rel Text.SameTruth) (c.fetch id key) (c'.fetch id key) :=
  (h.chain hid).map fun _ _ hchain => rel_findSome? hchain fun _ _ hs => hs.texts key

theorem fetchSection {α : Type} {R : α → α → Prop} {pick : Section → Option α} (h : SameShape c c')
    (hpick : ∀ value value', Section.SameShape value value' →
      Option.Rel R (pick value) (pick value'))
    (hid : id < c.scopes.size) (key : Text) :
    BothOk (Option.Rel R) (c.fetchSection pick id key) (c'.fetchSection pick id key) := by
  refine (h.chain hid).map fun _ _ hchain => rel_findSome? hchain fun s s' hs => ?_
  exact rel_bind (hs.sections key) hpick

theorem fetchFields (h : SameShape c c') (hid : id < c.scopes.size) (key : Text) :
    BothOk (Option.Rel Table.SameShape) (c.fetchFields id key) (c'.fetchFields id key) := by
  refine h.fetchSection (fun value value' hvalue => ?_) hid key
  cases hvalue with
  | fields hmap => exact .some hmap
  | function => exact .none
  | items => exact .none

theorem fetchItems (h : SameShape c c') (hc : c.Closed) (hid : id < c.scopes.size) (key : Text) :
    BothOk (Option.Rel fun scopes scopes' => scopes = scopes' ∧ ∀ i ∈ scopes, i < c.scopes.size)
      (c.fetchItems id key) (c'.fetchItems id key) := by
  have hboth : BothOk (Option.Rel (· = ·)) (c.fetchItems id key) (c'.fetchItems id key) := by
    refine h.fetchSection (fun value value' hvalue => ?_) hid key
    cases hvalue with
    | fields hmap => exact .none
    | function => exact .none
    | items => exact .some rfl
  obtain ⟨scopes, scopes', heq, heq', hrel⟩ := hboth
  refine ⟨scopes, scopes', heq, heq', ?_⟩
  cases hrel with
  | none => exact .none
  | some hscopes => exact .some ⟨hscopes, hc.lt_of_fetchItems heq⟩

theorem resolve (h : SameShape c c') (hc : c.Closed) (hfree : c.LambdaFree)
    (hfree' : c'.LambdaFree) (hid : id < c.scopes.size) (key : Text) :
    BothOk (Option.Rel (Section.Entered c.scopes.size)) (c.resolve id key) (c'.resolve id key) := by
  apply (h.fetchFields hid key).bind
  rintro _ _ (hmap | _)
  · exact ⟨_, _, rfl, rfl, .some (.fields hmap)⟩
  · rw [hfree.fetchFunction key hid, hfree'.fetchFunction key (h.size_eq ▸ hid)]
    apply (h.fetchItems hc hid key).bind
    rintro _ _ (⟨rfl, hscopes⟩ | _)
    · exact ⟨_, _, rfl, rfl, .some (.items hscopes)⟩
    · exact ⟨_, _, rfl, rfl, .none⟩

end SameShape

end Context

namespace Frame

open Context (SameShape)

variable {c c' : Context} {id : ScopeId}

/-! ### Names with points -/

/-- Two places that a part of a name can lead to. -/
inductive Landing.SameShape (n : Nat) : Landing → Landing → Prop
  | fields {map map'} : Table.SameShape map map' → SameShape n (.fields map) (.fields map')
  | scope {base} : base < n → SameShape n (.scope base) (.scope base)

theorem rel_ofSection?_of_sameShape {n : Nat} {value value' : Section}
    (h : Section.SameShape value value') (hitems : ∀ scopes ∈ value.items?, ∀ i ∈ scopes, i < n) :
    Option.Rel (Landing.SameShape n) (Landing.ofSection? value) (Landing.ofSection? value') := by
  cases h with
  | fields hmap => exact .some (.fields hmap)
  | function => exact .none
  | @items scopes =>
    match scopes with
    | [] => exact .none
    | [only] => exact .some (.scope (hitems _ rfl only List.mem_cons_self))
    | _ :: _ :: _ => exact .none

theorem bothOk_land (h : SameShape c c') (hc : c.Closed) (hid : id < c.scopes.size) (first : Text) :
    BothOk (Option.Rel (Landing.SameShape c.scopes.size)) (land c id first) (land c' id first) := by
  apply (h.fetchFields hid first).bind
  rintro _ _ (hmap | _)
  · exact ⟨_, _, rfl, rfl, .some (.fields hmap)⟩
  · apply (h.fetchItems hc hid first).bind
    rintro _ _ (⟨rfl, hscopes⟩ | _)
    · refine ⟨_, _, rfl, rfl, rel_ofSection?_of_sameShape .items ?_⟩
      rintro _ ⟨⟩
      exact hscopes
    · exact ⟨_, _, rfl, rfl, .none⟩

theorem bothOk_follow (h : SameShape c c') (hc : c.Closed) {landing landing' : Landing}
    (hlanding : Landing.SameShape c.scopes.size landing landing') (parts : List Text) :
    BothOk (Option.Rel (Landing.SameShape c.scopes.size)) (follow c landing parts)
      (follow c' landing' parts) := by
  induction parts generalizing landing landing' with
  | nil =>
    rw [follow, follow]
    exact ⟨_, _, rfl, rfl, .some hlanding⟩
  | cons part parts ih =>
    cases hlanding with
    | fields hmap =>
      rw [follow, follow]
      exact ⟨_, _, rfl, rfl, .none⟩
    | scope hid =>
      rw [follow, follow]
      apply (h.section? hc hid part).bind
      intro binding binding' hbinding
      have hnext := rel_bind hbinding fun _ _ hvalue =>
        rel_ofSection?_of_sameShape hvalue.1 hvalue.2
      generalize binding.bind Landing.ofSection? = next at hnext ⊢
      generalize binding'.bind Landing.ofSection? = next' at hnext ⊢
      cases hnext with
      | none => exact ⟨_, _, rfl, rfl, .none⟩
      | some hlanding => exact ih hlanding

theorem bothOk_fetchDotted (h : SameShape c c') (hc : c.Closed) (hid : id < c.scopes.size)
    (key : Text) :
    BothOk (Option.Rel Text.SameTruth) (fetchDotted c id key) (fetchDotted c' id key) := by
  have hnone : BothOk (Option.Rel Text.SameTruth) (.ok none : Except NoSuchScope (Option Text))
      (.ok none) := ⟨_, _, rfl, rfl, .none⟩
  rw [fetchDotted, fetchDotted]
  match Text.splitAt (· == '.') key with
  | [] | [_] => exact hnone
  | first :: second :: more =>
    dsimp only
    split
    · exact hnone
    · apply (bothOk_land h hc hid first).bind
      rintro _ _ (hlanding | _)
      · apply (bothOk_follow h hc hlanding _).bind
        rintro _ _ (hlanding | _)
        · cases hlanding with
          | fields hmap => exact ⟨_, _, rfl, rfl, hmap _⟩
          | scope hid => exact h.get? hid _
        · exact hnone
      · exact hnone

/-! ### Frames -/

/-- Two frames on one scope, with fields of the same shape above it. -/
structure SameShape (c : Context) (frame frame' : Frame) : Prop where
  base_eq : frame.base = frame'.base
  base_lt : frame.base < c.scopes.size
  pushed : List.Forall₂ Table.SameShape frame.pushed frame'.pushed

variable {frame frame' : Frame}

theorem SameShape.refl (h : frame.base < c.scopes.size) : SameShape c frame frame :=
  ⟨rfl, h, List.forall₂_same.2 fun map _ => .refl map⟩

theorem SameShape.push {map map' : Table Text} (h : SameShape c frame frame')
    (hmap : Table.SameShape map map') : SameShape c (frame.push map) (frame'.push map') :=
  ⟨h.base_eq, h.base_lt, .cons hmap h.pushed⟩

/-- **Names lead to the same places.** In contexts and frames of the same shape a name has a text in
both or in neither, and the texts are empty together. -/
theorem SameShape.lookup (hc : Context.SameShape c c') (hclosed : c.Closed)
    (h : SameShape c frame frame') (key : Text) :
    BothOk (Option.Rel Text.SameTruth) (frame.lookup c key) (frame'.lookup c' key) := by
  have hfetch : BothOk (Option.Rel Text.SameTruth) (frame.fetch c key) (frame'.fetch c' key) := by
    have hpushed := rel_findSome? h.pushed fun _ _ hmap => hmap key
    rw [fetch, fetch, ← h.base_eq]
    generalize frame.pushed.findSome? (·[key]?) = value at hpushed ⊢
    generalize frame'.pushed.findSome? (·[key]?) = value' at hpushed ⊢
    cases hpushed with
    | none => exact hc.fetch h.base_lt key
    | some hvalue => exact ⟨_, _, rfl, rfl, .some hvalue⟩
  rw [Frame.lookup, Frame.lookup, ← h.base_eq]
  apply hfetch.bind
  rintro _ _ (hvalue | _)
  · exact ⟨_, _, rfl, rfl, .some hvalue⟩
  · exact bothOk_fetchDotted hc hclosed h.base_lt key

end Frame

end Mustache

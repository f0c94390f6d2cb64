import Mustache.Proofs.Context.Reachable
import Mustache.Proofs.Context.Search
import Mustache.Proofs.Except
import Mustache.Proofs.Json.Flat

/-!
# Changes to scopes of any number

A program can give the number of a scope that is not there. A change to such a scope has no result,
but for one kind: where a change begins with a new scope, and the number it was given is the place
of this scope, the scope becomes its own parent (`Context.exists_perform_of_slips`). Without such
changes the scopes are a tree, and all lookups end (`Context.Attainable.lookups_end`).
-/

namespace Mustache

/-- A change to a context that a program can ask for. -/
inductive Change where
  | set (id : ScopeId) (key : Text) (value : Assignment)
  | setJson (id : ScopeId) (key : Text) (data : Json)
  | addItem (id : ScopeId) (key : Text)
  | reserveItems (id : ScopeId) (key : Text)
  | extendJson (id : ScopeId) (data : Json)

namespace Change

/-- The scope that a change is for. -/
def scope : Change → ScopeId
  | set id _ _ | setJson id _ _ | addItem id _ | reserveItems id _ | extendJson id _ => id

/-- Whether a change has nothing to do in its scope: its data are of a kind that cannot be bound, or
have no members. -/
def isIdle : Change → Bool
  | setJson _ _ data => !(data.scalarText?.isSome || data.fields?.isSome)
  | extendJson _ (.object members) => members.isEmpty
  | extendJson _ _ => true
  | set .. | addItem .. | reserveItems .. => false

theorem isIdle_setJson (id : ScopeId) (key : Text) (data : Json) :
    (setJson id key data).isIdle = !(Assignment.ofJson data).isOk := by
  cases data with
  | object members =>
    rw [isIdle, Assignment.ofJson]
    cases hflat : Json.flatMembers? members with
    | some fields => simp [Json.fields?, Json.flat_of_flatMembers? hflat, Except.isOk, Except.toBool]
    | none =>
      rw [Json.fields?_object_eq_none (Json.flatMembers?_eq_none_iff.1 hflat)]
      rfl
  | null | bool | number | string | array => rfl

/-- Whether a change adds a scope before it does anything else. -/
def addsFirst : Change → Bool
  | addItem _ _ => true
  | extendJson _ (.object ((_, .object members) :: _)) => !decide (Json.Flat members)
  | _ => false

/-- The scope that the change is for is the one that it adds. -/
def Slips (c : Context) (change : Change) : Prop :=
  change.addsFirst ∧ change.scope = c.scopes.size

instance (c : Context) (change : Change) : Decidable (change.Slips c) :=
  inferInstanceAs (Decidable (_ ∧ _))

end Change

namespace Context

/-- The result of a change. -/
def perform (c : Context) : Change → Except ContextError Context
  | .set id key value => (c.set id key value).mapError .noSuchScope
  | .setJson id key data => c.setJson id key data
  | .addItem id key => ((c.addItem id key).map Prod.fst).mapError .noSuchScope
  | .reserveItems id key => (c.reserveItems id key).mapError .noSuchScope
  | .extendJson id data => c.extendJson id data

/-- The context that a program goes on with after a change: data that cannot be bound leave it as it
is. A scope that is not there ends the program. -/
def apply (c : Context) (change : Change) : Except NoSuchScope Context :=
  match c.perform change with
  | .ok c' => .ok c'
  | .error (.noSuchScope missing) => .error missing
  | .error _ => .ok c

variable {c c' : Context} {id : ScopeId} {key : Text} {change : Change} {I : Context → Prop}

theorem apply_of_perform (h : c.perform change = .ok c') : c.apply change = .ok c' := by
  rw [apply, h]

theorem apply_of_perform_eq_error {missing : NoSuchScope}
    (h : c.perform change = .error (.noSuchScope missing)) : c.apply change = .error missing := by
  rw [apply, h]

/-! ### Scopes that are there -/

theorem Invariant.exists_set (hI : Invariant I) (hc : I c) (hid : id < c.scopes.size) (key : Text)
    (value : Assignment) : ∃ c', c.set id key value = .ok c' ∧ I c' ∧ Altered id c c' := by
  cases value with
  | text value =>
    obtain ⟨c', hc', haltered⟩ := exists_altered_setText hid key value
    exact ⟨c', hc', hI.setText hc hc', haltered⟩
  | fields map =>
    obtain ⟨c', hc', haltered⟩ := exists_altered_setSection hid key (.fields map)
    exact ⟨c', hc', hI.setSection hc rfl hc', haltered⟩
  | function f =>
    obtain ⟨c', hc', haltered⟩ := exists_altered_setSection hid key (.function f)
    exact ⟨c', hc', hI.setSection hc rfl hc', haltered⟩

/-- A change to a scope that is there has a result, unless its data cannot be bound. -/
theorem Invariant.exists_perform (hI : Invariant I) (hc : I c)
    (hid : change.scope < c.scopes.size) :
    (∃ c', c.perform change = .ok c' ∧ I c' ∧ Altered change.scope c c') ∨
      ∃ data, c.perform change = .error (.unsupported data) := by
  cases change with
  | set id key value =>
    obtain ⟨c', hc', hkept⟩ := hI.exists_set hc hid key value
    exact .inl ⟨c', congrArg (Except.mapError _) hc', hkept⟩
  | setJson id key data =>
    rw [perform, setJson]
    cases Assignment.ofJson data with
    | error e => exact .inr ⟨e, rfl⟩
    | ok value =>
      obtain ⟨c', hc', hkept⟩ := hI.exists_set hc hid key value
      exact .inl ⟨c', congrArg (Except.mapError _) hc', hkept⟩
  | addItem id key =>
    obtain ⟨c', hc', hI', haltered, -⟩ := hI.exists_addItem hc hid key
    exact .inl ⟨c', congrArg (fun r => (Except.map Prod.fst r).mapError _) hc', hI', haltered⟩
  | reserveItems id key =>
    obtain ⟨c', hc', hkept⟩ := hI.exists_reserveItems hc hid key
    exact .inl ⟨c', congrArg (Except.mapError _) hc', hkept⟩
  | extendJson id data =>
    cases data with
    | object members =>
      obtain ⟨c', hc', hkept⟩ := hI.exists_bindMembers hc hid members
      exact .inl ⟨c', congrArg (Except.mapError _) hc', hkept⟩
    | null | bool | number | string | array => exact .inr ⟨_, rfl⟩

/-- **A change to a scope that is there** leaves a context, in which no scope is gone and only this
one is altered. -/
theorem Invariant.exists_apply (hI : Invariant I) (hc : I c) (hid : change.scope < c.scopes.size) :
    ∃ c', c.apply change = .ok c' ∧ I c' ∧ Altered change.scope c c' := by
  rcases hI.exists_perform hc hid with ⟨c', hc', hkept⟩ | ⟨data, hdata⟩
  · exact ⟨c', apply_of_perform hc', hkept⟩
  · refine ⟨c, ?_, hc, .refl⟩
    rw [apply, hdata]

theorem Invariant.of_perform (hI : Invariant I) (change : Change) (hc : I c)
    (hid : change.scope < c.scopes.size) (h : c.perform change = .ok c') : I c' := by
  obtain ⟨c'', hc'', hI', -⟩ := hI.exists_apply hc hid
  rw [apply_of_perform h] at hc''
  cases hc''
  exact hI'

theorem Reachable.perform (hc : c.Reachable) (hid : change.scope < c.scopes.size)
    (h : c.perform change = .ok c') : c'.Reachable := by
  cases change with
  | set id key value => exact .set hc hid (eq_ok_of_mapError_eq_ok h)
  | setJson id key data =>
    rw [Context.perform, setJson] at h
    split at h
    · exact .set hc hid (eq_ok_of_mapError_eq_ok h)
    · cases h
  | addItem id key =>
    obtain ⟨⟨c'', child⟩, hadd, rfl⟩ := exists_ok_of_map_eq_ok (eq_ok_of_mapError_eq_ok h)
    exact .addItem hc hid hadd
  | reserveItems id key => exact .reserveItems hc hid (eq_ok_of_mapError_eq_ok h)
  | extendJson id data => exact .extendJson hc hid h

theorem Reachable.apply (hc : c.Reachable) (hid : change.scope < c.scopes.size)
    (h : c.apply change = .ok c') : c'.Reachable := by
  rcases invariant_true.exists_perform trivial hid with ⟨c'', hc'', -⟩ | ⟨data, hdata⟩
  · rw [apply_of_perform hc''] at h
    cases h
    exact hc.perform hid hc''
  · rw [Context.apply, hdata] at h
    cases h
    exact hc

/-- What is kept when values are bound holds of every context that a program can make, if it holds of
the empty one. -/
theorem Reachable.of_invariant (hI : Invariant I) (hempty : I .empty) (h : c.Reachable) : I c := by
  induction h with
  | empty => exact hempty
  | @set _ _ id key value _ hid h ih =>
    exact hI.of_perform (.set id key value) ih hid (congrArg (Except.mapError _) h)
  | @addItem _ _ id key _ _ hid h ih =>
    exact hI.of_perform (.addItem id key) ih hid
      (congrArg (fun r => (Except.map Prod.fst r).mapError _) h)
  | @reserveItems _ _ id key _ hid h ih =>
    exact hI.of_perform (.reserveItems id key) ih hid (congrArg (Except.mapError _) h)
  | @extendJson _ _ id data _ hid h ih => exact hI.of_perform (.extendJson id data) ih hid h

/-- **The scopes form a tree** in every context that a program can make. -/
theorem Reachable.tree (h : c.Reachable) : c.Tree := h.of_invariant invariant_tree tree_empty

theorem Tree.closed (h : c.Tree) : c.Closed := by
  intro s hs key scopes hkey i hi
  obtain ⟨id, hid⟩ := Array.getElem?_of_mem hs
  have hitems : s.itemsOf key = scopes := by simp [Scope.itemsOf, hkey, Section.items?]
  exact h.lt_size_of_mem hid (hitems ▸ hi)

/-- **Sections stay inside.** In a context that a program can make, every section goes through
scopes of the context. -/
theorem Reachable.closed (h : c.Reachable) : c.Closed := h.tree.closed

/-! ### Scopes that are not there -/

theorem scope_of_size_le (h : c.scopes.size ≤ id) : c.scope id = .error ⟨id⟩ := by
  rw [scope, Array.getElem?_eq_none h]

theorem chain_of_size_le (h : c.scopes.size ≤ id) : c.chain id = .error ⟨id⟩ :=
  if_neg (Nat.not_lt.2 h)

theorem modify_of_size_le (h : c.scopes.size ≤ id) (f : Scope → Scope) :
    c.modify id f = .error ⟨id⟩ := dif_neg (Nat.not_lt.2 h)

theorem setText_of_size_le (h : c.scopes.size ≤ id) (key value : Text) :
    c.setText id key value = .error ⟨id⟩ := modify_of_size_le h _

theorem setSection_of_size_le (h : c.scopes.size ≤ id) (key : Text) (value : Section) :
    c.setSection id key value = .error ⟨id⟩ := modify_of_size_le h _

theorem appendItems_of_size_le (h : c.scopes.size ≤ id) (key : Text) (scopes : List ScopeId) :
    c.appendItems id key scopes = .error ⟨id⟩ := modify_of_size_le h _

theorem set_of_size_le (h : c.scopes.size ≤ id) (key : Text) (value : Assignment) :
    c.set id key value = .error ⟨id⟩ := by
  cases value with
  | text => exact setText_of_size_le h key _
  | fields | function => exact setSection_of_size_le h key _

theorem addItem_of_size_lt (h : c.scopes.size < id) (key : Text) :
    c.addItem id key = .error ⟨id⟩ := by
  have hadded : (c.addScope id).1.scopes.size ≤ id := size_addScope c id ▸ h
  exact congrArg (Except.map _) (appendItems_of_size_le hadded key _)

/-- A value is bound in a scope that is not there only if it begins with a new scope. -/
theorem bindValue_of_size_le {value : Json} (h : c.scopes.size ≤ id)
    (hslip : ¬ (Change.extendJson id (.object [(key, value)])).Slips c) :
    c.bindValue id key value = .error ⟨id⟩ := by
  cases value with
  | null | bool | number | string =>
    rw [bindValue, setText_of_size_le h]
  | array items =>
    rw [bindValue, reserveItems, appendItems_of_size_le h]
    rfl
  | object members =>
    rw [bindValue]
    cases hflat : Json.flatMembers? members with
    | some fields => exact setSection_of_size_le h key _
    | none =>
      have hne : c.scopes.size ≠ id := by
        intro heq
        have hnested := Json.flatMembers?_eq_none_iff.1 hflat
        exact hslip ⟨by simp [Change.addsFirst, hnested], heq.symm⟩
      change (c.addItem id key >>= _) = _
      rw [addItem_of_size_lt (Nat.lt_of_le_of_ne h hne)]
      rfl

theorem perform_of_size_le (h : c.scopes.size ≤ change.scope) (hidle : change.isIdle = false)
    (hslip : ¬ change.Slips c) : c.perform change = .error (.noSuchScope ⟨change.scope⟩) := by
  cases change with
  | set id key value => exact congrArg (Except.mapError _) (set_of_size_le h key value)
  | setJson id key data =>
    rw [perform, setJson]
    cases hdata : Assignment.ofJson data with
    | error e =>
      rw [Change.isIdle_setJson, hdata] at hidle
      cases hidle
    | ok value => exact congrArg (Except.mapError _) (set_of_size_le h key value)
  | addItem id key =>
    have hne : c.scopes.size ≠ id := fun heq => hslip ⟨rfl, heq.symm⟩
    have hadd : c.addItem id key = .error ⟨id⟩ := addItem_of_size_lt (Nat.lt_of_le_of_ne h hne) key
    rw [perform, hadd]
    rfl
  | reserveItems id key => exact congrArg (Except.mapError _) (appendItems_of_size_le h key [])
  | extendJson id data =>
    cases data with
    | null | bool | number | string | array => cases hidle
    | object members =>
      cases members with
      | nil => cases hidle
      | cons m members =>
        obtain ⟨key, value⟩ := m
        have hvalue : c.bindValue id key value = .error ⟨id⟩ := by
          apply bindValue_of_size_le h
          intro hslip'
          apply hslip
          cases value <;> exact hslip'
        rw [perform, extendJson, bindMembers, hvalue]
        rfl

/-- A change that has nothing to do leaves the context as it is. -/
theorem apply_of_isIdle (h : change.isIdle) : c.apply change = .ok c := by
  cases change with
  | set | addItem | reserveItems => cases h
  | setJson id key data =>
    rw [apply, perform, setJson]
    cases hdata : Assignment.ofJson data with
    | error e => rfl
    | ok value =>
      rw [Change.isIdle_setJson, hdata] at h
      cases h
  | extendJson id data =>
    cases data with
    | null | bool | number | string | array => rfl
    | object members =>
      obtain rfl := List.isEmpty_iff.1 h
      rw [apply, perform, extendJson, bindMembers]
      rfl

/-- Items can be appended in the scope that was just added. -/
theorem exists_addItem_self (c : Context) (key : Text) :
    ∃ c', c.addItem c.scopes.size key = .ok (c', c.scopes.size) ∧ c.scopes.size < c'.scopes.size ∧
      c'.parent c.scopes.size = .ok (some c.scopes.size) := by
  have hlt : c.scopes.size < (c.addScope c.scopes.size).1.scopes.size :=
    size_addScope c _ ▸ Nat.lt_succ_self _
  obtain ⟨c', hc', haltered⟩ := exists_altered_appendItems hlt key [c.scopes.size]
  refine ⟨c', congrArg (Except.map _) hc', Nat.lt_of_lt_of_le hlt haltered.size_le, ?_⟩
  rw [haltered.parent_eq, parent_addScope]

/-- **A scope becomes its own parent** when a change adds the scope that it is for. -/
theorem exists_perform_of_slips (h : change.Slips c) :
    ∃ c', c.perform change = .ok c' ∧ c'.parent change.scope = .ok (some change.scope) := by
  obtain ⟨hadds, hid⟩ := h
  cases change with
  | set | setJson | reserveItems => cases hadds
  | addItem id key =>
    obtain rfl : id = c.scopes.size := hid
    obtain ⟨c', hc', -, hparent⟩ := exists_addItem_self c key
    exact ⟨c', congrArg (fun r => (Except.map Prod.fst r).mapError _) hc', hparent⟩
  | extendJson id data =>
    obtain rfl : id = c.scopes.size := hid
    cases data with
    | null | bool | number | string | array => cases hadds
    | object members =>
      match members with
      | [] => cases hadds
      | (key, .null) :: _ | (key, .bool _) :: _ | (key, .number _) :: _ | (key, .string _) :: _
      | (key, .array _) :: _ => cases hadds
      | (key, .object inner) :: rest =>
        -- The first member adds the scope; its own members and the others are bound in it then.
        have hflat : Json.flatMembers? inner = none := by
          rw [Json.flatMembers?_eq_none_iff]
          simpa [Change.addsFirst] using hadds
        obtain ⟨c₁, hc₁, hlt, hparent⟩ := exists_addItem_self c key
        obtain ⟨c₂, hc₂, -, h₂⟩ := invariant_true.exists_bindMembers trivial hlt inner
        obtain ⟨c₃, hc₃, -, h₃⟩ := invariant_true.exists_bindMembers trivial
          (Nat.lt_of_lt_of_le hlt h₂.size_le) rest
        refine ⟨c₃, ?_, ?_⟩
        · rw [perform, extendJson, bindMembers, bindValue, hflat]
          change ((c.addItem c.scopes.size key >>= _) >>= _ : Except _ _).mapError _ = _
          rw [hc₁]
          change ((c₁.bindMembers c.scopes.size inner) >>= _ : Except _ _).mapError _ = _
          rw [hc₂]
          change (c₂.bindMembers c.scopes.size rest).mapError _ = _
          rw [hc₃]
          rfl
        · exact (h₃.parent_eq.trans h₂.parent_eq).trans hparent

/-! ### Programs that name any scopes -/

/-- What a program can make of the empty context, whatever scopes it names, if no change is for the
scope that it adds. -/
inductive Attainable : Context → Prop
  | empty : Attainable .empty
  | apply {c c' : Context} {change : Change} : Attainable c → ¬ change.Slips c →
    c.apply change = .ok c' → Attainable c'

theorem Attainable.reachable (h : c.Attainable) : c.Reachable := by
  induction h with
  | empty => exact .empty
  | @apply c c' change _ hslip h ih =>
    rcases Nat.lt_or_ge change.scope c.scopes.size with hlt | hle
    · exact ih.apply hlt h
    · cases hidle : change.isIdle with
      | true =>
        rw [apply_of_isIdle hidle] at h
        cases h
        exact ih
      | false =>
        rw [apply_of_perform_eq_error (perform_of_size_le hle hidle hslip)] at h
        cases h

/-- **A scope that is not there cannot be asked or changed**, so that no scope is ever above itself
and all lookups end. The one way out is a change for the scope that it adds, and it leads to a scope
that is its own parent. -/
theorem Attainable.lookups_end (h : c.Attainable) :
    (∀ id, c.scopes.size ≤ id → c.parent id = .error ⟨id⟩ ∧ ∀ key,
      c.get id key = .error (.noSuchScope ⟨id⟩) ∧ c.section? id key = .error ⟨id⟩ ∧
      c.fetch id key = .error ⟨id⟩ ∧ c.fetchFields id key = .error ⟨id⟩ ∧
      c.fetchFunction id key = .error ⟨id⟩ ∧ c.fetchItems id key = .error ⟨id⟩ ∧
      c.resolve id key = .error ⟨id⟩) ∧
    (∀ change : Change, c.scopes.size ≤ change.scope →
      if change.isIdle then c.apply change = .ok c
      else if change.Slips c then
        ∃ c', c.perform change = .ok c' ∧ c'.parent change.scope = .ok (some change.scope)
      else c.perform change = .error (.noSuchScope ⟨change.scope⟩)) ∧
    (∀ id, ¬ c.IsAbove id id) ∧
    ∀ id < c.scopes.size, ∀ key,
      (∃ path value, Searches c (·.texts[key]?) id path value ∧ c.fetch id key = .ok value) ∧
      ∀ (α : Type) (pick : Section → Option α), ∃ path value,
        Searches c (fun s => s.sections[key]?.bind pick) id path value ∧
          c.fetchSection pick id key = .ok value := by
  have htree := h.reachable.tree
  refine ⟨fun id hid => ⟨?_, fun key => ?_⟩, fun change hid => ?_, htree.not_isAbove_self,
    fun id hid key => ⟨?_, fun α pick => ?_⟩⟩
  · rw [parent, scope_of_size_le hid]
    rfl
  · have hsection : ∀ {α : Type} (pick : Section → Option α),
        c.fetchSection pick id key = .error ⟨id⟩ := by
      intro α pick
      rw [fetchSection, chain_of_size_le hid]
      rfl
    refine ⟨?_, ?_, ?_, hsection _, hsection _, hsection _, ?_⟩
    · rw [get, get?, scope_of_size_le hid]
      rfl
    · rw [section?, scope_of_size_le hid]
      rfl
    · rw [fetch, chain_of_size_le hid]
      rfl
    · rw [resolve, fetchFields, hsection]
      rfl
  · split
    · next hidle => exact apply_of_isIdle hidle
    · next hidle =>
      split
      · next hslip => exact exists_perform_of_slips hslip
      · next hslip => exact perform_of_size_le hid (Bool.not_eq_true _ ▸ hidle) hslip
  · obtain ⟨path, value, hsearch, -, hvalue⟩ := htree.exists_fetch hid key
    exact ⟨path, value, hsearch, hvalue⟩
  · obtain ⟨path, value, hsearch, -, hvalue⟩ := htree.exists_fetchSection hid pick key
    exact ⟨path, value, hsearch, hvalue⟩

/-- With one item below the root, the scope behind it cannot be asked or set, but an item of its own
can be appended in it; lookups from the item end. -/
theorem Attainable.lookups_end_of_one_item :
    ∃ c : Context, c.Attainable ∧ c.scopes.size = 2 ∧ c.parent 1 = .ok (some 0) ∧
      c.resolve 2 ['k'] = .error ⟨2⟩ ∧
      c.perform (.set 2 ['a'] (.text ['x'])) = .error (.noSuchScope ⟨2⟩) ∧
      (∃ c', c.perform (.addItem 2 ['k']) = .ok c' ∧ c'.parent 2 = .ok (some 2)) ∧
      ¬ c.IsAbove 1 1 ∧ ∃ path value, Searches c (·.texts[['a']]?) 1 path value := by
  obtain ⟨c, hc, hsize, hparent⟩ : ∃ c, Context.empty.apply (.addItem 0 ['k']) = .ok c ∧
      c.scopes.size = 2 ∧ c.parent 1 = .ok (some 0) := ⟨_, rfl, rfl, rfl⟩
  have hattainable : c.Attainable := .apply .empty (by decide) hc
  have hmissing : c.scopes.size ≤ 2 := Nat.le_of_eq hsize
  have hslips : (Change.addItem 2 ['k']).Slips c := ⟨rfl, hsize.symm⟩
  obtain ⟨hasked, hchanged, habove, hends⟩ := Attainable.lookups_end hattainable
  have hset := hchanged (.set 2 ['a'] (.text ['x'])) hmissing
  have hadd := hchanged (.addItem 2 ['k']) hmissing
  obtain ⟨path, value, hsearch, -⟩ := (hends 1 (hsize ▸ Nat.lt_succ_self 1) ['a']).1
  exact ⟨c, hattainable, hsize, hparent, ((hasked 2 hmissing).2 ['k']).2.2.2.2.2.2, hset,
    (if_pos hslips).mp hadd, habove 1, path, value, hsearch⟩

/-- **A scope above itself.** In the context that has only the root, an item appended in scope 1 is
scope 1, below itself: a lookup from it that finds nothing never ends. In the same way a scope
becomes its own parent when members are bound in it. -/
theorem item_above_itself :
    (∃ c, Context.empty.perform (.addItem 1 ['k']) = .ok c ∧ c.parent 1 = .ok (some 1) ∧
      c.IsAbove 1 1 ∧ ∀ path value, ¬ Searches c (·.texts[['x']]?) 1 path value) ∧
    ∃ c, Context.empty.perform
        (.extendJson 1 (.object [(['k'], .object [(['l'], .array [])])])) = .ok c ∧
      c.parent 1 = .ok (some 1) ∧ c.IsAbove 1 1 := by
  refine ⟨⟨_, rfl, rfl, .single rfl, not_searches_of_parent_self rfl rfl rfl⟩, ?_⟩
  obtain ⟨c, hc, hparent⟩ := exists_perform_of_slips (by decide :
    (Change.extendJson 1 (.object [(['k'], .object [(['l'], .array [])])])).Slips .empty)
  exact ⟨c, hc, hparent, .single hparent⟩

end Context

end Mustache

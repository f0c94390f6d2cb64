import Mustache.Context.Populate

/-!
# Objects of scalars

An object is kept as fields when all of its members are scalars (`Json.Flat`), and any other object
or array as items: `Json.fields?` and `Json.items?` say this of the value alone. `flatMembers?`
tells the objects apart in the same way (`Json.flat_of_flatMembers?`,
`Json.flatMembers?_eq_none_iff`).
-/

namespace Mustache.Json

/-- The members of an object. -/
abbrev Members := List (Text × Json)

/-- All members are scalars. -/
def Flat (members : Members) : Prop := ∀ m ∈ members, m.2.scalarText?.isSome

instance (members : Members) : Decidable (Flat members) :=
  inferInstanceAs (Decidable (∀ m ∈ members, _))

/-- The texts of the members that are scalars. Of members of one name the first one counts. -/
def texts : Members → Table Text
  | [] => ∅
  | (key, value) :: members =>
    match value.scalarText? with
    | some text => (texts members).insert key text
    | none => texts members

/-- The fields of an object of scalars. -/
def fields? : Json → Option (Table Text)
  | .object members => if Flat members then some (texts members) else none
  | _ => none

/-- The members of the scope for an item: those of an object, and any other value under the name
`.` alone. -/
def itemMembers : Json → Members
  | .object members => members
  | item => [(Context.itemName, item)]

/-- The scopes that a section goes through: one for each item of an array, or one for an object that
is not made of scalars alone. -/
def items? : Json → Option (List Members)
  | .array items => some (items.map itemMembers)
  | .object members => if Flat members then none else some [members]
  | _ => none

variable {members : Members} {m : Text × Json} {map : Table Text}

theorem not_flat_iff : ¬ Flat members ↔ ∃ m ∈ members, m.2.scalarText? = none := by
  simp [Flat]

theorem flat_cons : Flat (m :: members) ↔ m.2.scalarText?.isSome ∧ Flat members :=
  List.forall_mem_cons

theorem getElem?_texts (h : Flat members) (name : Text) :
    (texts members)[name]? = (members.lookup name).bind scalarText? := by
  induction members with
  | nil => simp [texts]
  | cons m members ih =>
    obtain ⟨key, value⟩ := m
    obtain ⟨hvalue, hmembers⟩ := flat_cons.1 h
    obtain ⟨text, htext⟩ := Option.isSome_iff_exists.1 hvalue
    rw [texts, htext]
    dsimp only
    rw [Table.getElem?_insert, List.lookup_cons, ih hmembers]
    split
    · next hname =>
      rw [hname, beq_self_eq_true]
      exact htext.symm
    · next hname => rw [beq_eq_false_iff_ne.2 (Ne.symm hname)]

/-- The fields are the table with the texts of the members. -/
theorem fields?_object (h : Flat members)
    (hmap : ∀ name : Text, map[name]? = (members.lookup name).bind scalarText?) :
    (Json.object members).fields? = some map := by
  rw [fields?, if_pos h, Option.some.injEq]
  exact Std.ExtTreeMap.ext_getElem? fun name => (getElem?_texts h name).trans (hmap name).symm

theorem fields?_object_eq_none (h : ¬ Flat members) : (Json.object members).fields? = none :=
  if_neg h

theorem items?_object_eq_none (h : Flat members) : (Json.object members).items? = none := if_pos h

theorem items?_object (h : ¬ Flat members) : (Json.object members).items? = some [members] :=
  if_neg h

/-! ### How objects are told apart -/

theorem flatMembers?_cons (key : Text) (value : Json) (members : Members) :
    flatMembers? ((key, value) :: members) = value.scalarText?.bind fun text =>
      (flatMembers? members).map ((key, text) :: ·) := by
  rw [flatMembers?, List.mapM_cons]
  change (value.scalarText?.map (key, ·)).bind
    (fun entry => (flatMembers? members).bind fun entries => some (entry :: entries)) = _
  cases value.scalarText? with
  | none => rfl
  | some text => exact Option.map_eq_bind.symm

theorem isSome_flatMembers?_iff : (flatMembers? members).isSome ↔ Flat members := by
  induction members with
  | nil => exact ⟨fun _ => nofun, fun _ => rfl⟩
  | cons m members ih =>
    obtain ⟨key, value⟩ := m
    rw [flatMembers?_cons, flat_cons, ← ih]
    cases value.scalarText? <;> simp

theorem flatMembers?_eq_none_iff : flatMembers? members = none ↔ ¬ Flat members := by
  rw [← isSome_flatMembers?_iff, Bool.not_eq_true, Option.isSome_eq_false_iff,
    Option.isNone_iff_eq_none]

theorem flat_of_flatMembers? {fields : List (Text × Text)} (h : flatMembers? members = some fields) :
    Flat members :=
  isSome_flatMembers?_iff.1 (h ▸ rfl)

/-- The entries have the names of the members, in their order, and their texts. -/
theorem of_flatMembers? {fields : List (Text × Text)} (h : flatMembers? members = some fields) :
    fields.map Prod.fst = members.map Prod.fst ∧
      ∀ name, fields.lookup name = (members.lookup name).bind scalarText? := by
  induction members generalizing fields with
  | nil =>
    cases h
    exact ⟨rfl, fun _ => rfl⟩
  | cons m members ih =>
    obtain ⟨key, value⟩ := m
    rw [flatMembers?_cons] at h
    obtain ⟨text, htext, h⟩ := Option.bind_eq_some_iff.1 h
    obtain ⟨fields, hfields, rfl⟩ := Option.map_eq_some_iff.1 h
    obtain ⟨hnames, hlookup⟩ := ih hfields
    refine ⟨by rw [List.map_cons, List.map_cons, hnames], fun name => ?_⟩
    rw [List.lookup_cons, List.lookup_cons]
    split
    · exact htext.symm
    · exact hlookup name

end Mustache.Json

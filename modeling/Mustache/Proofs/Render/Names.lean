import Mustache.Proofs.Context.Chained

/-!
# Names in frames that show an environment

A frame shows an environment when its scopes stand for the objects around. Names have the same text
in both (`Frame.Shows.lookup_eq`).
-/

namespace Mustache.Frame

open Json (Members)
open Context (Stands Chained)
open Direct (Env Spot nearestFields? head? walk? dotted?)

variable {c : Context} {base : ScopeId} {around : List Members}

/-! ### Names with points -/

/-- A place in the context stands for a spot in the objects. -/
inductive Landing.Marks (c : Context) : Landing → Spot → Prop
  | fields {map} : Marks c (.fields map) (.fields map)
  | object {id members} : Stands c id members → Marks c (.scope id) (.object members)

/-- The section that is bound by fields, or else by the items of the children, leads where these
fields, or else the objects that the children stand for, do. -/
theorem rel_ofSection? {children : Option (List (ScopeId × Members))}
    (h : ∀ below ∈ children, ∀ child ∈ below, Stands c child.1 child.2)
    (map : Option (Table Text)) :
    Option.Rel (Landing.Marks c)
      (((map.map .fields).or (children.map (.items <| ·.map Prod.fst))).bind Landing.ofSection?)
      (Spot.of? map (children.map (·.map Prod.snd))) := by
  cases map with
  | some map => exact .some .fields
  | none =>
    cases children with
    | none => exact .none
    | some children =>
      cases children with
      | nil => exact .none
      | cons child rest =>
        cases rest with
        | nil => exact .some (.object (h _ rfl child List.mem_cons_self))
        | cons => exact .none

theorem exists_land (h : Chained c (some base) around) (first : Text) :
    ∃ landing, land c base first = .ok landing ∧
      Option.Rel (Landing.Marks c) landing (head? around first) := by
  obtain ⟨nearest, hids, hitems, hchained⟩ := h.exists_fetchItems first
  have hstands : ∀ below ∈ nearest.map Prod.fst, ∀ child ∈ below, Stands c child.1 child.2 := by
    intro below hbelow child hchild
    obtain ⟨n, hn, rfl⟩ := Option.map_eq_some_iff.1 hbelow
    cases hchained n hn child hchild with
    | cons hstands => exact hstands
  have hrel := rel_ofSection? hstands (nearestFields? around first)
  rw [land, h.fetchFields_eq, hids, head?, hitems, Option.map_map]
  rw [Option.map_map, Option.map_map] at hrel
  refine ⟨_, ?_, hrel⟩
  cases nearestFields? around first with
  | some map => rfl
  | none => cases nearest <;> rfl

/-- A section that is no function is known by its fields and its items. -/
theorem eq_of_picks {binding : Option Section} {map : Option (Table Text)}
    {ids : Option (List ScopeId)} (hfields : binding.bind Section.fields? = map)
    (hfunction : binding.bind Section.function? = none)
    (hitems : binding.bind Section.items? = ids) :
    binding = (map.map .fields).or (ids.map .items) := by
  subst hfields hitems
  cases binding with
  | none => rfl
  | some binding =>
    cases binding with
    | function f => cases hfunction
    | fields | items => rfl

theorem exists_section? {id : ScopeId} {members : Members} (h : Stands c id members)
    (part : Text) :
    ∃ binding, c.section? id part = .ok binding ∧
      Option.Rel (Landing.Marks c) (binding.bind Landing.ofSection?)
        (Spot.of? ((members.lookup part).bind Json.fields?)
          ((members.lookup part).bind Json.items?)) := by
  obtain ⟨s, hs, hbinds⟩ := h.exists_scope
  have hsection : c.section? id part = .ok s.sections[part]? := by
    rw [Context.section?, Context.scope, hs]
    rfl
  obtain ⟨children, hids, hitems, hchildren⟩ := (hbinds part).items
  refine ⟨_, hsection, ?_⟩
  rw [eq_of_picks (hbinds part).fields (hbinds part).function hids, hitems, Option.map_map]
  exact rel_ofSection? (fun below hbelow child hchild =>
    (hchildren below hbelow child hchild).stands) _

theorem exists_follow {landing : Landing} {spot : Spot} (h : landing.Marks c spot)
    (parts : List Text) :
    ∃ landing', follow c landing parts = .ok landing' ∧
      Option.Rel (Landing.Marks c) landing' (walk? spot parts) := by
  induction parts generalizing landing spot with
  | nil => cases h with
    | fields => exact ⟨_, rfl, .some .fields⟩
    | object hstands => exact ⟨_, rfl, .some (.object hstands)⟩
  | cons part parts ih =>
    cases h with
    | fields => exact ⟨none, rfl, .none⟩
    | object hstands =>
      obtain ⟨binding, hbinding, hrel⟩ := exists_section? hstands part
      have hbind : ∀ f : Option Section → Except NoSuchScope (Option Landing),
          (Except.ok binding >>= f) = f binding := fun _ => rfl
      rw [follow, hbinding, hbind, walk?]
      generalize Spot.of? _ _ = spot at hrel ⊢
      generalize binding.bind Landing.ofSection? = landing at hrel ⊢
      cases hrel with
      | none => exact ⟨none, rfl, .none⟩
      | some hmarks => exact ih hmarks

theorem Landing.Marks.get?_eq {landing : Landing} {spot : Spot} (h : landing.Marks c spot)
    (part : Text) : landing.get? c part = .ok (spot.text? part) := by
  cases h with
  | fields => rfl
  | object hstands =>
    obtain ⟨s, hs, hbinds⟩ := hstands.exists_scope
    rw [Landing.get?, Context.get?, Context.scope, hs]
    exact congrArg _ (hbinds part).text

theorem fetchDotted_eq (h : Chained c (some base) around) (key : Text) :
    fetchDotted c base key = .ok (dotted? around key) := by
  rw [fetchDotted, dotted?]
  match Text.splitAt (· == '.') key with
  | [] | [_] => rfl
  | first :: second :: more =>
    change (if _ then _ else _) = Except.ok (if _ then _ else _)
    split
    · rfl
    obtain ⟨landing, hland, hrel⟩ := exists_land h first
    change (land c base first >>= _) = Except.ok (Option.bind (head? around first) _)
    rw [hland]
    generalize head? around first = spot at hrel ⊢
    cases hrel with
    | none => rfl
    | some hmarks =>
      obtain ⟨landing, hfollow, hrel⟩ := exists_follow hmarks (second :: more).dropLast
      change (follow c _ _ >>= _) = Except.ok (Option.bind (walk? _ _) _)
      rw [hfollow]
      generalize walk? _ _ = spot at hrel ⊢
      cases hrel with
      | none => rfl
      | some hmarks => exact hmarks.get?_eq _

/-! ### Frames -/

/-- The frame shows the environment: its scopes stand for the objects around. -/
structure Shows (c : Context) (frame : Frame) (env : Env) : Prop where
  pushed_eq : frame.pushed = env.pushed
  chained : Chained c (some frame.base) env.around

variable {frame : Frame} {env : Env}

theorem Shows.push (h : Shows c frame env) (map : Table Text) :
    Shows c (frame.push map) (env.push map) :=
  ⟨congrArg _ h.pushed_eq, h.chained⟩

theorem Shows.lookup_eq (h : Shows c frame env) (key : Text) :
    frame.lookup c key = .ok (Direct.text? env key) := by
  rw [lookup, fetch, h.pushed_eq, h.chained.fetch_eq, fetchDotted_eq h.chained, Direct.text?,
    Direct.plain?]
  cases env.pushed.findSome? (·[key]?) with
  | some value => rfl
  | none =>
    cases env.around.findSome? fun members => (members.lookup key).bind Json.scalarText? <;> rfl

end Mustache.Frame

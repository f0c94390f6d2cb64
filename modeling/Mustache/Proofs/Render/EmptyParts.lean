import Mustache.Proofs.Context.Leads
import Mustache.Proofs.Render.Dotted
import Mustache.Proofs.Text.Split

/-!
# Names with empty parts

A name with a point at its start or at its end contributes nothing, unless it is bound as a whole. A
name with two points in a row between other parts contributes nothing either, unless a scope on the
way binds the empty name to a section (`Context.blank_of_empty_part`).
-/

namespace Mustache

open Json (Members)

variable {c : Context} {frame : Frame} {key : Text}

/-- A tag with this name contributes nothing in the frame, whatever the partials and the limit
are. -/
def Frame.Blank (c : Context) (frame : Frame) (key : Text) : Prop :=
  ∀ (σ ε : Type) (loader : Loader σ ε) (limit budget : Nat) (raw : Bool) (pos : Position),
    Render.renderWithin c loader limit budget [.value key raw pos] frame = pure []

theorem Render.renderWithin_value {σ ε : Type} {loader : Loader σ ε} {limit budget : Nat}
    {raw : Bool} {pos : Position} {value : Option Text} (h : frame.lookup c key = .ok value) :
    renderWithin c loader limit budget [.value key raw pos] frame = pure (valueText raw value) := by
  obtain ⟨expand, hwrite⟩ := renderWithin_eq c loader limit budget
  rw [hwrite, renderNodes_singleton, renderNode, h, found_ok_bind]

namespace Frame

theorem blank_of_lookup {value : Option Text} (h : frame.lookup c key = .ok value)
    (hempty : value.getD [] = []) : Blank c frame key := by
  intro σ ε loader limit budget raw pos
  rw [Render.renderWithin_value h]
  cases value with
  | none => rfl
  | some text =>
    obtain rfl : text = [] := hempty
    cases raw <;> rfl

theorem not_blank_of_lookup {text : Text} (h : frame.lookup c key = .ok (some text))
    (hne : text ≠ []) : ¬ Blank c frame key := by
  intro hblank
  have hraw := (Render.renderWithin_value h).symm.trans
    (hblank Unit Empty Loader.none 0 0 true .nowhere)
  have hrun : (Except.ok text, ()) = (Except.ok [], ()) :=
    congrArg (fun m : RenderM Unit Empty Text => m.run ()) hraw
  exact hne (Except.ok.inj (Prod.mk.inj hrun).1)

theorem lookup_of_fetch_eq_none (h : frame.fetch c key = .ok none) :
    frame.lookup c key = fetchDotted c frame.base key := by
  rw [lookup, h]
  rfl

theorem lt_size_of_fetch_eq_none (h : frame.fetch c key = .ok none) :
    frame.base < c.scopes.size := by
  rw [fetch] at h
  split at h
  · cases h
  · rw [Context.fetch, Context.chain] at h
    split at h
    · assumption
    · cases h

/-- A name that is not blank has a text that its parts lead to. -/
theorem exists_fetchDotted_of_not_blank (hc : c.Closed) (hfetch : frame.fetch c key = .ok none)
    (h : ¬ Blank c frame key) : ∃ text, fetchDotted c frame.base key = .ok (some text) := by
  obtain ⟨value, hvalue⟩ := hc.exists_lookup (lt_size_of_fetch_eq_none hfetch) key
  rw [← lookup_of_fetch_eq_none hfetch, hvalue]
  cases value with
  | none => exact absurd (blank_of_lookup hvalue rfl) h
  | some text => exact ⟨text, rfl⟩

end Frame

/-! ### Data in which a name has a text -/

/-- Objects, each the only member of the one before it, that some names lead through to a value. -/
def Json.nested (value : Json) (parts : List Text) : Json :=
  parts.foldr (fun part below => .object [(part, below)]) value

theorem Json.below?_nested (value : Json) (parts : List Text) :
    (value.nested parts).below? parts = some value := by
  induction parts with
  | nil => cases value <;> rfl
  | cons part parts ih =>
    rw [nested, List.foldr_cons, below?, member?, List.lookup_cons_self, Option.bind_some]
    exact ih

theorem Json.Distinct.nested {value : Json} (h : value.Distinct) (parts : List Text) :
    (value.nested parts).Distinct := by
  induction parts with
  | nil => exact h
  | cons part parts ih => exact .object (by simp) (List.forall_mem_singleton.2 ih)

/-- Some data give a text to any name with a point in it whose first and last part are not empty. -/
theorem Context.exists_not_blank (hdot : '.' ∈ key)
    (hfirst : (Text.splitAt (· == '.') key).head? ≠ some [])
    (hlast : (Text.splitAt (· == '.') key).getLast? ≠ some []) :
    ∃ (c : Context) (frame : Frame), c.Reachable ∧ frame.fetch c key = .ok none ∧
      ¬ frame.Blank c key := by
  have hlength := Text.two_le_length_splitAt hdot
  have hbelow := Json.below?_nested (.string ['x']) (Text.splitAt (· == '.') key)
  have hdistinct := (Json.Distinct.string (s := ['x'])).nested (Text.splitAt (· == '.') key)
  obtain ⟨first, second, more, hparts⟩ : ∃ first second more,
      Text.splitAt (· == '.') key = first :: second :: more := by
    match hparts : Text.splitAt (· == '.') key with
    | [] | [_] => simp [hparts] at hlength
    | first :: second :: more => exact ⟨first, second, more, rfl⟩
  obtain ⟨below, hnested⟩ : ∃ below, Json.nested (.string ['x']) (Text.splitAt (· == '.') key) =
      .object [(first, .object below)] := ⟨_, by rw [hparts]; rfl⟩
  rw [hnested] at hbelow hdistinct
  obtain ⟨c, hc, hshows⟩ := Frame.exists_shows_ofJson hdistinct
  have hfetch : Frame.fetch c { base := root } key = .ok none := by
    rw [Frame.fetch, List.findSome?_nil, hshows.chained.fetch_eq]
    refine congrArg Except.ok ?_
    -- The object has one member, and this is no scalar.
    rw [List.findSome?_cons, List.lookup_cons]
    cases key == first <;> rfl
  refine ⟨c, { base := root }, reachable_ofJson hc, hfetch, ?_⟩
  have hdotted := Direct.dotted?_of_below? hfirst hlast hlength hbelow
  have hlookup : Frame.lookup c { base := root } key = .ok (some ['x']) := by
    rw [Frame.lookup_of_fetch_eq_none hfetch, Frame.fetchDotted_eq hshows.chained, hdotted]
    rfl
  exact Frame.not_blank_of_lookup hlookup (by simp)

/-- **Names with empty parts.** Let a name have a point in it. In all frames of all contexts that a
program can make, unless the name is bound as a whole, a tag with this name contributes nothing if
the first or the last part of the name is empty, and this is so for no other name. In one context
and frame it also contributes nothing if an empty part between the others comes behind parts that do
not lead to a scope that binds the empty name to fields or to a single item. -/
theorem Context.blank_of_empty_part (hdot : '.' ∈ key) :
    ((∀ (c : Context) (frame : Frame), c.Reachable → frame.fetch c key = .ok none →
        frame.Blank c key) ↔
      (Text.splitAt (· == '.') key).head? = some [] ∨
        (Text.splitAt (· == '.') key).getLast? = some []) ∧
    ∀ (c : Context) (frame : Frame), c.Reachable → frame.fetch c key = .ok none →
      ∀ before after, Text.splitAt (· == '.') key = before ++ [] :: after → before ≠ [] →
        (¬ ∃ id, Frame.Leads c frame.base before id ∧ Frame.GoesOn c id []) →
        frame.Blank c key := by
  constructor
  · constructor
    · intro hblank
      by_contra hsolid
      obtain ⟨hfirst, hlast⟩ := not_or.1 hsolid
      obtain ⟨c, frame, hc, hfetch, hnot⟩ := exists_not_blank hdot hfirst hlast
      exact hnot (hblank c frame hc hfetch)
    · intro hends c frame hc hfetch
      by_contra hnot
      obtain ⟨text, htext⟩ := Frame.exists_fetchDotted_of_not_blank hc.closed hfetch hnot
      obtain ⟨hfirst, hlast, -⟩ := Frame.exists_leads_of_fetchDotted htext
      exact hends.elim hfirst hlast
  · intro c frame hc hfetch before after hparts hbefore hleads
    by_contra hnot
    obtain ⟨text, htext⟩ := Frame.exists_fetchDotted_of_not_blank hc.closed hfetch hnot
    obtain ⟨-, hlast, hpassed⟩ := Frame.exists_leads_of_fetchDotted htext
    refine hleads (hpassed before [] after hparts hbefore ?_)
    rintro rfl
    exact hlast (by rw [hparts, List.getLast?_concat])

theorem Context.blank_of_empty_part_of_empty_member :
    ∃ c, ofJson (.object [([], .object [(['a'], .string ['x'])])]) = .ok c ∧
      Frame.fetch c { base := root } ".a".toList = .ok none ∧
      Frame.Blank c { base := root } ".a".toList := by
  obtain ⟨c, hc, hfetch⟩ : ∃ c, ofJson (.object [([], .object [(['a'], .string ['x'])])]) = .ok c ∧
      Frame.fetch c { base := root } ".a".toList = .ok none := ⟨_, rfl, rfl⟩
  have hends := (Context.blank_of_empty_part (by decide : '.' ∈ ".a".toList)).1.2 (.inl rfl)
  exact ⟨c, hc, hfetch, hends c _ (reachable_ofJson hc) hfetch⟩

/-- **An empty part is passed** where the data have the empty name: the name has a text that its
parts lead to. -/
theorem Context.empty_part_passed :
    let data : Json := .object [(['a'], .object [([], .object [(['c'], .string ['x'])])])]
    [] ∈ Text.splitAt (· == '.') "a..c".toList ∧
      (∃ c, ofJson data = .ok c ∧ c.Reachable ∧
        Frame.fetch c { base := root } "a..c".toList = .ok none) ∧
      (fill "{{a..c}}".toList data).toOption = some ['x'] := by
  intro data
  obtain ⟨c, hc, hfetch⟩ : ∃ c, ofJson data = .ok c ∧
      Frame.fetch c { base := root } "a..c".toList = .ok none := ⟨_, rfl, rfl⟩
  exact ⟨by decide, ⟨c, hc, reachable_ofJson hc, hfetch⟩, by decide +kernel⟩

end Mustache

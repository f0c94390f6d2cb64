import Mustache.Fill
import Mustache.Proofs.Render.Below
import Mustache.Proofs.Render.Entered
import Mustache.Proofs.Render.Names

/-!
# Section tags with points in their names

The name of a section tag is looked up as a whole. If there is no section of this name, the text of
the name counts, and a name with points has the text of the scalar that its parts lead to: the tag
does not see an array or an object there (`Renderer.render_dotted_section`).
-/

namespace Mustache

open Json (Members)

/-- The root of a context that is made from an object shows the object. -/
theorem Frame.exists_shows_ofJson {members : Members} (h : (Json.object members).Distinct) :
    ∃ c, Context.ofJson (.object members) = .ok c ∧
      Frame.Shows c { base := Context.root } { around := [members] } := by
  obtain ⟨c, s, hc, hs, hparent, hstands⟩ := Context.exists_ofJson h
  have hroot : c.parent Context.root = .ok none := by
    rw [Context.parent_of_scope hs, hparent]
  exact ⟨c, hc, rfl, .cons hstands hroot (fun p hp => absurd hp (Option.not_mem_none p)) .nil⟩

variable {c : Context} {members : Members} {key : Text} {value : Json}

/-- A name that is the name of no member stands for no section. -/
theorem Frame.Shows.resolve_eq_none
    (h : Frame.Shows c { base := Context.root } { around := [members] })
    (hkey : members.lookup key = none) : c.resolve Context.root key = .ok none := by
  obtain ⟨nearest, hresolve, hitems, -⟩ := h.chained.exists_resolve key
  simp only [Direct.nearestItems?, hkey, Option.bind_none] at hitems
  rw [hresolve, Direct.nearestFields?, List.findSome?_cons, hkey,
    Option.map_eq_none_iff.1 hitems.symm]
  rfl

/-- It has the text of the value that its parts lead to. -/
theorem Frame.Shows.lookup_eq_scalarText?
    (h : Frame.Shows c { base := Context.root } { around := [members] })
    (hkey : members.lookup key = none)
    (hdotted : Direct.dotted? [members] key = value.scalarText?) :
    Frame.lookup c { base := Context.root } key = .ok value.scalarText? := by
  rw [h.lookup_eq, Direct.text?, Direct.plain?, hdotted]
  simp [hkey]

/-- A tag that is written as some nodes are, or as nothing, whatever the expansions are written
as. -/
theorem Renderer.render_eq_of_renderNode_eq {σ ε : Type} {n : Node} {ns : List Node}
    (r : Renderer σ ε)
    (h : ∀ expand, Render.renderNode c r.loader expand n { base := Context.root } =
      Render.renderNodes c r.loader expand ns { base := Context.root }) :
    r.render [n] c = r.render ns c := by
  obtain ⟨expand, hwrite⟩ := Render.renderWithin_eq c r.loader r.maxDepth r.maxDepth
  rw [render, render, renderScope, renderScope, hwrite, Render.renderNodes_singleton, h]

theorem Renderer.render_nil {σ ε : Type} (r : Renderer σ ε) (c : Context) :
    r.render [] c = (.ok [], r) := by
  obtain ⟨expand, hwrite⟩ := Render.renderWithin_eq c r.loader r.maxDepth r.maxDepth
  rw [render, renderScope, hwrite, Render.renderNodes_nil]
  rfl

/-- **Section tags with points in their names see texts only.** Let the parts of a name, at least
two and none of them empty, lead from an object through objects to a value, and let no member of the
object have the whole name. Then, at the root of the context of the object, a section tag with this
name writes its body, once and as the root does, if the value is a scalar whose text is not empty,
and nothing if it is any other scalar, an array or an object. The inverted tag does the opposite. -/
theorem Renderer.render_dotted_section (h : (Json.object members).Distinct) (path : Text)
    (hlength : 2 ≤ (Text.splitAt (· == '.') path).length)
    (hparts : ∀ part ∈ Text.splitAt (· == '.') path, part ≠ [])
    (hbelow : (Json.object members).below? (Text.splitAt (· == '.') path) = some value)
    (hpath : members.lookup path = none) :
    ∃ c, Context.ofJson (.object members) = .ok c ∧
      ∀ {σ ε : Type} (r : Renderer σ ε) (body : List Node) (source : Text) (pos : Position),
        ((∃ text, value.scalarText? = some text ∧ text ≠ []) →
          r.render [.block path true body source pos] c = (.ok [], r) ∧
          r.render [.block path false body source pos] c = r.render body c) ∧
        ((∀ text, value.scalarText? = some text → text = []) →
          r.render [.block path true body source pos] c = r.render body c ∧
          r.render [.block path false body source pos] c = (.ok [], r)) := by
  obtain ⟨c, hc, hshows⟩ := Frame.exists_shows_ofJson h
  have hdotted : Direct.dotted? [members] path = value.scalarText? := by
    refine Direct.dotted?_of_below? (fun hhead => ?_) (fun hlast => ?_) hlength hbelow
    · exact hparts [] (List.mem_of_mem_head? hhead) rfl
    · exact hparts [] (List.mem_of_mem_getLast? hlast) rfl
  have hresolve := hshows.resolve_eq_none hpath
  have hlookup := hshows.lookup_eq_scalarText? hpath hdotted
  refine ⟨c, hc, fun r body source pos => ?_⟩
  constructor
  · rintro ⟨text, htext, hne⟩
    have hself : Frame.entered { base := Context.root } value.scalarText? none =
        [{ base := Context.root }] := by
      simp [Frame.entered, htext, hne]
    rw [← r.render_nil c]
    refine ⟨r.render_eq_of_renderNode_eq fun expand => ?_,
      r.render_eq_of_renderNode_eq fun expand => ?_⟩
    · exact (Render.renderNode_of_entered_self hresolve hlookup rfl hself).2
    · exact (Render.renderNode_of_entered_self hresolve hlookup rfl hself).1
  · intro hempty
    have hnone : Frame.entered { base := Context.root } value.scalarText? none = [] := by
      cases htext : value.scalarText? with
      | none => rfl
      | some text => simp [Frame.entered, hempty text htext]
    rw [← r.render_nil c]
    refine ⟨r.render_eq_of_renderNode_eq fun expand => ?_,
      r.render_eq_of_renderNode_eq fun expand => ?_⟩
    · exact (Render.renderNode_of_not_entered hresolve hlookup rfl hnone).2
    · exact (Render.renderNode_of_not_entered hresolve hlookup rfl hnone).1

theorem Renderer.render_dotted_section_of_order :
    ∃ c, Context.ofJson (.object [("order".toList, .object [("at".toList, .object
        [("city".toList, .string ['x'])]), ("note".toList, .string ['y'])])]) = .ok c ∧
      ∀ (r : Renderer Unit Empty) (body : List Node),
        r.render [.block "order.at".toList true body [] .nowhere] c = r.render body c ∧
        r.render [.block "order.at".toList false body [] .nowhere] c = (.ok [], r) ∧
        r.render [.block "order.note".toList true body [] .nowhere] c = (.ok [], r) ∧
        r.render [.block "order.note".toList false body [] .nowhere] c = r.render body c := by
  have hdistinct : (Json.object [("order".toList, .object [("at".toList, .object
      [("city".toList, .string ['x'])]), ("note".toList, .string ['y'])])]).Distinct := by
    repeat' first
      | exact .string
      | refine .object (by decide) ?_
      | refine List.forall_mem_cons.2 ⟨?_, ?_⟩
      | exact nofun
  obtain ⟨c, hc, hat⟩ := Renderer.render_dotted_section hdistinct "order.at".toList
    (by decide) (by decide) rfl rfl
  obtain ⟨c', hc', hnote⟩ := Renderer.render_dotted_section hdistinct "order.note".toList
    (by decide) (by decide) rfl rfl
  rw [hc] at hc'
  cases hc'
  refine ⟨c, hc, fun r body => ?_⟩
  obtain ⟨hinverse, hsection⟩ := (hat r body [] .nowhere).2 nofun
  obtain ⟨hinverse', hsection'⟩ := (hnote r body [] .nowhere).1 ⟨['y'], rfl, by simp⟩
  exact ⟨hinverse, hsection, hinverse', hsection'⟩

/-- **A section tag does not see the object** that a name with points leads to: the section is not
written, and its inverse is. -/
theorem dotted_object_unseen :
    let members : Members := [(['a'], .object [(['b'], .object [(['c'], .string ['1'])])])]
    (Json.object members).below? (Text.splitAt (· == '.') "a.b".toList) =
        some (.object [(['c'], .string ['1'])]) ∧
      members.lookup "a.b".toList = none ∧
      (fill "{{^a.b}}B{{/a.b}}".toList (.object members)).toOption = some ['B'] ∧
      (fill "{{#a.b}}B{{/a.b}}".toList (.object members)).toOption = some [] :=
  ⟨rfl, rfl, by decide +kernel, by decide +kernel⟩

end Mustache

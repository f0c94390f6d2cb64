import Mustache.Proofs.Context.Change
import Mustache.Proofs.Context.Shape
import Mustache.Proofs.Render.Nodes

/-!
# Data write no markup

Where every value is escaped, the characters that markup is made of come from the templates alone:
two contexts of the same shape are written with the same markup, whatever their texts are
(`Renderer.markup_eq_of_sameShape`).
-/

namespace Mustache

namespace Text

/-- A character that markup is made of. -/
def isMarkup (c : Char) : Bool := c == '<' || c == '>' || c == '"'

/-- The markup in a text: the characters that it is made of, in their order. -/
def markup (s : Text) : Text := s.filter isMarkup

@[simp] theorem markup_append (s t : Text) : markup (s ++ t) = markup s ++ markup t :=
  List.filter_append s t

theorem markup_entity (c : Char) : markup (entity c) = [] := by
  unfold entity
  split
  · decide
  · decide
  · decide
  · decide
  · next h _ h' h'' => simp_all [markup, isMarkup]

@[simp] theorem markup_escape (s : Text) : markup (escape s) = [] := by
  induction s with
  | nil => rfl
  | cons c s ih => rw [escape_cons, markup_append, markup_entity, ih, List.nil_append]

end Text

namespace Node

mutual

/-- Whether a node writes no value as it is. -/
def isEscaped : Node → Bool
  | .text _ _ | .inclusion _ _ _ => true
  | .value _ raw _ => !raw
  | .block _ _ children _ _ => areEscaped children

/-- Whether none of the nodes writes a value as it is. -/
def areEscaped : List Node → Bool
  | [] => true
  | n :: ns => n.isEscaped && areEscaped ns

end

theorem areEscaped_append (ns ms : List Node) :
    areEscaped (ns ++ ms) = (areEscaped ns && areEscaped ms) := by
  induction ns with
  | nil => rfl
  | cons n ns ih => rw [List.cons_append, areEscaped, areEscaped, ih, Bool.and_assoc]

theorem areEscaped_indentFrom (w : Text) (fresh : Bool) (ns : List Node) :
    areEscaped (indentFrom w fresh ns).1 = areEscaped ns := by
  induction ns using sequence_induction generalizing fresh with
  | nil => rfl
  | text content pos ns ih =>
    rw [indentFrom, areEscaped_append, ih, indentNode]
    rfl
  | value key raw pos ns ih =>
    rw [indentFrom, areEscaped_append, ih, indentNode]
    cases fresh <;> simp [areEscaped, isEscaped]
  | block key inverted children source pos ns ih ih' =>
    rw [indentFrom, areEscaped_append, ih', indentNode]
    simp [areEscaped, isEscaped, ih]
  | inclusion key indent pos ns ih =>
    rw [indentFrom, areEscaped_append, ih]
    cases indent with
    | none => cases fresh <;> simp [indentNode, areEscaped, isEscaped]
    | some inner => simp [indentNode, areEscaped, isEscaped]

theorem areEscaped_place (indent : Option Text) (ns : List Node) :
    areEscaped (Render.place indent ns) = areEscaped ns := by
  unfold Render.place
  split
  · exact areEscaped_indentFrom _ true ns
  · rfl

end Node

/-- None of the templates writes a value as it is. -/
def Table.AreEscaped (partials : Table Template) : Prop :=
  ∀ (name : Text) (template : Template), partials[name]? = some template →
    Node.areEscaped template.nodes

namespace Render

variable {ε : Type} {limit : Nat}

/-! ### Two writings with the same markup -/

/-- Both exceed the limit at the same name, or both come to an end and have the same markup. -/
def Twins (limit : Nat) (left right : RenderM Unit ε Text) : Prop :=
  (∃ name, left = throw (.recursionLimit name limit) ∧ right = throw (.recursionLimit name limit)) ∨
    ∃ s t, left = pure s ∧ right = pure t ∧ Text.markup s = Text.markup t

theorem Twins.pure {s t : Text} (h : Text.markup s = Text.markup t) :
    Twins limit (pure s : RenderM Unit ε Text) (pure t) := .inr ⟨s, t, rfl, rfl, h⟩

theorem Twins.append {left right left' right' : RenderM Unit ε Text} (h : Twins limit left right)
    (h' : Twins limit left' right') :
    Twins limit (left >>= fun first => (first ++ ·) <$> left')
      (right >>= fun first => (first ++ ·) <$> right') := by
  rcases h with ⟨name, rfl, rfl⟩ | ⟨s, t, rfl, rfl, hst⟩
  · exact .inl ⟨name, rfl, rfl⟩
  · rw [pure_bind, pure_bind]
    rcases h' with ⟨name, rfl, rfl⟩ | ⟨s', t', rfl, rfl, hst'⟩
    · exact .inl ⟨name, rfl, rfl⟩
    · rw [map_pure, map_pure]
      apply Twins.pure
      rw [Text.markup_append, Text.markup_append, hst, hst']

theorem Twins.flatten {f g : ScopeId → RenderM Unit ε Text} {scopes : List ScopeId}
    (h : ∀ id ∈ scopes, Twins limit (f id) (g id)) :
    Twins limit (List.flatten <$> scopes.mapM f) (List.flatten <$> scopes.mapM g) := by
  induction scopes with
  | nil => exact .pure rfl
  | cons id scopes ih =>
    rw [flatten_mapM_cons, flatten_mapM_cons]
    apply (h id List.mem_cons_self).append
    exact ih fun id hid => h id (List.mem_cons_of_mem _ hid)

theorem markup_valueText (value : Option Text) : Text.markup (valueText false value) = [] := by
  cases value with
  | none => rfl
  | some value => exact Text.markup_escape value

/-! ### Nodes -/

variable {c c' : Context} {partials : Table Template} {expand expand' : Expand Unit ε}

/-- The two are written with the same markup in frames of the same shape. -/
def WrittenAsTwins (c : Context) (limit : Nat) (write write' : Frame → RenderM Unit ε Text) :
    Prop :=
  ∀ frame frame', Frame.SameShape c frame frame' → Twins limit (write frame) (write' frame')

theorem twins_block (hc : c.SameShape c') (hclosed : c.Closed) (hfree : c.LambdaFree)
    (hfree' : c'.LambdaFree) {children : List Node} {loader : Loader Unit ε}
    (h : WrittenAsTwins c limit (renderNodes c loader expand children)
      (renderNodes c' loader expand' children))
    (key : Text) (inverted : Bool) (source : Text) (pos : Position) :
    WrittenAsTwins c limit
      (renderNode c loader expand (.block key inverted children source pos))
      (renderNode c' loader expand' (.block key inverted children source pos)) := by
  intro frame frame' hframe
  have hskip : Twins limit (pure [] : RenderM Unit ε Text) (pure []) := .pure rfl
  obtain ⟨nearest, nearest', hresolve, hresolve', hsection⟩ :=
    hc.resolve hclosed hfree hfree' hframe.base_lt key
  rw [renderNode, renderNode, ← hframe.base_eq, hresolve, hresolve', found_ok_bind, found_ok_bind]
  cases hsection with
  | none =>
    obtain ⟨value, value', hlookup, hlookup', hvalue⟩ := hframe.lookup hc hclosed key
    have htruthy : value.any (!·.isEmpty) = value'.any (!·.isEmpty) := by
      cases hvalue with
      | none => rfl
      | some hvalue => exact congrArg Bool.not hvalue
    dsimp only
    rw [hlookup, hlookup', found_ok_bind, found_ok_bind, htruthy]
    split
    · exact h frame frame' hframe
    · exact hskip
  | some hsection =>
    cases hsection with
    | fields hmap =>
      cases inverted with
      | false =>
        dsimp only
        rw [hmap.isEmpty_eq]
        split
        · exact hskip
        · exact h _ _ (hframe.push hmap)
      | true =>
        dsimp only
        rw [hmap.isEmpty_eq]
        split
        · exact h frame frame' hframe
        · exact hskip
    | items hscopes =>
      cases inverted with
      | false =>
        dsimp only
        rw [bind_pure_comp, bind_pure_comp]
        apply Twins.flatten
        intro id hid
        exact h _ _ ⟨rfl, hscopes id hid, .nil⟩
      | true =>
        dsimp only
        split
        · exact h frame frame' hframe
        · exact hskip

/-- One step of the limit: all nodes are written with the same markup if all expansions are. -/
theorem twins_of_expand (hc : c.SameShape c') (hclosed : c.Closed) (hfree : c.LambdaFree)
    (hfree' : c'.LambdaFree)
    (hpartials : Table.AreEscaped partials)
    (hexpand : ∀ name ns, Node.areEscaped ns →
      WrittenAsTwins c limit (expand name ns) (expand' name ns))
    {ns : List Node} (hns : Node.areEscaped ns) :
    WrittenAsTwins c limit (renderNodes c (.ofTable partials) expand ns)
      (renderNodes c' (.ofTable partials) expand' ns) := by
  induction ns using Node.sequence_induction with
  | nil =>
    intro frame frame' hframe
    rw [renderNodes_nil, renderNodes_nil]
    exact .pure rfl
  | text content pos ns ih =>
    intro frame frame' hframe
    rw [renderNodes_cons, renderNodes_cons, renderNode, renderNode]
    exact (Twins.pure rfl).append (ih hns frame frame' hframe)
  | value key raw pos ns ih =>
    intro frame frame' hframe
    obtain ⟨hraw, hns⟩ := Bool.and_eq_true_iff.1 hns
    obtain ⟨value, value', hlookup, hlookup', -⟩ := hframe.lookup hc hclosed key
    have hraw : raw = false := by simpa [Node.isEscaped] using hraw
    rw [renderNodes_cons, renderNodes_cons, renderNode, renderNode, hlookup, hlookup',
      found_ok_bind, found_ok_bind, hraw]
    have hvalues := (markup_valueText value).trans (markup_valueText value').symm
    exact (Twins.pure hvalues).append (ih hns frame frame' hframe)
  | block key inverted children source pos ns ih ih' =>
    intro frame frame' hframe
    obtain ⟨hchildren, hns⟩ := Bool.and_eq_true_iff.1 hns
    rw [renderNodes_cons, renderNodes_cons]
    have hblock := twins_block hc hclosed hfree hfree' (ih hchildren) key inverted source pos
    exact (hblock frame frame' hframe).append (ih' hns frame frame' hframe)
  | inclusion key indent pos ns ih =>
    intro frame frame' hframe
    have hload : load (.ofTable partials) key =
        (pure (partials[key]?.map (·.nodes)) : RenderM Unit ε _) := rfl
    rw [renderNodes_cons, renderNodes_cons, renderNode, renderNode, hload, pure_bind]
    refine Twins.append ?_ (ih hns frame frame' hframe)
    cases htemplate : partials[key]? with
    | none => exact .pure rfl
    | some template =>
      apply hexpand
      · rw [Node.areEscaped_place]
        exact hpartials key template htemplate
      · exact hframe

theorem twins_renderWithin (hc : c.SameShape c') (hclosed : c.Closed) (hfree : c.LambdaFree)
    (hfree' : c'.LambdaFree)
    (hpartials : Table.AreEscaped partials)
    (budget : Nat) {ns : List Node} (hns : Node.areEscaped ns) :
    WrittenAsTwins (ε := ε) c limit (renderWithin c (.ofTable partials) limit budget ns)
      (renderWithin c' (.ofTable partials) limit budget ns) := by
  induction budget generalizing ns with
  | zero =>
    rw [renderWithin, renderWithin]
    apply twins_of_expand hc hclosed hfree hfree' hpartials _ hns
    intro name ns _ frame frame' _
    exact .inl ⟨name, rfl, rfl⟩
  | succ budget ih =>
    rw [renderWithin, renderWithin]
    exact twins_of_expand hc hclosed hfree hfree' hpartials (fun _ _ hns => ih hns) hns

end Render

/-- **Data write no markup.** Nodes and partials without raw values are written against two contexts
of the same shape so that either both exceed the limit at the same name, or both come to an end and
their markup is the same, whatever the texts in the contexts are. (What has the shape of a reachable
context without functions need not be assumed to be one.) -/
theorem Renderer.markup_eq_of_sameShape (ε : Type) {c c' : Context} (hreachable : c.Reachable)
    (hfree : c.LambdaFree) (hc : c.SameShape c') {ns : List Node} (hns : Node.areEscaped ns)
    {partials : Table Template} (hpartials : Table.AreEscaped partials) {id : ScopeId}
    (hid : id < c.scopes.size) (limit : Nat) :
    let r : Renderer Unit ε := { loader := .ofTable partials, state := (), maxDepth := limit }
    (∃ name, (r.renderScope ns c id).1 = .error (.recursionLimit name limit) ∧
      (r.renderScope ns c' id).1 = .error (.recursionLimit name limit)) ∨
    ∃ s t, (r.renderScope ns c id).1 = .ok s ∧ (r.renderScope ns c' id).1 = .ok t ∧
      s.markup = t.markup := by
  intro r
  let loader : Loader Unit ε := .ofTable partials
  have htwins : Render.Twins limit (Render.renderWithin c loader limit limit ns { base := id })
      (Render.renderWithin c' loader limit limit ns { base := id }) :=
    Render.twins_renderWithin hc hreachable.closed hfree (hc.lambdaFree hfree) hpartials limit hns
      { base := id } { base := id } ⟨rfl, hid, .nil⟩
  rcases htwins with ⟨name, hleft, hright⟩ | ⟨s, t, hleft, hright, hmarkup⟩
  · refine .inl ⟨name, ?_, ?_⟩
    · rw [renderScope, hleft]
      rfl
    · rw [renderScope, hright]
      rfl
  · refine .inr ⟨s, t, ?_, ?_, hmarkup⟩
    · rw [renderScope, hleft]
      rfl
    · rw [renderScope, hright]
      rfl

/-- A scope with a text and one item, which has the same text under another name. -/
def Context.signed (name : Text) : Context :=
  ⟨#[{ texts := (∅ : Table Text).insert ['n'] name
       sections := (∅ : Table Section).insert ['l'] (.items [1]) },
    { texts := (∅ : Table Text).insert ['.'] name, parent := some 0 }]⟩

theorem Context.reachable_signed (name : Text) : (Context.signed name).Reachable := by
  have hname : Reachable ⟨#[{ texts := (∅ : Table Text).insert ['n'] name }]⟩ :=
    .set .empty Nat.zero_lt_one (rfl : empty.set 0 ['n'] (.text name) = _)
  have hitem : Reachable ⟨#[{ texts := (∅ : Table Text).insert ['n'] name
                              sections := (∅ : Table Section).insert ['l'] (.items [1]) },
      { parent := some 0 }]⟩ :=
    .addItem hname Nat.zero_lt_one (rfl : addItem _ 0 ['l'] = _)
  exact .set hitem (Nat.lt_succ_self 1) (rfl : Context.set _ 1 ['.'] (.text name) = _)

theorem Context.lambdaFree_signed (name : Text) : (Context.signed name).LambdaFree := by
  intro s hs key f
  rw [signed, List.mem_toArray] at hs
  rcases List.mem_pair.1 hs with rfl | rfl
  · rw [Table.getElem?_insert]
    split <;> simp
  · simp

theorem Context.sameShape_signed {s t : Text} (h : s.SameTruth t) :
    (Context.signed s).SameShape (.signed t) := by
  have htexts : ∀ key : Text, Table.SameShape ((∅ : Table Text).insert key s)
      ((∅ : Table Text).insert key t) := by
    intro key key'
    rw [Table.getElem?_insert, Table.getElem?_insert]
    split
    · exact .some h
    · simp
  have hsections : ∀ sections : Table Section, sections = (∅ : Table Section) ∨
      sections = (∅ : Table Section).insert ['l'] (.items [1]) → ∀ key : Text,
      Option.Rel Section.SameShape sections[key]? sections[key]? := by
    rintro _ (rfl | rfl) key
    · simp
    · rw [Table.getElem?_insert]
      split
      · exact .some .items
      · simp
  intro id
  match id with
  | 0 => exact .some ⟨htexts _, hsections _ (.inr rfl), rfl⟩
  | 1 => exact .some ⟨htexts _, hsections _ (.inl rfl), rfl⟩
  | id + 2 => exact .none

theorem Renderer.markup_of_signed_page :
    let r : Renderer Unit Empty :=
      { loader := .ofTable (.ofList [(['p'], Template.mk [.text "<i>".toList .nowhere,
          .value ['n'] false .nowhere] .start)]), state := (), maxDepth := 1 }
    let ns : List Node := [.block ['l'] false [.value ['.'] false .nowhere,
      .inclusion ['p'] (some [' ']) .nowhere] [] .nowhere]
    (∃ s t, (r.renderScope ns (.signed "<b>".toList) 0).1 = .ok s ∧
      (r.renderScope ns (.signed "x".toList) 0).1 = .ok t ∧ s.markup = t.markup) ∧
    (r.renderScope ns (.signed "<b>".toList) 0).1.toOption =
      some "&lt;b&gt; <i>&lt;b&gt;".toList := by
  intro r ns
  have hrender : (r.renderScope ns (.signed "<b>".toList) 0).1.toOption =
      some "&lt;b&gt; <i>&lt;b&gt;".toList := by
    decide +kernel
  refine ⟨?_, hrender⟩
  have hpartials : Table.AreEscaped (.ofList [(['p'], Template.mk [.text "<i>".toList .nowhere,
      .value ['n'] false .nowhere] .start)]) := by
    intro name template htemplate
    rw [Std.ExtTreeMap.ofList_singleton, Table.getElem?_insert] at htemplate
    split at htemplate
    · obtain rfl := Option.some.inj htemplate
      decide
    · simp at htemplate
  have htruth : Text.SameTruth "<b>".toList "x".toList := rfl
  rcases Renderer.markup_eq_of_sameShape Empty (Context.reachable_signed "<b>".toList)
    (Context.lambdaFree_signed _) (Context.sameShape_signed htruth)
    (by decide : Node.areEscaped ns) hpartials (Nat.zero_lt_succ 1) 1 with ⟨name, hleft, -⟩ | h
  · rw [hleft] at hrender
    cases hrender
  · exact h

end Mustache

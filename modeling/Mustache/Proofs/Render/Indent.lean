import Mustache.Proofs.Context.LambdaFree
import Mustache.Proofs.Node.Padded
import Mustache.Proofs.Render.Nodes
import Mustache.Proofs.Template.Indent

/-!
# Indented nodes against an indented template

Nodes are indented as if each section were written just once. The nodes of the indented template
need no such guess. Both are written alike, whatever the data, when the template is steady.
-/

namespace Mustache

open Node (indentText indentNode indentFrom indentLines)

namespace Node

variable {w : Text}

theorem indentText_snd_debt (w : Text) (d : Debt) (s : Text) :
    (indentText w (d != .paid) s).2 = (d.after s != .paid) := by
  rw [Text.indentText_snd]
  cases s with
  | nil => rfl
  | cons c s =>
    rw [Debt.after, List.isEmpty_cons, if_neg Bool.false_ne_true, Text.freshAfter_cons,
      Text.freshAfter_cons]
    cases Text.freshAfter (c == '\n') s <;> rfl

/-- What is written of a text together with what is still owed behind it. -/
theorem indentText_append_debt (w : Text) (d : Debt) (s : Text) :
    (indentText w (d != .paid) s).1 ++ (d.after s).text w =
      d.text w ++ (indentText w (d == .fresh) s).1 := by
  cases s with
  | nil => simp [indentText, Debt.after]
  | cons c s =>
    have hafter : (d.after (c :: s)).text w = [] := by
      rw [Debt.after, List.isEmpty_cons, if_neg Bool.false_ne_true]
      cases Text.freshAfter false (c :: s) <;> rfl
    rw [hafter, List.append_nil]
    cases d <;> rfl

/-- The flag that is handed on says whether the nodes have the indent of their line. -/
theorem Indented.indentFrom_snd {d e : Debt} {ns ns' : List Node} {us : List Text}
    (h : Indented w d ns ns' us e) : (indentFrom w (d != .paid) ns).2 = (e != .paid) := by
  induction h with
  | nil => rfl
  | append _ _ ih ih' => rw [indentFrom_append, ih, ih']
  | text => rw [indentFrom_singleton, indentNode, indentText_snd_debt]
  | hang hafter => rw [indentFrom_singleton, indentNode, indentText_snd_debt, hafter]; rfl
  | lead => rfl
  | value | inclusion => rfl
  | line => rfl
  | block _ ih => rw [indentFrom_singleton, indentNode, ih]

end Node

namespace Render

variable {σ ε : Type} {c : Context} {loader : Loader σ ε} {expand : Expand σ ε} {w : Text}
  {d d' e : Debt}

/-! ### Two writings, the second one ahead -/

/-- The second writing has begun with what the first one owed in front of both, and the first one
has caught up but for what it owes behind them. -/
def Trails (front back : Text) (left right : RenderM σ ε Text) : Prop :=
  (· ++ back) <$> left = (front ++ ·) <$> right

variable {front mid back : Text}

theorem Trails.refl (m : RenderM σ ε Text) : Trails [] [] m m := by
  simp [Trails]

theorem Trails.pure {s t : Text} (h : s ++ back = front ++ t) :
    Trails front back (pure s : RenderM σ ε Text) (pure t) := by
  simp [Trails, h]

theorem Trails.bind {α : Type} {f g : α → RenderM σ ε Text} (m : RenderM σ ε α)
    (h : ∀ a, Trails front back (f a) (g a)) : Trails front back (m >>= f) (m >>= g) := by
  rw [Trails, map_bind, map_bind]
  exact congrArg (m >>= ·) (funext h)

/-- One writing after the other. -/
theorem Trails.append {left right left' right' : RenderM σ ε Text} (h : Trails front mid left right)
    (h' : Trails mid back left' right') :
    Trails front back (left >>= fun first => (first ++ ·) <$> left')
      (right >>= fun first => (first ++ ·) <$> right') := by
  calc (· ++ back) <$> (left >>= fun first => (first ++ ·) <$> left')
      = left >>= fun first => (first ++ ·) <$> ((· ++ back) <$> left') := by
        simp only [map_bind, Functor.map_map, List.append_assoc]
    _ = ((· ++ mid) <$> left) >>= fun first => (first ++ ·) <$> right' := by
        rw [h']
        simp only [bind_map_left, Functor.map_map, List.append_assoc]
    _ = (front ++ ·) <$> (right >>= fun first => (first ++ ·) <$> right') := by
        rw [h]
        simp only [map_bind, bind_map_left, Functor.map_map, List.append_assoc]

/-- One writing for each item. -/
theorem Trails.flatten {f g : ScopeId → RenderM σ ε Text}
    (h : ∀ id, Trails front front (f id) (g id)) (scopes : List ScopeId) :
    Trails front front (List.flatten <$> scopes.mapM f) (List.flatten <$> scopes.mapM g) := by
  induction scopes with
  | nil => exact .pure (by simp)
  | cons id scopes ih =>
    rw [flatten_mapM_cons, flatten_mapM_cons]
    exact (h id).append ih

/-! ### Steady templates -/

/-- A section, when its children are written alike in every frame. -/
theorem trails_block (hc : c.LambdaFree) {children children' : List Node}
    (h : ∀ frame, Trails front front (renderNodes c loader expand children frame)
      (renderNodes c loader expand children' frame))
    (key : Text) (inverted : Bool) (source source' : Text) (pos pos' : Position) (frame : Frame) :
    Trails front front (renderNode c loader expand (.block key inverted children source pos) frame)
      (renderNode c loader expand (.block key inverted children' source' pos') frame) := by
  have hskip : Trails front front (pure [] : RenderM σ ε Text) (pure []) := .pure (by simp)
  rw [renderNode, renderNode]
  cases hresolve : c.resolve frame.base key with
  | error missing =>
    rw [found_error_bind, found_error_bind]
    rfl
  | ok section? =>
    rw [found_ok_bind, found_ok_bind]
    match section?, inverted with
    | some (.function f), _ => exact absurd hresolve (hc.resolve_ne _ _ f)
    | some (.fields map), false =>
      dsimp only
      split
      · exact hskip
      · exact h (frame.push map)
    | some (.fields map), true =>
      dsimp only
      split
      · exact h frame
      · exact hskip
    | some (.items scopes), false =>
      dsimp only
      rw [bind_pure_comp, bind_pure_comp]
      exact .flatten (fun id => h { base := id }) scopes
    | some (.items scopes), true =>
      dsimp only
      split
      · exact h frame
      · exact hskip
    | none, inverted =>
      refine .bind _ fun value => ?_
      dsimp only
      split
      · exact h frame
      · exact hskip

/-- In a steady template the nodes catch up with the indented template at the end of each
section. -/
theorem trails_of_indented (hc : c.LambdaFree) {ns ns' : List Node} {us : List Text}
    (h : Node.Indented w d ns ns' us e) (hus : us = []) (frame : Frame) :
    Trails (d.text w) (e.text w) (renderNodes c loader expand (indentFrom w (d != .paid) ns).1 frame)
      (renderNodes c loader expand ns' frame) := by
  -- A value and a reference without an indent of its own get what is owed in front of them.
  have hleaf : ∀ {d : Debt} {n n' : Node} {frame : Frame}, d ≠ .fresh →
      renderNode c loader expand n frame = renderNode c loader expand n' frame →
      Trails (d.text w) []
        (renderNodes c loader expand (if d != .paid then [.text w .nowhere, n] else [n]) frame)
        (renderNodes c loader expand [n'] frame) := by
    intro d n n' frame hd heq
    cases d with
    | fresh => exact absurd rfl hd
    | owed => simp [Trails, Debt.text, renderNodes_cons, renderNodes_nil, renderNode, heq]
    | paid => simp [Trails, Debt.text, renderNodes_cons, renderNodes_nil, heq]
  induction h generalizing frame with
  | nil => exact .pure (by simp)
  | append h h' ih ih' =>
    obtain ⟨rfl, rfl⟩ := List.append_eq_nil_iff.1 hus
    rw [Node.indentFrom_append, h.indentFrom_snd, renderNodes_append, renderNodes_append]
    exact (ih rfl frame).append (ih' rfl frame)
  | text =>
    rw [Node.indentFrom_singleton, indentNode, renderNodes_singleton, renderNodes_singleton,
      renderNode, renderNode]
    exact .pure (Node.indentText_append_debt w _ _)
  | @hang d s pos pos' hafter =>
    have hdebt := Node.indentText_append_debt w d s
    rw [hafter, Debt.text, List.append_nil] at hdebt
    rw [Node.indentFrom_singleton, indentNode, renderNodes_singleton, renderNodes_singleton,
      renderNode, renderNode, hdebt]
    exact .pure (List.append_assoc _ _ _)
  | lead =>
    rw [renderNodes_singleton, renderNode]
    exact .pure (by simp [Debt.text])
  | value hd =>
    rw [Node.indentFrom_singleton, indentNode]
    exact hleaf hd (by rw [renderNode, renderNode])
  | inclusion hd =>
    rw [Node.indentFrom_singleton, indentNode]
    exact hleaf hd (by rw [renderNode, renderNode])
  | line =>
    rw [Node.indentFrom_singleton, indentNode, renderNodes_singleton, renderNodes_singleton,
      renderNode, renderNode]
    exact .refl _
  | @block d e key inverted children children' source source' pos pos' us h ih =>
    obtain ⟨rfl, hends⟩ := List.append_eq_nil_iff.1 hus
    have hsame : d.text w = e.text w := by
      have hends : (d == .owed) = (e == .owed) := by simpa using hends
      cases d <;> cases e <;> first | rfl | cases hends
    rw [← hsame] at ih ⊢
    rw [Node.indentFrom_singleton, indentNode, renderNodes_singleton, renderNodes_singleton]
    exact trails_block hc (ih rfl) _ _ _ _ _ _ frame

end Render

end Mustache

import Mustache.Proofs.Context.LambdaFree
import Mustache.Proofs.Node.Remade
import Mustache.Proofs.Render.Nodes

/-!
# Writing nodes that were made again

What nodes are written as does not depend on their places. Nor does it depend on their source texts,
if no name is bound to a function.
-/

namespace Mustache.Render

open Node (remade remadeOf)

variable {σ ε : Type} {c : Context} {loader : Loader σ ε} {expand : Expand σ ε}
  {indentAs : Option Text → Option Text} {sourceAs : Text → List Node → Text}

/-- A section reads its source text only when its name is bound to a function. -/
theorem renderNode_block_congr {key source source' : Text} {inverted : Bool}
    {children children' : List Node} {pos pos' : Position} {frame : Frame}
    (hchildren : ∀ frame, renderNodes c loader expand children frame =
      renderNodes c loader expand children' frame)
    (hsource : source = source' ∨ ∀ f, c.resolve frame.base key ≠ .ok (some (.function f))) :
    renderNode c loader expand (.block key inverted children source pos) frame =
      renderNode c loader expand (.block key inverted children' source' pos') frame := by
  have hchildren := funext hchildren
  rw [renderNode, renderNode, hchildren]
  cases hresolve : c.resolve frame.base key with
  | error missing => rfl
  | ok section? =>
    rw [found_ok_bind, found_ok_bind]
    cases section? with
    | none => rfl
    | some sec =>
      cases sec with
      | fields map => cases inverted <;> rfl
      | items scopes => cases inverted <;> rfl
      | function f =>
        obtain rfl := hsource.resolve_right fun h => h f hresolve
        rfl

theorem renderNodes_remadeOf (hindent : ∀ indent ns, place (indentAs indent) ns = place indent ns)
    (hsource : c.LambdaFree ∨ ∀ source children, sourceAs source children = source)
    (ns : List Node) (frame : Frame) :
    renderNodes c loader expand (remadeOf indentAs sourceAs ns) frame =
      renderNodes c loader expand ns frame := by
  induction ns using Node.sequence_induction generalizing frame with
  | nil => rfl
  | text content pos ns ih | value key raw pos ns ih =>
    rw [remadeOf, renderNodes_cons, renderNodes_cons, ih, remade, renderNode, renderNode]
  | block key inverted children source pos ns ih ih' =>
    rw [remadeOf, renderNodes_cons, renderNodes_cons, ih', remade]
    rw [renderNode_block_congr ih (hsource.symm.imp (· source children) fun h =>
      h.resolve_ne frame.base key)]
  | inclusion key indent pos ns ih =>
    rw [remadeOf, renderNodes_cons, renderNodes_cons, ih, remade, renderNode, renderNode]
    simp only [hindent]

/-- Nodes that are made to the same nodes are written alike. -/
theorem renderNodes_eq_of_remadeOf {sourceAs' : Text → List Node → Text} {ns ns' : List Node}
    (hindent : ∀ indent ns, place (indentAs indent) ns = place indent ns)
    (hsource : c.LambdaFree ∨ ∀ source children, sourceAs source children = source)
    (hsource' : c.LambdaFree ∨ ∀ source children, sourceAs' source children = source)
    (h : remadeOf indentAs sourceAs ns = remadeOf indentAs sourceAs' ns') (frame : Frame) :
    renderNodes c loader expand ns frame = renderNodes c loader expand ns' frame := by
  rw [← renderNodes_remadeOf hindent hsource ns, h, renderNodes_remadeOf hindent hsource']

end Mustache.Render

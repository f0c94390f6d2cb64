import Mustache.Proofs.Render.Nodes

/-!
# One turn of the rendering

Nodes are written by writing other sequences of nodes: the bodies of sections, and what names are
expanded to. `Render.turn` leaves open how these are written, and nodes are written by a turn that
writes them in the same way again (`Render.renderNodes_eq_turn`).
-/

namespace Mustache

namespace Node

mutual

/-- The number of nodes that a node is made of: itself, and those inside it. -/
def count : Node → Nat
  | .block _ _ children _ _ => countOf children + 1
  | .text _ _ | .value _ _ _ | .inclusion _ _ _ => 1

/-- The number of nodes in a sequence, with those inside them. -/
def countOf : List Node → Nat
  | [] => 0
  | n :: ns => n.count + countOf ns

end

end Node

namespace Render

variable {σ ε : Type} {c : Context} {loader : Loader σ ε} {expand : Expand σ ε}

/-- Writes a section whose body is written by `body`. -/
def renderSection (c : Context) (body : Frame → RenderM σ ε Text) (expand : Expand σ ε)
    (key : Text) (inverted : Bool) (source : Text) (frame : Frame) : RenderM σ ε Text := do
  match ← found (c.resolve frame.base key), inverted with
  | some (.fields map), false => if map.isEmpty then pure [] else body (frame.push map)
  | some (.fields map), true => if map.isEmpty then body frame else pure []
  | some (.function f), false =>
    match Template.parse (f source) with
    | .ok fragment => expand key fragment.nodes frame
    | .error e => throw (.parse e)
  | some (.items scopes), false => return (← scopes.mapM fun id => body { base := id }).flatten
  | some (.items scopes), true => if scopes.isEmpty then body frame else pure []
  | some (.function _), true | none, _ =>
    let truthy := (← found (frame.lookup c key)).any (!·.isEmpty)
    if truthy != inverted then body frame else pure []

theorem renderNode_eq_renderSection (key : Text) (inverted : Bool) (children : List Node)
    (source : Text) (pos : Position) (frame : Frame) :
    renderNode c loader expand (.block key inverted children source pos) frame =
      renderSection c (renderNodes c loader expand children) expand key inverted source frame := by
  rw [renderNode]
  rfl

/-- Writes one node. The bodies of sections are written by `self`. -/
def turnNode (c : Context) (loader : Loader σ ε) (self : List Node → Frame → RenderM σ ε Text)
    (expand : Expand σ ε) : Node → Frame → RenderM σ ε Text
  | .block key inverted children source _, frame =>
    renderSection c (self children) expand key inverted source frame
  | n@(.text _ _), frame | n@(.value _ _ _), frame | n@(.inclusion _ _ _), frame =>
    renderNode c loader expand n frame

/-- Writes a sequence of nodes, one after the other. The bodies of sections are written by
`self`. -/
def turn (c : Context) (loader : Loader σ ε) (self : List Node → Frame → RenderM σ ε Text)
    (expand : Expand σ ε) : List Node → Frame → RenderM σ ε Text
  | [], _ => pure []
  | n :: ns, frame => do
    let first ← turnNode c loader self expand n frame
    let rest ← turn c loader self expand ns frame
    return first ++ rest

theorem turn_cons (self : List Node → Frame → RenderM σ ε Text) (n : Node) (ns : List Node)
    (frame : Frame) :
    turn c loader self expand (n :: ns) frame =
      turnNode c loader self expand n frame >>= fun first =>
        (first ++ ·) <$> turn c loader self expand ns frame := by
  rw [turn]
  simp only [bind_pure_comp]

/-- Nodes are written by a turn that writes the bodies of sections in the same way. -/
theorem renderNodes_eq_turn (ns : List Node) (frame : Frame) :
    renderNodes c loader expand ns frame =
      turn c loader (renderNodes c loader expand) expand ns frame := by
  induction ns with
  | nil => rw [renderNodes_nil, turn]
  | cons n ns ih =>
    rw [renderNodes_cons, turn_cons, ih]
    cases n with
    | block => rw [turnNode, renderNode_eq_renderSection]
    | text | value | inclusion => rfl

end Render

end Mustache

import Mustache.Node.Source

/-!
# Nodes made again

Nodes of two templates can be the same but for their places, their source texts or their indents.
`Node.remadeOf` makes nodes again without places, with other source texts and other indents; two
sequences are the same in this sense when they are made to the same nodes.
-/

namespace Mustache.Node

/-- The node is one of the sequence, or of the children of one of its sections, at any depth. -/
inductive Inside (n : Node) : List Node → Prop
  | head {ns} : Inside n (n :: ns)
  | tail {m ns} : Inside n ns → Inside n (m :: ns)
  | child {key inverted children source pos ns} : Inside n children →
    Inside n (.block key inverted children source pos :: ns)

mutual

/-- How deep sections are nested in a node. -/
def depth : Node → Nat
  | .block _ _ children _ _ => depthOf children + 1
  | .text _ _ | .value _ _ _ | .inclusion _ _ _ => 0

/-- How deep sections are nested in a sequence of nodes. -/
def depthOf : List Node → Nat
  | [] => 0
  | n :: ns => max n.depth (depthOf ns)

end

theorem depthOf_le_of_inside {key source : Text} {inverted : Bool} {children ns : List Node}
    {pos : Position} (h : Inside (.block key inverted children source pos) ns) :
    depthOf children ≤ depthOf ns := by
  induction h with
  | head =>
    rw [depthOf, depth]
    omega
  | tail _ ih =>
    rw [depthOf]
    omega
  | child _ ih =>
    rw [depthOf, depth]
    omega

section
variable (indentAs : Option Text → Option Text) (sourceAs : Text → List Node → Text)

mutual

/-- The node without its place, with the indents that `indentAs` makes of its own, and with the
source texts that `sourceAs` makes of its own and of its children. -/
def remade : Node → Node
  | .text content _ => .text content .nowhere
  | .value key raw _ => .value key raw .nowhere
  | .block key inverted children source _ =>
    .block key inverted (remadeOf children) (sourceAs source children) .nowhere
  | .inclusion key indent _ => .inclusion key (indentAs indent) .nowhere

/-- The nodes of a sequence, made again. -/
def remadeOf : List Node → List Node
  | [] => []
  | n :: ns => n.remade :: remadeOf ns

end

theorem depthOf_remadeOf (ns : List Node) :
    depthOf (remadeOf indentAs sourceAs ns) = depthOf ns := by
  induction ns using sequence_induction with
  | nil => rfl
  | text content pos ns ih | value key raw pos ns ih | inclusion key indent pos ns ih =>
    rw [remadeOf, depthOf, depthOf, ih]
    rfl
  | block key inverted children source pos ns ih ih' =>
    rw [remadeOf, depthOf, depthOf, ih', remade, depth, depth, ih]

end

/-- The nodes without their places. -/
def unplacedOf : List Node → List Node := remadeOf id fun source _ => source

/-- The nodes as they are built by hand: they have no places, and the source text of a section is
written from its children. -/
def rebuiltOf : List Node → List Node := remadeOf id fun _ children => sourceOf children

end Mustache.Node

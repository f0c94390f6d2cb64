import Mustache.Position

/-!
# Nodes

A template is a sequence of nodes: text, values to write in, blocks that depend on data, and
references to partials.
-/

namespace Mustache

/-- One node of a template. -/
inductive Node where
  /-- Text that is written as it is. -/
  | text (content : Text) (pos : Position)
  /-- The value of `key`, escaped unless `raw`. -/
  | value (key : Text) (raw : Bool) (pos : Position)
  /-- A section. Its `children` are written as often as `key` says, or, when `inverted`, only when
  it says never. `source` is the text between its tags, which a function bound to `key` is given. -/
  | block (key : Text) (inverted : Bool) (children : List Node) (source : Text) (pos : Position)
  /-- A reference to the partial `key`. When it is alone on its line, `indent` holds the blanks in
  front of it. -/
  | inclusion (key : Text) (indent : Option Text) (pos : Position)

namespace Node

/-- To prove something of every sequence of nodes, prove it of the empty one and, for each kind of
node, of a sequence that starts with it; for a block, its children may be used too. -/
theorem sequence_induction {P : List Node → Prop} (nil : P [])
    (text : ∀ content pos ns, P ns → P (.text content pos :: ns))
    (value : ∀ key raw pos ns, P ns → P (.value key raw pos :: ns))
    (block : ∀ key inverted children source pos ns, P children → P ns →
      P (.block key inverted children source pos :: ns))
    (inclusion : ∀ key indent pos ns, P ns → P (.inclusion key indent pos :: ns)) :
    ∀ ns : List Node, P ns
  | [] => nil
  | .text content pos :: ns =>
    text content pos ns (sequence_induction nil text value block inclusion ns)
  | .value key raw pos :: ns =>
    value key raw pos ns (sequence_induction nil text value block inclusion ns)
  | .block key inverted children source pos :: ns =>
    block key inverted children source pos ns
      (sequence_induction nil text value block inclusion children)
      (sequence_induction nil text value block inclusion ns)
  | .inclusion key indent pos :: ns =>
    inclusion key indent pos ns (sequence_induction nil text value block inclusion ns)

/-- Where the node starts in its template. -/
def pos : Node → Position
  | .text _ pos | .value _ _ pos | .block _ _ _ _ pos | .inclusion _ _ pos => pos

end Node

end Mustache

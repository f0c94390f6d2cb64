import Mustache.Node

/-!
# Source text of nodes

Nodes written as the text of a template with the delimiters `{{` and `}}`. Comments, changes of
delimiters and blanks inside tags are not part of nodes and so do not come back.
-/

namespace Mustache.Node

/-- A tag with `sigil` in front of its name. -/
def tag (sigil key : Text) : Text := ['{', '{'] ++ sigil ++ key ++ ['}', '}']

mutual

/-- The text of a node. A reference to a partial that was alone on its line gets its blanks and a
line feed back. -/
def source : Node → Text
  | .text content _ => content
  | .value key true _ => ['{', '{', '{'] ++ key ++ ['}', '}', '}']
  | .value key false _ => tag [] key
  | .block key inverted children _ _ =>
    tag [if inverted then '^' else '#'] key ++ sourceOf children ++ tag ['/'] key
  | .inclusion key none _ => tag ['>'] key
  | .inclusion key (some indent) _ => indent ++ tag ['>'] key ++ ['\n']

/-- The text of a sequence of nodes. -/
def sourceOf : List Node → Text
  | [] => []
  | n :: ns => n.source ++ sourceOf ns

end

/-- A section that does not come from a template: its source text is written from its children. -/
def newBlock (key : Text) (inverted : Bool) (children : List Node) : Node :=
  .block key inverted children (sourceOf children) .nowhere

end Mustache.Node

import Mustache.Node

/-!
# Outlines

Nodes on one line, for a reader who wants to see how a template was understood: each node in square
brackets with a letter for its kind, a section with its children behind its name.
-/

namespace Mustache.Node

/-- A node's letter and name in brackets. -/
def bracketed (letter : Char) (content : Text) : Text :=
  ['[', letter, ' ', ':', ' '] ++ content ++ [']']

mutual

/-- The outline of a node: `T` text, `V` an escaped value, `E` a raw one, `S` a section, `I` an
inverted one, `P` a reference to a partial. -/
def outline : Node → Text
  | .text content _ => bracketed 'T' content
  | .value key true _ => bracketed 'E' key
  | .value key false _ => bracketed 'V' key
  | .block key inverted children _ _ =>
    bracketed (if inverted then 'I' else 'S') (key ++ [',', ' ', '['] ++ outlines children ++ [']'])
  | .inclusion key _ _ => bracketed 'P' key

/-- The outlines of a sequence of nodes, with a comma between two. -/
def outlines : List Node → Text
  | [] => []
  | [n] => n.outline
  | n :: ns => n.outline ++ [',', ' '] ++ outlines ns

end

/-- The outline of a sequence of nodes. -/
def outlineOf (ns : List Node) : Text := ['['] ++ outlines ns ++ [']']

end Mustache.Node

import Mustache.Node

/-!
# Indented nodes

A partial whose reference is alone on its line is written with the blanks in front of the reference
at the start of each of its lines. The lines are those of the template text: a line feed inside a
value starts no line.
-/

namespace Mustache.Node

/-- Writes `indent` in front of every line that starts in the text. `fresh` tells whether its first
character starts a line; the answer says the same of what follows the text. -/
def indentText (indent : Text) : Bool → Text → Text × Bool
  | fresh, [] => ([], fresh)
  | fresh, c :: s =>
    let rest := indentText indent (c == '\n') s
    (if fresh then indent ++ c :: rest.1 else c :: rest.1, rest.2)

mutual

/-- Indents one node. A value or a reference at the start of a line gets the blanks as a text in
front of it. A reference that is alone on its line adds the blanks to its own, and what follows it
starts a line. -/
def indentNode (indent : Text) (fresh : Bool) : Node → List Node × Bool
  | .text content pos =>
    let run := indentText indent fresh content
    ([.text run.1 pos], run.2)
  | .block key inverted children source pos =>
    let inner := indentFrom indent fresh children
    ([.block key inverted inner.1 source pos], inner.2)
  | .inclusion key (some inner) pos => ([.inclusion key (some (indent ++ inner)) pos], true)
  | .inclusion key none pos =>
    (if fresh then [.text indent .nowhere, .inclusion key none pos] else [.inclusion key none pos],
      false)
  | .value key raw pos =>
    (if fresh then [.text indent .nowhere, .value key raw pos] else [.value key raw pos], false)

/-- Indents a sequence of nodes, in the order of the template. -/
def indentFrom (indent : Text) (fresh : Bool) : List Node → List Node × Bool
  | [] => ([], fresh)
  | n :: ns =>
    let first := indentNode indent fresh n
    let rest := indentFrom indent first.2 ns
    (first.1 ++ rest.1, rest.2)

end

/-- Writes `indent` in front of every line of the nodes. -/
def indentLines (indent : Text) (ns : List Node) : List Node := (indentFrom indent true ns).1

end Mustache.Node

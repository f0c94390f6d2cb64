import Mustache.Proofs.Context.Stands
import Mustache.Render

/-!
# Rendering straight from JSON

`Direct.writeWithin` writes nodes from the members of a JSON object, without a context: what
encloses a node is a list of objects, the nearest first, and the fields that were entered since the
nearest of them.
-/

namespace Mustache.Direct

open Json (Members)

/-- What nodes are written from: the objects around them, the nearest first, and the fields of the
sections that were entered since, the last ones entered first. -/
structure Env where
  around : List Members
  pushed : List (Table Text) := []

/-- The environment inside a section with these fields. -/
def Env.push (env : Env) (map : Table Text) : Env := { env with pushed := map :: env.pushed }

/-! ### Names -/

/-- The text of a name: the one in the fields that were entered last, or else that of the nearest
scalar. -/
def plain? (env : Env) (key : Text) : Option Text :=
  (env.pushed.findSome? (·[key]?)).or
    (env.around.findSome? fun members => (members.lookup key).bind Json.scalarText?)

/-- The nearest object of scalars. -/
def nearestFields? (around : List Members) (key : Text) : Option (Table Text) :=
  around.findSome? fun members => (members.lookup key).bind Json.fields?

/-- The items of the nearest array or object that is not made of scalars alone, with the objects
around them. -/
def nearestItems? : List Members → Text → Option (List Members × List Members)
  | [], _ => none
  | members :: outer, key =>
    match (members.lookup key).bind Json.items? with
    | some items => some (items, members :: outer)
    | none => nearestItems? outer key

/-- Where a part of a name leads. -/
inductive Spot where
  | fields (map : Table Text)
  | object (members : Members)

/-- The spot to go on from: fields, or else a single item. -/
def Spot.of? : Option (Table Text) → Option (List Members) → Option Spot
  | some map, _ => some (.fields map)
  | none, some [only] => some (.object only)
  | none, _ => none

/-- Where the first part of a name leads. -/
def head? (around : List Members) (first : Text) : Option Spot :=
  Spot.of? (nearestFields? around first) ((nearestItems? around first).map Prod.fst)

/-- Follows the parts between the first and the last, each in the members of the one before. -/
def walk? : Spot → List Text → Option Spot
  | spot, [] => some spot
  | .fields _, _ :: _ => none
  | .object members, part :: parts =>
    let value := members.lookup part
    (Spot.of? (value.bind Json.fields?) (value.bind Json.items?)).bind (walk? · parts)

/-- The text of the last part of a name. -/
def Spot.text? : Spot → Text → Option Text
  | .fields map, part => map[part]?
  | .object members, part => (members.lookup part).bind Json.scalarText?

/-- The text at the end of a name of at least two parts, the first and the last of which are not
empty. -/
def dotted? (around : List Members) (key : Text) : Option Text :=
  match Text.splitAt (· == '.') key with
  | first :: second :: more =>
    let last := (second :: more).getLast (List.cons_ne_nil _ _)
    if first.isEmpty || last.isEmpty then none
    else do
      let spot ← head? around first
      let spot ← walk? spot (second :: more).dropLast
      spot.text? last
  | _ => none

/-- The text of a name: the plain one, or else what its parts lead to. -/
def text? (env : Env) (key : Text) : Option Text := (plain? env key).or (dotted? env.around key)

/-! ### Nodes -/

variable {ε : Type}

/-- What an expansion of a name to nodes is written as. -/
abbrev Expand (ε : Type) : Type := Text → List Node → Env → Except (RenderError ε) Text

mutual

/-- Writes one node. -/
def writeNode (partials : Table Template) (expand : Expand ε) :
    Node → Env → Except (RenderError ε) Text
  | .text content _, _ => .ok content
  | .value key raw _, env => .ok (Render.valueText raw (text? env key))
  | .block key inverted children _ _, env =>
    match nearestFields? env.around key, nearestItems? env.around key with
    | some map, _ =>
      if inverted then
        if map.isEmpty then writeNodes partials expand children env else .ok []
      else
        if map.isEmpty then .ok [] else writeNodes partials expand children (env.push map)
    | none, some (items, holder) =>
      if inverted then
        if items.isEmpty then writeNodes partials expand children env else .ok []
      else
        return (← items.mapM fun item =>
          writeNodes partials expand children { around := item :: holder }).flatten
    | none, none =>
      let truthy := (text? env key).any (!·.isEmpty)
      if truthy != inverted then writeNodes partials expand children env else .ok []
  | .inclusion key indent _, env =>
    match partials[key]? with
    | some template => expand key (Render.place indent template.nodes) env
    | none => .ok []

/-- Writes a sequence of nodes, one after the other; the first error ends it. -/
def writeNodes (partials : Table Template) (expand : Expand ε) :
    List Node → Env → Except (RenderError ε) Text
  | [], _ => .ok []
  | n :: ns, env => do
    let first ← writeNode partials expand n env
    let rest ← writeNodes partials expand ns env
    return first ++ rest

end

/-- Writes nodes when `budget` of the `limit` nested expansions may still be entered. -/
def writeWithin (partials : Table Template) (limit : Nat) :
    (budget : Nat) → List Node → Env → Except (RenderError ε) Text
  | 0 => writeNodes partials fun name _ _ => .error (.recursionLimit name limit)
  | budget + 1 => writeNodes partials fun _ => writeWithin partials limit budget

/-- Writes nodes from the members of an object. -/
def write (partials : Table Template) (limit : Nat) (ns : List Node) (members : Members) :
    Except (RenderError ε) Text :=
  writeWithin partials limit limit ns { around := [members] }

end Mustache.Direct

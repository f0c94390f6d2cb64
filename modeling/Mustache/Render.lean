import Mustache.Frame
import Mustache.Loader
import Mustache.Node.Indent
import Mustache.Text.Escape

/-!
# Rendering

Nodes are written against a frame of a context. A section is written once, not at all, or once for
each of its items; a reference to a partial, and a section bound to a function, are written as the
nodes that they expand to.

Expansions may be nested only so deep. `renderNodes` leaves open what happens inside an expansion;
`renderWithin` closes it with the number of expansions that may still be entered.
-/

namespace Mustache

/-- Why nodes could not be written. -/
inductive RenderError (ε : Type) where
  /-- The expansion of `name` inside `limit` others. -/
  | recursionLimit (name : Text) (limit : Nat)
  /-- A function whose result is no template. -/
  | parse (error : ParseError)
  /-- A partial that could not be loaded. -/
  | loader (error : ε)
  /-- A frame on a scope that is not there. -/
  | noSuchScope (missing : NoSuchScope)

/-- The words for a failed rendering, given the words for the errors of the loader. -/
def RenderError.message {ε : Type} (ofLoader : ε → Text) : RenderError ε → Text
  | .recursionLimit name limit =>
    "Recursion limit of ".toList ++ Text.ofNat limit ++ " exceeded while expanding '".toList ++
      name ++ ['\'']
  | .parse e => "Parse error: ".toList ++ e.message
  | .loader e => "Partial loader error: ".toList ++ ofLoader e
  | .noSuchScope missing => "no scope ".toList ++ Text.ofNat missing.id

/-- A computation that may fail and that works on the state of a loader. -/
abbrev RenderM (σ ε : Type) : Type → Type := ExceptT (RenderError ε) (StateM σ)

namespace Render

variable {σ ε α : Type}

/-- The result of a lookup. -/
def found (result : Except NoSuchScope α) : RenderM σ ε α :=
  .mk (pure (result.mapError .noSuchScope))

/-- The answer of a loader. -/
def load (loader : Loader σ ε) (name : Text) : RenderM σ ε (Option (List Node)) :=
  .mk do return (← loader name).mapError .loader

/-- The nodes of a partial at its place: indented, if its reference was alone on an indented
line. -/
def place (indent : Option Text) (ns : List Node) : List Node :=
  match indent with
  | some (c :: s) => Node.indentLines (c :: s) ns
  | _ => ns

/-- The text that a value contributes; a name without value contributes nothing. -/
def valueText (raw : Bool) (value : Option Text) : Text :=
  match value with
  | some value => if raw then value else value.escape
  | none => []

/-- What an expansion of a name to nodes in a frame is written as. -/
abbrev Expand (σ ε : Type) : Type := Text → List Node → Frame → RenderM σ ε Text

mutual

/-- Writes one node. -/
def renderNode (c : Context) (loader : Loader σ ε) (expand : Expand σ ε) :
    Node → Frame → RenderM σ ε Text
  | .text content _, _ => pure content
  | .value key raw _, frame => do return valueText raw (← found (frame.lookup c key))
  | .block key inverted children source _, frame => do
    match ← found (c.resolve frame.base key), inverted with
    | some (.fields map), false =>
      if map.isEmpty then pure [] else renderNodes c loader expand children (frame.push map)
    | some (.fields map), true =>
      if map.isEmpty then renderNodes c loader expand children frame else pure []
    | some (.function f), false =>
      match Template.parse (f source) with
      | .ok fragment => expand key fragment.nodes frame
      | .error e => throw (.parse e)
    | some (.items scopes), false =>
      return (← scopes.mapM fun id => renderNodes c loader expand children { base := id }).flatten
    | some (.items scopes), true =>
      if scopes.isEmpty then renderNodes c loader expand children frame else pure []
    | some (.function _), true | none, _ =>
      let truthy := (← found (frame.lookup c key)).any (!·.isEmpty)
      if truthy != inverted then renderNodes c loader expand children frame else pure []
  | .inclusion key indent _, frame => do
    match ← load loader key with
    | some ns => expand key (place indent ns) frame
    | none => pure []

/-- Writes a sequence of nodes, one after the other; the first error ends it. -/
def renderNodes (c : Context) (loader : Loader σ ε) (expand : Expand σ ε) :
    List Node → Frame → RenderM σ ε Text
  | [], _ => pure []
  | n :: ns, frame => do
    let first ← renderNode c loader expand n frame
    let rest ← renderNodes c loader expand ns frame
    return first ++ rest

end

/-- Writes nodes when `budget` of the `limit` nested expansions may still be entered. -/
def renderWithin (c : Context) (loader : Loader σ ε) (limit : Nat) :
    (budget : Nat) → List Node → Frame → RenderM σ ε Text
  | 0 => renderNodes c loader fun name _ _ => throw (.recursionLimit name limit)
  | budget + 1 => renderNodes c loader fun _ => renderWithin c loader limit budget

end Render

/-- The number of expansions that may be nested if nothing else is asked for. -/
def defaultMaxDepth : Nat := 64

/-- A renderer: the limit on nested expansions, and a loader with its state. -/
structure Renderer (σ ε : Type) where
  loader : Loader σ ε
  state : σ
  maxDepth : Nat := defaultMaxDepth

namespace Renderer

variable {σ ε : Type}

/-- Writes nodes against a scope of a context. The renderer that comes back has the state that its
loader was left in. -/
def renderScope (r : Renderer σ ε) (ns : List Node) (c : Context) (id : ScopeId) :
    Except (RenderError ε) Text × Renderer σ ε :=
  let rendering := Render.renderWithin c r.loader r.maxDepth r.maxDepth ns { base := id }
  let (result, state) := rendering.run r.state
  (result, { r with state })

/-- Writes nodes against the root of a context. -/
def render (r : Renderer σ ε) (ns : List Node) (c : Context) :
    Except (RenderError ε) Text × Renderer σ ε :=
  r.renderScope ns c Context.root

end Renderer

end Mustache

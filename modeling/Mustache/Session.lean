import Mustache.Render

/-!
# Sessions

One renderer that is used again and again, whatever came of it before. It has a single count of the
expansions that it is in: an expansion is counted when it is entered and no longer when it is left,
with a result or an error, and it is not entered when the count has reached the limit.
-/

namespace Mustache

/-- What a session goes on with from one rendering to the next. -/
structure Session.State (σ : Type) where
  /-- The state of the loader. -/
  store : σ
  /-- The number of expansions that were entered and not left yet. -/
  depth : Nat := 0
  /-- The highest that this number has been. -/
  deepest : Nat := 0

/-- A renderer in use: the limit on nested expansions, and a loader. -/
structure Session (σ ε : Type) where
  loader : Loader σ ε
  maxDepth : Nat := defaultMaxDepth
  state : Session.State σ

/-- The loader, working on the state of a session. -/
def Loader.inSession {σ ε : Type} (loader : Loader σ ε) : Loader (Session.State σ) ε :=
  fun name => do
    let s ← get
    let (answer, store) := (loader name).run s.store
    set { s with store }
    return answer

namespace Session

variable {σ ε : Type}

/-- One expansion more. -/
def State.enter (s : State σ) : State σ :=
  { s with depth := s.depth + 1, deepest := max s.deepest (s.depth + 1) }

/-- One expansion less. -/
def State.leave (s : State σ) : State σ :=
  { s with depth := s.depth - 1 }

/-- Writes what `name` expands to, unless the limit has been reached. -/
def descend (limit : Nat) (name : Text) (body : RenderM (State σ) ε Text) :
    RenderM (State σ) ε Text := .mk do
  if limit ≤ (← get).depth then return .error (.recursionLimit name limit)
  modify State.enter
  let result ← body.run
  modify State.leave
  return result

/-- Writes nodes and what they expand to, `rounds` levels deep; what is deeper would be left out. -/
def renderRounds (c : Context) (loader : Loader σ ε) (limit : Nat) :
    (rounds : Nat) → List Node → Frame → RenderM (State σ) ε Text
  | 0 => Render.renderNodes c loader.inSession fun name _ _ => descend limit name (pure [])
  | rounds + 1 => Render.renderNodes c loader.inSession fun name ns frame =>
    descend limit name (renderRounds c loader limit rounds ns frame)

/-- Writes nodes and what they expand to. No level that the limit allows is left out. -/
def renderNodes (c : Context) (loader : Loader σ ε) (limit : Nat) :
    List Node → Frame → RenderM (State σ) ε Text :=
  renderRounds c loader limit limit

/-- What a name is expanded to. -/
def expand (c : Context) (loader : Loader σ ε) (limit : Nat) : Render.Expand (State σ) ε :=
  fun name ns frame => descend limit name (renderNodes c loader limit ns frame)

/-- A renderer that was not used before. -/
def start (loader : Loader σ ε) (store : σ) (maxDepth : Nat) : Session σ ε :=
  { loader, maxDepth, state := { store } }

/-- Writes nodes against a scope of a context. -/
def renderScope (r : Session σ ε) (ns : List Node) (c : Context) (id : ScopeId) :
    Except (RenderError ε) Text × Session σ ε :=
  let (result, state) := (renderNodes c r.loader r.maxDepth ns { base := id }).run r.state
  (result, { r with state })

/-- Writes nodes against the root of a context. -/
def render (r : Session σ ε) (ns : List Node) (c : Context) :
    Except (RenderError ε) Text × Session σ ε :=
  r.renderScope ns c Context.root

/-- Nodes to write against a scope of a context. -/
structure Job where
  nodes : List Node
  context : Context
  scope : ScopeId := Context.root

/-- Does one job after the other, also after errors. -/
def renderAll (r : Session σ ε) : List Job → List (Except (RenderError ε) Text) × Session σ ε
  | [] => ([], r)
  | job :: jobs =>
    let (result, r) := r.renderScope job.nodes job.context job.scope
    let (results, r) := r.renderAll jobs
    (result :: results, r)

end Session

end Mustache

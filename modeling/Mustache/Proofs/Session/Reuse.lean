import Mustache.Proofs.Session.Count

/-!
# A session is as good as a new one

If the loader answers every name in the same way each time, then what a session renders does not
depend on what it rendered before, and with what success (`Session.renders_afresh`).
-/

namespace Mustache

namespace Loader

variable {σ ε : Type} {loader : Loader σ ε} {answer : Text → Except ε (Option (List Node))} {s : σ}

/-- The state that a loader is in when it was asked for some names. -/
def after (loader : Loader σ ε) (s : σ) : List Text → σ
  | [] => s
  | name :: names => loader.after ((loader name).run s).2 names

/-- The loader answers a name as `answer` says, whatever it was asked for since the state `s`. -/
def Answers (loader : Loader σ ε) (answer : Text → Except ε (Option (List Node))) (s : σ) : Prop :=
  ∀ names name, ((loader name).run (loader.after s names)).1 = answer name

/-- The loader without a state that gives these answers. -/
def fixed (answer : Text → Except ε (Option (List Node))) : Loader Unit ε := fun name =>
  pure (answer name)

theorem Answers.next (h : loader.Answers answer s) (name : Text) :
    loader.Answers answer ((loader name).run s).2 := fun names => h (name :: names)

end Loader

namespace Session

open Render

variable {σ ε : Type} {loader : Loader σ ε} {answer : Text → Except ε (Option (List Node))}
  {limit : Nat} {store : σ} {r : Session σ ε}

/-- A loader that gives the same answers each time is as good as one without a state. -/
theorem agrees_fixed (loader : Loader σ ε) (answer : Text → Except ε (Option (List Node)))
    (c : Context) (limit budget : Nat) (ns : List Node) (frame : Frame) :
    Agrees (fun s (_ : Unit) => loader.Answers answer s)
      (renderWithin c loader limit budget ns frame)
      (renderWithin c (.fixed answer) limit budget ns frame) :=
  agrees_renderWithin (agrees_load fun name _ _ hs => ⟨hs [] name, hs.next name⟩) limit budget ns
    frame

/-- What nodes are written as with these answers of the loader. -/
def outcome (answer : Text → Except ε (Option (List Node))) (limit : Nat) (ns : List Node)
    (c : Context) (id : ScopeId) : Except (RenderError ε) Text :=
  ((renderWithin c (.fixed answer) limit limit ns { base := id }).run ()).1

theorem outcome_append (answer : Text → Except ε (Option (List Node))) (limit : Nat)
    (ns ms : List Node) (c : Context) (id : ScopeId) :
    outcome answer limit (ns ++ ms) c id =
      match outcome answer limit ns c id, outcome answer limit ms c id with
      | .error e, _ => .error e
      | .ok _, .error e => .error e
      | .ok s, .ok t => .ok (s ++ t) := by
  obtain ⟨expand, hexpand⟩ := renderWithin_eq c (Loader.fixed answer) limit limit
  simp only [outcome, hexpand, renderNodes_append, ← bind_pure_comp]
  cases hfirst : (Render.renderNodes c (.fixed answer) expand ns { base := id }).run () with
  | mk first _ =>
    cases first with
    | error e => rw [run_bind_error hfirst]
    | ok s =>
      rw [run_bind_ok hfirst]
      cases hrest : (Render.renderNodes c (.fixed answer) expand ms { base := id }).run () with
      | mk rest _ =>
        cases rest with
        | error e => rw [run_bind_error hrest]
        | ok t =>
          rw [run_bind_ok hrest]
          rfl

/-- The session stands by for the next rendering. -/
structure Ready (loader : Loader σ ε) (answer : Text → Except ε (Option (List Node))) (limit : Nat)
    (r : Session σ ε) : Prop where
  loader_eq : r.loader = loader
  maxDepth_eq : r.maxDepth = limit
  depth_eq : r.state.depth = 0
  deepest_le : r.state.deepest ≤ limit
  answers : loader.Answers answer r.state.store

theorem ready_start (h : loader.Answers answer store) (limit : Nat) :
    Ready loader answer limit (start loader store limit) :=
  ⟨rfl, rfl, rfl, Nat.zero_le _, h⟩

/-- **One rendering** has the outcome that the answers of the loader determine, and leaves the
session ready. -/
theorem Ready.renderScope (h : Ready loader answer limit r) (ns : List Node) (c : Context)
    (id : ScopeId) :
    (r.renderScope ns c id).1 = outcome answer limit ns c id ∧
      Ready loader answer limit (r.renderScope ns c id).2 := by
  obtain ⟨loader', limit', state⟩ := r
  obtain ⟨rfl, rfl, hdepth, hdeepest, hanswers⟩ := h
  obtain ⟨hresult, hstate⟩ := agrees_renderRounds c loader' (Nat.le_add_left limit' 0)
    (Nat.le_refl limit') ns { base := id } state state.store ⟨rfl, hdepth, hdeepest⟩
  obtain ⟨hresult', hanswers'⟩ :=
    agrees_fixed loader' answer c limit' limit' ns { base := id } state.store () hanswers
  refine ⟨hresult.trans hresult', rfl, rfl, hstate.depth_eq, hstate.deepest_le, ?_⟩
  exact hstate.store_eq ▸ hanswers'

theorem Ready.renderAll (h : Ready loader answer limit r) (jobs : List Job) :
    (r.renderAll jobs).1 =
        jobs.map (fun job => outcome answer limit job.nodes job.context job.scope) ∧
      Ready loader answer limit (r.renderAll jobs).2 := by
  induction jobs generalizing r with
  | nil => exact ⟨rfl, h⟩
  | cons job jobs ih =>
    obtain ⟨hresult, hready⟩ := h.renderScope job.nodes job.context job.scope
    obtain ⟨hresults, hready'⟩ := ih hready
    refine ⟨?_, hready'⟩
    rw [List.map_cons, ← hresult, ← hresults]
    rfl

/-- **A session can be used again after anything.** If the loader gives the same answers each time,
each of any number of jobs has the result that it has in a new session, and this is the result of
the renderer. A sequence of nodes has the error of its first part, or else of the second, or else
both results one after the other. Writing nodes, a node, or an expansion, in any state and with any
result, comes back to the count that it began with, and goes beyond the limit nowhere. -/
theorem renders_afresh (h : loader.Answers answer store) (limit : Nat) :
    (∀ jobs fresh, loader.Answers answer fresh →
      ((start loader store limit).renderAll jobs).1 = jobs.map (fun job =>
        ((start loader fresh limit).renderScope job.nodes job.context job.scope).1) ∧
      ((start loader store limit).renderAll jobs).2.state.depth = 0 ∧
      ((start loader store limit).renderAll jobs).2.state.deepest ≤ limit) ∧
    (∀ ns c id, ((start loader store limit).renderScope ns c id).1 =
      (Renderer.renderScope { loader, state := store, maxDepth := limit } ns c id).1) ∧
    (∀ ns ms c id, ((start loader store limit).renderScope (ns ++ ms) c id).1 =
      match ((start loader store limit).renderScope ns c id).1,
        ((start loader store limit).renderScope ms c id).1 with
      | .error e, _ => .error e
      | .ok _, .error e => .error e
      | .ok s, .ok t => .ok (s ++ t)) ∧
    ∀ (c : Context) (frame : Frame) (s : State σ),
      (∀ ns, Restores limit s (renderNodes c loader limit ns frame) ∧
        renderNodes c loader limit ns frame =
          Render.renderNodes c loader.inSession (expand c loader limit) ns frame) ∧
      (∀ n, Restores limit s (renderNode c loader.inSession (expand c loader limit) n frame)) ∧
      ∀ name ns, Restores limit s (expand c loader limit name ns frame) := by
  have hready := ready_start h limit
  have hone := fun ns c id => (hready.renderScope ns c id).1
  refine ⟨fun jobs fresh hfresh => ?_, fun ns c id => ?_, fun ns ms c id => ?_, fun c frame s =>
    ⟨fun ns => ⟨restores_renderNodes c loader limit s ns frame,
      renderNodes_eq c loader limit ns frame⟩,
      fun n => restores_renderNode c loader limit s n frame,
      fun name ns => restores_expand c loader limit s name ns frame⟩⟩
  · obtain ⟨hresults, hready'⟩ := hready.renderAll jobs
    refine ⟨hresults.trans (List.map_congr_left fun job _ => ?_), hready'.depth_eq,
      hready'.deepest_le⟩
    exact ((ready_start hfresh limit).renderScope job.nodes job.context job.scope).1.symm
  · rw [renderScope_start]
    rfl
  · rw [hone, hone, hone]
    exact outcome_append answer limit ns ms c id

theorem renders_afresh_after_errors :
    let answer (name : Text) : Except Text (Option (List Node)) :=
      if name = ['p'] then .ok (some [.inclusion ['p'] none .nowhere])
      else if name = ['e'] then .error ['!']
      else .ok (some [.text name .nowhere])
    let loader : Loader Nat Text := fun name => do modify (· + 1); return answer name
    let c : Context :=
      ⟨#[{ sections := (∅ : Table Section).insert ['f'] (.function fun _ => "\x7b\x7b".toList) }]⟩
    let jobs : List Session.Job :=
      [{ nodes := [.inclusion ['p'] none .nowhere], context := c },
        { nodes := [.inclusion ['e'] none .nowhere], context := c },
        { nodes := [.block ['f'] false [] [] .nowhere], context := c },
        { nodes := [.text ['a'] .nowhere, .inclusion ['t'] none .nowhere], context := c }]
    loader.Answers answer 0 ∧
    ((start loader 0 2).renderAll jobs).1.map (fun
        | .ok s => s
        | .error e => e.message id) =
      ["Recursion limit of 2 exceeded while expanding 'p'".toList,
        "Partial loader error: !".toList, "Parse error: unclosed tag at line 1, column 1".toList,
        "at".toList] ∧
    ((start loader 0 2).renderAll jobs).1 = jobs.map (fun job =>
      ((start loader 0 2).renderScope job.nodes job.context job.scope).1) := by
  intro answer loader c jobs
  have hanswers : loader.Answers answer 0 := fun _ _ => rfl
  exact ⟨hanswers, by decide +kernel, ((renders_afresh hanswers 2).1 jobs 0 hanswers).1⟩

end Session

end Mustache

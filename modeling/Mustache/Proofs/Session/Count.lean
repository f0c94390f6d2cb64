import Mustache.Proofs.Render.Congruence
import Mustache.Session

/-!
# The count of a session

A session writes what the renderer with a budget writes that is left to it by its count, and comes
back to this count, with a result or an error (`Session.agrees_renderRounds`). More rounds than the
limit allows make no difference, so that sequences of nodes, single nodes and expansions are written
by one another (`Session.renderNodes_eq`).
-/

namespace Mustache.Session

open Render

variable {σ ε : Type} {c : Context} {loader : Loader σ ε} {limit d bound : Nat} {name : Text}
  {body : RenderM (State σ) ε Text} {s : State σ} {store : σ}

theorem run_descend (limit : Nat) (name : Text) (body : RenderM (State σ) ε Text) (s : State σ) :
    (descend limit name body).run s =
      if limit ≤ s.depth then (.error (.recursionLimit name limit), s)
      else ((body.run s.enter).1, (body.run s.enter).2.leave) := by
  change (ite (limit ≤ s.depth) _ _ : StateM (State σ) (Except (RenderError ε) Text)) s = _
  split
  · rfl
  · rfl

/-! ### The budget that a count leaves -/

/-- The session is in `d` expansions and was never in more than `bound`, and its loader is in the
state `store`. -/
structure State.IsAt (s : State σ) (d bound : Nat) (store : σ) : Prop where
  store_eq : s.store = store
  depth_eq : s.depth = d
  deepest_le : s.deepest ≤ bound

theorem State.IsAt.enter (h : s.IsAt d bound store) (hd : d < bound) :
    s.enter.IsAt (d + 1) bound store where
  store_eq := h.store_eq
  depth_eq := congrArg (· + 1) h.depth_eq
  deepest_le := Nat.max_le.2 ⟨h.deepest_le, h.depth_eq ▸ hd⟩

theorem State.IsAt.leave (h : s.IsAt (d + 1) bound store) : s.leave.IsAt d bound store where
  store_eq := h.store_eq
  depth_eq := congrArg (· - 1) h.depth_eq
  deepest_le := h.deepest_le

theorem agrees_load_inSession (loader : Loader σ ε) (d bound : Nat) (name : Text) :
    Agrees (fun s : State σ => s.IsAt d bound) (load loader.inSession name) (load loader name) := by
  apply agrees_load
  rintro name s _ ⟨rfl, hdepth, hdeepest⟩
  exact ⟨rfl, rfl, hdepth, hdeepest⟩

/-- An expansion is written as it is when the limit allows it. -/
theorem agrees_descend {body' : RenderM σ ε Text} (hd : d < limit) (hbound : limit ≤ bound)
    (h : Agrees (fun s : State σ => s.IsAt (d + 1) bound) body body') :
    Agrees (fun s : State σ => s.IsAt d bound) (descend limit name body) body' := by
  intro s store hs
  rw [run_descend, if_neg (Nat.not_le.2 (hs.depth_eq ▸ hd))]
  obtain ⟨hresult, hstate⟩ := h s.enter store (hs.enter (Nat.lt_of_lt_of_le hd hbound))
  exact ⟨hresult, hstate.leave⟩

theorem agrees_descend_throw (hd : limit ≤ d) :
    Agrees (fun s : State σ => s.IsAt d bound) (descend limit name body)
      (throw (.recursionLimit name limit)) := by
  intro s store hs
  rw [run_descend, if_pos (hs.depth_eq ▸ hd)]
  exact ⟨rfl, hs⟩

/-- At the limit no expansion is written, whatever is in it. -/
theorem agrees_renderNodes_of_le (c : Context) (loader : Loader σ ε) (hd : limit ≤ d)
    (inside : Expand (State σ) ε) (ns : List Node) (frame : Frame) :
    Agrees (fun s : State σ => s.IsAt d bound)
      (Render.renderNodes c loader.inSession
        (fun name ns frame => descend limit name (inside name ns frame)) ns frame)
      (renderWithin c loader limit 0 ns frame) :=
  (congruence_agrees c (agrees_load_inSession loader d bound)).renderNodes _ _
    (fun _ _ _ _ => agrees_descend_throw hd) ns trivial

/-- **A session in `d` expansions** writes what is written with the rest of the limit as budget. -/
theorem agrees_renderRounds (c : Context) (loader : Loader σ ε) {rounds : Nat}
    (hrounds : limit ≤ d + rounds) (hbound : limit ≤ bound) (ns : List Node) (frame : Frame) :
    Agrees (fun s : State σ => s.IsAt d bound) (renderRounds c loader limit rounds ns frame)
      (renderWithin c loader limit (limit - d) ns frame) := by
  induction rounds generalizing d ns frame with
  | zero =>
    have hd : limit ≤ d := hrounds
    rw [Nat.sub_eq_zero_of_le hd]
    exact agrees_renderNodes_of_le c loader hd (fun _ _ _ => pure []) ns frame
  | succ rounds ih =>
    rcases Nat.lt_or_ge d limit with hd | hd
    · -- Inside the expansion the count is one higher and the rest of the limit one lower.
      have hrest : limit - d = limit - (d + 1) + 1 := by omega
      rw [hrest]
      have hinside := fun ns frame => ih (by omega : limit ≤ d + 1 + rounds) ns frame
      exact (congruence_agrees c (agrees_load_inSession loader d bound)).renderNodes _ _
        (fun _ ns frame _ => agrees_descend hd hbound (hinside ns frame)) ns trivial
    · rw [Nat.sub_eq_zero_of_le hd]
      exact agrees_renderNodes_of_le c loader hd
        (fun _ => renderRounds c loader limit rounds) ns frame

theorem renderScope_start (loader : Loader σ ε) (store : σ) (limit : Nat) (ns : List Node)
    (c : Context) (id : ScopeId) :
    ((start loader store limit).renderScope ns c id).1 =
      ((renderWithin c loader limit limit ns { base := id }).run store).1 :=
  (agrees_renderRounds c loader (Nat.le_add_left limit 0) (Nat.le_refl limit) ns { base := id } _ _
    ⟨rfl, rfl, Nat.zero_le _⟩).1

/-! ### More rounds -/

/-- Both sessions are in one state, in `d` expansions. -/
def State.EqAt (d : Nat) (s s' : State σ) : Prop := s = s' ∧ s.depth = d

theorem agrees_descend_descend {body' : RenderM (State σ) ε Text}
    (h : d < limit → Agrees (State.EqAt (d + 1)) body body') :
    Agrees (State.EqAt d) (descend limit name body) (descend limit name body') := by
  rintro s _ ⟨rfl, hdepth⟩
  rw [run_descend, run_descend]
  split
  · exact ⟨rfl, rfl, hdepth⟩
  · next hlt =>
    obtain ⟨hresult, hstate, hdepth'⟩ := h (hdepth ▸ Nat.not_le.1 hlt) s.enter s.enter
      ⟨rfl, congrArg (· + 1) hdepth⟩
    exact ⟨hresult, congrArg State.leave hstate, congrArg (· - 1) hdepth'⟩

theorem agrees_renderRounds_succ (c : Context) (loader : Loader σ ε) {rounds : Nat}
    (hrounds : limit ≤ d + rounds) (ns : List Node) (frame : Frame) :
    Agrees (State.EqAt d) (renderRounds c loader limit rounds ns frame)
      (renderRounds c loader limit (rounds + 1) ns frame) := by
  have hload : ∀ d name, Agrees (State.EqAt d) (load loader.inSession name)
      (load loader.inSession name) := by
    intro d
    apply agrees_load
    rintro name s _ ⟨rfl, hdepth⟩
    exact ⟨rfl, rfl, hdepth⟩
  induction rounds generalizing d ns frame with
  | zero =>
    refine (congruence_agrees c (hload d)).renderNodes _ _
      (fun _ _ _ _ => agrees_descend_descend fun hd => ?_) ns trivial
    exact absurd hrounds (Nat.not_le.2 hd)
  | succ rounds ih =>
    refine (congruence_agrees c (hload d)).renderNodes _ _
      (fun _ ns frame _ => agrees_descend_descend fun _ => ?_) ns trivial
    exact ih (by omega) ns frame

/-- **Sequences of nodes are written by the expansions inside them,** and these as sequences of
nodes. -/
theorem renderNodes_eq (c : Context) (loader : Loader σ ε) (limit : Nat) (ns : List Node)
    (frame : Frame) :
    renderNodes c loader limit ns frame =
      Render.renderNodes c loader.inSession (expand c loader limit) ns frame := by
  apply ExceptT.ext
  funext s
  obtain ⟨hresult, hstate, -⟩ := agrees_renderRounds_succ c loader
    (Nat.le_add_left limit s.depth) ns frame s s ⟨rfl, rfl⟩
  exact Prod.ext hresult hstate

/-! ### The count before and after -/

/-- The computation comes back to the count that it begins with in the state `s`, and never goes
beyond the limit. -/
def Restores (limit : Nat) (s : State σ) {α : Type} (m : RenderM (State σ) ε α) : Prop :=
  (m.run s).2.depth = s.depth ∧ (m.run s).2.deepest ≤ max s.deepest limit

theorem restores_renderNodes (c : Context) (loader : Loader σ ε) (limit : Nat) (s : State σ)
    (ns : List Node) (frame : Frame) : Restores limit s (renderNodes c loader limit ns frame) := by
  obtain ⟨-, hstate⟩ := agrees_renderRounds c loader (Nat.le_add_left limit s.depth)
    (Nat.le_max_right s.deepest limit) ns frame s s.store ⟨rfl, rfl, Nat.le_max_left _ _⟩
  exact ⟨hstate.depth_eq, hstate.deepest_le⟩

theorem restores_renderNode (c : Context) (loader : Loader σ ε) (limit : Nat) (s : State σ)
    (n : Node) (frame : Frame) :
    Restores limit s (renderNode c loader.inSession (expand c loader limit) n frame) := by
  rw [← renderNodes_singleton, ← renderNodes_eq]
  exact restores_renderNodes c loader limit s [n] frame

theorem restores_expand (c : Context) (loader : Loader σ ε) (limit : Nat) (s : State σ)
    (name : Text) (ns : List Node) (frame : Frame) :
    Restores limit s (expand c loader limit name ns frame) := by
  rw [Restores, expand, run_descend]
  split
  · exact ⟨rfl, Nat.le_max_left _ _⟩
  · next hlt =>
    obtain ⟨hdepth, hdeepest⟩ := restores_renderNodes c loader limit s.enter ns frame
    refine ⟨congrArg (· - 1) hdepth, Nat.le_trans hdeepest ?_⟩
    have hdepth : s.depth + 1 ≤ limit := Nat.not_le.1 hlt
    simp only [State.enter]
    omega

end Mustache.Session

import Mustache.Proofs.Render.Budget

/-!
# The errors of a rendering

`Render.Throws E` holds of computations with no errors but those in `E`. Nodes have the errors of
functions and of the loader, and beside them only those of lookups, and at the limit the error that
carries this limit (`Render.throws_renderWithin`).
-/

namespace Mustache.Render

variable {σ ε α β : Type}

/-- The computation has no other errors than those in `E`. -/
def Throws (E : RenderError ε → Prop) (m : RenderM σ ε α) : Prop :=
  ∀ s e, (m.run s).1 = .error e → E e

variable {E : RenderError ε → Prop} {c : Context} {P : ScopeId → Prop} {loader : Loader σ ε}

theorem throws_throw {e : RenderError ε} (h : E e) : Throws E (throw e : RenderM σ ε α) := by
  intro s e' he'
  cases he'
  exact h

theorem Throws.bind {m : RenderM σ ε α} {f : α → RenderM σ ε β} (h : Throws E m)
    (hf : ∀ a, Throws E (f a)) : Throws E (m >>= f) := by
  intro s e he
  cases hrun : m.run s with
  | mk result s' =>
    cases result with
    | ok a =>
      rw [run_bind_ok hrun] at he
      exact hf a s' e he
    | error e' =>
      rw [run_bind_error hrun] at he
      cases he
      exact h s e (congrArg Prod.fst hrun)

theorem throws_found {x : Except NoSuchScope α}
    (h : ∀ missing, x = .error missing → E (.noSuchScope missing)) :
    Throws E (found x : RenderM σ ε α) := by
  intro s e he
  cases x with
  | ok a => cases he
  | error missing =>
    cases he
    exact h missing rfl

theorem throws_load (h : ∀ e, E (.loader e)) (name : Text) : Throws E (load loader name) := by
  intro s e he
  change ((loader name).run s).1.mapError .loader = .error e at he
  cases hanswer : ((loader name).run s).1 with
  | ok ns? =>
    rw [hanswer] at he
    cases he
  | error e' =>
    rw [hanswer] at he
    cases he
    exact h e'

/-- The errors of functions and of the loader are in `E`, and those of lookups from scopes of which
`P` holds; and what is gone through from such scopes are such scopes again. -/
structure Covers (E : RenderError ε → Prop) (c : Context) (P : ScopeId → Prop) : Prop where
  parse (e : ParseError) : E (.parse e)
  loader (e : ε) : E (.loader e)
  lookup {frame : Frame} {key : Text} {missing : NoSuchScope} : P frame.base →
    frame.lookup c key = .error missing → E (.noSuchScope missing)
  resolve {id : ScopeId} {key : Text} {missing : NoSuchScope} : P id →
    c.resolve id key = .error missing → E (.noSuchScope missing)
  items {id : ScopeId} {key : Text} {scopes : List ScopeId} : P id →
    c.resolve id key = .ok (some (.items scopes)) → ∀ i ∈ scopes, P i

theorem Covers.congruence (h : Covers E c P) (loader : Loader σ ε) :
    Congruence c P loader loader fun _ m _ => Throws E m where
  pure _ := by
    intro s e he
    cases he
  bind := .bind
  parse e := throws_throw (h.parse e)
  lookup _ hframe := throws_found fun _ => h.lookup hframe
  resolve _ hid := throws_found fun _ => h.resolve hid
  items := h.items
  load := throws_load h.loader

theorem Covers.throws_renderNodes (h : Covers E c P) {expand : Expand σ ε}
    (hexpand : ∀ name ns frame, P frame.base → Throws E (expand name ns frame)) (ns : List Node)
    {frame : Frame} (hframe : P frame.base) : Throws E (renderNodes c loader expand ns frame) :=
  (h.congruence loader).renderNodes expand expand hexpand ns hframe

theorem throws_renderWithin (h : Covers E c P) {limit : Nat}
    (hlimit : ∀ name, E (.recursionLimit name limit)) (budget : Nat) (ns : List Node)
    (frame : Frame) (hframe : P frame.base) :
    Throws E (renderWithin c loader limit budget ns frame) := by
  induction budget generalizing ns frame with
  | zero => exact h.throws_renderNodes (fun name _ _ _ => throws_throw (hlimit name)) ns hframe
  | succ budget ih => exact h.throws_renderNodes (fun _ => ih) ns hframe

end Mustache.Render

import Mathlib.Data.Nat.Find
import Mustache.Proofs.Render.Inside
import Mustache.Proofs.Session.Count

/-!
# The limit is a threshold

Nodes, a context and a loader have a number of nested expansions that they need, or they exceed
every limit. Under a smaller limit the rendering fails with the error that carries this limit, and
from the number on the result is always the same (`Session.exists_threshold`).
-/

namespace Mustache

namespace Render

variable {σ ε : Type} {c : Context} {loader : Loader σ ε} {limit budget t d : Nat} {ns : List Node}
  {frame : Frame} {s : σ}

theorem covers_limit (ε : Type) (c : Context) (limit : Nat) :
    Covers (fun e : RenderError ε => ∀ name limit', e = .recursionLimit name limit' →
      limit' = limit) c fun _ => True where
  parse _ := nofun
  loader _ := nofun
  lookup _ _ := nofun
  resolve _ _ := nofun
  items _ _ _ _ := trivial

/-- The error of an exceeded limit carries the limit. -/
theorem exists_name_of_exceeded
    (h : Exceeded ((renderWithin c loader limit budget ns frame).run s).1) :
    ∃ name, ((renderWithin c loader limit budget ns frame).run s).1 =
      .error (.recursionLimit name limit) := by
  obtain ⟨name, limit', h⟩ := h
  have hlimit := throws_renderWithin (covers_limit ε c limit) (fun _ _ _ heq => by cases heq; rfl)
    budget ns frame trivial s _ h name limit' rfl
  exact ⟨name, hlimit ▸ h⟩

/-- A result that exceeds no limit stays the same when the limit grows. -/
theorem run_renderWithin_of_le (h : ¬ Exceeded ((renderWithin c loader t t ns frame).run s).1)
    (hle : t ≤ d) :
    ((renderWithin c loader d d ns frame).run s).1 =
      ((renderWithin c loader t t ns frame).run s).1 := by
  induction d, hle using Nat.le_induction with
  | base => rfl
  | succ d _ ih =>
    rw [← ih] at h ⊢
    exact congrArg Prod.fst (refines_renderWithin d (d + 1) d ns frame s h)

end Render

namespace Session

open Render

variable {σ ε : Type}

/-- **The limit is a threshold and nothing else.** Either the rendering fails under every limit with
the error that carries this limit, or it does so under all limits below some number, and from this
number on has one result that is no such error. In a context that a program can make this is a text,
or an error of a function or of the loader. A session that begins and the renderer do not differ. -/
theorem exists_threshold (loader : Loader σ ε) (store : σ) (ns : List Node) (c : Context)
    (id : ScopeId) :
    (∀ d, ((start loader store d).renderScope ns c id).1 =
      (Renderer.renderScope { loader, state := store, maxDepth := d } ns c id).1) ∧
    ((∀ d, ∃ name, ((start loader store d).renderScope ns c id).1 =
        .error (.recursionLimit name d)) ∨
      ∃ t outcome, (∀ name limit, outcome ≠ .error (.recursionLimit name limit)) ∧
        (c.Reachable → id < c.scopes.size → ∀ missing, outcome ≠ .error (.noSuchScope missing)) ∧
        (∀ d < t, ∃ name, ((start loader store d).renderScope ns c id).1 =
          .error (.recursionLimit name d)) ∧
        ∀ d, t ≤ d → ((start loader store d).renderScope ns c id).1 = outcome) := by
  classical
  simp only [renderScope_start]
  refine ⟨fun _ => rfl, ?_⟩
  by_cases h : ∃ d, ¬ Exceeded ((renderWithin c loader d d ns { base := id }).run store).1
  · refine .inr ⟨Nat.find h, _, fun name limit heq => ?_, fun hc hid missing => ?_,
      fun d hd => ?_, fun d hd => run_renderWithin_of_le (Nat.find_spec h) hd⟩
    · exact Nat.find_spec h ⟨name, limit, heq⟩
    · exact hc.closed.renderScope_ne hid
        { loader, state := store, maxDepth := Nat.find h } ns missing
    · exact exists_name_of_exceeded (not_not.1 (Nat.find_min h hd))
  · exact .inl fun d => exists_name_of_exceeded (not_not.1 (not_exists.1 h d))

/-- A partial inside a partial needs a limit of two. -/
example :
    let loader : Loader Unit Empty := fun name => pure <| .ok <| some <|
      if name = ['p'] then [.inclusion ['q'] none .nowhere] else [.text ['x'] .nowhere]
    [0, 1, 2, 3].map (fun d =>
      ((start loader () d).render [.inclusion ['p'] none .nowhere] .empty).1.toOption) =
      [none, none, some ['x'], some ['x']] := by decide +kernel

end Session

end Mustache

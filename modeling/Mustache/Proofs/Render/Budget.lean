import Mustache.Proofs.Render.Congruence

/-!
# More expansions than needed

Nodes that are written without exceeding the limit on nested expansions are written alike when more
expansions may be entered, under whatever limit (`Render.refines_renderWithin`).
-/

namespace Mustache.Render

variable {σ ε α β : Type}

/-- The limit on nested expansions was exceeded. -/
def Exceeded (result : Except (RenderError ε) α) : Prop :=
  ∃ name limit, result = .error (.recursionLimit name limit)

/-- The second computation does what the first one does wherever that exceeds no limit. -/
def Refines (m m' : RenderM σ ε α) : Prop :=
  ∀ s, ¬ Exceeded (m.run s).1 → m'.run s = m.run s

theorem Refines.refl (m : RenderM σ ε α) : Refines m m := fun _ _ => rfl

theorem refines_throw (name : Text) (limit : Nat) (m : RenderM σ ε α) :
    Refines (throw (.recursionLimit name limit)) m :=
  fun _ h => absurd ⟨name, limit, rfl⟩ h

theorem Refines.bind {m m' : RenderM σ ε α} {f f' : α → RenderM σ ε β} (h : Refines m m')
    (hf : ∀ a, Refines (f a) (f' a)) : Refines (m >>= f) (m' >>= f') := by
  intro s hs
  cases hrun : m.run s with
  | mk result s' =>
    cases result with
    | ok a =>
      have hm : m'.run s = (.ok a, s') := by
        rw [← hrun]
        refine h s ?_
        rw [hrun]
        rintro ⟨name, limit, ⟨⟩⟩
      rw [run_bind_ok hrun] at hs ⊢
      rw [run_bind_ok hm]
      exact hf a s' hs
    | error e =>
      rw [run_bind_error hrun] at hs ⊢
      have hm : m'.run s = (.error e, s') := by
        rw [← hrun]
        refine h s ?_
        rw [hrun]
        rintro ⟨name, limit, ⟨⟩⟩
        exact hs ⟨name, limit, rfl⟩
      rw [run_bind_error hm]

variable {c : Context} {loader : Loader σ ε}

theorem congruence_refines (c : Context) (loader : Loader σ ε) :
    Congruence c (fun _ => True) loader loader fun _ => Refines where
  pure _ := .refl _
  bind := .bind
  parse _ := .refl _
  lookup _ _ := .refl _
  resolve _ _ := .refl _
  items _ _ _ _ := trivial
  load _ := .refl _

/-- Nodes that are written within a limit are written alike when one expansion more may be entered
within another limit. -/
theorem refines_renderWithin (limit limit' budget : Nat) (ns : List Node) (frame : Frame) :
    Refines (renderWithin c loader limit budget ns frame)
      (renderWithin c loader limit' (budget + 1) ns frame) := by
  induction budget generalizing ns frame with
  | zero =>
    exact (congruence_refines c loader).renderNodes _ _
      (fun name _ _ _ => refines_throw name limit _) ns trivial
  | succ budget ih =>
    exact (congruence_refines c loader).renderNodes _ _ (fun _ ns frame _ => ih ns frame) ns trivial

end Mustache.Render

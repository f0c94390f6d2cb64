import Mustache.Render

/-!
# One node after another

What a sequence of nodes is written as is put together from what its parts are written as.
-/

namespace Mustache.Render

variable {σ ε : Type} {c : Context} {loader : Loader σ ε} {expand : Expand σ ε}

theorem renderNodes_nil (frame : Frame) : renderNodes c loader expand [] frame = pure [] := by
  rw [renderNodes]

theorem renderNodes_cons (n : Node) (ns : List Node) (frame : Frame) :
    renderNodes c loader expand (n :: ns) frame =
      renderNode c loader expand n frame >>= fun first =>
        (first ++ ·) <$> renderNodes c loader expand ns frame := by
  rw [renderNodes]
  simp only [bind_pure_comp]

theorem renderNodes_singleton (n : Node) (frame : Frame) :
    renderNodes c loader expand [n] frame = renderNode c loader expand n frame := by
  rw [renderNodes_cons, renderNodes_nil]
  simp

theorem renderNodes_append (ns ms : List Node) (frame : Frame) :
    renderNodes c loader expand (ns ++ ms) frame =
      renderNodes c loader expand ns frame >>= fun first =>
        (first ++ ·) <$> renderNodes c loader expand ms frame := by
  induction ns with
  | nil => simp [renderNodes_nil]
  | cons n ns ih =>
    simp only [List.cons_append, renderNodes_cons, ih, map_bind, bind_assoc, bind_map_left,
      Functor.map_map, List.append_assoc]

/-- Nodes are written with some expansion, whatever the budget is. -/
theorem renderWithin_eq (c : Context) (loader : Loader σ ε) (limit budget : Nat) :
    ∃ expand, renderWithin c loader limit budget = renderNodes c loader expand := by
  cases budget <;> exact ⟨_, rfl⟩

/-- One after the other, for the items of a list. -/
theorem flatten_mapM_cons {α : Type} (f : α → RenderM σ ε Text) (a : α) (as : List α) :
    List.flatten <$> (a :: as).mapM f =
      f a >>= fun first => (first ++ ·) <$> (List.flatten <$> as.mapM f) := by
  simp [List.mapM_cons]

theorem mapM_eq_of_forall_mem {α β : Type} {f g : α → RenderM σ ε β} {as : List α}
    (h : ∀ a ∈ as, f a = g a) : as.mapM f = as.mapM g := by
  induction as with
  | nil => rfl
  | cons a as ih =>
    rw [List.mapM_cons, List.mapM_cons, h a List.mem_cons_self,
      ih fun b hb => h b (List.mem_cons_of_mem a hb)]

theorem found_ok_bind {α β : Type} (a : α) (f : α → RenderM σ ε β) :
    (found (.ok a) : RenderM σ ε α) >>= f = f a := rfl

theorem found_error_bind {α β : Type} (missing : NoSuchScope) (f : α → RenderM σ ε β) :
    (found (.error missing) : RenderM σ ε α) >>= f = throw (.noSuchScope missing) := rfl

theorem run_bind_ok {α β : Type} {m : RenderM σ ε α} {f : α → RenderM σ ε β} {s s' : σ}
    {a : α}
    (h : m.run s = (.ok a, s')) : (m >>= f).run s = (f a).run s' := by
  rw [ExceptT.run_bind]
  change StateT.bind m.run _ s = _
  rw [StateT.bind, h]
  rfl

theorem run_bind_error {α β : Type} {m : RenderM σ ε α} {f : α → RenderM σ ε β} {s s' : σ}
    {e : RenderError ε} (h : m.run s = (.error e, s')) : (m >>= f).run s = (.error e, s') := by
  rw [ExceptT.run_bind]
  change StateT.bind m.run _ s = _
  rw [StateT.bind, h]
  rfl

end Mustache.Render

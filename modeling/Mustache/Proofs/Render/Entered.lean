import Mustache.Proofs.Render.Inside
import Mustache.Proofs.Render.Nodes

/-!
# A section and its inverse

What the name of a section stands for says in which frames the body is written (`Frame.entered`):
the section writes it in each of them, one after the other, and the inverted section writes it once,
in the frame that the tag is in, just when there are none
(`Context.Reachable.section_and_inverse`).
-/

namespace Mustache

/-- The frames in which the body of a section is written, the first one first, where its name has
the text `value` and stands for the section `section?`. A function enters no frame of its own: where
it is not asked, the text of the name counts. -/
def Frame.entered (frame : Frame) (value : Option Text) : Option Section → List Frame
  | some (.fields map) => if map.isEmpty then [] else [frame.push map]
  | some (.items scopes) => scopes.map ({ base := · })
  | some (.function _) | none => if (value.getD []).isEmpty then [] else [frame]

namespace Render

variable {σ ε : Type} {c : Context} {loader : Loader σ ε} {expand : Expand σ ε} {frame : Frame}
  {frames : List Frame} {key source : Text} {pos : Position} {body : List Node}
  {value : Option Text} {section? : Option Section}

/-- What it comes to when something is written in one frame after the other, from a state of the
loader on: the texts in their order, or the first error. -/
inductive InTurn (write : Frame → RenderM σ ε Text) :
    List Frame → σ → Except (RenderError ε) Text × σ → Prop
  | done {state} : InTurn write [] state (.ok [], state)
  | failed {frame frames state state' e} : (write frame).run state = (.error e, state') →
    InTurn write (frame :: frames) state (.error e, state')
  | written {frame frames state state' state'' first rest} :
    (write frame).run state = (.ok first, state') →
    InTurn write frames state' (.ok rest, state'') →
    InTurn write (frame :: frames) state (.ok (first ++ rest), state'')
  | failedLater {frame frames state state' state'' first e} :
    (write frame).run state = (.ok first, state') →
    InTurn write frames state' (.error e, state'') →
    InTurn write (frame :: frames) state (.error e, state'')

theorem run_map_ok {α β : Type} {m : RenderM σ ε α} {f : α → β} {s s' : σ} {a : α}
    (h : m.run s = (.ok a, s')) : (f <$> m).run s = (.ok (f a), s') := by
  rw [map_eq_pure_bind, run_bind_ok h]
  rfl

theorem run_map_error {α β : Type} {m : RenderM σ ε α} {f : α → β} {s s' : σ}
    {e : RenderError ε} (h : m.run s = (.error e, s')) : (f <$> m).run s = (.error e, s') := by
  rw [map_eq_pure_bind, run_bind_error h]

theorem inTurn_mapM (write : Frame → RenderM σ ε Text) (frames : List Frame) (state : σ) :
    InTurn write frames state ((List.flatten <$> frames.mapM write).run state) := by
  induction frames generalizing state with
  | nil => exact .done
  | cons frame frames ih =>
    rw [flatten_mapM_cons]
    rcases hfirst : (write frame).run state with ⟨_ | first, state'⟩
    · rw [run_bind_error hfirst]
      exact .failed hfirst
    · rw [run_bind_ok hfirst]
      have hrest := ih state'
      rcases hrun : (List.flatten <$> frames.mapM write).run state' with ⟨_ | rest, state''⟩
      · rw [run_map_error hrun]
        exact .failedLater hfirst (hrun ▸ hrest)
      · rw [run_map_ok hrun]
        exact .written hfirst (hrun ▸ hrest)

section

variable (hresolve : c.resolve frame.base key = .ok section?)
  (hlookup : frame.lookup c key = .ok value)
include hresolve hlookup

/-- A section is written in the frames that it enters. -/
theorem renderNode_section (hfunction : section?.bind Section.function? = none) :
    renderNode c loader expand (.block key false body source pos) frame =
      List.flatten <$> (frame.entered value section?).mapM
        (renderNodes c loader expand body) := by
  rw [renderNode, hresolve, found_ok_bind]
  rcases section? with _ | (map | f | scopes)
  · simp only
    rw [hlookup, found_ok_bind, Frame.entered]
    rcases value with _ | _ | ⟨ch, value⟩ <;> simp
  · simp only [Frame.entered]
    by_cases hempty : map.isEmpty = true <;> simp [hempty]
  · cases hfunction
  · simp [Frame.entered, List.mapM_map, Function.comp_def]

/-- An inverted section is written if the section enters no frame. -/
theorem renderNode_inverse :
    renderNode c loader expand (.block key true body source pos) frame =
      if (frame.entered value section?).isEmpty then renderNodes c loader expand body frame
      else pure [] := by
  rw [renderNode, hresolve, found_ok_bind]
  rcases section? with _ | (map | f | scopes)
  · simp only
    rw [hlookup, found_ok_bind, Frame.entered]
    rcases value with _ | _ | ⟨ch, value⟩ <;> simp
  · simp only [Frame.entered]
    by_cases hempty : map.isEmpty = true <;> simp [hempty]
  · simp only
    rw [hlookup, found_ok_bind, Frame.entered]
    rcases value with _ | _ | ⟨ch, value⟩ <;> simp
  · simp only [Frame.entered, List.isEmpty_map]

/-- A section that enters no frame is not written, and its inverse is. -/
theorem renderNode_of_not_entered (hfunction : section?.bind Section.function? = none)
    (hentered : frame.entered value section? = []) :
    renderNode c loader expand (.block key false body source pos) frame =
        renderNodes c loader expand [] frame ∧
      renderNode c loader expand (.block key true body source pos) frame =
        renderNodes c loader expand body frame := by
  rw [renderNode_section hresolve hlookup hfunction, renderNode_inverse hresolve hlookup, hentered,
    renderNodes_nil]
  exact ⟨rfl, rfl⟩

/-- A section that enters only the frame that it is in is written as its body, and its inverse is
not. -/
theorem renderNode_of_entered_self (hfunction : section?.bind Section.function? = none)
    (hentered : frame.entered value section? = [frame]) :
    renderNode c loader expand (.block key false body source pos) frame =
        renderNodes c loader expand body frame ∧
      renderNode c loader expand (.block key true body source pos) frame =
        renderNodes c loader expand [] frame := by
  rw [renderNode_section hresolve hlookup hfunction, renderNode_inverse hresolve hlookup, hentered,
    renderNodes_nil]
  exact ⟨by simp, rfl⟩

end

end Render

open Render

/-- **A section and its inverse.** In every context that a program can make and every frame on one
of its scopes, a section tag whose name stands for no function writes its body in the frames that
the name enters, one after the other up to the first error: in the frame with the fields of its
name, if there are any, in each of its items, or in the frame itself if the name has a text that is
not empty. The inverted tag writes the body once in the frame itself if there are no such frames,
and nothing if there are. Where the name stands for a function, only its text counts for the
inverted tag. -/
theorem Context.Reachable.section_and_inverse {c : Context} (hc : c.Reachable) {frame : Frame}
    (hframe : frame.base < c.scopes.size) (key : Text) :
    ∃ section? value, c.resolve frame.base key = .ok section? ∧
      frame.lookup c key = .ok value ∧
      ∀ {σ ε : Type} (loader : Loader σ ε) (limit budget : Nat) (body : List Node) (source : Text)
          (pos : Position),
        let write := renderWithin c loader limit budget
        ((∀ f, section? ≠ some (.function f)) →
          (∀ state, InTurn (write body) (frame.entered value section?) state
            ((write [.block key false body source pos] frame).run state)) ∧
          write [.block key true body source pos] frame =
            if frame.entered value section? = [] then write body frame else pure []) ∧
        ((∃ f, section? = some (.function f)) →
          write [.block key true body source pos] frame =
            if value.getD [] = [] then write body frame else pure []) := by
  obtain ⟨section?, hresolve, -⟩ := hc.closed.exists_resolve hframe key
  obtain ⟨value, hlookup⟩ := hc.closed.exists_lookup hframe key
  refine ⟨section?, value, hresolve, hlookup, fun loader limit budget body source pos => ?_⟩
  obtain ⟨expand, hwrite⟩ := renderWithin_eq c loader limit budget
  intro write
  simp only [write, hwrite, renderNodes_singleton, renderNode_inverse hresolve hlookup,
    List.isEmpty_iff]
  refine ⟨fun hfunction => ⟨fun state => ?_, trivial⟩, ?_⟩
  · rw [renderNode_section hresolve hlookup]
    · exact inTurn_mapM _ _ _
    · rcases section? with _ | (map | f | scopes)
      · rfl
      · rfl
      · exact absurd rfl (hfunction f)
      · rfl
  · rintro ⟨f, rfl⟩
    rw [Frame.entered]
    cases value.getD [] <;> simp

theorem Context.Reachable.section_and_inverse_of_hidden_items :
    ∃ c, ofJson (.object [(['e'], .array []), (['l'], .array [.bool true, .null])]) = .ok c ∧
      c.Reachable ∧
      let frame : Frame := { base := 0, pushed := [.ofList [(['l'], []), (['e'], ['x'])]] }
      ∀ (loader : Loader Unit Empty) (limit budget : Nat) (body : List Node),
        let write := renderWithin c loader limit budget
        (∀ state, InTurn (write body) [{ base := 1 }, { base := 2 }] state
          ((write [.block ['l'] false body [] .nowhere] frame).run state)) ∧
        write [.block ['l'] true body [] .nowhere] frame = pure [] ∧
        write [.block ['e'] true body [] .nowhere] frame = write body frame := by
  obtain ⟨c, hc, hl, he⟩ : ∃ c,
      ofJson (.object [(['e'], .array []), (['l'], .array [.bool true, .null])]) = .ok c ∧
      c.resolve 0 ['l'] = .ok (some (.items [1, 2])) ∧ c.resolve 0 ['e'] = .ok (some (.items [])) :=
    ⟨_, rfl, rfl, rfl⟩
  have hreachable : c.Reachable := reachable_ofJson hc
  have hroot : 0 < c.scopes.size := lt_size_of_parent_eq hreachable.tree.parent_root
  refine ⟨c, hc, hreachable, ?_⟩
  intro frame loader limit budget body write
  obtain ⟨listed, _, hlisted, -, hwrite⟩ :=
    section_and_inverse hreachable (show frame.base < _ from hroot) ['l']
  obtain ⟨emptied, _, hemptied, -, hwrite'⟩ :=
    section_and_inverse hreachable (show frame.base < _ from hroot) ['e']
  rw [show c.resolve frame.base ['l'] = _ from hl] at hlisted
  rw [show c.resolve frame.base ['e'] = _ from he] at hemptied
  cases hlisted
  cases hemptied
  obtain ⟨hsection, hinverse⟩ := (hwrite loader limit budget body [] .nowhere).1 (by simp)
  exact ⟨hsection, hinverse, ((hwrite' loader limit budget body [] .nowhere).1 (by simp)).2⟩

end Mustache

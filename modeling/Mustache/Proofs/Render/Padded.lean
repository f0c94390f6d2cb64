import Mustache.Proofs.Node.Padded
import Mustache.Proofs.Render.Remade

/-!
# Writing nodes that were indented again

Empty texts between nodes are not seen when the nodes are written. So indents add up, and an empty
indent is none (`Render.indentLines_indentLines`).
-/

namespace Mustache.Render

open Node (Padded indentLines sourceOf)

theorem renderNodes_eq_of_padded {σ ε : Type} {c : Context} {loader : Loader σ ε}
    {expand : Expand σ ε} {ns ns' : List Node} (h : Padded ns ns') (frame : Frame) :
    renderNodes c loader expand ns frame = renderNodes c loader expand ns' frame := by
  induction h generalizing frame with
  | nil => rfl
  | blank _ ih =>
    rw [renderNodes_cons, renderNode, pure_bind, ih]
    exact id_map _
  | cons _ ih => rw [renderNodes_cons, renderNodes_cons, ih]
  | block _ _ ih ih' =>
    rw [renderNodes_cons, renderNodes_cons, renderNode_block_congr ih (.inl rfl), ih']

/-- Both are written alike, whatever the data, the partials, the limit and the frame are. -/
def Interchangeable (ns ns' : List Node) : Prop :=
  ∀ (σ ε : Type) (c : Context) (loader : Loader σ ε) (limit budget : Nat) (frame : Frame),
    renderWithin c loader limit budget ns frame = renderWithin c loader limit budget ns' frame

theorem interchangeable_of_padded {ns ns' : List Node} (h : Padded ns ns') :
    Interchangeable ns ns' := by
  intro σ ε c loader limit budget frame
  obtain ⟨expand, hexpand⟩ := renderWithin_eq c loader limit budget
  rw [hexpand]
  exact renderNodes_eq_of_padded h frame

/-- **Indents add up.** Nodes that are indented by a text without line feeds and then by another
text have the same source text as the nodes indented by both at once, and are written alike. An
empty indent is none, so that a partial can be left as it is where the blanks in front of its
reference are empty. -/
theorem indentLines_indentLines (ns : List Node) :
    (∀ a b : Text, '\n' ∉ a →
      sourceOf (indentLines b (indentLines a ns)) = sourceOf (indentLines (b ++ a) ns) ∧
      Interchangeable (indentLines b (indentLines a ns)) (indentLines (b ++ a) ns)) ∧
    sourceOf (indentLines [] ns) = sourceOf ns ∧ Interchangeable (indentLines [] ns) ns ∧
    ∀ w, Interchangeable (place (some w) ns) (indentLines w ns) := by
  have hnone : Padded (indentLines [] ns) ns := Node.padded_indentFrom_nil true ns
  refine ⟨fun a b ha => ?_, hnone.sourceOf_eq, interchangeable_of_padded hnone, fun w => ?_⟩
  · have hboth : Padded (indentLines b (indentLines a ns)) (indentLines (b ++ a) ns) :=
      Node.padded_indentFrom_indentFrom ha b true ns
    exact ⟨hboth.sourceOf_eq, interchangeable_of_padded hboth⟩
  · cases w with
    | nil =>
      intro σ ε c loader limit budget frame
      exact (interchangeable_of_padded hnone σ ε c loader limit budget frame).symm
    | cons d w => exact fun _ _ _ _ _ _ _ => rfl

/-- A value at the start of a line, and a section with an empty text, a reference on a line of its
own and a value. -/
def listing : List Node :=
  [.value ['n'] false .nowhere, .text ['\n'] .nowhere,
    .block ['l'] false [.text [] .nowhere, .inclusion ['p'] (some ['\t']) .nowhere,
      .value ['.'] true .nowhere] [] .nowhere,
    .text ['\n', 'x'] .nowhere]

theorem sourceOf_listing_indented_twice :
    '\n' ∉ [' '] ∧
    sourceOf (indentLines ['-'] (indentLines [' '] listing)) =
      "- {{n}}\n{{#l}}- \t{{>p}}\n- {{{.}}}{{/l}}\n- x".toList ∧
    Interchangeable (indentLines ['-'] (indentLines [' '] listing))
      (indentLines ['-', ' '] listing) := by
  have hline : '\n' ∉ [' '] := by decide
  obtain ⟨hsource, halike⟩ := (indentLines_indentLines listing).1 [' '] ['-'] hline
  refine ⟨hline, ?_, halike⟩
  rw [hsource]
  rfl

end Mustache.Render

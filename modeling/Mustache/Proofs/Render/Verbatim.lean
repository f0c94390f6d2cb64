import Mustache.Proofs.Except
import Mustache.Proofs.Render.Budget

/-!
# References to partials stand for nodes

A reference to a partial stands for the nodes of the partial, with the blanks in front of each line
that the reference has in front of it. `Node.Spliced` relates nodes to the same nodes with one
reference replaced by what it stands for, however deep it is in sections. Both are written alike
(`Render.renderWithin_eq_of_spliced`), so a partial adds no scope and takes none away.
-/

namespace Mustache

namespace Node

/-- What a reference stands for, when partials come from a table. -/
def expansion (partials : Table Template) (key : Text) (indent : Option Text) : List Node :=
  match partials[key]? with
  | none => []
  | some template =>
    match indent with
    | none => template.nodes
    | some w => if w = [] then template.nodes else indentLines w template.nodes

/-- One reference, at any depth, is replaced by what it stands for. The source texts of the sections
around it stay as they are. -/
inductive Spliced (partials : Table Template) : List Node → List Node → Prop
  | here {key indent pos ns} :
    Spliced partials (.inclusion key indent pos :: ns) (expansion partials key indent ++ ns)
  | behind {n ns ns'} : Spliced partials ns ns' → Spliced partials (n :: ns) (n :: ns')
  | within {key inverted children children' source pos ns} : Spliced partials children children' →
    Spliced partials (.block key inverted children source pos :: ns)
      (.block key inverted children' source pos :: ns)

end Node

namespace Render

open Node (expansion Spliced)

variable {ε : Type} {c : Context} {partials : Table Template}

theorem expansion_of_some {key : Text} {template : Template} (h : partials[key]? = some template)
    (indent : Option Text) : expansion partials key indent = place indent template.nodes := by
  rw [expansion, h]
  obtain _ | w := indent
  · rfl
  · cases w <;> rfl

/-- A reference is written as what it stands for, one expansion deeper. -/
theorem refines_expansion (c : Context) (partials : Table Template) (limit budget : Nat) (key : Text)
    (indent : Option Text) (pos : Position) (frame : Frame) :
    Refines (renderWithin c (.ofTable partials : Loader Unit ε) limit budget
        [.inclusion key indent pos] frame)
      (renderWithin c (.ofTable partials) limit budget (expansion partials key indent) frame) := by
  cases hpartial : partials[key]? with
  | none =>
    have habsent : expansion partials key indent = [] := by rw [expansion, hpartial]
    obtain ⟨expand, hexpand⟩ := renderWithin_eq c (.ofTable partials : Loader Unit ε) limit budget
    have hload : load (.ofTable partials : Loader Unit ε) key = pure none := by
      rw [load, Loader.ofTable, hpartial]
      rfl
    rw [habsent, hexpand, renderNodes_nil, renderNodes_singleton, renderNode, hload, pure_bind]
    exact .refl _
  | some template =>
    have hinclusion : ∀ expand : Expand Unit ε,
        renderNodes c (.ofTable partials) expand [.inclusion key indent pos] frame =
          expand key (place indent template.nodes) frame := by
      intro expand
      have hload : load (.ofTable partials : Loader Unit ε) key = pure (some template.nodes) := by
        rw [load, Loader.ofTable, hpartial]
        rfl
      rw [renderNodes_singleton, renderNode, hload, pure_bind]
    rw [expansion_of_some hpartial]
    cases budget with
    | zero =>
      rw [renderWithin, hinclusion]
      exact refines_throw key limit _
    | succ budget =>
      rw [renderWithin, hinclusion]
      exact refines_renderWithin limit limit budget _ frame

theorem refines_of_spliced {ns ns' : List Node} (h : Spliced partials ns ns') (limit budget : Nat)
    (frame : Frame) :
    Refines (renderWithin c (.ofTable partials : Loader Unit ε) limit budget ns frame)
      (renderWithin c (.ofTable partials) limit budget ns' frame) := by
  have hcongruence := congruence_refines c (.ofTable partials : Loader Unit ε)
  obtain ⟨expand, hexpand⟩ := renderWithin_eq c (.ofTable partials : Loader Unit ε) limit budget
  induction h generalizing frame with
  | @here key indent pos ns =>
    have hsplice := refines_expansion (ε := ε) c partials limit budget key indent pos frame
    rw [hexpand] at hsplice ⊢
    rw [← List.singleton_append, renderNodes_append, renderNodes_append]
    exact hsplice.bind fun first => .refl _
  | behind _ ih =>
    specialize ih frame
    rw [hexpand] at ih ⊢
    rw [renderNodes_cons, renderNodes_cons]
    exact .bind (.refl _) fun first => hcongruence.map ih _
  | within _ ih =>
    rw [hexpand] at ih ⊢
    rw [renderNodes_cons, renderNodes_cons]
    refine .bind (hcongruence.renderNode_block (fun _ _ _ _ => .refl _) (fun frame _ => ih frame)
      trivial) fun first => .refl _

/-- **Partials are expanded in place.** Nodes that are written without exceeding the limit on nested
expansions are written alike, with the same text or the same error, when a reference among them, at
any depth, is replaced by what it stands for. -/
theorem renderWithin_eq_of_spliced {ns ns' : List Node} (h : Spliced partials ns ns')
    (limit budget : Nat) (frame : Frame)
    (hlimit : ¬ Exceeded ((renderWithin c (.ofTable partials : Loader Unit ε) limit budget ns
      frame).run ()).1) :
    (renderWithin c (.ofTable partials : Loader Unit ε) limit budget ns' frame).run () =
      (renderWithin c (.ofTable partials : Loader Unit ε) limit budget ns frame).run () :=
  refines_of_spliced h limit budget frame () hlimit

/-! ### An indented reference inside a list -/

/-- Two items under one name, and a function that gives texts back under another. -/
def rowsContext : Context :=
  ⟨#[{ sections := ((∅ : Table Section).insert ['l'] (.items [1, 2])).insert ['f'] (.function id) },
    { texts := (∅ : Table Text).insert ['n'] ['<'], parent := some 0 },
    { texts := (∅ : Table Text).insert ['n'] ['y'], parent := some 0 }]⟩

/-- The nodes of `{{n}}`, a line feed, `{{#f}}b{{n}}{{/f}}` and a line feed. -/
def row : List Node :=
  [.value ['n'] false .nowhere, .text ['\n'] .nowhere,
    .block ['f'] false [.text ['b'] .nowhere, .value ['n'] false .nowhere]
      "b\x7b\x7bn\x7d\x7d".toList .nowhere,
    .text ['\n'] .nowhere]

/-- One partial with these nodes. -/
def rowPartials : Table Template := .ofList [(['p'], Template.mk row .start)]

/-- What nodes are written as with these data and two expansions. -/
def writeRows (ns : List Node) : Except (RenderError Empty) Text × Unit :=
  (renderWithin rowsContext (.ofTable rowPartials) 2 2 ns { base := 0 }).run ()

theorem writeRows_of_spliced :
    Spliced rowPartials
      [.block ['l'] false [.inclusion ['p'] (some [' ']) .nowhere] [] .nowhere]
      [.block ['l'] false (Node.indentLines [' '] row) [] .nowhere] ∧
    writeRows [.block ['l'] false [.inclusion ['p'] (some [' ']) .nowhere] [] .nowhere] =
      (.ok " &lt;\nb&lt;\n y\nby\n".toList, ()) ∧
    writeRows [.block ['l'] false (Node.indentLines [' '] row) [] .nowhere] =
      (.ok " &lt;\nb&lt;\n y\nby\n".toList, ()) := by
  have hsplice : Spliced rowPartials
      [.block ['l'] false [.inclusion ['p'] (some [' ']) .nowhere] [] .nowhere]
      [.block ['l'] false (Node.indentLines [' '] row) [] .nowhere] := by
    have hpartial : rowPartials[['p']]? = some (Template.mk row .start) := rfl
    have hrow : expansion rowPartials ['p'] (some [' ']) ++ [] = Node.indentLines [' '] row := by
      rw [expansion_of_some hpartial, List.append_nil]
      rfl
    exact hrow ▸ .within .here
  have hwritten : writeRows [.block ['l'] false [.inclusion ['p'] (some [' ']) .nowhere] []
      .nowhere] = (.ok " &lt;\nb&lt;\n y\nby\n".toList, ()) :=
    Prod.ext (eq_ok_of_toOption_eq_some (by decide +kernel)) rfl
  refine ⟨hsplice, hwritten, ?_⟩
  rw [← hwritten]
  refine renderWithin_eq_of_spliced hsplice 2 2 { base := 0 } ?_
  change ¬ Exceeded (writeRows _).1
  rw [hwritten]
  rintro ⟨name, limit, ⟨⟩⟩

end Render

end Mustache

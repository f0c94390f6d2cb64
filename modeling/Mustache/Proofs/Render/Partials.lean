import Mustache.Proofs.Render.Padded
import Mustache.Proofs.Render.Switches

/-!
# Partials with a line of their own

A reference to a partial that is alone on its line writes the nodes of the partial with the blanks in
front of the reference put in front of every line. This is the partial with its text indented as
long as its sections are steady, and, when no two sections have one name, only then.
-/

namespace Mustache

open Node (indentText indentNode indentFrom indentLines)

namespace Render

variable {ε : Type} {w : Text}

/-- Both are written alike, whatever the partials are, and whatever the data are in which no name is
bound to a function. -/
def Alike (ns ns' : List Node) : Prop :=
  ∀ (ε : Type) (partials : Table Template) (c : Context), c.LambdaFree →
    ∀ (limit budget : Nat) (frame : Frame),
      renderWithin c (Loader.ofTable partials : Loader Unit ε) limit budget ns frame =
        renderWithin c (Loader.ofTable partials) limit budget ns' frame

/-! ### No indent -/

theorem alike_indentLines_nil (ns : List Node) : Alike (indentLines [] ns) ns := by
  intro ε partials c _ limit budget frame
  have hpadded := Node.padded_indentFrom_nil true ns
  exact interchangeable_of_padded hpadded Unit ε c (.ofTable partials) limit budget frame

/-! ### Steady templates -/

theorem alike_of_indented {ns ns' : List Node} {e : Debt}
    (h : Node.Indented w .fresh ns ns' [] e) (he : e ≠ .owed) : Alike (indentLines w ns) ns' := by
  intro ε partials c hc limit budget frame
  obtain ⟨expand, hexpand⟩ :=
    renderWithin_eq c (Loader.ofTable partials : Loader Unit ε) limit budget
  have htrails : Trails [] (e.text w)
      (renderNodes c (Loader.ofTable partials) expand (indentLines w ns) frame)
      (renderNodes c (Loader.ofTable partials) expand ns' frame) :=
    trails_of_indented hc h rfl frame
  have hback : e.text w = [] := by
    cases e with
    | owed => exact absurd rfl he
    | fresh | paid => rfl
  rw [hback] at htrails
  rw [hexpand]
  simpa [Trails] using htrails

/-! ### Templates that are not steady -/

/-- The names that must be on for the sections that `hide` picks to be skipped and for all others to
be written. -/
def switchesFor (hide : Text → Bool) (sections : List (Text × Bool)) : List Text :=
  (sections.filter fun s => hide s.1 == s.2).map Prod.fst

theorem eq_of_mem_of_nodup {α β : Type} {l : List (α × β)} {a : α} {b b' : β}
    (hnodup : (l.map Prod.fst).Nodup) (h : (a, b) ∈ l) (h' : (a, b') ∈ l) : b = b' := by
  induction l with
  | nil => cases h
  | cons x l ih =>
    rw [List.map_cons, List.nodup_cons] at hnodup
    rcases List.mem_cons.1 h with rfl | hl
    · rcases List.mem_cons.1 h' with heq | hl'
      · exact (Prod.mk.inj heq).2.symm
      · exact absurd (List.mem_map_of_mem hl') hnodup.1
    · rcases List.mem_cons.1 h' with rfl | hl'
      · exact absurd (List.mem_map_of_mem hl) hnodup.1
      · exact ih hnodup.2 hl hl'

theorem switchesFor_contains (hide : Text → Bool) {sections : List (Text × Bool)}
    (hnodup : (sections.map Prod.fst).Nodup) (key : Text) (inverted : Bool)
    (hmem : (key, inverted) ∈ sections) :
    ((switchesFor hide sections).contains key != inverted) = !hide key := by
  have hiff : key ∈ switchesFor hide sections ↔ hide key = inverted := by
    simp only [switchesFor, List.mem_map, List.mem_filter, beq_iff_eq, Prod.exists,
      exists_and_right, exists_eq_right]
    constructor
    · rintro ⟨inverted', hmem', heq⟩
      rw [heq, eq_of_mem_of_nodup hnodup hmem hmem']
    · intro heq
      exact ⟨inverted, hmem, heq⟩
  have hcontains : (switchesFor hide sections).contains key = (hide key == inverted) := by
    rw [Bool.eq_iff_iff, List.contains_iff_mem, hiff, beq_iff_eq]
  rw [hcontains]
  cases hide key <;> cases inverted <;> rfl

/-- Nodes that are written alike have the same text when names are on or off. -/
theorem Alike.writtenAll_eq {ns ns' : List Node} (h : Alike ns ns') (names : List Text) :
    Node.writtenAll names.contains ns = Node.writtenAll names.contains ns' := by
  have hrender := h Empty ∅ (.switched names) Context.lambdaFree_switched 0 0 { base := Context.root }
  rw [renderWithin, renderNodes_switched, renderNodes_switched] at hrender
  have hrun := congrArg (fun m => (m.run ()).1) hrender
  exact Except.ok.inj hrun

/-- What an unsteady template shows when just one of its sections is skipped, or none. -/
theorem eq_nil_of_alike (hw : w ≠ []) {ns ns' : List Node} {us : List Text} {e : Debt}
    (h : Node.Indented w .fresh ns ns' us e) (hnodup : ((Node.sectionsOf ns).map Prod.fst).Nodup)
    (halike : Alike (indentLines w ns) ns') : us = [] ∧ e ≠ .owed := by
  have he : e ≠ .owed := by
    rintro rfl
    have hshown := h.writtenAll_eq (switchesFor_contains (fun _ => false) hnodup)
    have hlength := congrArg List.length hshown
    have hwpos := List.length_pos_iff.2 hw
    have heq := congrArg List.length
      (halike.writtenAll_eq (switchesFor (fun _ => false) (Node.sectionsOf ns)))
    change (Node.writtenAll _ (indentLines w ns) ++ w).length = _ at hlength
    simp only [List.length_append, Debt.text, List.length_nil, Nat.zero_add] at hlength
    omega
  have hback : e.text w = [] := by
    cases e with
    | owed => exact absurd rfl he
    | fresh | paid => rfl
  refine ⟨List.eq_nil_iff_forall_not_mem.2 fun skipped hskipped => ?_, he⟩
  have hne := h.length_ne hw hskipped hnodup (switchesFor_contains (· == skipped) hnodup)
  rw [hback] at hne
  change (Node.writtenAll _ (indentLines w ns)).length + 0 ≠ 0 + _ at hne
  rw [halike.writtenAll_eq] at hne
  omega

end Render

namespace Template

open Render

/-- **Indenting a partial.** The nodes of a template with `w` put in front of every line, and the
nodes of the template whose text has `w` in front of every line, are written alike if the sections
of the template are steady. If no two sections have one name, they are written alike only then. -/
theorem indentLines_alike {w source : Text} {template : Template} {tokens : List Token}
    (hw : w.all Text.isLineBlank) (hscan : Token.scan source = .ok tokens)
    (hparse : parse source = .ok template) (hplain : ∀ t ∈ tokens, t.Plain) :
    ∃ template', parse (source.indented w) = .ok template' ∧
      (w = [] ∨ Token.Steady tokens → Alike (indentLines w template.nodes) template'.nodes) ∧
      (((Node.sectionsOf template.nodes).map Prod.fst).Nodup →
        Alike (indentLines w template.nodes) template'.nodes → w = [] ∨ Token.Steady tokens) := by
  by_cases hnil : w = []
  · subst hnil
    refine ⟨template, ?_, fun _ => alike_indentLines_nil _, fun _ _ => .inl rfl⟩
    rw [Text.indented_eq_indentText, Text.indentText_nil, hparse]
  · obtain ⟨template', e, hparse', hindented, he⟩ := parse_indented hw hnil hscan hparse hplain
    refine ⟨template', hparse', fun hsteady => ?_, fun hnodup halike => .inr ?_⟩
    · obtain ⟨hus, hlast⟩ := hsteady.resolve_left hnil
      rw [hus] at hindented
      rw [hlast] at he
      exact alike_of_indented hindented fun howed => by simp [howed] at he
    · obtain ⟨hus, hne⟩ := eq_nil_of_alike hnil hindented hnodup halike
      exact ⟨hus, he.trans (beq_eq_false_iff_ne.2 hne)⟩

/-- Sections in the middle of a line and sections whose tags have lines of their own. -/
theorem steady_partial :
    (Token.scan "a{{#s}}b{{/s}}\n{{#t}}\n\tc{{v}}\n{{/t}}\n{{>q}}\n".toList).toOption.any
      (fun tokens => (∀ t ∈ tokens, t.Plain) ∧ Token.Steady tokens) &&
    (parse "a{{#s}}b{{/s}}\n{{#t}}\n\tc{{v}}\n{{/t}}\n{{>q}}\n".toList).toOption.isSome := by
  decide +kernel

theorem alike_of_steady_partial :
    ∃ template template',
      parse "a{{#s}}b{{/s}}\n{{#t}}\n\tc{{v}}\n{{/t}}\n{{>q}}\n".toList = .ok template ∧
      parse (Text.indented "a{{#s}}b{{/s}}\n{{#t}}\n\tc{{v}}\n{{/t}}\n{{>q}}\n".toList [' ', '\t']) =
        .ok template' ∧
      Alike (indentLines [' ', '\t'] template.nodes) template'.nodes := by
  have hboth := steady_partial
  rw [Bool.and_eq_true, Option.any_eq_true, Option.isSome_iff_exists] at hboth
  obtain ⟨⟨tokens, htokens, hsteady⟩, template, htemplate⟩ := hboth
  obtain ⟨hplain, hsteady⟩ := of_decide_eq_true hsteady
  have hparse := eq_ok_of_toOption_eq_some htemplate
  obtain ⟨template', hparse', halike, -⟩ := indentLines_alike
    (by decide : ([' ', '\t'] : Text).all Text.isLineBlank)
    (eq_ok_of_toOption_eq_some htokens) hparse hplain
  exact ⟨template, template', hparse, hparse', halike (.inr hsteady)⟩

/-- **The indent of a line is lost** when it starts with a section that is skipped: a reference that
is alone on its line gives the line of the partial no indent, which its indented text has. -/
theorem indent_lost_with_skipped_section :
    (do
      let template ← (parse "{{#a}}x{{/a}}y\n".toList).toOption
      let page ← (parse "  {{>p}}\n".toList).toOption
      let r : Renderer Unit Empty :=
        { loader := Loader.ofTable (.ofList [(['p'], template)]), state := () }
      (r.render page.nodes Context.empty).1.toOption) = some "y\n".toList ∧
    (do
      let template' ← (parse (Text.indented "{{#a}}x{{/a}}y\n".toList [' ', ' '])).toOption
      let r : Renderer Unit Empty := { loader := Loader.none, state := () }
      (r.render template'.nodes Context.empty).1.toOption) = some "  y\n".toList := by
  decide +kernel

end Template

end Mustache

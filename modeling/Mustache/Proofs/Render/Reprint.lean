import Mustache.Proofs.Render.Partials
import Mustache.Proofs.Render.Remade
import Mustache.Proofs.Template.Reprint

/-!
# Templates that are written back are written alike

The nodes of a template, written as a template again, parse to nodes that are written as the first
ones are, when no tag comes to stand alone on a line that was not its own
(`Template.sourceOf_alike`). A section whose tags had lines of their own can lose a line.
-/

namespace Mustache

namespace Template

open Node (Mark Along printed marksOf remadeOf)
open Render (Alike renderNodes_eq_of_remadeOf renderWithin_eq)
open Token

/-- A reference that had a line of its own is written at the start of a line, and any other tag that
is alone on its line is the end of what is written and has nothing in front of it on that line. -/
def KeepsLines (front : Text) (m : Mark) (post : List Mark) : Prop :=
  match m with
  | .leaf (.inclusion _ (some _) _) => front.AtLineStart
  | .leaf (.inclusion _ none _) | .opening _ _ _ | .closing _ =>
    AloneBetween front (printed post) → front.AtLineStart ∧ printed post = []
  | .leaf (.text _ _) | .leaf (.value _ _ _) | .leaf (.block ..) => True

instance (front : Text) (m : Mark) (post : List Mark) : Decidable (KeepsLines front m post) :=
  match m with
  | .leaf (.inclusion _ (some _) _) => inferInstanceAs (Decidable front.AtLineStart)
  | .leaf (.inclusion _ none _) => inferInstanceAs (Decidable (_ → _))
  | .opening _ _ _ => inferInstanceAs (Decidable (_ → _))
  | .closing _ => inferInstanceAs (Decidable (_ → _))
  | .leaf (.text _ _) | .leaf (.value _ _ _) | .leaf (.block ..) => .isTrue trivial

/-- An empty indent is written as none. -/
def shownIndent (indent : Option Text) : Option Text := indent.filter (!·.isEmpty)

theorem place_shownIndent (indent : Option Text) (ns : List Node) :
    Render.place (shownIndent indent) ns = Render.place indent ns := by
  rcases indent with _ | _ | ⟨c, w⟩ <;> rfl

theorem laidOut_of_alone {front : Text} {m : Mark} {post : List Mark} (hline : m.line? = none)
    (h : AloneBetween front (printed post) → front.AtLineStart ∧ printed post = []) :
    LaidOut shownIndent front m post := by
  rw [LaidOut, hline]
  intro kind key lead trail _ _ hlead htrail
  obtain ⟨hstart, hend⟩ := h ⟨by rw [hlead]; rfl, by rw [htrail]; rfl⟩
  have hlead' := Text.lead?_append_of_atLineStart hstart (w := []) rfl
  rw [List.append_nil, hlead] at hlead'
  rw [hend] at htrail
  cases hlead'
  cases htrail
  exact ⟨rfl, rfl, rfl⟩

theorem KeepsLines.laidOut {front : Text} {m : Mark} {post : List Mark}
    (h : KeepsLines front m post) : LaidOut shownIndent front m post := by
  unfold KeepsLines at h
  split at h
  · exact h
  · exact laidOut_of_alone rfl h
  · exact laidOut_of_alone rfl h
  · exact laidOut_of_alone rfl h
  · rintro kind key lead trail ⟨⟩
  · next raw pos =>
    rintro kind key lead trail ⟨⟩ hkind
    cases raw <;> cases hkind
  · rintro kind key lead trail ⟨⟩

/-- Nodes that are the same but for places, source texts and empty indents are written alike. -/
theorem alike_of_remadeOf {ns ns' : List Node} {sourceAs sourceAs' : Text → List Node → Text}
    (h : remadeOf shownIndent sourceAs ns = remadeOf shownIndent sourceAs' ns') : Alike ns ns' := by
  intro ε partials c hc limit budget frame
  obtain ⟨expand, hexpand⟩ :=
    renderWithin_eq c (Loader.ofTable partials : Loader Unit ε) limit budget
  rw [hexpand]
  exact renderNodes_eq_of_remadeOf place_shownIndent (.inl hc) (.inl hc) h frame

/-- **Templates that are written back.** The nodes of a template without comments and changes of
delimiters, whose names make no other tags, can be written as a template that parses. Its nodes are
written alike if the lines of the tags are kept. -/
theorem sourceOf_alike {source : Text} {template : Template} {tokens : List Token}
    (hscan : scan source = .ok tokens) (hparse : parse source = .ok template)
    (hsilent : ∀ t ∈ tokens, t.kind.isSilent = false)
    (hnames : ∀ m ∈ marksOf template.nodes, Spellable m) :
    ∃ template', parse (Node.sourceOf template.nodes) = .ok template' ∧
      (Along KeepsLines [] (marksOf template.nodes) → Alike template'.nodes template.nodes) := by
  obtain ⟨tokens', hscan', hnest⟩ := exists_of_parse hparse
  rw [hscan] at hscan'
  cases hscan'
  rw [marksOf_of_nest hnest] at hnames
  have hspelled : Spelled tokens := spelled_of_scan hscan fun t ht hkind => by
    simpa [hkind, Kind.isSilent] using hsilent t ht
  have hclean := clean_of_settleFrom hspelled hsilent hnames []
  rw [← settle, ← marksOf_of_nest hnest] at hclean
  have hlegible := hclean.imp fun _ _ _ h => h.1
  have hdepth := (nest_eq_ok_iff.1 hnest).2
  obtain ⟨template', hparse'⟩ := exists_parse_of_legible hlegible hdepth
  refine ⟨template', hparse', fun hkeeps => ?_⟩
  obtain ⟨template'', hparse'', hnodes⟩ := exists_parse_sourceOf hlegible
    (hkeeps.imp fun _ _ _ => KeepsLines.laidOut) (hclean.imp fun _ _ _ h => h.2) hdepth
  rw [hparse'] at hparse''
  cases hparse''
  exact alike_of_remadeOf hnodes

/-- A reference on a line of its own, and a section whose tags have lines of their own. -/
theorem menu_keepsLines :
    (scan "head\n{{>nav}}\n{{#i}}\n- {{ name }}\n{{/i}}\n".toList).toOption.any
      (fun tokens => ∀ t ∈ tokens, t.kind.isSilent = false) &&
    (parse "head\n{{>nav}}\n{{#i}}\n- {{ name }}\n{{/i}}\n".toList).toOption.any
      (fun template : Template => (∀ m ∈ marksOf template.nodes, Spellable m) ∧
        Along KeepsLines [] (marksOf template.nodes) ∧
        Node.sourceOf template.nodes =
          "head\n{{>nav}}\n{{#i}}- {{name}}\n{{/i}}".toList) := by
  decide +kernel

theorem alike_of_menu :
    ∃ template template',
      parse "head\n{{>nav}}\n{{#i}}\n- {{ name }}\n{{/i}}\n".toList = .ok template ∧
      parse "head\n{{>nav}}\n{{#i}}- {{name}}\n{{/i}}".toList = .ok template' ∧
      Alike template'.nodes template.nodes := by
  have hboth := menu_keepsLines
  rw [Bool.and_eq_true, Option.any_eq_true, Option.any_eq_true] at hboth
  obtain ⟨⟨tokens, htokens, hsilent⟩, template, htemplate, hkeeps⟩ := hboth
  obtain ⟨hnames, hkeeps, hsource⟩ := of_decide_eq_true hkeeps
  have hparse := eq_ok_of_toOption_eq_some htemplate
  obtain ⟨template', hparse', halike⟩ := sourceOf_alike (eq_ok_of_toOption_eq_some htokens) hparse
    (of_decide_eq_true hsilent) hnames
  rw [hsource] at hparse'
  exact ⟨template, template', hparse, hparse', halike hkeeps⟩

/-- **A line is lost** when the nodes of a section whose start has a line of its own begin with a
line feed: they are written behind the start of the section, which then takes that line. -/
theorem line_lost_when_written_back :
    (do
      let template ← (parse "{{^a}}\n\ny{{/a}}".toList).toOption
      let template' ← (parse (Node.sourceOf template.nodes)).toOption
      let r : Renderer Unit Empty := { loader := Loader.none, state := () }
      return (← (r.render template.nodes Context.empty).1.toOption,
        ← (r.render template'.nodes Context.empty).1.toOption)) =
      some ("\ny".toList, "y".toList) := by
  decide +kernel

/-- A name that starts like another tag is written without the blank that kept it apart. -/
example :
    (parse "{{ #a }}".toList).toOption.map (fun template => Node.sourceOf template.nodes) =
      some "{{#a}}".toList ∧ (parse "{{#a}}".toList).toOption.isNone := by
  decide +kernel

end Template

end Mustache

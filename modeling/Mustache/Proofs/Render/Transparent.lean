import Mustache.Proofs.Render.Budget
import Mustache.Proofs.Render.Remade
import Mustache.Proofs.Template.Local

/-!
# Functions that give the text of a section back

A section whose name is bound to a function that gives its text back is written as its children.
The text is read by itself, between braces, so this needs a text that other delimiters split alike.
-/

namespace Mustache

namespace Render

open Node (unplacedOf)

variable {σ ε : Type} {c : Context} {loader : Loader σ ε} {frame : Frame} {key source : Text}
  {f : Text → Text} {children : List Node} {pos : Position}

theorem renderWithin_eq_of_unplacedOf {ns ns' : List Node} (h : unplacedOf ns = unplacedOf ns')
    (limit budget : Nat) (frame : Frame) :
    renderWithin c loader limit budget ns frame = renderWithin c loader limit budget ns' frame := by
  obtain ⟨expand, hexpand⟩ := renderWithin_eq c loader limit budget
  rw [hexpand]
  exact renderNodes_eq_of_remadeOf (fun _ _ => rfl) (.inr fun _ _ => rfl) (.inr fun _ _ => rfl)
    h frame

/-- A section whose text becomes its children again is written as they are, one expansion deeper. -/
theorem refines_function_block {template : Template}
    (hfunction : c.resolve frame.base key = .ok (some (.function f)))
    (hparse : Template.parse (f source) = .ok template)
    (hnodes : unplacedOf template.nodes = unplacedOf children) (limit budget : Nat) :
    Refines (renderWithin c loader limit budget [.block key false children source pos] frame)
      (renderWithin c loader limit budget children frame) := by
  have hblock : ∀ expand : Expand σ ε,
      renderNodes c loader expand [.block key false children source pos] frame =
        expand key template.nodes frame := by
    intro expand
    rw [renderNodes_singleton, renderNode, hfunction, found_ok_bind]
    simp only [hparse]
  cases budget with
  | zero =>
    rw [renderWithin, hblock]
    exact refines_throw key limit _
  | succ budget =>
    rw [renderWithin, hblock, renderWithin_eq_of_unplacedOf hnodes]
    exact refines_renderWithin limit limit budget children frame

/-- An inverted section asks for the text of its name only. -/
theorem renderWithin_inverted_function_block
    (hfunction : c.resolve frame.base key = .ok (some (.function f)))
    (htext : frame.lookup c key = .ok none ∨ frame.lookup c key = .ok (some []))
    (limit budget : Nat) :
    renderWithin c loader limit budget [.block key true children source pos] frame =
      renderWithin c loader limit budget children frame := by
  obtain ⟨expand, hexpand⟩ := renderWithin_eq c loader limit budget
  rw [hexpand, renderNodes_singleton, renderNode, hfunction, found_ok_bind]
  rcases htext with htext | htext
  · rw [htext]
    rfl
  · rw [htext]
    rfl

/-- A section whose text parses to its children is written as they are, if its name is bound to a
function that gives this text back. -/
theorem refines_block {template : Template} {inverted : Bool}
    (hfunction : c.resolve frame.base key = .ok (some (.function f))) (hsource : f source = source)
    (hparse : Template.parse source = .ok template)
    (hnodes : unplacedOf template.nodes = unplacedOf children)
    (htext : inverted = true → frame.lookup c key = .ok none ∨ frame.lookup c key = .ok (some []))
    (limit budget : Nat) :
    Refines (renderWithin c loader limit budget [.block key inverted children source pos] frame)
      (renderWithin c loader limit budget children frame) := by
  cases inverted with
  | false => exact refines_function_block hfunction (hsource.symm ▸ hparse) hnodes limit budget
  | true =>
    rw [renderWithin_inverted_function_block hfunction (htext rfl)]
    exact .refl _

end Render

namespace Template

open Node (Inside unplacedOf)
open Token Render

/-- **A section is written as its children** when its name is bound to a function that gives its
text back, something is written at both ends of this text, and the limit on nested expansions is not
exceeded. An inverted section is written at all only if the name has no other text. -/
theorem exists_parse_body_and_refines {source key body : Text} {tokens : List Token}
    {template : Template} {inverted : Bool} {children : List Node} {pos : Position}
    (hscan : scan source = .ok tokens) (hparse : parse source = .ok template)
    (hkeeps : ∀ t ∈ tokens, t.kind ≠ .delimiters)
    (hin : Inside (.block key inverted children body pos) template.nodes) :
    ∃ inner, scan body = .ok inner ∧ (StartsInText inner → EndsInText inner →
      ∃ template', parse body = .ok template' ∧
        unplacedOf template'.nodes = unplacedOf children ∧
        ∀ (σ ε : Type) (c : Context) (loader : Loader σ ε) (limit budget : Nat) (frame : Frame)
          (f : Text → Text), c.resolve frame.base key = .ok (some (.function f)) →
          f body = body →
          (inverted = true →
            frame.lookup c key = .ok none ∨ frame.lookup c key = .ok (some [])) →
          Refines (renderWithin c loader limit budget [.block key inverted children body pos] frame)
            (renderWithin c loader limit budget children frame)) := by
  obtain ⟨inner, hinner, hlocal⟩ := exists_parse_body hscan hparse hkeeps hin
  refine ⟨inner, hinner, fun hstarts hends => ?_⟩
  obtain ⟨template', hparse', hnodes⟩ := hlocal hstarts hends
  refine ⟨template', hparse', hnodes, ?_⟩
  intro σ ε c loader limit budget frame f hfunction hbody htext
  cases inverted with
  | false =>
    rw [← hbody] at hparse'
    exact refines_function_block hfunction hparse' hnodes limit budget
  | true =>
    rw [renderWithin_inverted_function_block hfunction (htext rfl)]
    exact .refl _

/-- A section with tags on lines of their own inside, and text at both ends. -/
def echoed : Text := "{{#f}}a {{n}}\n{{^g}}\n b\n{{/g}}\n  !{{/f}}".toList

/-- The text between the tags of `echoed`. -/
def echoedBody : Text := "a {{n}}\n{{^g}}\n b\n{{/g}}\n  !".toList

/-- A scope that binds a name to a text, and a name to a function that gives texts back. -/
def echoing (key text : Text) : Scope where
  texts := (∅ : Table Text).insert key text
  sections := (∅ : Table Section).insert ['f'] (.function id)

theorem resolve_echoing (key text : Text) :
    Context.resolve ⟨#[echoing key text]⟩ 0 ['f'] = .ok (some (.function id)) := by
  have hchain : Context.chain ⟨#[echoing key text]⟩ 0 = .ok [echoing key text] := rfl
  have hsection : ∀ {α : Type} (pick : Section → Option α),
      Context.fetchSection pick ⟨#[echoing key text]⟩ 0 ['f'] = .ok (pick (.function id)) := by
    intro α pick
    rw [Context.fetchSection, hchain, Except.map, List.findSome?_singleton, echoing,
      Table.getElem?_insert]
    rfl
  rw [Context.resolve, Context.fetchFields, hsection, Context.fetchFunction, hsection]
  rfl

/-- What nodes are written as against one scope, with one expansion. -/
def echo (s : Scope) (ns : List Node) : Except (RenderError Empty) Text × Unit :=
  (renderWithin ⟨#[s]⟩ Loader.none 1 1 ns { base := 0 }).run ()

theorem echo_eq_of_refines {s : Scope} {ns ns' : List Node} {out : Text}
    (h : Refines
      (renderWithin (σ := Unit) (ε := Empty) ⟨#[s]⟩ Loader.none 1 1 ns { base := 0 })
      (renderWithin ⟨#[s]⟩ Loader.none 1 1 ns' { base := 0 }))
    (hecho : echo s ns = (.ok out, ())) : echo s ns' = (.ok out, ()) := by
  refine (h () ?_).trans hecho
  change ¬ Exceeded (echo s ns).1
  rw [hecho]
  rintro ⟨name, limit, ⟨⟩⟩

theorem echoed_is_section :
    (scan echoed).toOption.any (fun tokens => ∀ t ∈ tokens, t.kind ≠ .delimiters) &&
    (scan echoedBody).toOption.any (fun inner => StartsInText inner ∧ EndsInText inner) &&
    (parse echoed).toOption.any fun template =>
      (echo (echoing ['n'] ['<']) template.nodes).1.toOption = some "a &lt;\n b\n  !".toList &&
      match template.nodes with
      | [.block ['f'] false _ body _] => body = echoedBody
      | _ => false := by
  decide +kernel

theorem echoed_is_written_as_its_children :
    ∃ children pos template template', parse echoed = .ok template ∧
      template.nodes = [.block ['f'] false children echoedBody pos] ∧
      parse echoedBody = .ok template' ∧ unplacedOf template'.nodes = unplacedOf children ∧
      echo (echoing ['n'] ['<']) template.nodes = (.ok "a &lt;\n b\n  !".toList, ()) ∧
      echo (echoing ['n'] ['<']) children = (.ok "a &lt;\n b\n  !".toList, ()) := by
  have hsection := echoed_is_section
  rw [Bool.and_eq_true, Bool.and_eq_true, Option.any_eq_true, Option.any_eq_true,
    Option.any_eq_true] at hsection
  obtain ⟨⟨⟨tokens, hscan, hkeeps⟩, inner, hinner, hends⟩, template, hparse, htemplate⟩ := hsection
  rw [Bool.and_eq_true] at htemplate
  obtain ⟨hecho, hblock⟩ := htemplate
  replace hecho := eq_ok_of_toOption_eq_some (of_decide_eq_true hecho)
  obtain ⟨hstarts, hends⟩ := of_decide_eq_true hends
  split at hblock
  · next children body pos hnodes =>
    obtain rfl := of_decide_eq_true hblock
    have hin : Inside (.block ['f'] false children echoedBody pos) template.nodes := by
      rw [hnodes]
      exact .head
    obtain ⟨inner', hinner', hlocal⟩ := exists_parse_body_and_refines
      (eq_ok_of_toOption_eq_some hscan) (eq_ok_of_toOption_eq_some hparse)
      (of_decide_eq_true hkeeps) hin
    rw [eq_ok_of_toOption_eq_some hinner] at hinner'
    cases hinner'
    obtain ⟨template', hparse', hsame, hrefines⟩ := hlocal hstarts hends
    have hecho : echo (echoing ['n'] ['<']) template.nodes = (.ok "a &lt;\n b\n  !".toList, ()) :=
      Prod.ext hecho rfl
    refine ⟨children, pos, template, template', eq_ok_of_toOption_eq_some hparse, hnodes, hparse',
      hsame, hecho, ?_⟩
    rw [hnodes] at hecho
    exact echo_eq_of_refines (hrefines Unit Empty ⟨#[echoing ['n'] ['<']]⟩ Loader.none 1 1
      { base := 0 } id (resolve_echoing _ _) rfl nofun) hecho
  · cases hblock

/-- **An inverted section of a name with a text** is not written, even if the name is bound to a
function that gives the text of the section back. -/
theorem inverted_echo_skipped :
    Context.resolve ⟨#[echoing ['f'] ['1'] ]⟩ 0 ['f'] = .ok (some (.function id)) ∧
    (parse "{{^f}}x{{/f}}".toList).toOption.any fun template =>
      match template.nodes with
      | [.block ['f'] true children body _] =>
        (scan body).toOption.any (fun inner => StartsInText inner ∧ EndsInText inner) ∧
          (echo (echoing ['f'] ['1']) template.nodes).1.toOption = some [] ∧
          (echo (echoing ['f'] ['1']) children).1.toOption = some ['x']
      | _ => false :=
  ⟨resolve_echoing _ _, by decide +kernel⟩

/-! ### Under other delimiters -/

/-- **The text of a section keeps its meaning with its delimiters.** With the delimiters in force at
the start of the section its text has the tokens that nest into the children, if something is
written at both of its ends. A section whose name is bound to a function that gives this text back
is written as its children, provided `{{` and `}}` split the text into the same tokens. -/
theorem exists_nest_body_and_refines {source key body : Text} {template : Template}
    {inverted : Bool} {children : List Node} {pos : Position} (hparse : parse source = .ok template)
    (hin : Inside (.block key inverted children body pos) template.nodes) :
    ∃ before front rest d inner, scan source = .ok (before ++ front :: rest) ∧
      front.kind = .opening inverted ∧ front.pos = pos ∧ InForce .braces before d ∧
      scanFrom d .start body = .ok inner ∧
      (StartsInText inner → EndsInText inner →
        ∃ nodes, nest (settle inner) = .ok nodes ∧ unplacedOf nodes = unplacedOf children ∧
          (scan body = .ok inner →
            ∀ (σ ε : Type) (c : Context) (loader : Loader σ ε) (limit budget : Nat) (frame : Frame)
              (f : Text → Text), c.resolve frame.base key = .ok (some (.function f)) →
              f body = body →
              (inverted = true →
                frame.lookup c key = .ok none ∨ frame.lookup c key = .ok (some [])) →
              Refines
                (renderWithin c loader limit budget [.block key inverted children body pos] frame)
                (renderWithin c loader limit budget children frame))) := by
  obtain ⟨tokens, hscan, -⟩ := exists_of_parse hparse
  obtain ⟨before, front, rest, d, inner, rfl, hfront, hpos, hforce, hinner, hlocal⟩ :=
    exists_nest_body hscan hparse hin
  refine ⟨before, front, rest, d, inner, hscan, hfront, hpos, hforce, hinner, ?_⟩
  intro hstarts hends
  obtain ⟨nodes, hnest, hnodes⟩ := hlocal hstarts hends
  refine ⟨nodes, hnest, hnodes, ?_⟩
  intro hbraces σ ε c loader limit budget frame f hfunction hbody htext
  have hparse' : parse body = .ok { nodes } := by simp [parse, hbraces, hnest]
  exact refines_block hfunction hbody hparse' hnodes htext limit budget

/-- A section behind two changes of delimiters, with a third one in its text. -/
def changing : Text := "{{=<% %>=}}<%={{ }}=%>{{#f}}a {{n}} {{=[ ]=}}[n] b[/f]".toList

/-- The text between the tags of `changing`. -/
def changingBody : Text := "a {{n}} {{=[ ]=}}[n] b".toList

theorem changing_is_section :
    (scan changing).toOption.any (fun tokens =>
      match tokens with
      | t₀ :: t₁ :: _ :: ts => t₀.kind = .delimiters ∧ t₁.kind = .delimiters ∧
        t₁.content = "{{ }}".toList ∧ ∀ t ∈ ts, t.kind ≠ .opening false
      | _ => false) &&
    (scan changingBody).toOption.any (fun inner => StartsInText inner ∧ EndsInText inner) &&
    (parse changing).toOption.any fun template =>
      (echo (echoing ['n'] ['<']) template.nodes).1.toOption = some "a &lt; &lt; b".toList &&
      match template.nodes with
      | [.block ['f'] false _ body _] => body = changingBody
      | _ => false := by
  decide +kernel

/-- The one section of `changing` starts with braces in force. -/
theorem eq_braces_of_inForce {ts before rest : List Token} {t₀ t₁ t₂ front : Token} {d : Delimiters}
    (htokens : before ++ front :: rest = t₀ :: t₁ :: t₂ :: ts) (hfront : front.kind = .opening false)
    (hforce : InForce .braces before d) (h₀ : t₀.kind = .delimiters) (h₁ : t₁.kind = .delimiters)
    (hcontent : t₁.content = "{{ }}".toList) (hts : ∀ t ∈ ts, t.kind ≠ .opening false) :
    d = .braces := by
  match before with
  | [] =>
    cases htokens
    simp [hfront] at h₀
  | [_] =>
    cases htokens
    simp [hfront] at h₁
  | [_, _] =>
    cases htokens
    have hstand : d.StandIn t₁.content :=
      (inForce_concat_of_eq h₁).1 (show InForce .braces ([t₀] ++ [t₁]) d from hforce)
    rw [hcontent] at hstand
    exact hstand.unique (Delimiters.ofContent?_eq_some_iff.1 rfl)
  | _ :: _ :: _ :: before =>
    cases htokens
    exact absurd hfront (hts front (by simp))

theorem changing_is_written_as_its_children :
    ∃ children pos template, parse changing = .ok template ∧
      template.nodes = [.block ['f'] false children changingBody pos] ∧
      echo (echoing ['n'] ['<']) template.nodes = (.ok "a &lt; &lt; b".toList, ()) ∧
      echo (echoing ['n'] ['<']) children = (.ok "a &lt; &lt; b".toList, ()) := by
  have hsection := changing_is_section
  rw [Bool.and_eq_true, Bool.and_eq_true, Option.any_eq_true, Option.any_eq_true,
    Option.any_eq_true] at hsection
  obtain ⟨⟨⟨tokens, htokens, hkinds⟩, inner, hinner, hends⟩, template, hparse, htemplate⟩ := hsection
  rw [Bool.and_eq_true] at htemplate
  obtain ⟨hecho, hblock⟩ := htemplate
  replace hecho := eq_ok_of_toOption_eq_some (of_decide_eq_true hecho)
  obtain ⟨hstarts, hends⟩ := of_decide_eq_true hends
  split at hblock
  · next children body pos hnodes =>
    obtain rfl := of_decide_eq_true hblock
    have hin : Inside (.block ['f'] false children changingBody pos) template.nodes := by
      rw [hnodes]
      exact .head
    obtain ⟨before, front, rest, d, inner', hscan, hfront, -, hforce, hinner', hlocal⟩ :=
      exists_nest_body_and_refines (eq_ok_of_toOption_eq_some hparse) hin
    rw [eq_ok_of_toOption_eq_some htokens] at hscan
    cases hscan
    split at hkinds
    · next heq =>
      obtain ⟨h₀, h₁, hcontent, hts⟩ := of_decide_eq_true hkinds
      obtain rfl := eq_braces_of_inForce heq hfront hforce h₀ h₁ hcontent hts
      have hscanBody := eq_ok_of_toOption_eq_some hinner
      rw [scan, hinner'] at hscanBody
      cases hscanBody
      obtain ⟨nodes, -, -, hrefines⟩ := hlocal hstarts hends
      have hecho : echo (echoing ['n'] ['<']) template.nodes = (.ok "a &lt; &lt; b".toList, ()) :=
        Prod.ext hecho rfl
      refine ⟨children, pos, template, eq_ok_of_toOption_eq_some hparse, hnodes, hecho, ?_⟩
      rw [hnodes] at hecho
      exact echo_eq_of_refines (hrefines hinner' Unit Empty ⟨#[echoing ['n'] ['<']]⟩ Loader.none 1 1
        { base := 0 } id (resolve_echoing _ _) rfl (by simp)) hecho
    · cases hkinds
  · cases hblock

/-- **Text that is not split alike.** A section that is written with other delimiters is not written
as its children: in its text, read by itself, their tags are no tags. Nor is an inverted section of a
name with a text. -/
theorem echo_with_other_delimiters :
    (Context.resolve ⟨#[echoing ['n'] ['1'] ]⟩ 0 ['f'] = .ok (some (.function id)) ∧
      (parse "{{=<% %>=}}<%#f%>a <%n%> b<%/f%>".toList).toOption.any fun template =>
        match template.nodes with
        | [.block ['f'] false children body _] =>
          body = "a <%n%> b".toList ∧
            (scanFrom ⟨['<', '%'], ['%', '>'], by decide, by decide⟩ .start body).toOption.any
              (fun inner => StartsInText inner ∧ EndsInText inner) ∧
            (echo (echoing ['n'] ['1']) template.nodes).1.toOption = some "a <%n%> b".toList ∧
            (echo (echoing ['n'] ['1']) children).1.toOption = some "a 1 b".toList
        | _ => false) ∧
    Context.resolve ⟨#[echoing ['f'] ['1'] ]⟩ 0 ['f'] = .ok (some (.function id)) ∧
    (parse "{{^f}}x{{/f}}{{=<% %>=}}".toList).toOption.any fun template =>
      match template.nodes with
      | [.block ['f'] true children ['x'] _] =>
        (echo (echoing ['f'] ['1']) template.nodes).1.toOption = some [] ∧
          (echo (echoing ['f'] ['1']) children).1.toOption = some ['x']
      | _ => false :=
  ⟨⟨resolve_echoing _ _, by decide +kernel⟩, resolve_echoing _ _, by decide +kernel⟩

end Template

end Mustache

import Mustache.Proofs.Context.Populate
import Mustache.Proofs.Render.Names
import Mustache.Proofs.Render.Nodes

/-!
# Rendering a context made from JSON

Nodes are written alike in a frame and in the environment that it shows, so a template is written
from the context of an object as it is written from the object itself
(`Renderer.exists_render_ofJson`).
-/

namespace Mustache

open Json (Members)
open Context (Chained)
open Direct (Env nearestFields?)

variable {ε α β : Type} {c : Context}

namespace Render

/-- A result that does not depend on the state of a loader. -/
def stateless (result : Except (RenderError ε) α) : RenderM Unit ε α := .mk (pure result)

theorem stateless_bind (result : Except (RenderError ε) α) (f : α → Except (RenderError ε) β) :
    stateless (result >>= f) = stateless result >>= fun a => stateless (f a) := by
  cases result <;> rfl

theorem mapM_stateless {children : List (ScopeId × Members)}
    (f : ScopeId → RenderM Unit ε Text) (g : Members → Except (RenderError ε) Text)
    (h : ∀ child ∈ children, f child.1 = stateless (g child.2)) :
    (children.map Prod.fst).mapM f = stateless ((children.map Prod.snd).mapM g) := by
  induction children with
  | nil => rfl
  | cons child children ih =>
    rw [List.map_cons, List.map_cons, List.mapM_cons, List.mapM_cons, stateless_bind,
      h child List.mem_cons_self, ih fun child hchild => h child (List.mem_cons_of_mem _ hchild)]
    refine congrArg _ (funext fun first => ?_)
    rw [stateless_bind]
    rfl

variable {partials : Table Template} {expand : Expand Unit ε} {expand' : Direct.Expand ε}
  {frame : Frame} {env : Env}

/-- The nodes are written alike in every frame and the environment that it shows. -/
def Agree (c : Context) (partials : Table Template) (expand : Expand Unit ε)
    (expand' : Direct.Expand ε) (ns : List Node) : Prop :=
  ∀ frame env, Frame.Shows c frame env → renderNodes c (.ofTable partials) expand ns frame =
    stateless (Direct.writeNodes partials expand' ns env)

theorem Agree.cons {n : Node} {ns : List Node}
    (hn : ∀ frame env, Frame.Shows c frame env → renderNode c (.ofTable partials) expand n frame =
      stateless (Direct.writeNode partials expand' n env))
    (hns : Agree c partials expand expand' ns) : Agree c partials expand expand' (n :: ns) := by
  intro frame env h
  rw [renderNodes, Direct.writeNodes, stateless_bind, hn frame env h]
  refine congrArg _ (funext fun first => ?_)
  rw [stateless_bind, hns frame env h]
  rfl

/-- A section is written once, not at all or for each item, as its name says in both. -/
theorem renderNode_block {children : List Node}
    (hchildren : Agree c partials expand expand' children) (h : Frame.Shows c frame env) (key : Text)
    (inverted : Bool) (source : Text) (pos : Position) :
    renderNode c (.ofTable partials) expand (.block key inverted children source pos) frame =
      stateless
        (Direct.writeNode partials expand' (.block key inverted children source pos) env) := by
  obtain ⟨nearest, hresolve, hitems, hnearest⟩ := h.chained.exists_resolve key
  rw [renderNode, Direct.writeNode, hresolve, hitems, found_ok_bind]
  cases nearestFields? env.around key with
  | some map =>
    cases inverted <;> cases hempty : map.isEmpty <;>
      simp only [Option.map_some, Option.some_or, hempty]
    · exact hchildren _ _ (h.push map)
    · rfl
    · rfl
    · exact hchildren _ _ h
  | none =>
    cases nearest with
    | some nearest =>
      obtain ⟨children', holder⟩ := nearest
      simp only [Option.map_none, Option.none_or, Option.map_some]
      cases inverted with
      | false =>
        have hmapM := mapM_stateless
          (fun id => renderNodes c (.ofTable partials) expand children { base := id })
          (fun members => Direct.writeNodes partials expand' children
            { around := members :: holder })
          fun child hchild => hchildren _ _ ⟨rfl, hnearest _ rfl child hchild⟩
        refine Eq.trans ?_ (stateless_bind _ _).symm
        exact congrArg (· >>= fun texts => pure texts.flatten) hmapM
      | true =>
        cases children' with
        | nil => exact hchildren _ _ h
        | cons => rfl
    | none =>
      simp only [Option.map_none, Option.or_none]
      rw [h.lookup_eq, found_ok_bind]
      split
      · exact hchildren _ _ h
      · rfl

end Render

end Mustache

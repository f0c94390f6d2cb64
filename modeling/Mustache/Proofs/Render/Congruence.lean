import Mustache.Proofs.Render.Turn

/-!
# Relations of two renderings

Nodes are written in the same steps whatever the loader is and whatever happens inside an expansion.
A relation that holds of each step with two loaders, and goes through the composition of steps
(`Render.Congruence`), holds of all nodes, if it holds inside expansions
(`Render.Congruence.renderNodes`).

One such relation is `Render.Agrees`: equal results, and states that stay related.
-/

namespace Mustache.Render

variable {σ σ' ε : Type}

/-- The relation `R` holds of each step that nodes are written in, with one loader and with the
other, and of steps that are put together. `P` holds of the scopes that frames stand on. -/
structure Congruence (c : Context) (P : ScopeId → Prop) (loader : Loader σ ε)
    (loader' : Loader σ' ε) (R : ∀ α : Type, RenderM σ ε α → RenderM σ' ε α → Prop) : Prop where
  pure {α : Type} (a : α) : R α (pure a) (pure a)
  bind {α β : Type} {m : RenderM σ ε α} {m' : RenderM σ' ε α} {f : α → RenderM σ ε β}
    {f' : α → RenderM σ' ε β} : R α m m' → (∀ a, R β (f a) (f' a)) → R β (m >>= f) (m' >>= f')
  parse (e : ParseError) : R Text (throw (.parse e)) (throw (.parse e))
  lookup {frame : Frame} (key : Text) : P frame.base →
    R _ (found (frame.lookup c key)) (found (frame.lookup c key))
  resolve {id : ScopeId} (key : Text) : P id →
    R _ (found (c.resolve id key)) (found (c.resolve id key))
  items {id : ScopeId} {key : Text} {scopes : List ScopeId} : P id →
    c.resolve id key = .ok (some (.items scopes)) → ∀ i ∈ scopes, P i
  load (name : Text) : R _ (load loader name) (load loader' name)

namespace Congruence

variable {c : Context} {P : ScopeId → Prop} {loader : Loader σ ε} {loader' : Loader σ' ε}
  {R : ∀ α : Type, RenderM σ ε α → RenderM σ' ε α → Prop} {expand : Expand σ ε}
  {expand' : Expand σ' ε}

theorem map (h : Congruence c P loader loader' R) {α β : Type} {m : RenderM σ ε α}
    {m' : RenderM σ' ε α} (hm : R α m m') (f : α → β) : R β (f <$> m) (f <$> m') := by
  rw [← bind_pure_comp, ← bind_pure_comp]
  exact h.bind hm fun a => h.pure _

theorem flatten (h : Congruence c P loader loader' R) {α : Type} {f : α → RenderM σ ε Text}
    {f' : α → RenderM σ' ε Text} {as : List α} (hf : ∀ a ∈ as, R Text (f a) (f' a)) :
    R Text (List.flatten <$> as.mapM f) (List.flatten <$> as.mapM f') := by
  induction as with
  | nil => exact h.map (h.pure _) _
  | cons a as ih =>
    rw [flatten_mapM_cons, flatten_mapM_cons]
    exact h.bind (hf a List.mem_cons_self) fun first =>
      h.map (ih fun b hb => hf b (List.mem_cons_of_mem a hb)) _

/-- The same relation, with less to show of the scopes that frames stand on. -/
theorem within (h : Congruence c (fun _ => True) loader loader' R)
    (hitems : ∀ {id : ScopeId} {key : Text} {scopes : List ScopeId}, P id →
      c.resolve id key = .ok (some (.items scopes)) → ∀ i ∈ scopes, P i) :
    Congruence c P loader loader' R where
  pure := h.pure
  bind := h.bind
  parse := h.parse
  lookup key _ := h.lookup key trivial
  resolve key _ := h.resolve key trivial
  items := hitems
  load := h.load

/-- Sections are written in related ways when their bodies and the expansion of their name are. -/
theorem renderSection (h : Congruence c P loader loader' R) {body : Frame → RenderM σ ε Text}
    {body' : Frame → RenderM σ' ε Text}
    (hexpand : ∀ name ns frame, P frame.base →
      R Text (expand name ns frame) (expand' name ns frame))
    (hbody : ∀ frame, P frame.base → R Text (body frame) (body' frame))
    (key : Text) (inverted : Bool) (source : Text) {frame : Frame} (hframe : P frame.base) :
    R Text (renderSection c body expand key inverted source frame)
      (renderSection c body' expand' key inverted source frame) := by
  have hwhen : ∀ b : Bool,
      R Text (if b then body frame else .pure []) (if b then body' frame else .pure []) := by
    intro b
    cases b with
    | false => exact h.pure []
    | true => exact hbody frame hframe
  have hvalue : R Text
      (found (frame.lookup c key) >>= fun value =>
        if value.any (!·.isEmpty) != inverted then body frame else .pure [])
      (found (frame.lookup c key) >>= fun value =>
        if value.any (!·.isEmpty) != inverted then body' frame else .pure []) :=
    h.bind (h.lookup key hframe) fun value => hwhen _
  rw [Render.renderSection, Render.renderSection]
  cases hresolve : c.resolve frame.base key with
  | error missing =>
    -- `R` holds of the lookup with anything behind it, and the error leaves out what is behind it.
    have hmissing := h.bind (h.resolve key hframe) fun _ => h.pure ([] : Text)
    rw [hresolve, found_error_bind, found_error_bind] at hmissing
    rw [found_error_bind, found_error_bind]
    exact hmissing
  | ok section? =>
    rw [found_ok_bind, found_ok_bind]
    cases section? with
    | none => exact hvalue
    | some sec =>
      cases sec with
      | fields map =>
        cases inverted with
        | false =>
          dsimp only
          split
          · exact h.pure []
          · exact hbody (frame.push map) hframe
        | true => exact hwhen _
      | items scopes =>
        cases inverted with
        | false =>
          have hitems := h.flatten fun i hi =>
            hbody { base := i } (h.items hframe hresolve i hi)
          rw [← bind_pure_comp, ← bind_pure_comp] at hitems
          exact hitems
        | true => exact hwhen _
      | function f =>
        cases inverted with
        | false =>
          dsimp only
          split
          · next fragment _ => exact hexpand key fragment.nodes frame hframe
          · exact h.parse _
        | true => exact hvalue

/-- Sections with the same tags and source text are written in related ways when their children and
the expansion of their name are. -/
theorem renderNode_block (h : Congruence c P loader loader' R)
    (hexpand : ∀ name ns frame, P frame.base →
      R Text (expand name ns frame) (expand' name ns frame))
    {key source : Text} {inverted : Bool} {children children' : List Node} {pos : Position}
    (hchildren : ∀ frame, P frame.base → R Text (renderNodes c loader expand children frame)
      (renderNodes c loader' expand' children' frame))
    {frame : Frame} (hframe : P frame.base) :
    R Text (renderNode c loader expand (.block key inverted children source pos) frame)
      (renderNode c loader' expand' (.block key inverted children' source pos) frame) := by
  rw [renderNode_eq_renderSection, renderNode_eq_renderSection]
  exact h.renderSection hexpand hchildren key inverted source hframe

/-- One node is written in related ways when this is so of what it is made of. -/
theorem turnNode (h : Congruence c P loader loader' R)
    {self : List Node → Frame → RenderM σ ε Text} {self' : List Node → Frame → RenderM σ' ε Text}
    (hexpand : ∀ name ns frame, P frame.base →
      R Text (expand name ns frame) (expand' name ns frame))
    {n : Node} (hself : ∀ children frame, Node.countOf children < n.count → P frame.base →
      R Text (self children frame) (self' children frame)) {frame : Frame} (hframe : P frame.base) :
    R Text (turnNode c loader self expand n frame) (turnNode c loader' self' expand' n frame) := by
  cases n with
  | text content pos =>
    rw [Render.turnNode, Render.turnNode, renderNode, renderNode]
    exact h.pure content
  | value key raw pos =>
    rw [Render.turnNode, Render.turnNode, renderNode, renderNode]
    exact h.bind (h.lookup key hframe) fun value => h.pure _
  | block key inverted children source pos =>
    rw [Render.turnNode, Render.turnNode]
    refine h.renderSection hexpand (fun frame hframe => ?_) key inverted source hframe
    exact hself children frame (Nat.lt_succ_self _) hframe
  | inclusion key indent pos =>
    rw [Render.turnNode, Render.turnNode, renderNode, renderNode]
    refine h.bind (h.load key) fun ns? => ?_
    cases ns? with
    | none => exact h.pure []
    | some ns => exact hexpand key _ frame hframe

/-- Nodes are written in related ways when this is so of smaller sequences of nodes and inside
expansions. -/
theorem turn (h : Congruence c P loader loader' R)
    {self : List Node → Frame → RenderM σ ε Text} {self' : List Node → Frame → RenderM σ' ε Text}
    (hexpand : ∀ name ns frame, P frame.base →
      R Text (expand name ns frame) (expand' name ns frame))
    {ns : List Node} (hself : ∀ children frame, Node.countOf children < Node.countOf ns →
      P frame.base → R Text (self children frame) (self' children frame))
    {frame : Frame} (hframe : P frame.base) :
    R Text (turn c loader self expand ns frame) (turn c loader' self' expand' ns frame) := by
  induction ns with
  | nil => exact h.pure []
  | cons n ns ih =>
    have hcount : Node.countOf (n :: ns) = n.count + Node.countOf ns := rfl
    rw [turn_cons, turn_cons]
    refine h.bind (h.turnNode hexpand (fun children frame hlt => ?_) hframe) fun first =>
      h.map (ih fun children frame hlt => ?_) _
    · exact hself children frame (hcount ▸ Nat.lt_add_right _ hlt)
    · exact hself children frame (hcount ▸ Nat.lt_add_left _ hlt)

/-- **Nodes are written in related ways** when this is so inside expansions. -/
theorem renderNodes (h : Congruence c P loader loader' R) (expand : Expand σ ε)
    (expand' : Expand σ' ε)
    (hexpand : ∀ name ns frame, P frame.base →
      R Text (expand name ns frame) (expand' name ns frame))
    (ns : List Node) {frame : Frame} (hframe : P frame.base) :
    R Text (renderNodes c loader expand ns frame) (renderNodes c loader' expand' ns frame) := by
  induction hcount : Node.countOf ns using Nat.strongRecOn generalizing ns frame with
  | ind count ih =>
    rw [renderNodes_eq_turn, renderNodes_eq_turn]
    refine h.turn hexpand (fun children frame hlt hframe => ?_) hframe
    exact ih _ (hcount ▸ hlt) children hframe rfl

end Congruence

/-! ### Related states -/

/-- From states that are related by `Q` both computations have the same result and lead to states
that are related again. -/
def Agrees (Q : σ → σ' → Prop) {α : Type} (m : RenderM σ ε α) (m' : RenderM σ' ε α) : Prop :=
  ∀ s s', Q s s' → (m.run s).1 = (m'.run s').1 ∧ Q (m.run s).2 (m'.run s').2

variable {Q : σ → σ' → Prop} {c : Context} {loader : Loader σ ε} {loader' : Loader σ' ε}

theorem agrees_throw {α : Type} (e : RenderError ε) :
    Agrees Q (throw e : RenderM σ ε α) (throw e : RenderM σ' ε α) := fun _ _ hs => ⟨rfl, hs⟩

theorem Agrees.bind {α β : Type} {m : RenderM σ ε α} {m' : RenderM σ' ε α}
    {f : α → RenderM σ ε β} {f' : α → RenderM σ' ε β} (h : Agrees Q m m')
    (hf : ∀ a, Agrees Q (f a) (f' a)) : Agrees Q (m >>= f) (m' >>= f') := by
  intro s s' hs
  obtain ⟨hresult, hstate⟩ := h s s' hs
  cases hrun : m.run s with
  | mk result t =>
    cases hrun' : m'.run s' with
    | mk result' t' =>
      rw [hrun, hrun'] at hresult hstate
      obtain rfl : result = result' := hresult
      cases result with
      | ok a =>
        rw [run_bind_ok hrun, run_bind_ok hrun']
        exact hf a t t' hstate
      | error e =>
        rw [run_bind_error hrun, run_bind_error hrun']
        exact ⟨rfl, hstate⟩

theorem agrees_load (h : ∀ name s s', Q s s' → ((loader name).run s).1 = ((loader' name).run s').1 ∧
      Q ((loader name).run s).2 ((loader' name).run s').2) (name : Text) :
    Agrees Q (load loader name) (load loader' name) :=
  fun s s' hs => ⟨congrArg (Except.mapError _) (h name s s' hs).1, (h name s s' hs).2⟩

/-- Loaders that answer alike from related states let nodes be written alike. -/
theorem congruence_agrees (c : Context)
    (hload : ∀ name, Agrees Q (load loader name) (load loader' name)) :
    Congruence c (fun _ => True) loader loader' fun _ => Agrees Q where
  pure _ _ _ hs := ⟨rfl, hs⟩
  bind := .bind
  parse _ := agrees_throw _
  lookup _ _ _ _ hs := ⟨rfl, hs⟩
  resolve _ _ _ _ hs := ⟨rfl, hs⟩
  items _ _ _ _ := trivial
  load := hload

theorem agrees_renderWithin (hload : ∀ name, Agrees Q (load loader name) (load loader' name))
    (limit budget : Nat) (ns : List Node) (frame : Frame) :
    Agrees Q (renderWithin c loader limit budget ns frame)
      (renderWithin c loader' limit budget ns frame) := by
  induction budget generalizing ns frame with
  | zero =>
    exact (congruence_agrees c hload).renderNodes _ _ (fun _ _ _ _ => agrees_throw _) ns trivial
  | succ budget ih =>
    exact (congruence_agrees c hload).renderNodes _ _ (fun _ ns frame _ => ih ns frame) ns trivial

end Mustache.Render

import Mustache.Proofs.Context.Subordinate
import Mustache.Proofs.Render.Inside

/-!
# Writing inside fields and below a scope

Fields that a section enters behave like a scope of their own below the scope that the frame stands
on. Names are found alike in both, so that nodes are written alike in both, through sections, items,
functions and partials (`Render.renderWithin_subordinate`).
-/

namespace Mustache

/-- A relation of frames of two contexts that find the same things. It is kept when a section is
entered. -/
structure Frame.Simulates (c c' : Context) (F : Frame → Frame → Prop) : Prop where
  lookup_eq : ∀ {frame frame'}, F frame frame' → ∀ key, frame'.lookup c' key = frame.lookup c key
  resolve_eq : ∀ {frame frame'}, F frame frame' →
    ∀ key, c'.resolve frame'.base key = c.resolve frame.base key
  push : ∀ {frame frame'}, F frame frame' → ∀ map, F (frame.push map) (frame'.push map)
  items : ∀ {frame frame'}, F frame frame' → ∀ {key scopes},
    c.resolve frame.base key = .ok (some (.items scopes)) →
      ∀ i ∈ scopes, F { base := i } { base := i }

namespace Render

variable {σ ε : Type} {c c' : Context} {F : Frame → Frame → Prop} {loader : Loader σ ε}
  {frame frame' : Frame}

/-! ### Frames that find the same things -/

theorem renderNode_block_of_simulates (h : Frame.Simulates c c' F) {expand expand' : Expand σ ε}
    (hexpand : ∀ name ns {frame frame'}, F frame frame' →
      expand' name ns frame' = expand name ns frame) {children : List Node}
    (hchildren : ∀ {frame frame'}, F frame frame' →
      renderNodes c' loader expand' children frame' = renderNodes c loader expand children frame)
    (hframe : F frame frame') (key : Text) (inverted : Bool) (source : Text) (pos : Position) :
    renderNode c' loader expand' (.block key inverted children source pos) frame' =
      renderNode c loader expand (.block key inverted children source pos) frame := by
  rw [renderNode, renderNode, h.resolve_eq hframe, h.lookup_eq hframe]
  cases hresolve : c.resolve frame.base key with
  | error missing => rw [found_error_bind, found_error_bind]
  | ok section? =>
    rw [found_ok_bind, found_ok_bind, hchildren hframe]
    cases section? with
    | none => rfl
    | some sec =>
      cases sec with
      | fields map =>
        cases inverted with
        | false =>
          dsimp only
          rw [hchildren (h.push hframe map)]
        | true => rfl
      | items scopes =>
        cases inverted with
        | false =>
          have hitems : ∀ i ∈ scopes, renderNodes c' loader expand' children { base := i } =
              renderNodes c loader expand children { base := i } := fun i hi =>
            hchildren (h.items hframe hresolve i hi)
          dsimp only
          rw [mapM_eq_of_forall_mem hitems]
        | true => rfl
      | function f =>
        cases inverted with
        | false =>
          dsimp only
          split
          · exact hexpand key _ hframe
          · rfl
        | true => rfl

theorem renderNodes_of_simulates (h : Frame.Simulates c c' F) {expand expand' : Expand σ ε}
    (hexpand : ∀ name ns {frame frame'}, F frame frame' →
      expand' name ns frame' = expand name ns frame) (ns : List Node) (hframe : F frame frame') :
    renderNodes c' loader expand' ns frame' = renderNodes c loader expand ns frame := by
  induction ns using Node.sequence_induction generalizing frame frame' with
  | nil => rw [renderNodes_nil, renderNodes_nil]
  | text content pos ns ih =>
    rw [renderNodes_cons, renderNodes_cons, ih hframe, renderNode, renderNode]
  | value key raw pos ns ih =>
    rw [renderNodes_cons, renderNodes_cons, ih hframe, renderNode, renderNode, h.lookup_eq hframe]
  | block key inverted children source pos ns ih ih' =>
    rw [renderNodes_cons, renderNodes_cons, ih' hframe,
      renderNode_block_of_simulates h hexpand ih hframe]
  | inclusion key indent pos ns ih =>
    rw [renderNodes_cons, renderNodes_cons, ih hframe, renderNode, renderNode]
    simp only [hexpand key _ hframe]

/-- **Frames that find the same things are written alike.** -/
theorem renderWithin_of_simulates (h : Frame.Simulates c c' F) (limit budget : Nat) (ns : List Node)
    (hframe : F frame frame') :
    renderWithin c' loader limit budget ns frame' = renderWithin c loader limit budget ns frame := by
  induction budget generalizing ns frame frame' with
  | zero =>
    refine renderNodes_of_simulates h ?_ ns hframe
    exact fun _ _ => fun _ => rfl
  | succ budget ih =>
    refine renderNodes_of_simulates h ?_ ns hframe
    exact fun _ ns => ih ns

/-! ### Fields and scopes -/

/-- A frame of a context with the frame of the context with the subordinate scope that is written
alike: itself, if it stands on a scope that was there, and one on the new scope in place of the fields
right above the scope `id`. -/
inductive Beneath (c : Context) (id : ScopeId) (map : Table Text) : Frame → Frame → Prop
  | same {frame : Frame} : frame.base < c.scopes.size → Beneath c id map frame frame
  | below (pushed : List (Table Text)) :
    Beneath c id map { base := id, pushed := pushed ++ [map] } { base := c.scopes.size, pushed }

theorem simulates_beneath {id : ScopeId} (hc : c.Ranked) (hclosed : c.Closed)
    (hid : id < c.scopes.size) (map : Table Text) :
    Frame.Simulates c (c.subordinate id map) (Beneath c id map) where
  lookup_eq {frame frame'} hframe key := by
    cases hframe with
    | same hbase => exact Frame.lookup_subordinate_of_lt hc hclosed hid hbase key
    | below pushed => exact Frame.lookup_subordinate hc hclosed hid pushed key
  resolve_eq {frame frame'} hframe key := by
    cases hframe with
    | same hbase => exact (hc.sameLookups_subordinate hid hbase key).resolve_eq
    | below pushed =>
      exact Context.resolve_eq_of_fetchSection_eq (hc.fetchSection_subordinate hid)
  push {frame frame'} hframe map' := by
    cases hframe with
    | same hbase => exact .same hbase
    | below pushed => exact .below (map' :: pushed)
  items {frame frame'} hframe {key scopes} hscopes i hi := by
    -- Items leave the frame behind, and they are scopes that were there.
    have hbase : frame.base < c.scopes.size := by
      cases hframe with
      | same hbase => exact hbase
      | below pushed => exact hid
    obtain ⟨section?, hsection, hlt⟩ := hclosed.exists_resolve hbase key
    rw [hsection] at hscopes
    exact .same (hlt scopes (Except.ok.inj hscopes) i hi)

variable {id : ScopeId}

theorem renderWithin_below (hc : c.Ranked) (hclosed : c.Closed) (hid : id < c.scopes.size)
    (map : Table Text) (pushed : List (Table Text)) (limit budget : Nat) (ns : List Node) :
    renderWithin c loader limit budget ns { base := id, pushed := pushed ++ [map] } =
      renderWithin (c.subordinate id map) loader limit budget ns
        { base := c.scopes.size, pushed } :=
  (renderWithin_of_simulates (simulates_beneath hc hclosed hid map) limit budget ns
    (.below pushed)).symm

theorem renderWithin_stacked (hc : c.Ranked) (hclosed : c.Closed) (hid : id < c.scopes.size)
    (maps pushed : List (Table Text)) (limit budget : Nat) (ns : List Node) :
    renderWithin c loader limit budget ns { base := id, pushed := pushed ++ maps } =
      renderWithin (c.stacked id maps).1 loader limit budget ns
        { base := (c.stacked id maps).2, pushed } := by
  -- The fields that were entered first get the first scope; the others wait above it.
  induction maps generalizing pushed with
  | nil => rw [List.append_nil, Context.stacked]
  | cons map maps ih =>
    obtain ⟨hranked, hclosed', hlt⟩ := Context.inside_stacked hc hclosed hid maps
    calc
      renderWithin c loader limit budget ns { base := id, pushed := pushed ++ map :: maps } =
          renderWithin c loader limit budget ns
            { base := id, pushed := (pushed ++ [map]) ++ maps } := by
        rw [List.append_assoc, List.singleton_append]
      _ = renderWithin (c.stacked id maps).1 loader limit budget ns
            { base := (c.stacked id maps).2, pushed := pushed ++ [map] } := ih _
      _ = _ := renderWithin_below hranked hclosed' hlt map pushed limit budget ns

theorem renderNode_block_of_fields {expand : Expand σ ε} {key source : Text} {map : Table Text}
    {children : List Node} {pos : Position}
    (hresolve : c.resolve frame.base key = .ok (some (.fields map))) (hmap : map.isEmpty = false) :
    renderNode c loader expand (.block key false children source pos) frame =
      renderNodes c loader expand children (frame.push map) := by
  rw [renderNode, hresolve, found_ok_bind]
  dsimp only
  rw [hmap]
  rfl

/-- **Fields behave like a scope.** Nodes are written inside fields as they are below a scope of its
own that has these fields as its texts, that is below the scope the frame stands on, and that no
section goes through. So with one scope for each of the fields, no frame needs any; and a section
with fields is written as its children are against the scopes for its fields and those around
it. -/
theorem renderWithin_subordinate (hc : c.Reachable) (hid : id < c.scopes.size)
    (loader : Loader σ ε) (limit budget : Nat) :
    (∀ map j s key, (c.subordinate id map).scope j = .ok s → c.scopes.size ∉ s.itemsOf key) ∧
    (∀ map pushed ns,
      renderWithin c loader limit budget ns { base := id, pushed := pushed ++ [map] } =
        renderWithin (c.subordinate id map) loader limit budget ns
          { base := c.scopes.size, pushed }) ∧
    (∀ maps pushed ns,
      renderWithin c loader limit budget ns { base := id, pushed := pushed ++ maps } =
        renderWithin (c.stacked id maps).1 loader limit budget ns
          { base := (c.stacked id maps).2, pushed }) ∧
    ∀ key map, c.resolve id key = .ok (some (.fields map)) → map.isEmpty = false →
      ∀ children source pos pushed,
        renderWithin c loader limit budget [.block key false children source pos]
            { base := id, pushed } =
          renderWithin (c.stacked id (map :: pushed)).1 loader limit budget children
            { base := (c.stacked id (map :: pushed)).2 } := by
  have hranked := hc.tree.ranked
  have hclosed := hc.closed
  refine ⟨fun map j s key hs => hclosed.not_mem_itemsOf_subordinate hs key,
    fun map pushed ns => renderWithin_below hranked hclosed hid map pushed limit budget ns,
    fun maps pushed ns => renderWithin_stacked hranked hclosed hid maps pushed limit budget ns,
    fun key map hresolve hmap children source pos pushed => ?_⟩
  rw [← renderWithin_stacked hranked hclosed hid (map :: pushed) [] limit budget children]
  obtain ⟨expand, hexpand⟩ := renderWithin_eq c loader limit budget
  rw [hexpand, renderNodes_singleton]
  exact renderNode_block_of_fields hresolve hmap

/-- The fields of a section hide a text of the root, inside the section and below a scope. -/
theorem renderWithin_subordinate_of_hidden_text :
    ∃ c₁ c, Context.empty.set Context.root ['a'] (.text ['y']) = .ok c₁ ∧
      c₁.set Context.root ['k'] (.fields (.ofList [(['a'], ['x'])])) = .ok c ∧
      renderWithin c (Loader.none : Loader Unit Empty) 1 1
          [.block ['k'] false [.value ['a'] true .nowhere] [] .nowhere] { base := 0 } =
        renderWithin (c.stacked 0 [.ofList [(['a'], ['x'])]]).1 .none 1 1
          [.value ['a'] true .nowhere] { base := 1 } ∧
      ((renderWithin (c.stacked 0 [.ofList [(['a'], ['x'])]]).1 (.none : Loader Unit Empty) 1 1
        [.value ['a'] true .nowhere] { base := 1 }).run ()).1.toOption = some ['x'] := by
  obtain ⟨c₁, c, hsize₁, hc₁, hc, hsize, hresolve, hx⟩ : ∃ c₁ c, c₁.scopes.size = 1 ∧
      Context.empty.set Context.root ['a'] (.text ['y']) = .ok c₁ ∧
      c₁.set Context.root ['k'] (.fields (.ofList [(['a'], ['x'])])) = .ok c ∧
      c.scopes.size = 1 ∧ c.resolve 0 ['k'] = .ok (some (.fields (.ofList [(['a'], ['x'])]))) ∧
      ((renderWithin (c.stacked 0 [.ofList [(['a'], ['x'])]]).1 (.none : Loader Unit Empty) 1 1
        [.value ['a'] true .nowhere] { base := 1 }).run ()).1.toOption = some ['x'] :=
    ⟨_, _, rfl, rfl, rfl, rfl, rfl, rfl⟩
  have hroot : 0 < c.scopes.size := hsize ▸ Nat.one_pos
  have hreachable : c.Reachable :=
    .set (.set .empty Nat.one_pos hc₁) (hsize₁ ▸ Nat.one_pos) hc
  obtain ⟨-, -, -, hsection⟩ :=
    renderWithin_subordinate hreachable hroot (Loader.none : Loader Unit Empty) 1 1
  have hwritten := hsection ['k'] _ hresolve rfl [.value ['a'] true .nowhere] [] .nowhere []
  have hplace : (c.stacked 0 [.ofList [(['a'], ['x'])]]).2 = 1 := hsize
  rw [hplace] at hwritten
  exact ⟨c₁, c, hc₁, hc, hwritten, hx⟩

end Render

end Mustache

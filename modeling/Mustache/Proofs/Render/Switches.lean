import Mustache.Proofs.Render.Indent

/-!
# Names that are on or off

The simplest data bind some names to a text and no name to a section. Against them a section is
written once or not at all, and which ones are can be chosen freely when no two sections have one
name. A section that is skipped shows whether both of its tags lead their lines.
-/

namespace Mustache

open Node (indentText indentNode indentFrom indentLines)

/-- The names that are on have the text `x`. -/
def Context.switched (names : List Text) : Context :=
  ⟨#[{ texts := names.foldr (fun name texts => texts.insert name ['x']) ∅ }]⟩

namespace Node

mutual

/-- What a node is written as when the names that are on have the text `x`. -/
def written (on : Text → Bool) : Node → Text
  | .text content _ => content
  | .value key _ _ => if on key then ['x'] else []
  | .block key inverted children _ _ => if on key != inverted then writtenAll on children else []
  | .inclusion _ _ _ => []

/-- What a sequence of nodes is written as. -/
def writtenAll (on : Text → Bool) : List Node → Text
  | [] => []
  | n :: ns => n.written on ++ writtenAll on ns

end

variable {on : Text → Bool} {w : Text} {d e : Debt} {ns ns' : List Node} {us : List Text}

theorem writtenAll_append (ns ms : List Node) :
    writtenAll on (ns ++ ms) = writtenAll on ns ++ writtenAll on ms := by
  induction ns with
  | nil => rfl
  | cons n ns ih => simp [writtenAll, ih]

theorem writtenAll_singleton (n : Node) : writtenAll on [n] = n.written on := by
  simp [writtenAll]

theorem writtenAll_leaf {n : Node} (hd : d ≠ .fresh) :
    writtenAll on (if d != .paid then [.text w .nowhere, n] else [n]) =
      d.text w ++ n.written on := by
  cases d with
  | fresh => exact absurd rfl hd
  | owed => simp [writtenAll, written, Debt.text]
  | paid => simp [writtenAll, Debt.text]

/-- When every section is written once, the nodes catch up with the indented template. -/
theorem Indented.writtenAll_eq (h : Indented w d ns ns' us e)
    (hon : ∀ key inverted, (key, inverted) ∈ sectionsOf ns → (on key != inverted) = true) :
    writtenAll on (indentFrom w (d != .paid) ns).1 ++ e.text w =
      d.text w ++ writtenAll on ns' := by
  induction h with
  | nil => simp [indentFrom, writtenAll]
  | @append d d' e ns ns' ms ms' us vs h h' ih ih' =>
    rw [sectionsOf_append] at hon
    have ih := ih fun key inverted hmem => hon key inverted (List.mem_append_left _ hmem)
    have ih' := ih' fun key inverted hmem => hon key inverted (List.mem_append_right _ hmem)
    rw [indentFrom_append, h.indentFrom_snd, writtenAll_append, writtenAll_append, List.append_assoc,
      ih', ← List.append_assoc, ih, List.append_assoc]
  | text =>
    rw [indentFrom_singleton, indentNode, writtenAll_singleton, writtenAll_singleton, written,
      written, indentText_append_debt]
  | @hang d s pos pos' hafter =>
    have hdebt := indentText_append_debt w d s
    rw [hafter, Debt.text, List.append_nil] at hdebt
    rw [indentFrom_singleton, indentNode, writtenAll_singleton, writtenAll_singleton, written,
      written, hdebt, List.append_assoc]
    rfl
  | lead => simp [indentFrom, writtenAll, written, Debt.text]
  | value hd | inclusion hd =>
    rw [indentFrom_singleton, indentNode, writtenAll_leaf hd, writtenAll_singleton, written, written]
    simp [Debt.text]
  | line => simp [indentFrom, indentNode, writtenAll, written, Debt.text]
  | @block d e key inverted children children' source source' pos pos' us h ih =>
    rw [sectionsOf_block] at hon
    have hkey := hon key inverted List.mem_cons_self
    rw [indentFrom_singleton, indentNode, writtenAll_singleton, writtenAll_singleton, written,
      written, if_pos hkey, if_pos hkey]
    exact ih fun key inverted hmem => hon key inverted (List.mem_cons_of_mem _ hmem)

/-- Unsteady sections are sections. -/
theorem Indented.subset (h : Indented w d ns ns' us e) :
    us ⊆ (sectionsOf ns).map Prod.fst := by
  induction h with
  | append _ _ ih ih' =>
    rw [sectionsOf_append, List.map_append]
    intro key hkey
    rcases List.mem_append.1 hkey with hkey | hkey
    · exact List.mem_append_left _ (ih hkey)
    · exact List.mem_append_right _ (ih' hkey)
  | @block d e key _ _ _ _ _ _ _ us h ih =>
    rw [sectionsOf_block, List.map_cons]
    intro key' hkey'
    rcases List.mem_append.1 hkey' with hkey' | hkey'
    · exact List.mem_cons_of_mem _ (ih hkey')
    · split at hkey'
      · cases hkey'
      · rw [List.mem_singleton] at hkey'
        exact hkey' ▸ List.mem_cons_self
  | _ => exact List.nil_subset _

theorem length_text_ne (hw : w ≠ []) (hne : (d == .owed) ≠ (e == .owed)) :
    (e.text w).length ≠ (d.text w).length := by
  have hlength := List.length_pos_iff.2 hw
  cases d <;> cases e <;> first
    | exact absurd rfl hne
    | exact Nat.ne_of_lt hlength
    | exact Nat.ne_of_gt hlength

/-- When just one section is skipped, and it is unsteady, the nodes and the indented template are
written with different lengths. -/
theorem Indented.length_ne (h : Indented w d ns ns' us e) (hw : w ≠ []) {skipped : Text}
    (hskipped : skipped ∈ us) (hnodup : ((sectionsOf ns).map Prod.fst).Nodup)
    (hon : ∀ key inverted, (key, inverted) ∈ sectionsOf ns →
      (on key != inverted) = (key != skipped)) :
    (writtenAll on (indentFrom w (d != .paid) ns).1).length + (e.text w).length ≠
      (d.text w).length + (writtenAll on ns').length := by
  induction h with
  | @append d d' e ns ns' ms ms' us vs h h' ih ih' =>
    rw [sectionsOf_append, List.map_append, List.nodup_append] at hnodup
    obtain ⟨hns, hms, hdisjoint⟩ := hnodup
    rw [sectionsOf_append] at hon
    have hleft : ∀ key inverted, (key, inverted) ∈ sectionsOf ns →
        (on key != inverted) = (key != skipped) :=
      fun key inverted hmem => hon key inverted (List.mem_append_left _ hmem)
    have hright : ∀ key inverted, (key, inverted) ∈ sectionsOf ms →
        (on key != inverted) = (key != skipped) :=
      fun key inverted hmem => hon key inverted (List.mem_append_right _ hmem)
    rw [indentFrom_append, h.indentFrom_snd, writtenAll_append, writtenAll_append,
      List.length_append, List.length_append]
    rcases List.mem_append.1 hskipped with hmem | hmem
    · have hshown : ∀ key inverted, (key, inverted) ∈ sectionsOf ms → (on key != inverted) = true := by
        intro key inverted hkey
        rw [hright key inverted hkey, bne_iff_ne]
        exact (hdisjoint skipped (h.subset hmem) key (List.mem_map_of_mem hkey)).symm
      have hne := ih hmem hns hleft
      have heq := congrArg List.length (h'.writtenAll_eq hshown)
      simp only [List.length_append] at heq
      omega
    · have hshown : ∀ key inverted, (key, inverted) ∈ sectionsOf ns → (on key != inverted) = true := by
        intro key inverted hkey
        rw [hleft key inverted hkey, bne_iff_ne]
        exact hdisjoint key (List.mem_map_of_mem hkey) skipped (h'.subset hmem)
      have hne := ih' hmem hms hright
      have heq := congrArg List.length (h.writtenAll_eq hshown)
      simp only [List.length_append] at heq
      omega
  | @block d e key inverted children children' source source' pos pos' us h ih =>
    rw [sectionsOf_block] at hnodup hon
    rw [List.map_cons, List.nodup_cons] at hnodup
    obtain ⟨hkey, hchildren⟩ := hnodup
    have hshown := hon key inverted List.mem_cons_self
    rw [indentFrom_singleton, indentNode, writtenAll_singleton, writtenAll_singleton, written,
      written, hshown]
    by_cases hsame : key = skipped
    · subst hsame
      have hends : (d == .owed) ≠ (e == .owed) := by
        intro heq
        rw [if_pos heq, List.append_nil] at hskipped
        exact hkey (h.subset hskipped)
      have hne := length_text_ne hw hends
      simpa using hne
    · have hmem : skipped ∈ us := by
        rcases List.mem_append.1 hskipped with hmem | hmem
        · exact hmem
        · split at hmem
          · cases hmem
          · exact absurd (List.mem_singleton.1 hmem).symm hsame
      rw [if_pos (bne_iff_ne.2 hsame), if_pos (bne_iff_ne.2 hsame)]
      exact ih hmem hchildren fun key inverted hmem => hon key inverted (List.mem_cons_of_mem _ hmem)
  | _ => cases hskipped

end Node

namespace Context

variable {names : List Text}

/-- The one scope of the context. -/
def switchedScope (names : List Text) : Scope :=
  { texts := names.foldr (fun name texts => texts.insert name ['x']) ∅ }

theorem getElem?_switchedScope (names : List Text) (key : Text) :
    (switchedScope names).texts[key]? = if names.contains key then some ['x'] else none := by
  induction names with
  | nil => simp [switchedScope]
  | cons name names ih =>
    rw [switchedScope] at ih ⊢
    rw [List.foldr_cons, Table.getElem?_insert, ih]
    by_cases h : name = key
    · simp [h]
    · simp [h, Ne.symm h]

theorem lambdaFree_switched : (switched names).LambdaFree := by
  intro s hs key f
  rw [switched, List.mem_toArray, List.mem_singleton] at hs
  simp [hs]

theorem chain_switched : (switched names).chain root = .ok [switchedScope names] := rfl

theorem fetchSection_switched {α : Type} (pick : Section → Option α) (key : Text) :
    (switched names).fetchSection pick root key = .ok none := by
  rw [fetchSection, chain_switched]
  simp [switchedScope, Except.map]

theorem resolve_switched (key : Text) : (switched names).resolve root key = .ok none := by
  rw [resolve, fetchFields, fetchFunction, fetchItems, fetchSection_switched,
    fetchSection_switched, fetchSection_switched]
  rfl

theorem fetchDotted_switched (key : Text) :
    Frame.fetchDotted (switched names) root key = .ok none := by
  have hland : ∀ first, Frame.land (switched names) root first = .ok none := by
    intro first
    rw [Frame.land, fetchFields, fetchItems, fetchSection_switched, fetchSection_switched]
    rfl
  rw [Frame.fetchDotted]
  split
  · dsimp only
    split
    · rfl
    · rw [hland]
      rfl
  · rfl

theorem lookup_switched (key : Text) :
    Frame.lookup (switched names) { base := root } key =
      .ok (if names.contains key then some ['x'] else none) := by
  have hfetch : Frame.fetch (switched names) { base := root } key =
      .ok (if names.contains key then some ['x'] else none) := by
    rw [← getElem?_switchedScope]
    simp [Frame.fetch, fetch, chain_switched, Except.map]
  rw [Frame.lookup, hfetch, fetchDotted_switched]
  split <;> rfl

end Context

namespace Render

variable {ε : Type} {names : List Text}

/-- Against such data a rendering is what can be read off the nodes. -/
theorem renderNodes_switched (expand : Expand Unit ε) (ns : List Node) :
    renderNodes (.switched names) (Loader.ofTable ∅) expand ns { base := Context.root } =
      pure (Node.writtenAll (names.contains ·) ns) := by
  induction ns using Node.sequence_induction with
  | nil => exact renderNodes_nil _
  | text content pos ns ih =>
    rw [renderNodes_cons, ih, renderNode]
    rfl
  | value key raw pos ns ih =>
    have hx : valueText raw (some ['x']) = ['x'] := by cases raw <;> rfl
    rw [renderNodes_cons, ih, renderNode, Context.lookup_switched, found_ok_bind]
    simp only [Node.writtenAll, Node.written]
    split
    · rw [hx]
      rfl
    · rfl
  | block key inverted children source pos ns ih ih' =>
    have hany : ∀ on : Bool, (if on = true then some ['x'] else none).any (!·.isEmpty) = on := by
      intro on
      cases on <;> rfl
    rw [renderNodes_cons, ih', renderNode, Context.resolve_switched, found_ok_bind]
    simp only [Context.lookup_switched, found_ok_bind, Node.writtenAll, Node.written, ih, hany]
    split <;> rfl
  | inclusion key indent pos ns ih =>
    have hload : (load (Loader.ofTable ∅) key : RenderM Unit ε (Option (List Node))) =
        pure none := by
      simp [load, Loader.ofTable]
      rfl
    rw [renderNodes_cons, ih, renderNode, hload]
    rfl

end Render

end Mustache

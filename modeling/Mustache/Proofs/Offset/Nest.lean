import Mustache.Proofs.Offset.Settle
import Mustache.Proofs.Template.Grown

/-!
# Nesting by recursive descent

A reader with an index into the tokens, which calls itself for the nodes of a section. The token at
the index has to be there when it is taken, and the text of a section is cut out of the template
between the end of its first tag and the start of its last one. `Template.nestFrom`, which keeps a
stack instead, gives the same nodes and the same faults (`Offset.nest_eq`).
-/

namespace Mustache

namespace Offset

open Reading (answer)

/-- The node that a token stands for by itself. -/
def leaf? (t : Spanned) : Option Node :=
  match t.kind with
  | .text => some (.text t.content t.pos)
  | .escaped => some (.value t.content false t.pos)
  | .raw => some (.value t.content true t.pos)
  | .inclusion => some (.inclusion t.content t.indent t.pos)
  | .opening _ | .closing | .comment | .delimiters => none

/-- Ends the section that `t` opened, when its nodes have been read up to this index. -/
def endSection (source : Text) (tokens : List Spanned) (t : Spanned) (inverted : Bool)
    (children : List Node) (i : Nat) : Reading (Node × Nat) :=
  match tokens[i]? with
  | none => throw ⟨.unclosedSection t.content, t.pos⟩
  | some u =>
    if u.content = t.content then do
      let body ← source.cut? t.stop u.start
      return (.block t.content inverted children body t.pos, i + 1)
    else throw ⟨.mismatchedClose t.content u.content, u.pos⟩

mutual

/-- Reads the nodes from this index up to the next end of a section, or up to the last token. The
answer is the nodes and the index behind them. A node that takes up no token would be read for
ever. -/
def nodesFrom (source : Text) (tokens : List Spanned) (depth i : Nat) : Reading (List Node × Nat) :=
  match _ : tokens[i]? with
  | none => return ([], i)
  | some t =>
    if t.kind = .closing then return ([], i)
    else do
      let (n, j) ← nodeFrom source tokens depth i
      if _ : i < j then
        let (ns, k) ← nodesFrom source tokens depth j
        return (n :: ns, k)
      else liftM (none : Option (List Node × Nat))
termination_by (tokens.length - i, 1)
decreasing_by
  · exact Prod.Lex.right _ Nat.one_pos
  · have hi := (List.getElem?_eq_some_iff.1 (by assumption : tokens[i]? = some t)).1
    exact Prod.Lex.left _ _ (by omega)

/-- Reads the node at this index, inside `depth` sections. -/
def nodeFrom (source : Text) (tokens : List Spanned) (depth i : Nat) : Reading (Node × Nat) :=
  match _ : tokens[i]? with
  | none => liftM (none : Option (Node × Nat))
  | some t =>
    match t.kind with
    | .opening inverted =>
      if depth = maxNesting then throw ⟨.nestingTooDeep maxNesting, t.pos⟩
      else do
        let (children, j) ← nodesFrom source tokens (depth + 1) (i + 1)
        endSection source tokens t inverted children j
    | _ =>
      match leaf? t with
      | some n => return (n, i + 1)
      | none => throw ⟨.unexpectedToken t.content, t.pos⟩
termination_by (tokens.length - i, 0)
decreasing_by
  have hi := (List.getElem?_eq_some_iff.1 (by assumption : tokens[i]? = some t)).1
  exact Prod.Lex.left _ _ (by omega)

end

/-- Nests tokens into nodes. -/
def nest (source : Text) (tokens : List Spanned) : Reading (List Node) := do
  let (nodes, i) ← nodesFrom source tokens 0 0
  match tokens[i]? with
  | none => return nodes
  | some t => throw ⟨.unexpectedClose t.content, t.pos⟩

/-! ### One step -/

section
variable {source : Text} {tokens : List Spanned} {depth i : Nat} {t : Spanned}

theorem nodesFrom_eq (source : Text) (tokens : List Spanned) (depth i : Nat) :
    nodesFrom source tokens depth i =
      match tokens[i]? with
      | none => answer (.ok ([], i))
      | some t =>
        if t.kind = .closing then answer (.ok ([], i))
        else (do
          let (n, j) ← nodeFrom source tokens depth i
          if i < j then
            let (ns, k) ← nodesFrom source tokens depth j
            return (n :: ns, k)
          else liftM (none : Option (List Node × Nat))) := by
  rw [nodesFrom]
  split <;> next h => rw [h]; rfl

theorem nodeFrom_opening {inverted : Bool} (h : tokens[i]? = some t)
    (hkind : t.kind = .opening inverted) :
    nodeFrom source tokens depth i =
      if depth = maxNesting then answer (.error ⟨.nestingTooDeep maxNesting, t.pos⟩)
      else (do
        let (children, j) ← nodesFrom source tokens (depth + 1) (i + 1)
        endSection source tokens t inverted children j) := by
  rw [nodeFrom]
  split
  · next hnone => simp [h] at hnone
  · next hsome =>
    cases h.symm.trans hsome
    simp only [hkind]
    rfl

theorem nodeFrom_of_ne (h : tokens[i]? = some t) (hkind : ∀ inverted, t.kind ≠ .opening inverted) :
    nodeFrom source tokens depth i = answer (match leaf? t with
      | some n => .ok (n, i + 1)
      | none => .error ⟨.unexpectedToken t.content, t.pos⟩) := by
  rw [nodeFrom]
  split
  · next hnone => simp [h] at hnone
  · next hsome =>
    cases h.symm.trans hsome
    split
    · next inverted hopening => exact absurd hopening (hkind inverted)
    · cases leaf? t <;> rfl

end

/-! ### Descent and stack -/

open Template (nestFrom)

/-- A reading from the index `i` on agrees with the stack. It stops at an index where `stops` holds,
and adds what it has read to the nodes that are done; or it ends in the fault that the stack finds;
or it has no answer, and the stack finds that the tags of a section do not enclose a text. -/
inductive Follows {α : Type} (ts : List Token) (opened : List OpenBlock) (done : List Node) (i : Nat)
    (stops : Nat → Prop) (add : α → List Node → List Node) : Reading (α × Nat) → Prop
  | read {a j} : stops j → nestFrom opened done (ts.drop i) = nestFrom opened (add a done) (ts.drop j) →
    Follows ts opened done i stops add (answer (.ok (a, j)))
  | fault {e} : nestFrom opened done (ts.drop i) = .error e →
    Follows ts opened done i stops add (answer (.error e))
  | broken {start stop pos} :
    nestFrom opened done (ts.drop i) = .error ⟨.brokenSpan start stop, pos⟩ →
    Follows ts opened done i stops add (ExceptT.mk none)

/-- Each token knows what follows it in the template. -/
def Knows (source : Text) (ts : List Token) : Prop :=
  ∀ t ∈ ts, source.dropBytes? t.stop = some t.behind

/-- The end of the nodes from the index `i` on. -/
def StopsFrom (ts : List Token) (i j : Nat) : Prop :=
  i ≤ j ∧ ∀ u, ts[j]? = some u → u.kind = .closing

variable {source : Text} {ts : List Token} {i : Nat} {t : Token} {opened : List OpenBlock}
  {done : List Node}

/-- A reading that goes on after another one. -/
theorem Follows.bind {α β : Type} {opened' : List OpenBlock} {done' : List Node} {i' : Nat}
    {stops stops' : Nat → Prop} {add : α → List Node → List Node} {add' : β → List Node → List Node}
    {first : Reading (α × Nat)} {next : α × Nat → Reading (β × Nat)}
    (h : Follows ts opened' done' i' stops' add first)
    (hstack : nestFrom opened done (ts.drop i) = nestFrom opened' done' (ts.drop i'))
    (hnext : ∀ a j, stops' j →
      nestFrom opened done (ts.drop i) = nestFrom opened' (add a done') (ts.drop j) →
      Follows ts opened done i stops add' (next (a, j))) :
    Follows ts opened done i stops add' (first >>= next) := by
  cases h with
  | read hstops hread => exact hnext _ _ hstops (hstack.trans hread)
  | fault hfault => exact .fault (hstack.trans hfault)
  | broken hbroken => exact .broken (hstack.trans hbroken)

/-- The cut between two tags is the text from the first one up to the second. -/
theorem cut?_eq_textUpTo? (h : source.dropBytes? t.stop = some t.behind) (stop : Nat) :
    source.cut? t.stop stop = t.textUpTo? stop := by
  rw [Text.cut?, h, Token.textUpTo?]
  rfl

theorem leaf?_spanned (t : Token) (n : Node) :
    leaf? t.spanned = some n ↔ t.mark? = some (.leaf n) := by
  rw [leaf?, Token.spanned_kind, Token.mark?]
  cases t.kind <;> simp [Token.spanned]

theorem kind_of_leaf?_eq_none (h : leaf? t.spanned = none) :
    (∃ inverted, t.kind = .opening inverted) ∨ t.kind = .closing ∨ t.kind = .comment ∨
      t.kind = .delimiters := by
  rw [leaf?, Token.spanned_kind] at h
  cases hk : t.kind <;> simp [hk] at h ⊢

/-- A section ends as it does on the stack. -/
theorem follows_endSection {inverted : Bool} {children : List Node} {j : Nat}
    (ht : source.dropBytes? t.stop = some t.behind) (hij : i < j)
    (hclose : ∀ u, ts[j]? = some u → u.kind = .closing)
    (hnest : nestFrom opened done (ts.drop i) =
      nestFrom (⟨t, inverted, done⟩ :: opened) children.reverse (ts.drop j)) :
    Follows ts opened done i (i < ·) List.cons
      (endSection source (ts.map Token.spanned) t.spanned inverted children j) := by
  rw [endSection, List.getElem?_map]
  cases hu : ts[j]? with
  | none =>
    rw [List.drop_eq_nil_of_le (List.getElem?_eq_none_iff.1 hu)] at hnest
    exact .fault hnest
  | some u =>
    rw [drop_of_getElem? hu] at hnest
    simp only [Option.map_some]
    change Follows _ _ _ _ _ _ (if u.content = t.content then _ else _)
    split
    · next hname =>
      change Follows _ _ _ _ _ _ (liftM (source.cut? t.stop u.pos.offset) >>= _)
      rw [cut?_eq_textUpTo? ht]
      cases hbody : t.textUpTo? u.pos.offset with
      | some body =>
        rw [Template.nestFrom_closing (hclose u hu) hname hbody, List.reverse_reverse] at hnest
        exact .read (Nat.lt_succ_of_lt hij) hnest
      | none =>
        rw [Template.nestFrom_broken (hclose u hu) hname hbody] at hnest
        exact .broken hnest
    · next hname =>
      rw [Template.nestFrom_mismatched (hclose u hu) hname] at hnest
      exact .fault hnest

/-- One node is read as the stack reads it, when this holds of the nodes inside it. -/
theorem follows_nodeFrom (hknows : Knows source ts) (ht : ts[i]? = some t)
    (hkind : t.kind ≠ .closing)
    (hnodes : ∀ inverted, Follows ts (⟨t, inverted, done⟩ :: opened) [] (i + 1) (StopsFrom ts (i + 1))
      (fun ns done => ns.reverse ++ done)
      (nodesFrom source (ts.map Token.spanned) (opened.length + 1) (i + 1))) :
    Follows ts opened done i (i < ·) List.cons
      (nodeFrom source (ts.map Token.spanned) opened.length i) := by
  have hs := getElem?_map_spanned ht
  have hdrop := drop_of_getElem? ht
  by_cases hopening : ∃ inverted, t.kind = .opening inverted
  · obtain ⟨inverted, hinverted⟩ := hopening
    rw [nodeFrom_opening hs hinverted]
    split
    · next hdeep =>
      refine .fault ?_
      rw [hdrop, Template.nestFrom_opening hinverted, if_pos hdeep]
      rfl
    · next hdeep =>
      have hstack : nestFrom opened done (ts.drop i) =
          nestFrom (⟨t, inverted, done⟩ :: opened) [] (ts.drop (i + 1)) := by
        rw [hdrop, Template.nestFrom_opening hinverted, if_neg hdeep]
      refine (hnodes inverted).bind hstack fun children j hstops hread => ?_
      rw [List.append_nil] at hread
      exact follows_endSection (hknows t (List.mem_of_getElem? ht)) hstops.1 hstops.2 hread
  · rw [nodeFrom_of_ne hs fun inverted h => hopening ⟨inverted, h⟩]
    cases hleaf : leaf? t.spanned with
    | some n =>
      refine .read (Nat.lt_succ_self i) ?_
      rw [hdrop, Template.nestFrom_leaf ((leaf?_spanned t n).1 hleaf)]
    | none =>
      have hsilent := ((kind_of_leaf?_eq_none hleaf).resolve_left hopening).resolve_left hkind
      refine .fault ?_
      rw [hdrop]
      exact Template.nestFrom_silent hsilent

/-- Descent reads the nodes of a section as the stack does. -/
theorem follows_nodesFrom (hknows : Knows source ts) (opened : List OpenBlock) (done : List Node)
    (i : Nat) :
    Follows ts opened done i (StopsFrom ts i) (fun ns done => ns.reverse ++ done)
      (nodesFrom source (ts.map Token.spanned) opened.length i) := by
  -- The induction is on the number of tokens from the index on.
  generalize hn : ts.length - i = n
  induction n using Nat.strong_induction_on generalizing opened done i with
  | _ n ih =>
    rw [nodesFrom_eq, List.getElem?_map]
    cases ht : ts[i]? with
    | none => exact .read ⟨Nat.le_refl i, by simp [ht]⟩ rfl
    | some t =>
      have hi := (List.getElem?_eq_some_iff.1 ht).1
      simp only [Option.map_some, Token.spanned_kind]
      by_cases hkind : t.kind = .closing
      · rw [if_pos hkind]
        exact .read ⟨Nat.le_refl i, by simpa [ht] using hkind⟩ rfl
      · rw [if_neg hkind]
        have hnode := follows_nodeFrom hknows ht hkind fun inverted =>
          ih _ (by omega) (⟨t, inverted, done⟩ :: opened) [] (i + 1) rfl
        refine hnode.bind rfl fun n j hij hread => ?_
        dsimp only
        rw [if_pos hij]
        refine (ih _ (by omega) opened (n :: done) j rfl).bind hread fun ns k hstops hread => ?_
        exact .read ⟨Nat.le_trans (Nat.le_of_lt hij) hstops.1, hstops.2⟩ (by simpa using hread)

/-- Nesting by descent has an answer when the tags of each section enclose a text. -/
theorem nest_eq (hknows : Knows source ts)
    (hbroken : ∀ start stop pos, Template.nest ts ≠ .error ⟨.brokenSpan start stop, pos⟩) :
    nest source (ts.map Token.spanned) = answer (Template.nest ts) := by
  have hfollows := follows_nodesFrom hknows [] [] 0
  rw [List.length_nil] at hfollows
  rw [nest]
  generalize nodesFrom source (ts.map Token.spanned) 0 0 = nodes at hfollows ⊢
  cases hfollows with
  | @read ns j hstops hread =>
    rw [List.append_nil, List.drop_zero] at hread
    rw [Reading.answer_ok_bind, Template.nest, hread]
    dsimp only
    rw [List.getElem?_map]
    cases ht : ts[j]? with
    | none =>
      rw [List.drop_eq_nil_of_le (List.getElem?_eq_none_iff.1 ht), nestFrom, List.reverse_reverse]
      rfl
    | some t =>
      rw [drop_of_getElem? ht, Template.nestFrom_closing_nil (hstops.2 t ht)]
      rfl
  | fault hfault =>
    rw [List.drop_zero] at hfault
    rw [Template.nest, hfault]
    rfl
  | broken hnone =>
    rw [List.drop_zero] at hnone
    exact absurd hnone (hbroken _ _ _)

end Offset

end Mustache

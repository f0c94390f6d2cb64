import Mustache.Proofs.Node.Remade
import Mustache.Proofs.Template.Indent

/-!
# Tokens that nest into nodes

`Template.Nests` relates tokens to the nodes that they nest into, with a case for a section as a
whole. `Template.nest`, which goes over the tokens one at a time with a stack, finds these nodes and
no others (`Template.nest_eq_ok_iff`).
-/

namespace Mustache.Template

open Node (depthOf Inside)

/-- The tokens nest into these nodes. -/
inductive Nests : List Token → List Node → Prop
  | nil : Nests [] []
  | leaf {t n ts ns} : t.mark? = some (.leaf n) → Nests ts ns → Nests (t :: ts) (n :: ns)
  | block {front inverted inner children back body ts ns} : front.kind = .opening inverted →
    Nests inner children → back.kind = .closing → back.content = front.content →
    front.textUpTo? back.pos.offset = some body → Nests ts ns →
    Nests (front :: (inner ++ back :: ts))
      (.block front.content inverted children body front.pos :: ns)

/-- The tokens that have been read while sections are open: no more sections are nested than may
be. -/
inductive Read : List OpenBlock → List Node → List Token → Prop
  | bottom {done ts} : Nests ts done.reverse → depthOf done.reverse ≤ maxNesting → Read [] done ts
  | block {b opened done ts us} : Read opened b.before ts → b.tag.kind = .opening b.inverted →
    Nests us done.reverse → opened.length + 1 + depthOf done.reverse ≤ maxNesting →
    Read (b :: opened) done (ts ++ b.tag :: us)

variable {opened : List OpenBlock} {done ns ns' : List Node} {ts us : List Token}

theorem Nests.append (h : Nests ts ns) (h' : Nests us ns') : Nests (ts ++ us) (ns ++ ns') := by
  induction h with
  | nil => exact h'
  | leaf hmark _ ih => exact .leaf hmark ih
  | block hfront hinner hback hname hbody _ _ ih =>
    rw [List.cons_append, List.append_assoc]
    exact .block hfront hinner hback hname hbody ih

/-! ### From the relation to the stack -/

theorem depth_of_leaf {t : Token} {n : Node} (h : t.mark? = some (.leaf n)) : n.depth = 0 := by
  cases hkind : t.kind <;> simp [Token.mark?, hkind] at h <;> subst h <;> rfl

/-- Whatever is open and whatever follows, the tokens add their nodes to those that are done. -/
theorem Nests.nestFrom_append (h : Nests ts ns)
    (hdepth : opened.length + depthOf ns ≤ maxNesting) (us : List Token) :
    nestFrom opened done (ts ++ us) = nestFrom opened (ns.reverse ++ done) us := by
  induction h generalizing opened done us with
  | nil => rfl
  | leaf hmark _ ih =>
    rw [depthOf, depth_of_leaf hmark, Nat.zero_max] at hdepth
    rw [List.cons_append, nestFrom_leaf hmark, ih hdepth]
    simp
  | @block front inverted inner children back body ts ns hfront _ hback hname hbody _ ihinner ih =>
    rw [depthOf, Node.depth] at hdepth
    have hlt : opened.length + (depthOf children + 1) ≤ maxNesting := by omega
    have hlt' : (⟨front, inverted, done⟩ :: opened : List OpenBlock).length + depthOf children ≤
        maxNesting := by
      rw [List.length_cons]
      omega
    rw [List.cons_append, nestFrom_opening hfront, if_neg (by omega), List.append_assoc,
      ihinner hlt', List.append_nil, List.cons_append, nestFrom_closing hback hname hbody,
      List.reverse_reverse, ih (by omega)]
    simp

/-! ### From the stack to the relation -/

theorem depthOf_append (ns ms : List Node) :
    depthOf (ns ++ ms) = max (depthOf ns) (depthOf ms) := by
  induction ns with
  | nil => simp [depthOf]
  | cons n ns ih => rw [List.cons_append, depthOf, depthOf, ih, Nat.max_assoc]

/-- A sequence of nodes is read behind what has been read. -/
theorem Read.append (h : Read opened done ts) (hns : Nests us ns)
    (hdepth : opened.length + depthOf ns ≤ maxNesting) :
    Read opened (ns.reverse ++ done) (ts ++ us) := by
  have hreverse : (ns.reverse ++ done).reverse = done.reverse ++ ns := by simp
  cases h with
  | bottom hdone hle =>
    refine .bottom (hreverse ▸ hdone.append hns) ?_
    rw [hreverse, depthOf_append]
    rw [List.length_nil] at hdepth
    omega
  | block hbefore hkind hdone hle =>
    rw [List.append_assoc, List.cons_append]
    refine .block hbefore hkind (hreverse ▸ hdone.append hns) ?_
    rw [hreverse, depthOf_append]
    rw [List.length_cons] at hdepth
    omega

theorem Read.leaf {t : Token} {n : Node} (h : Read opened done ts)
    (hmark : t.mark? = some (.leaf n)) (hopened : opened.length ≤ maxNesting) :
    Read opened (n :: done) (ts ++ [t]) := by
  refine h.append (.leaf hmark .nil) ?_
  rw [depthOf, depth_of_leaf hmark, depthOf]
  simpa using hopened

theorem Read.length_le (h : Read opened done ts) : opened.length ≤ maxNesting := by
  cases h with
  | bottom => exact Nat.zero_le _
  | block =>
    rw [List.length_cons]
    omega

theorem nests_of_nestFrom (hread : Read opened done us) (h : nestFrom opened done ts = .ok ns) :
    Nests (us ++ ts) ns ∧ depthOf ns ≤ maxNesting := by
  fun_induction nestFrom opened done ts generalizing us with
  | case1 done =>
    cases h
    cases hread with
    | bottom hdone hle => exact ⟨by simpa using hdone, hle⟩
  | case3 opened done t ts hkind ih | case4 opened done t ts hkind ih
  | case5 opened done t ts hkind ih | case6 opened done t ts hkind ih =>
    rw [← List.singleton_append, ← List.append_assoc]
    refine ih (hread.leaf ?_ hread.length_le) h
    simp [Token.mark?, hkind]
  | case8 opened done t ts inverted hkind hlt ih =>
    rw [← List.singleton_append, ← List.append_assoc]
    refine ih (.block hread hkind .nil ?_) h
    have hle := hread.length_le
    rw [List.reverse_nil, depthOf]
    omega
  | case10 done t ts hkind b opened hname body hbody block =>
    rename_i ih
    cases hread with
    | @block _ _ _ us vs hbefore hopening hdone hle =>
      have hsection : Nests (b.tag :: (vs ++ t :: [])) [block] :=
        .block hopening hdone hkind hname hbody .nil
      have hadd := ih (hbefore.append hsection ?_) h
      · simpa using hadd
      · rw [depthOf, Node.depth, depthOf]
        omega
  | case2 | case7 | case9 | case11 | case12 | case13 | case14 => cases h

/-- **What nesting does.** It accepts the tokens that nest into nodes, and gives these nodes, unless
their sections are nested too deep. -/
theorem nest_eq_ok_iff : nest ts = .ok ns ↔ Nests ts ns ∧ depthOf ns ≤ maxNesting := by
  constructor
  · intro h
    have hread : Read [] [] [] := .bottom .nil (Nat.zero_le _)
    exact nests_of_nestFrom hread h
  · rintro ⟨hnests, hdepth⟩
    have happend : nestFrom [] [] (ts ++ []) = nestFrom [] (ns.reverse ++ []) [] :=
      hnests.nestFrom_append (by simpa using hdepth) []
    rw [List.append_nil] at happend
    simpa [nest, nestFrom] using happend

end Mustache.Template

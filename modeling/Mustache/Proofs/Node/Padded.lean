import Mustache.Node.Source
import Mustache.Proofs.Text.Indent

/-!
# Nodes that are indented again

Indents add up: nodes that are indented by `a` and then by `b` are the nodes indented by `b ++ a`,
but for empty texts in between (`Node.padded_indentFrom_indentFrom`). Both walks over the nodes hand
on the same flag, which does not depend on the indent (`Node.indentFrom_snd`).
-/

namespace Mustache

/-- A line that starts with a text keeps it behind the indent. -/
theorem Text.indentText_append_cons {a : Text} (ha : '\n' ∉ a) (b : Text) (c : Char) (s : Text) :
    (Node.indentText b true (a ++ c :: s)).1 =
      b ++ a ++ c :: (Node.indentText b (c == '\n') s).1 := by
  rw [indentText_true (by simp), indentText_append, indentText_of_not_mem ha, indentText_cons]
  cases a with
  | nil => simp [freshAfter]
  | cons d a => simp [freshAfter_of_not_mem (List.cons_ne_nil d a) ha]

theorem Text.indentText_indentText {a : Text} (ha : '\n' ∉ a) (b : Text) (fresh : Bool)
    (s : Text) :
    (Node.indentText b fresh (Node.indentText a fresh s).1).1 =
      (Node.indentText (b ++ a) fresh s).1 := by
  induction s generalizing fresh with
  | nil => rfl
  | cons c s ih =>
    cases fresh with
    | true => rw [indentText_cons, if_pos rfl, indentText_append_cons ha, ih, indentText_cons,
        if_pos rfl]
    | false => simp [indentText_cons, ih]

theorem Text.freshAfter_indentText (w : Text) (fresh : Bool) (s : Text) :
    freshAfter fresh (Node.indentText w fresh s).1 = freshAfter fresh s := by
  induction s generalizing fresh with
  | nil => rfl
  | cons c s ih => rw [indentText_cons, freshAfter_append, freshAfter_cons, ih, freshAfter_cons]

namespace Node

variable {a w : Text}

/-! ### The start of a line -/

mutual

/-- Whether what follows a node starts a line. `fresh` says it of the node. -/
def freshBehindNode (fresh : Bool) : Node → Bool
  | .text content _ => Text.freshAfter fresh content
  | .value _ _ _ => false
  | .block _ _ children _ _ => freshBehind fresh children
  | .inclusion _ indent _ => indent.isSome

/-- Whether what follows a sequence of nodes starts a line. -/
def freshBehind (fresh : Bool) : List Node → Bool
  | [] => fresh
  | n :: ns => freshBehind (freshBehindNode fresh n) ns

end

theorem freshBehind_append (fresh : Bool) (ns ms : List Node) :
    freshBehind fresh (ns ++ ms) = freshBehind (freshBehind fresh ns) ms := by
  induction ns generalizing fresh with
  | nil => rfl
  | cons n ns ih => exact ih _

theorem indentFrom_append (w : Text) (fresh : Bool) (ns ms : List Node) :
    indentFrom w fresh (ns ++ ms) =
      ((indentFrom w fresh ns).1 ++ (indentFrom w (indentFrom w fresh ns).2 ms).1,
        (indentFrom w (indentFrom w fresh ns).2 ms).2) := by
  induction ns generalizing fresh with
  | nil => rfl
  | cons n ns ih => simp [indentFrom, ih]

theorem indentFrom_singleton (w : Text) (fresh : Bool) (n : Node) :
    indentFrom w fresh [n] = indentNode w fresh n := by
  simp [indentFrom]

/-- The flag that is handed on does not depend on the indent. -/
theorem indentFrom_snd (w : Text) (fresh : Bool) (ns : List Node) :
    (indentFrom w fresh ns).2 = freshBehind fresh ns := by
  induction ns using sequence_induction generalizing fresh with
  | nil => rfl
  | text content pos ns ih =>
    rw [indentFrom, indentNode, ih, Text.indentText_snd]
    rfl
  | value key raw pos ns ih => exact ih false
  | block key inverted children source pos ns ih ih' =>
    rw [indentFrom, indentNode, ih', ih]
    rfl
  | inclusion key indent pos ns ih =>
    cases indent with
    | none => exact ih false
    | some inner => exact ih true

theorem indentNode_snd (w : Text) (fresh : Bool) (n : Node) :
    (indentNode w fresh n).2 = freshBehindNode fresh n := by
  rw [← indentFrom_singleton, indentFrom_snd]
  rfl

theorem indentFrom_cons (w : Text) (fresh : Bool) (n : Node) (ns : List Node) :
    (indentFrom w fresh (n :: ns)).1 =
      (indentNode w fresh n).1 ++ (indentFrom w (freshBehindNode fresh n) ns).1 := by
  rw [indentFrom, indentNode_snd]

/-- An indent starts no line and ends none. -/
theorem freshBehind_indentFrom (w : Text) (fresh : Bool) (ns : List Node) :
    freshBehind fresh (indentFrom w fresh ns).1 = freshBehind fresh ns := by
  have hcons : ∀ {fresh : Bool} {n : Node} {ns : List Node},
      freshBehind fresh (indentNode w fresh n).1 = freshBehindNode fresh n →
      (∀ fresh, freshBehind fresh (indentFrom w fresh ns).1 = freshBehind fresh ns) →
      freshBehind fresh (indentFrom w fresh (n :: ns)).1 = freshBehind fresh (n :: ns) := by
    intro fresh n ns hn hns
    rw [indentFrom_cons, freshBehind_append, hn, hns]
    rfl
  induction ns using sequence_induction generalizing fresh with
  | nil => rfl
  | text content pos ns ih => exact hcons (Text.freshAfter_indentText w fresh content) ih
  | value key raw pos ns ih =>
    refine hcons ?_ ih
    cases fresh <;> rfl
  | block key inverted children source pos ns ih ih' => exact hcons (ih fresh) ih'
  | inclusion key indent pos ns ih =>
    refine hcons ?_ ih
    cases indent with
    | none => cases fresh <;> rfl
    | some inner => rfl

/-- Both indents go over the first node, and then over the others. -/
theorem indentFrom_indentFrom_cons (a b : Text) (fresh : Bool) (n : Node) (ns : List Node) :
    (indentFrom b fresh (indentFrom a fresh (n :: ns)).1).1 =
      (indentFrom b fresh (indentNode a fresh n).1).1 ++
        (indentFrom b (freshBehindNode fresh n)
          (indentFrom a (freshBehindNode fresh n) ns).1).1 := by
  have hflag : freshBehind fresh (indentNode a fresh n).1 = freshBehindNode fresh n := by
    rw [← indentFrom_singleton, freshBehind_indentFrom]
    rfl
  rw [indentFrom_cons, indentFrom_append, indentFrom_snd, hflag]

/-! ### Empty texts in between -/

/-- The first nodes are the second ones with empty texts put in between, at any depth. -/
inductive Padded : List Node → List Node → Prop
  | nil : Padded [] []
  | blank {pos ns ns'} : Padded ns ns' → Padded (.text [] pos :: ns) ns'
  | cons {n ns ns'} : Padded ns ns' → Padded (n :: ns) (n :: ns')
  | block {key inverted children children' source pos ns ns'} : Padded children children' →
    Padded ns ns' → Padded (.block key inverted children source pos :: ns)
      (.block key inverted children' source pos :: ns')

/-- Empty texts are not seen in the source text. -/
theorem Padded.sourceOf_eq {ns ns' : List Node} (h : Padded ns ns') :
    sourceOf ns = sourceOf ns' := by
  induction h with
  | nil => rfl
  | blank _ ih => rw [sourceOf, source, List.nil_append, ih]
  | cons _ ih => rw [sourceOf, sourceOf, ih]
  | block _ _ ih ih' => rw [sourceOf, sourceOf, source, source, ih, ih']

/-- With no indent, empty texts are all that comes in. -/
theorem padded_indentFrom_nil (fresh : Bool) (ns : List Node) :
    Padded (indentFrom [] fresh ns).1 ns := by
  induction ns using sequence_induction generalizing fresh with
  | nil => exact .nil
  | text content pos ns ih =>
    rw [indentFrom, indentNode, Text.indentText_nil]
    exact .cons (ih _)
  | value key raw pos ns ih =>
    rw [indentFrom, indentNode]
    cases fresh with
    | true => exact .blank (.cons (ih _))
    | false => exact .cons (ih _)
  | block key inverted children source pos ns ih ih' =>
    rw [indentFrom, indentNode]
    exact .block (ih _) (ih' _)
  | inclusion key indent pos ns ih =>
    cases indent with
    | some inner => exact .cons (ih _)
    | none =>
      rw [indentFrom, indentNode]
      cases fresh with
      | true => exact .blank (.cons (ih _))
      | false => exact .cons (ih _)

/-- What is put in front of a node at the start of a line is the text for the next indent. -/
theorem padded_indentFrom_leaf (ha : '\n' ∉ a) (b : Text) {n : Node} (fresh : Bool)
    (hn : ∀ w fresh, indentNode w fresh n =
      (if fresh then [.text w .nowhere, n] else [n], false)) {ns ns' : List Node}
    (h : Padded ns ns') :
    Padded ((indentFrom b fresh (indentNode a fresh n).1).1 ++ ns)
      ((indentNode (b ++ a) fresh n).1 ++ ns') := by
  rw [hn, hn]
  cases fresh with
  | false =>
    rw [if_neg Bool.false_ne_true, if_neg Bool.false_ne_true, indentFrom_singleton, hn]
    exact .cons h
  | true =>
    rw [if_pos rfl, if_pos rfl, indentFrom, indentFrom_singleton, indentNode, hn,
      Text.indentText_snd]
    cases a with
    | nil =>
      rw [List.append_nil]
      exact .blank (.cons (.cons h))
    | cons c a =>
      rw [Text.freshAfter_of_not_mem (List.cons_ne_nil c a) ha,
        Text.indentText_true (List.cons_ne_nil c a), Text.indentText_of_not_mem ha]
      exact .cons (.cons h)

/-- **Indents add up.** -/
theorem padded_indentFrom_indentFrom (ha : '\n' ∉ a) (b : Text) (fresh : Bool) (ns : List Node) :
    Padded (indentFrom b fresh (indentFrom a fresh ns).1).1 (indentFrom (b ++ a) fresh ns).1 := by
  induction ns using sequence_induction generalizing fresh with
  | nil => exact .nil
  | text content pos ns ih =>
    rw [indentFrom_indentFrom_cons, indentFrom_cons, indentNode, indentNode, indentFrom_singleton,
      indentNode, Text.indentText_indentText ha]
    exact .cons (ih _)
  | value key raw pos ns ih =>
    rw [indentFrom_indentFrom_cons, indentFrom_cons]
    exact padded_indentFrom_leaf ha b fresh (fun _ _ => rfl) (ih _)
  | block key inverted children source pos ns ih ih' =>
    rw [indentFrom_indentFrom_cons, indentFrom_cons, indentNode, indentNode, indentFrom_singleton,
      indentNode]
    exact .block (ih fresh) (ih' _)
  | inclusion key indent pos ns ih =>
    rw [indentFrom_indentFrom_cons, indentFrom_cons]
    cases indent with
    | none => exact padded_indentFrom_leaf ha b fresh (fun _ _ => rfl) (ih _)
    | some inner =>
      rw [indentNode, indentNode, indentFrom_singleton, indentNode, List.append_assoc]
      exact .cons (ih _)

end Node

end Mustache

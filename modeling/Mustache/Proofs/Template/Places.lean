import Mathlib.Data.List.Forall2
import Mustache.Proofs.Template.Grown

/-!
# Where nodes come from

Every node of a template knows its place, and every section the text between its tags. Both point
back into the template: the place of a node is the start of its tag, or of the text run that it is
cut from, and the text of a section is the part of the template between its tags
(`Template.exists_pointsBack_of_parse`).
-/

namespace Mustache

/-- A place, from the text in front of it. -/
theorem Position.advance_start (front : Text) :
    start.advance front =
      ⟨1 + front.count '\n', 1 + (Text.lastLine front).length, front.byteLength⟩ := by
  induction front using List.reverseRecOn with
  | nil => rfl
  | append_singleton front c ih =>
    rw [advance_append, ih, advance_cons, advance_nil, next]
    split
    · next hc =>
      subst hc
      simp [Text.lastLine_append_newline]
      omega
    · next hc =>
      have hline : '\n' ∉ [c] := by simpa using Ne.symm hc
      simp [Text.lastLine_append_of_not_mem hline, hc]
      omega

namespace Node

mutual

/-- A node, and behind it those inside it, in the order of the template. -/
def preorder : Node → List Node
  | .block key inverted children source pos =>
    .block key inverted children source pos :: preorderOf children
  | .text content pos => [.text content pos]
  | .value key raw pos => [.value key raw pos]
  | .inclusion key indent pos => [.inclusion key indent pos]

/-- The nodes of a sequence and those inside them, in the order of the template. -/
def preorderOf : List Node → List Node
  | [] => []
  | n :: ns => n.preorder ++ preorderOf ns

end

theorem mem_preorder (n : Node) : n ∈ n.preorder := by
  cases n <;> simp [preorder]

theorem mem_preorderOf_iff {n : Node} {ns : List Node} : n ∈ preorderOf ns ↔ Inside n ns := by
  constructor
  · induction ns using sequence_induction with
    | nil => nofun
    | text content pos ns ih | value key raw pos ns ih | inclusion key indent pos ns ih =>
      rw [preorderOf, preorder]
      rintro (_ | ⟨_, h⟩)
      · exact .head
      · exact .tail (ih h)
    | block key inverted children source pos ns ih ih' =>
      rw [preorderOf, preorder, List.cons_append]
      rintro (_ | ⟨_, h⟩)
      · exact .head
      · rcases List.mem_append.1 h with h | h
        · exact .child (ih h)
        · exact .tail (ih' h)
  · intro h
    induction h with
    | head => exact List.mem_append_left _ (mem_preorder n)
    | tail _ ih => exact List.mem_append_right _ ih
    | child _ ih =>
      rw [preorderOf, preorder]
      exact List.mem_append_left _ (List.mem_cons_of_mem _ ih)

end Node

namespace Template

open Node (Inside depthOf_le_of_inside marksOf preorderOf mem_preorderOf_iff)
open Token
open Sections (Reads)

variable {source : Text} {tokens ts : List Token} {ns : List Node}

/-- The nodes begin with tokens, in the same order. -/
theorem Grown.exists_begins (h : Grown ts ns) :
    ∃ us : List Token, us.Sublist ts ∧ List.Forall₂ Begins us (preorderOf ns) := by
  induction h with
  | nil => exact ⟨[], .slnil, .nil⟩
  | drop _ _ ih =>
    obtain ⟨us, hus, hbegins⟩ := ih
    exact ⟨us, .cons _ hus, hbegins⟩
  | @leaf t n _ _ hbegins hopening _ ih =>
    obtain ⟨us, hus, hrest⟩ := ih
    refine ⟨t :: us, .cons_cons _ hus, ?_⟩
    cases hbegins with
    | opening hkind => exact absurd hkind (hopening _)
    | text h h' => exact .cons (.text h h') hrest
    | escaped h => exact .cons (.escaped h) hrest
    | raw h => exact .cons (.raw h) hrest
    | inclusion h => exact .cons (.inclusion h) hrest
  | @block front inverted inner children back ts ns hfront _ _ _ _ ih ih' =>
    obtain ⟨us, hus, hbegins⟩ := ih
    obtain ⟨vs, hvs, hbegins'⟩ := ih'
    refine ⟨front :: (us ++ vs), .cons_cons _ (hus.append (.cons _ hvs)), ?_⟩
    exact .cons (.opening hfront) (List.rel_append hbegins hbegins')

theorem map_pos_of_begins (h : List.Forall₂ Begins ts ns) : ns.map Node.pos = ts.map Token.pos := by
  induction h with
  | nil => rfl
  | cons hbegins _ ih => rw [List.map_cons, List.map_cons, hbegins.pos_eq, ih]

theorem marks_of_leaf {t : Token} {n : Node} (h : t.mark? = some (.leaf n)) :
    n.marks = [.leaf n] := by
  cases hkind : t.kind <;> simp [Token.mark?, hkind] at h <;> subst h <;> rfl

/-- Every token that nests leaves a mark. -/
theorem Nests.map_mark? (h : Nests ts ns) : ts.map Token.mark? = (marksOf ns).map some := by
  induction h with
  | nil => rfl
  | leaf hmark _ ih =>
    rw [List.map_cons, hmark, ih, marksOf, marks_of_leaf hmark]
    rfl
  | block hfront _ hback hname _ _ ih ih' =>
    simp [marksOf, Node.marks, Token.mark?, hfront, hback, hname, ih, ih']

/-- A section of this name and place has two tags among the tokens, and between them the section
tags open and close in turn. Its text is the part of the template from the end of the first tag, at
the byte offset `start`, to the start of the second one, at `stop`. -/
structure Recorded (source : Text) (tokens : List Token) (key : Text) (inverted : Bool)
    (body : Text) (pos : Position) (start stop : Nat) : Prop where
  exists_tags : ∃ before front inner back after, tokens = before ++ front :: (inner ++ back :: after) ∧
    front.kind = .opening inverted ∧ front.content = key ∧ front.pos = pos ∧ front.stop = start ∧
    Reads [] inner [] ∧ back.kind = .closing ∧ back.content = key ∧ back.pos.offset = stop
  body_eq : source.slice start stop = body

/-- The nodes point back into the template, which has these tokens. -/
structure PointsBack (source : Text) (tokens : List Token) (nodes : List Node) : Prop where
  /-- The walk over the tree meets the tokens that are left when the lines of tags are taken out. -/
  marks_eq : (settle tokens).map Token.mark? = (marksOf nodes).map some
  /-- In order, each node begins with a token of its own. -/
  exists_begins : ∃ us : List Token, us.Sublist tokens ∧ List.Forall₂ Begins us (preorderOf nodes)
  /-- A token stands at its byte offset. -/
  behind_eq : ∀ t ∈ tokens, source.behind t.pos.offset = t.lexeme ++ t.behind
  line_eq : ∀ n, Inside n nodes → n.pos.line = 1 + (source.before n.pos.offset).count '\n'
  column_eq : ∀ n, Inside n nodes →
    n.pos.column = 1 + (Text.lastLine (source.before n.pos.offset)).length
  pairwise_offset : (preorderOf nodes).Pairwise fun n m => n.pos.offset < m.pos.offset
  /-- The text of a section is recorded; that of a section inside it is a part of it, with text
  left over on both sides. -/
  recorded : ∀ key inverted children body pos,
    Inside (.block key inverted children body pos) nodes →
    ∃ start stop, Recorded source tokens key inverted body pos start stop ∧
      ∀ key' inverted' children' body' pos',
        Inside (.block key' inverted' children' body' pos') children →
        ∃ start' stop', Recorded source tokens key' inverted' body' pos' start' stop' ∧
          ∃ lead trail : Text, lead ≠ [] ∧ trail ≠ [] ∧ body = lead ++ (body' ++ trail) ∧
            start' = start + lead.byteLength ∧ stop = stop' + trail.byteLength

/-! ### Places in the template -/

section
variable (hsplit : IsSplit .braces source tokens [])
include hsplit

theorem behind_of_isSplit {t : Token} (ht : t ∈ tokens) :
    source.behind t.pos.offset = t.lexeme ++ t.behind := by
  obtain ⟨before, after, rfl⟩ := List.append_of_mem ht
  obtain ⟨d, -, hnext⟩ := hsplit.isNext before t after rfl
  have hsource : before.flatMap lexeme ++ (t.lexeme ++ t.behind) = source := by
    rw [hnext.behind_eq, ← hsplit.source_eq]
    simp
  rw [← hsource, (hsplit.offsets rfl).1, Text.behind_append]

theorem pos_of_isSplit {t : Token} (ht : t ∈ tokens) :
    t.pos.line = 1 + (source.before t.pos.offset).count '\n' ∧
      t.pos.column = 1 + (Text.lastLine (source.before t.pos.offset)).length := by
  obtain ⟨before, after, rfl⟩ := List.append_of_mem ht
  obtain ⟨d, -, hnext⟩ := hsplit.isNext before t after rfl
  have hsource : before.flatMap lexeme ++ (t :: after).flatMap lexeme = source := by
    rw [← hsplit.source_eq]
    simp
  rw [(hsplit.offsets rfl).1, ← hsource, Text.before_append, hnext.pos_eq, Position.advance_start]
  exact ⟨rfl, rfl⟩

/-- Two tags of a section and the tokens between them. -/
theorem recorded_of_isSplit {key : Text} {inverted : Bool} {before inner after : List Token}
    {front back : Token} (htokens : tokens = before ++ front :: (inner ++ back :: after))
    (hfront : front.kind = .opening inverted) (hkey : front.content = key)
    (hinner : Reads [] inner []) (hback : back.kind = .closing) (hname : back.content = key) :
    Recorded source tokens key inverted (inner.flatMap lexeme) front.pos front.stop
      back.pos.offset := by
  refine ⟨⟨before, front, inner, back, after, htokens, hfront, hkey, rfl, rfl, hinner, hback, hname,
    rfl⟩, ?_⟩
  have hsource : (before ++ [front]).flatMap lexeme ++
      (inner.flatMap lexeme ++ (back :: after).flatMap lexeme) = source := by
    rw [← hsplit.source_eq, htokens]
    simp
  have hstop : back.pos.offset =
      Text.byteLength ((before ++ [front]).flatMap lexeme) + Text.byteLength (inner.flatMap lexeme) := by
    rw [(hsplit.offsets (by simp [htokens] : tokens = (before ++ front :: inner) ++
      back :: after)).1]
    simp [Nat.add_assoc]
  rw [(hsplit.offsets htokens).2, hstop, ← hsource, Text.slice_append]

/-- The text of a section that nodes hold, when these nodes stand between two tags. -/
theorem exists_recorded_of_inside {before inner after : List Token} {front back : Token}
    {children : List Node} (htokens : tokens = before ++ front :: (inner ++ back :: after))
    (hinner : Grown inner children) {key body : Text} {inverted : Bool} {children' : List Node}
    {pos : Position} (hdepth : Node.depthOf children' ≤ maxNesting)
    (hin : Inside (.block key inverted children' body pos) children) :
    ∃ start stop, Recorded source tokens key inverted body pos start stop ∧
      ∃ lead trail : Text, lead ≠ [] ∧ trail ≠ [] ∧
        inner.flatMap lexeme = lead ++ (body ++ trail) ∧
        start = front.stop + lead.byteLength ∧ back.pos.offset = stop + trail.byteLength := by
  obtain ⟨before', front', inner', back', after', rfl, hfront', rfl, rfl, hinner', hback', hname',
    rfl⟩ := hinner.exists_of_inside hin
  -- The tokens, as the three other tags split them.
  have hbacks : tokens = (before ++ front :: (before' ++ front' :: (inner' ++ back' :: after'))) ++
      back :: after := by simp [htokens]
  have hfronts' : tokens = (before ++ front :: before') ++
      front' :: (inner' ++ back' :: (after' ++ back :: after)) := by simp [htokens]
  have hbacks' : tokens = (before ++ front :: (before' ++ front' :: inner')) ++
      back' :: (after' ++ back :: after) := by simp [htokens]
  refine ⟨_, _, recorded_of_isSplit hsplit hfronts' hfront' rfl (hinner'.reads hdepth) hback'
    hname', (before' ++ [front']).flatMap lexeme, (back' :: after').flatMap lexeme, ?_, ?_, ?_, ?_,
    ?_⟩
  · simp [hsplit.lexeme_ne_nil (t := front') (by simp [htokens])]
  · simp [hsplit.lexeme_ne_nil (t := back') (by simp [htokens])]
  · simp
  · rw [(hsplit.offsets hfronts').2, (hsplit.offsets htokens).2]
    simp [Nat.add_assoc]
  · rw [(hsplit.offsets hbacks).1, (hsplit.offsets hbacks').1]
    simp [Nat.add_assoc]

end

/-- **The tree points back into the template.** It loses and invents nothing. -/
theorem exists_pointsBack_of_parse {template : Template} (h : parse source = .ok template) :
    ∃ tokens, scan source = .ok tokens ∧ PointsBack source tokens template.nodes := by
  obtain ⟨tokens, hscan, hnest⟩ := exists_of_parse h
  obtain ⟨hnests, hdepth⟩ := nest_eq_ok_iff.1 hnest
  have hsplit := isSplit_of_scan hscan
  have hgrown := grown_of_parse hscan h
  obtain ⟨us, hus, hbegins⟩ := hgrown.exists_begins
  have hpos := map_pos_of_begins hbegins
  have hplace : ∀ n, Inside n template.nodes → ∃ t ∈ tokens, t.pos = n.pos := by
    intro n hin
    have hmem := List.mem_map_of_mem (f := Node.pos) (mem_preorderOf_iff.2 hin)
    rw [hpos] at hmem
    obtain ⟨t, ht, heq⟩ := List.mem_map.1 hmem
    exact ⟨t, hus.subset ht, heq⟩
  refine ⟨tokens, hscan, hnests.map_mark?, ⟨us, hus, hbegins⟩, fun t => behind_of_isSplit hsplit,
    fun n hin => ?_, fun n hin => ?_, ?_, ?_⟩
  · obtain ⟨t, ht, hpos⟩ := hplace n hin
    rw [← hpos]
    exact (pos_of_isSplit hsplit ht).1
  · obtain ⟨t, ht, hpos⟩ := hplace n hin
    rw [← hpos]
    exact (pos_of_isSplit hsplit ht).2
  · have hpairs := hsplit.pairwise_offset.sublist hus
    rw [← List.pairwise_map (f := Token.pos) (R := fun p q => p.offset < q.offset), ← hpos] at hpairs
    exact (List.pairwise_map (f := Node.pos)).1 hpairs
  · intro key inverted children body pos hin
    have hdepth := Nat.le_trans (depthOf_le_of_inside hin) hdepth
    obtain ⟨before, front, inner, back, after, hfronts, hfront, rfl, rfl, hinner, hback, hname,
      rfl⟩ := hgrown.exists_of_inside hin
    refine ⟨_, _, recorded_of_isSplit hsplit hfronts hfront rfl (hinner.reads hdepth) hback hname, ?_⟩
    intro key' inverted' children' body' pos' hin'
    exact exists_recorded_of_inside hsplit hfronts hinner
      (Nat.le_trans (depthOf_le_of_inside hin') hdepth) hin'

/-- A section in a section of the same name, behind a character of two bytes. -/
def twice : Text := "é\n{{#x}}\n {{#x}}{{ y }}{{/x}}\n{{/x}}".toList

theorem twice_points_back :
    ∃ template tokens, parse twice = .ok template ∧ scan twice = .ok tokens ∧
      (preorderOf template.nodes).map Node.pos =
        [⟨1, 1, 0⟩, ⟨2, 1, 3⟩, ⟨2, 7, 9⟩, ⟨3, 2, 11⟩, ⟨3, 8, 17⟩, ⟨3, 21, 30⟩] ∧
      PointsBack twice tokens template.nodes := by
  have hplaces : (parse twice).toOption.any fun template =>
      (preorderOf template.nodes).map Node.pos =
        [⟨1, 1, 0⟩, ⟨2, 1, 3⟩, ⟨2, 7, 9⟩, ⟨3, 2, 11⟩, ⟨3, 8, 17⟩, ⟨3, 21, 30⟩] := by
    decide +kernel
  rw [Option.any_eq_true] at hplaces
  obtain ⟨template, hparse, hplaces⟩ := hplaces
  have hparse := eq_ok_of_toOption_eq_some hparse
  obtain ⟨tokens, hscan, hpoints⟩ := exists_pointsBack_of_parse hparse
  exact ⟨template, tokens, hparse, hscan, of_decide_eq_true hplaces, hpoints⟩

end Template

end Mustache

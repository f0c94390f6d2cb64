import Mustache.Proofs.Template.Marks
import Mustache.Proofs.Token.Margins

/-!
# The text of a parsed template

What a template writes as it is, and the indents of its references to partials, can be read off its
source and the places of its tags.
-/

namespace Mustache

namespace Template

theorem textOf_of_nest {ts : List Token} {ns : List Node} (h : nest ts = .ok ns) :
    Node.textOf ns = Token.runsOf ts := by
  rw [Node.textOf, marksOf_of_nest h]
  clear h
  induction ts with
  | nil => rfl
  | cons t ts ih =>
    cases hkind : t.kind <;>
      simp [Token.runsOf, Token.mark?, hkind, Node.Mark.text] <;> simpa [Token.runsOf] using ih

theorem inclusionsOf_of_nest {ts : List Token} {ns : List Node} (h : nest ts = .ok ns) :
    Node.inclusionsOf ns = Token.inclusionsOf ts := by
  rw [Node.inclusionsOf, marksOf_of_nest h, Token.inclusionsOf, List.filterMap_filterMap]
  congr 1
  funext t
  cases hkind : t.kind <;> simp [Token.mark?, hkind, Node.Mark.inclusion?]

/-- **Lines of their own.** The tokens of a template take up all of it, each at its place. The text
nodes hold what is left when every tag is taken out, and with a tag that is alone on its line the
blanks in front of it and the rest of its line; nothing else is missing, doubled or moved. A
reference to a partial keeps the blanks in front of it just when it is alone on its line. -/
theorem textOf_and_inclusionsOf_of_parse {source : Text} {template : Template}
    (h : parse source = .ok template) :
    ∃ tokens, Token.scan source = .ok tokens ∧ tokens.flatMap Token.lexeme = source ∧
      (∀ t ∈ tokens, ∃ front back, Token.Lies source front t back) ∧
      Node.textOf template.nodes = source.without (Token.takesAny source tokens) ∧
      Node.inclusionsOf template.nodes = Token.inclusionsIn source tokens := by
  obtain ⟨tokens, hscan, hnest⟩ := exists_of_parse h
  have htiled := Token.tiled_of_scan hscan
  have hpassed : Text.Passed [] (some []) := rfl
  refine ⟨tokens, hscan, htiled.flatMap_lexeme, ?_, ?_, ?_⟩
  · intro t ht
    obtain ⟨mid, back, hlies⟩ := htiled.exists_lies ht
    exact ⟨mid, back, hlies⟩
  · rw [textOf_of_nest hnest]
    exact htiled.runsOf_settleFrom hpassed (.inl (.inl rfl)) (by simp) (by simp)
  · rw [inclusionsOf_of_nest hnest]
    exact htiled.inclusionsOf_settleFrom hpassed

/-- A reference and a section tag with lines of their own, a section tag and a change of delimiters
that share one, and a comment between the new delimiters. -/
theorem parse_five_tags :
    (parse "a\n \t{{>p}} \r\n{{#s}}\nb{{/s}} {{=| |=}}\n|! x|".toList).toOption.map
      (fun template => (Node.textOf template.nodes, Node.inclusionsOf template.nodes)) =
        some ("a\nb \n".toList, [(['p'], some [' ', '\t'], ⟨2, 3, 4⟩)]) := by
  decide +kernel

theorem lines_of_five_tags : ∃ tokens,
    Token.scan "a\n \t{{>p}} \r\n{{#s}}\nb{{/s}} {{=| |=}}\n|! x|".toList = .ok tokens ∧
    Text.without "a\n \t{{>p}} \r\n{{#s}}\nb{{/s}} {{=| |=}}\n|! x|".toList
      (Token.takesAny "a\n \t{{>p}} \r\n{{#s}}\nb{{/s}} {{=| |=}}\n|! x|".toList tokens) =
        "a\nb \n".toList ∧
    Token.inclusionsIn "a\n \t{{>p}} \r\n{{#s}}\nb{{/s}} {{=| |=}}\n|! x|".toList tokens =
      [(['p'], some [' ', '\t'], ⟨2, 3, 4⟩)] := by
  obtain ⟨template, hoption, heq⟩ := Option.map_eq_some_iff.1 parse_five_tags
  have hparse := eq_ok_of_toOption_eq_some hoption
  obtain ⟨htext, hinclusions⟩ := Prod.mk.inj heq
  obtain ⟨tokens, hscan, -, -, htext', hinclusions'⟩ := textOf_and_inclusionsOf_of_parse hparse
  exact ⟨tokens, hscan, htext'.symm.trans htext, hinclusions'.symm.trans hinclusions⟩

end Template

end Mustache

import Mustache.Proofs.Context.Change

/-!
# Scopes that take in JSON objects

A scope that takes in an object holds its members, as it was given them, and nothing else has changed
(`Context.exists_extendJson`). The scopes for arrays and for objects that are not made of scalars
alone are new ones. A context made from JSON is the case of a scope that was empty.
-/

namespace Mustache.Context

open Json (Members scalarNames sectionNames)

/-- **A scope takes in an object.** If it has no items under the names of the members, it holds each
member afterwards, and the scopes that arrays and other objects are held by are new and hold nothing
else. Its texts are what they were but for the names of scalars, its sections but for the names of
arrays and objects, and all other scopes are what they were. No scope is an item twice. -/
theorem exists_extendJson {c : Context} {id : ScopeId} {s : Scope} {members : Members}
    (hc : c.Reachable) (hs : c.scope id = .ok s) (hdistinct : (Json.object members).Distinct)
    (hitems : ∀ m ∈ members, s.itemsOf m.1 = []) :
    ∃ c' s', c.extendJson id (.object members) = .ok c' ∧ c'.scope id = .ok s' ∧
      (∀ m ∈ members, Holds c.scopes.size c' id s' m.1 m.2) ∧
      s'.parent = s.parent ∧
      (∀ key ∉ scalarNames members, s'.texts[key]? = s.texts[key]?) ∧
      (∀ key ∉ sectionNames members, s'.sections[key]? = s.sections[key]?) ∧
      c.scopes.size ≤ c'.scopes.size ∧
      (∀ j < c.scopes.size, j ≠ id → c'.scope j = c.scope j) ∧
      c'.Tree := by
  obtain ⟨-, hmembers, hnodup⟩ := bindable_of_distinct hdistinct
  have hs := getElem?_of_scope hs
  obtain ⟨c', s', hc', hgrown, hholds⟩ := exists_bindMembers hmembers hnodup hs hitems
  have hextend : c.extendJson id (.object members) = .ok c' := by
    have hc' : c.bindMembers id members = .ok c' := hc'
    rw [extendJson, hc']
    rfl
  have htree : c'.Tree :=
    (Reachable.extendJson hc (Array.getElem?_eq_some_iff.1 hs).1 hextend).tree
  refine ⟨c', s', hextend, ?_, hholds, hgrown.parent_eq, hgrown.texts_eq, hgrown.sections_eq,
    hgrown.size_le, fun j hj hne => scope_eq_of_getElem? (hgrown.kept j hj hne), htree⟩
  rw [scope, hgrown.scope_eq]

/-- A root with a text and fields of one name, and no items. -/
theorem exists_text_and_fields :
    ∃ c s, (empty.set root ['k'] (.text ['t']) >>= (·.set root ['k'] (.fields ∅))) = .ok c ∧
      c.Reachable ∧ c.scope root = .ok s ∧ s.texts[['k']]? = some ['t'] ∧
      ∀ key, s.itemsOf key = [] := by
  have hempty : empty.scopes[root]? = some {} := rfl
  obtain ⟨c, s, hc, hgrown, htext⟩ := exists_setText hempty ['k'] ['t']
  obtain ⟨c', s', hc', hgrown', hsection⟩ :=
    exists_modify_sections hgrown.scope_eq ['k'] fun _ => .fields ∅
  have hset : empty.set root ['k'] (.text ['t']) = .ok c := hc
  have hset' : c.set root ['k'] (.fields ∅) = .ok c' := hc'
  have hlt := (Array.getElem?_eq_some_iff.1 hgrown.scope_eq).1
  refine ⟨c', s', ?_, .set (.set .empty Nat.one_pos hset) hlt hset', ?_, ?_, fun key => ?_⟩
  · rw [hset]
    exact hset'
  · rw [scope, hgrown'.scope_eq]
  · rw [hgrown'.texts_eq ['k'] List.not_mem_nil, htext]
  · by_cases hkey : key = ['k']
    · rw [hkey, Scope.itemsOf, hsection]
      rfl
    · have hother : key ∉ [['k']] := by simpa using hkey
      exact (hgrown'.itemsOf_eq hother).trans (hgrown.itemsOf_eq List.not_mem_nil)

/-- The root has a text and fields of one name, and takes in an array under this name, next to
objects of each kind and a scalar. The text stays, and the fields make way for an item for each value
of the array. -/
theorem exists_extendJson_rows :
    let members : Members :=
      [("bits".toList, .object [(['n'], .number (.integer 7)), ("no".toList, .bool false)]),
        (['k'], .array [.null, .object []]), ("none".toList, .object []),
        ("tree".toList, .object [("bits".toList, .object []), ("name".toList, .string ['t'])]),
        (['x'], .bool true)]
    ∃ c c' s', (empty.set root ['k'] (.text ['t']) >>= (·.set root ['k'] (.fields ∅))) = .ok c ∧
      c.extendJson root (.object members) = .ok c' ∧ c'.scope root = .ok s' ∧
      (∀ m ∈ members, Holds c.scopes.size c' root s' m.1 m.2) ∧
      s'.texts[['x']]? = some "true".toList ∧ s'.texts[['k']]? = some ['t'] ∧
      (∃ map, s'.sections["bits".toList]? = some (.fields map) ∧ map[['n']]? = some ['7'] ∧
        map["no".toList]? = some [] ∧ map[['x']]? = none) ∧
      s'.sections["none".toList]? = some (.fields ∅) ∧
      (∃ child, s'.sections["tree".toList]? = some (.items [child]) ∧ c.scopes.size ≤ child ∧
        Child c' root
          (child, [("bits".toList, .object []), ("name".toList, .string ['t'])])) ∧
      ∃ first second, s'.sections[['k']]? = some (.items [first, second]) ∧
        Child c' root (first, [(['.'], .null)]) ∧ Child c' root (second, []) := by
  intro members
  have hread : Json.read? ("\x7b\"bits\":\x7b\"n\":7,\"no\":false\x7d,".toList ++
      "\"k\":[null,\x7b\x7d],\"none\":\x7b\x7d,".toList ++
      "\"tree\":\x7b\"bits\":\x7b\x7d,\"name\":\"t\"\x7d,\"x\":true\x7d".toList) =
      some (.object members) := by with_unfolding_all rfl
  obtain ⟨c, s, hc, hreachable, hs, htext, hitems⟩ := exists_text_and_fields
  obtain ⟨c', s', hc', hs', hholds, -, htexts, -⟩ :=
    exists_extendJson hreachable hs (Json.distinct_of_read? hread) fun m _ => hitems m.1
  have hall := hholds
  simp only [members, List.forall_mem_cons] at hall
  obtain ⟨hbits, hrows, hnone, htree, hx, -⟩ := hall
  refine ⟨c, c', s', hc, hc', hs', hholds, hx.text_eq rfl, ?_, ?_, ?_,
    htree.exists_child (by decide), ?_⟩
  · rw [htexts ['k'] (by decide), htext]
  · obtain ⟨map, hmap, htexts⟩ := hbits.exists_fields (by decide)
    exact ⟨map, hmap, htexts _, htexts _, htexts _⟩
  · obtain ⟨map, hmap, htexts⟩ := hnone.exists_fields (by decide)
    have hnothing : map = ∅ := Std.ExtTreeMap.ext_getElem? fun name => by
      rw [htexts]
      simp
    rw [hmap, hnothing]
  · -- One scope for each item.
    obtain ⟨_, hscopes, _ | ⟨hfirst, _ | ⟨hsecond, _ | _⟩⟩⟩ := hrows.exists_scopes
    exact ⟨_, _, hscopes, hfirst.2, hsecond.2⟩

end Mustache.Context

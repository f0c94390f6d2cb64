import Mustache.Directory
import Mustache.Proofs.Text.Occurrence
import Mustache.Proofs.Text.Split

/-!
# Names of partials

Which names stand for a file (`Directory.checkName_eq_ok_iff`), what the others are refused with
(`Directory.exists_checkName_eq_error`), and the path of the file (`Directory.pathOf_injective`).
-/

namespace Mustache.Directory

variable {root : Path} {name : Text}

/-- A name that could not lead out of the directory. -/
structure Accepts (name : Text) : Prop where
  ne_nil : name ≠ []
  no_dots : ¬ ['.', '.'] <:+: name
  no_backslash : '\\' ∉ name
  no_colon : ':' ∉ name
  part_ne_nil : [] ∉ parts name
  part_ne_dot : ['.'] ∉ parts name

theorem checkName_eq_ok_iff : checkName name = .ok () ↔ Accepts name := by
  have hdots : (Text.cutAt? ['.', '.'] name).isSome = true ↔ ['.', '.'] <:+: name := by
    rw [← Decidable.not_iff_not, Bool.not_eq_true, Option.isSome_eq_false_iff,
      Option.isNone_iff_eq_none, Text.cutAt?_eq_none_iff]
  have hparts : ((parts name).any fun part => part.isEmpty || part == ['.']) = true ↔
      [] ∈ parts name ∨ ['.'] ∈ parts name := by
    simp [List.any_eq_true, and_or_left, exists_or]
  have hchars : ∀ c, name.contains c = true ↔ c ∈ name := fun c => by simp
  rw [checkName]
  constructor
  · intro h
    split at h
    · cases h
    · next hne =>
      split at h
      · cases h
      · next htraversal =>
        split at h
        · cases h
        · next hpart =>
          simp only [Bool.or_eq_true, hdots, hchars, not_or] at htraversal
          rw [hparts, not_or] at hpart
          exact ⟨by simpa using hne, htraversal.1.1, htraversal.1.2, htraversal.2, hpart.1, hpart.2⟩
  · intro h
    rw [if_neg (by simpa using h.ne_nil), if_neg, if_neg]
    · rw [hparts, not_or]
      exact ⟨h.part_ne_nil, h.part_ne_dot⟩
    · simp only [Bool.or_eq_true, hdots, hchars, not_or]
      exact ⟨⟨h.no_dots, h.no_backslash⟩, h.no_colon⟩

/-- Every other name is refused with an error for partials. -/
theorem exists_checkName_eq_error (h : ¬ Accepts name) :
    ∃ e, checkName name = .error e ∧ "Partial error: ".toList <+: e.message := by
  cases hcheck : checkName name with
  | ok => exact absurd (checkName_eq_ok_iff.1 hcheck) h
  | error e =>
    refine ⟨e, rfl, ?_⟩
    rw [checkName] at hcheck
    split at hcheck
    · cases hcheck
      exact List.isPrefixOf_iff_prefix.1 (by decide)
    · split at hcheck
      · cases hcheck
        exact (List.isPrefixOf_iff_prefix.1 (by decide)).trans (List.prefix_append _ name)
      · split at hcheck
        · cases hcheck
          exact (List.isPrefixOf_iff_prefix.1 (by decide)).trans (List.prefix_append _ name)
        · cases hcheck

/-! ### The path of the file -/

/-- The path of the file is that of the directory, and behind it the parts of the name with the
ending at the last one. -/
theorem exists_pathOf_eq (root : Path) (name : Text) : ∃ front last,
    parts name = front ++ [last] ∧ pathOf root name = root ++ front ++ [last ++ ending] := by
  have hne : parts name ≠ [] := Text.splitAt_ne_nil (· == '/') name
  refine ⟨(parts name).dropLast, (parts name).getLast hne, ?_, ?_⟩
  · exact (List.dropLast_concat_getLast hne).symm
  · rw [pathOf, List.getLast?_eq_some_getLast hne]
    rfl

theorem slash_not_mem_of_mem_parts {part : Text} (h : part ∈ parts name) : '/' ∉ part := by
  intro hslash
  have := Text.eq_false_of_mem_splitAt h '/' hslash
  simp at this

/-- No two names have a file in common. -/
theorem pathOf_injective (root : Path) : (pathOf root).Injective := by
  intro name name' h
  obtain ⟨front, last, hparts, hpath⟩ := exists_pathOf_eq root name
  obtain ⟨front', last', hparts', hpath'⟩ := exists_pathOf_eq root name'
  rw [hpath, hpath'] at h
  obtain ⟨hfront, hlast⟩ := List.append_inj' h rfl
  apply Text.eq_of_splitAt_eq (c := '/')
  change parts name = parts name'
  rw [hparts, hparts', List.append_cancel_left hfront,
    List.append_cancel_right (List.singleton_inj.1 hlast)]

end Mustache.Directory

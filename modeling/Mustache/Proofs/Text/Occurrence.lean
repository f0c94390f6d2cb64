import Mustache.Text

/-!
# The first occurrence of a mark

`Text.Avoids mark run behind` says that no `mark` begins inside `run` when `behind` follows it. The
cuts of `Mustache.Text` at a mark are the ones and only ones that this holds of
(`Text.spanUntil_eq_iff`, `Text.cutAt?_eq_some_iff`).
-/

namespace Mustache.Text

variable {mark s run behind before after : Text}

theorem spanUntil_snd (mark s : Text) :
    (spanUntil mark s).2 = [] ∨ ∃ rest, (spanUntil mark s).2 = mark ++ rest := by
  induction s with
  | nil => exact .inl rfl
  | cons c s ih =>
    rw [spanUntil]
    split
    · next h =>
      obtain ⟨rest, hrest⟩ := Option.isSome_iff_exists.1 h
      exact .inr ⟨rest, (dropPrefix?_eq_some_iff.1 hrest).symm⟩
    · exact ih

theorem spanUntil_fst_ne_nil {mark : Text} {c : Char} {s : Text}
    (h : dropPrefix? mark (c :: s) = none) : (spanUntil mark (c :: s)).1 ≠ [] := by
  simp [spanUntil, h]

/-- No `mark` begins inside `run` when `behind` follows it. -/
def Avoids (mark run behind : Text) : Prop :=
  ∀ x y, run ++ behind = x ++ (mark ++ y) → run.length ≤ x.length

theorem Avoids.of_append {more : Text} (h : Avoids mark run (behind ++ more)) :
    Avoids mark run behind := by
  intro x y heq
  refine h x (y ++ more) ?_
  rw [← List.append_assoc, heq]
  simp

/-- What follows the mark that ends a run does not matter. -/
theorem avoids_append_iff : Avoids mark run (mark ++ behind) ↔ Avoids mark run mark := by
  refine ⟨Avoids.of_append, fun h x y heq => Nat.le_of_not_lt fun hlt => ?_⟩
  have hlength : (x ++ mark).length ≤ (run ++ mark).length := by
    rw [List.length_append, List.length_append]
    omega
  have hx : x ++ mark <+: run ++ (mark ++ behind) := ⟨y, by rw [heq, List.append_assoc]⟩
  have hrun : run ++ mark <+: run ++ (mark ++ behind) := ⟨behind, List.append_assoc _ _ _⟩
  obtain ⟨y', hy'⟩ := List.prefix_of_prefix_length_le hx hrun hlength
  exact Nat.not_le_of_lt hlt (h x y' (by rw [← hy', List.append_assoc]))

/-- Where a mark stands, no other text stands in front of it that avoids it. -/
theorem Avoids.eq_nil (h : Avoids mark run behind) (hmark : mark <+: run ++ behind) : run = [] := by
  obtain ⟨y, hy⟩ := hmark
  exact List.length_eq_zero_iff.1 (Nat.le_zero.1 (h [] y hy.symm))

theorem length_spanUntil_append_le (mark x y : Text) :
    (spanUntil mark (x ++ (mark ++ y))).1.length ≤ x.length := by
  induction x with
  | nil =>
    cases hs : mark ++ y with
    | nil => exact Nat.le_refl 0
    | cons c s =>
      have hmark : (dropPrefix? mark (c :: s)).isSome := by
        rw [← hs, dropPrefix?_append]
        rfl
      simp [spanUntil, hmark]
  | cons c x ih =>
    rw [List.cons_append, spanUntil]
    split
    · exact Nat.zero_le _
    · exact Nat.succ_le_succ ih

theorem avoids_spanUntil (mark s : Text) :
    Avoids mark (spanUntil mark s).1 (spanUntil mark s).2 := by
  intro x y heq
  rw [spanUntil_append] at heq
  rw [heq]
  exact length_spanUntil_append_le mark x y

/-- A text is cut in front of the first mark in it, or at its end if there is none. -/
theorem spanUntil_eq_iff : spanUntil mark s = (run, behind) ↔
    run ++ behind = s ∧ Avoids mark run behind ∧ (behind = [] ∨ mark <+: behind) := by
  constructor
  · intro h
    have hcut : spanUntil mark s = ((spanUntil mark s).1, (spanUntil mark s).2) := rfl
    obtain ⟨rfl, rfl⟩ := Prod.mk.inj (hcut.symm.trans h)
    refine ⟨spanUntil_append mark s, avoids_spanUntil mark s, ?_⟩
    exact (spanUntil_snd mark s).imp_right fun ⟨rest, hrest⟩ => ⟨rest, hrest.symm⟩
  · rintro ⟨rfl, havoids, hbehind⟩
    have hle : (spanUntil mark (run ++ behind)).1.length ≤ run.length := by
      rcases hbehind with rfl | ⟨rest, rfl⟩
      · have h := congrArg List.length (spanUntil_append mark (run ++ []))
        rw [List.length_append, List.length_append] at h
        exact Nat.le_trans (Nat.le_add_right _ _) (Nat.le_of_eq h)
      · exact length_spanUntil_append_le mark run rest
    have hge : run.length ≤ (spanUntil mark (run ++ behind)).1.length := by
      have h := spanUntil_append mark (run ++ behind)
      rcases spanUntil_snd mark (run ++ behind) with hnil | ⟨rest, hrest⟩
      · rw [hnil, List.append_nil] at h
        rw [h, List.length_append]
        exact Nat.le_add_right _ _
      · rw [hrest] at h
        exact havoids _ rest h.symm
    obtain ⟨hrun, hrest⟩ :=
      List.append_inj (spanUntil_append mark (run ++ behind)) (Nat.le_antisymm hle hge)
    exact Prod.ext hrun hrest

theorem spanUntil_mark (mark rest : Text) : spanUntil mark (mark ++ rest) = ([], mark ++ rest) :=
  spanUntil_eq_iff.2 ⟨rfl, fun _ _ _ => Nat.zero_le _, .inr (List.prefix_append mark rest)⟩

theorem cutAt?_eq_some_iff : cutAt? mark s = some (before, after) ↔
    before ++ (mark ++ after) = s ∧ Avoids mark before (mark ++ after) := by
  constructor
  · intro h
    have hs := cutAt?_eq_some h
    obtain ⟨rest, hrest, heq⟩ := Option.map_eq_some_iff.1 h
    obtain ⟨rfl, rfl⟩ := Prod.mk.inj heq
    rw [List.append_assoc] at hs
    rw [dropPrefix?_eq_some_iff.1 hrest]
    exact ⟨spanUntil_append mark s, avoids_spanUntil mark s⟩
  · rintro ⟨hs, havoids⟩
    have hspan := spanUntil_eq_iff.2 ⟨hs, havoids, .inr (List.prefix_append mark after)⟩
    rw [cutAt?, hspan, dropPrefix?_append]
    rfl

theorem cutAt?_eq_none_iff : cutAt? mark s = none ↔ ¬ mark <:+: s := by
  rw [cutAt?, Option.map_eq_none_iff]
  constructor
  · rintro h ⟨x, y, rfl⟩
    rw [List.append_assoc] at h
    rcases spanUntil_snd mark (x ++ (mark ++ y)) with hnil | ⟨rest, hrest⟩
    · -- The text in front of the mark would be all of the text, and the mark would be empty.
      have hs := spanUntil_append mark (x ++ (mark ++ y))
      rw [hnil, List.append_nil] at hs
      have hle := length_spanUntil_append_le mark x y
      rw [hs, List.length_append, List.length_append] at hle
      obtain rfl := List.length_eq_zero_iff.1 (show mark.length = 0 by omega)
      rw [dropPrefix?] at h
      cases h
    · rw [hrest, dropPrefix?_append] at h
      cases h
  · intro h
    cases hmark : dropPrefix? mark (spanUntil mark s).2 with
    | none => rfl
    | some rest =>
      refine absurd ⟨(spanUntil mark s).1, rest, ?_⟩ h
      rw [List.append_assoc, dropPrefix?_eq_some_iff.1 hmark, spanUntil_append]

end Mustache.Text

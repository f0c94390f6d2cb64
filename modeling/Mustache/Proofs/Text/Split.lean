import Mustache.Text

/-!
# Texts split at a character

The pieces of a text, joined by the character at which it was split, are the text again, so that
texts with the same pieces are equal. No piece holds the character.
-/

namespace Mustache.Text

variable {c : Char} {s t : Text}

theorem splitAt_eq_splitOnP (p : Char → Bool) (s : Text) : splitAt p s = s.splitOnP p := by
  induction s with
  | nil => rfl
  | cons c s ih => rw [splitAt, List.splitOnP_cons_eq_if_modifyHead, ih]

theorem splitAt_ne_nil (p : Char → Bool) (s : Text) : splitAt p s ≠ [] :=
  splitAt_eq_splitOnP p s ▸ List.splitOnP_ne_nil p s

/-- The pieces, joined again. -/
theorem intercalate_splitAt (c : Char) (s : Text) : [c].intercalate (splitAt (· == c) s) = s := by
  rw [splitAt_eq_splitOnP]
  exact List.intercalate_splitOn c

theorem eq_of_splitAt_eq (h : splitAt (· == c) s = splitAt (· == c) t) : s = t := by
  rw [← intercalate_splitAt c s, h, intercalate_splitAt]

/-- No piece holds a character at which the text was split. -/
theorem eq_false_of_mem_splitAt {p : Char → Bool} {s piece : Text} (h : piece ∈ splitAt p s) :
    ∀ c ∈ piece, p c = false := by
  induction s generalizing piece with
  | nil =>
    intro c hc
    simp only [splitAt, List.mem_singleton] at h
    simp [h] at hc
  | cons a s ih =>
    rw [splitAt] at h
    split at h
    · rcases List.mem_cons.1 h with rfl | h
      · intro c hc
        cases hc
      · exact ih h
    · next ha =>
      cases hs : splitAt p s with
      | nil => simp [hs] at h
      | cons first pieces =>
        rw [hs, List.modifyHead_cons] at h
        rw [hs] at ih
        rcases List.mem_cons.1 h with rfl | h
        · intro c hc
          rcases List.mem_cons.1 hc with rfl | hc
          · simpa using ha
          · exact ih List.mem_cons_self c hc
        · exact ih (List.mem_cons_of_mem _ h)

theorem two_le_length_splitAt (h : c ∈ s) : 2 ≤ (splitAt (· == c) s).length := by
  induction s with
  | nil => cases h
  | cons d s ih =>
    rw [splitAt]
    split
    · have := List.length_pos_iff.2 (splitAt_ne_nil (· == c) s)
      rw [List.length_cons]
      omega
    · next hne =>
      rw [List.length_modifyHead]
      refine ih ((List.mem_cons.1 h).resolve_left ?_)
      rintro rfl
      simp at hne

end Mustache.Text

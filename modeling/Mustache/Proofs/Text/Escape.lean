import Mathlib.Logic.Function.Basic
import Mustache.Text.Escape

/-!
# Escaped texts

`Text.Escaped` holds of the texts that write no markup: they are free of `<`, `>` and `"`, and every
`&` in them starts an entity. They are the texts that escaping gives, each of them for one text only,
which `Text.unescape` reads off it from left to right (`Text.escape_reversible`).
-/

namespace Mustache.Text

/-- Reads entities as the characters that they stand for, from left to right. Every other character
stands for itself. -/
def unescape : Text → Text
  | '&' :: 'a' :: 'm' :: 'p' :: ';' :: s => '&' :: unescape s
  | '&' :: 'l' :: 't' :: ';' :: s => '<' :: unescape s
  | '&' :: 'g' :: 't' :: ';' :: s => '>' :: unescape s
  | '&' :: 'q' :: 'u' :: 'o' :: 't' :: ';' :: s => '"' :: unescape s
  | c :: s => c :: unescape s
  | [] => []

/-- The entities. -/
def entities : List Text := ["&amp;".toList, "&lt;".toList, "&gt;".toList, "&quot;".toList]

/-- A text that writes no markup. -/
structure Escaped (t : Text) : Prop where
  no_less : '<' ∉ t
  no_greater : '>' ∉ t
  no_quote : '"' ∉ t
  /-- An ampersand starts an entity. -/
  ampersand : ∀ before after, t = before ++ '&' :: after → ∃ e ∈ entities, e <+: '&' :: after

variable {s t : Text} {c : Char}

/-! ### One character -/

/-- A character that stands for itself. -/
theorem entity_of_ne (hamp : c ≠ '&') (hless : c ≠ '<') (hgreater : c ≠ '>') (hquote : c ≠ '"') :
    entity c = [c] := by
  unfold entity
  split <;> simp_all

theorem unescape_cons (h : c ≠ '&') (s : Text) : unescape (c :: s) = c :: unescape s := by
  rw [unescape] <;> simp_all

theorem unescape_entity_append (c : Char) (s : Text) : unescape (entity c ++ s) = c :: unescape s := by
  unfold entity
  split
  · rfl
  · rfl
  · rfl
  · rfl
  · next h _ _ _ => exact unescape_cons h s

/-! ### Texts without markup -/

theorem escaped_nil : Escaped [] := ⟨by simp, by simp, by simp, by simp⟩

theorem Escaped.of_append (h : Escaped (s ++ t)) : Escaped t where
  no_less hmem := h.no_less (List.mem_append_right s hmem)
  no_greater hmem := h.no_greater (List.mem_append_right s hmem)
  no_quote hmem := h.no_quote (List.mem_append_right s hmem)
  ampersand before after heq :=
    h.ampersand (s ++ before) after (by rw [heq, List.append_assoc])

theorem Escaped.cons (h : Escaped t) (hamp : c ≠ '&') (hless : c ≠ '<') (hgreater : c ≠ '>')
    (hquote : c ≠ '"') : Escaped (c :: t) where
  no_less := by simpa [hless.symm] using h.no_less
  no_greater := by simpa [hgreater.symm] using h.no_greater
  no_quote := by simpa [hquote.symm] using h.no_quote
  ampersand before after heq := by
    cases before with
    | nil =>
      rw [List.nil_append, List.cons.injEq] at heq
      exact absurd heq.1 hamp
    | cons d before =>
      rw [List.cons_append, List.cons.injEq] at heq
      exact h.ampersand before after heq.2

/-- An entity is an ampersand and characters that stand for themselves. -/
theorem Escaped.entity_append (h : Escaped t) {name : Text} (hname : '&' :: name ∈ entities)
    (hplain : ∀ c ∈ name, c ≠ '&' ∧ c ≠ '<' ∧ c ≠ '>' ∧ c ≠ '"') :
    Escaped ('&' :: name ++ t) := by
  have hrest : Escaped (name ++ t) := by
    clear hname
    induction name with
    | nil => exact h
    | cons c name ih =>
      obtain ⟨hamp, hless, hgreater, hquote⟩ := hplain c List.mem_cons_self
      exact (ih fun d hd => hplain d (List.mem_cons_of_mem c hd)).cons hamp hless hgreater hquote
  refine ⟨by simpa using hrest.no_less, by simpa using hrest.no_greater,
    by simpa using hrest.no_quote, fun before after heq => ?_⟩
  cases before with
  | nil => exact ⟨_, hname, t, heq⟩
  | cons d before =>
    rw [List.cons_append, List.cons_append, List.cons.injEq] at heq
    exact hrest.ampersand before after heq.2

theorem escaped_escape (s : Text) : Escaped (escape s) := by
  induction s with
  | nil => exact escaped_nil
  | cons c s ih =>
    rw [escape_cons]
    unfold entity
    split
    · exact ih.entity_append (by decide) (by simp)
    · exact ih.entity_append (by decide) (by simp)
    · exact ih.entity_append (by decide) (by simp)
    · exact ih.entity_append (by decide) (by simp)
    · next hamp hless hgreater hquote => exact ih.cons hamp hless hgreater hquote

theorem unescape_escape (s : Text) : unescape (escape s) = s := by
  induction s with
  | nil => rfl
  | cons c s ih => rw [escape_cons, unescape_entity_append, ih]

/-- What an escaped text is read as is written as this text. -/
theorem Escaped.escape_unescape (h : Escaped t) : escape (unescape t) = t := by
  fun_induction unescape t with
  | case1 s ih => exact congrArg (entity '&' ++ ·) (ih (h.of_append (s := entity '&')))
  | case2 s ih => exact congrArg (entity '<' ++ ·) (ih (h.of_append (s := entity '<')))
  | case3 s ih => exact congrArg (entity '>' ++ ·) (ih (h.of_append (s := entity '>')))
  | case4 s ih => exact congrArg (entity '"' ++ ·) (ih (h.of_append (s := entity '"')))
  | case5 c s hamp hlt hgt hquot ih =>
    have hplain : c ≠ '&' := by
      rintro rfl
      -- An ampersand in front of none of the four names.
      obtain ⟨e, he, rest, hrest⟩ := h.ampersand [] s rfl
      simp only [entities, List.mem_cons, List.not_mem_nil, or_false] at he
      rcases he with rfl | rfl | rfl | rfl
      · exact hamp rest rfl (List.cons.inj hrest).2.symm
      · exact hlt rest rfl (List.cons.inj hrest).2.symm
      · exact hgt rest rfl (List.cons.inj hrest).2.symm
      · exact hquot rest rfl (List.cons.inj hrest).2.symm
    have hless : c ≠ '<' := fun heq => h.no_less (heq ▸ List.mem_cons_self)
    have hgreater : c ≠ '>' := fun heq => h.no_greater (heq ▸ List.mem_cons_self)
    have hquote : c ≠ '"' := fun heq => h.no_quote (heq ▸ List.mem_cons_self)
    rw [escape_cons, entity_of_ne hplain hless hgreater hquote, ih (h.of_append (s := [c]))]
    rfl
  | case6 => rfl

/-! ### The law -/

/-- **Escaping is undone by reading the entities,** and leaves no markup. The texts without markup
are the escaped texts, and each of them is that of one text. Texts are escaped part by part. -/
theorem escape_reversible (s : Text) :
    Escaped (escape s) ∧ unescape (escape s) = s ∧ Function.Injective escape ∧
      (∀ t, escape (s ++ t) = escape s ++ escape t) ∧
      ∀ t, t = escape s ↔ Escaped t ∧ unescape t = s := by
  refine ⟨escaped_escape s, unescape_escape s, Function.LeftInverse.injective unescape_escape,
    escape_append s, fun t => ⟨?_, ?_⟩⟩
  · rintro rfl
    exact ⟨escaped_escape s, unescape_escape s⟩
  · rintro ⟨hescaped, rfl⟩
    exact hescaped.escape_unescape.symm

/-- Entities in the text itself are escaped once more. -/
example : escape "a &lt; &amp;lt; &".toList = "a &amp;lt; &amp;amp;lt; &amp;".toList := by decide

end Mustache.Text

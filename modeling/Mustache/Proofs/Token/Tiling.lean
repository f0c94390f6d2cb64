import Mustache.Proofs.Except
import Mustache.Proofs.Text.Occurrence
import Mustache.Proofs.Text.Split
import Mustache.Token.Scan

/-!
# The tokens of a template lie side by side

`Token.Tiled front ts rest` says that the tokens `ts` take up all of `rest` in a template that has
`front` before it: each token stands at the place of its lexeme and knows the text behind it, no
text run is empty or stands beside another one, and no tag begins or ends with white space. The
scan of a template has these properties (`Token.tiled_of_scan`), whatever delimiters its tags set.
-/

namespace Mustache

namespace Text

/-! ### Texts that do not begin or end with white space -/

/-- The first character is not white space. -/
def StartsSolid (s : Text) : Prop := ∃ c rest, s = c :: rest ∧ isWhite c = false

/-- The last character is not white space. -/
def EndsSolid (s : Text) : Prop := ∃ front c, s = front ++ [c] ∧ isWhite c = false

theorem StartsSolid.append {s : Text} (h : s.StartsSolid) (t : Text) : (s ++ t).StartsSolid := by
  obtain ⟨c, rest, rfl, hc⟩ := h
  exact ⟨c, rest ++ t, rfl, hc⟩

theorem EndsSolid.append {t : Text} (h : t.EndsSolid) (s : Text) : (s ++ t).EndsSolid := by
  obtain ⟨front, c, rfl, hc⟩ := h
  exact ⟨s ++ front, c, by simp, hc⟩

theorem StartsSolid.of_solid {s : Text} (hne : s ≠ []) (h : ∀ c ∈ s, isWhite c = false) :
    s.StartsSolid := by
  cases s with
  | nil => exact absurd rfl hne
  | cons c rest => exact ⟨c, rest, rfl, h c List.mem_cons_self⟩

theorem EndsSolid.of_solid {s : Text} (hne : s ≠ []) (h : ∀ c ∈ s, isWhite c = false) :
    s.EndsSolid :=
  ⟨s.dropLast, s.getLast hne, (List.dropLast_concat_getLast hne).symm, h _ (List.getLast_mem hne)⟩

theorem isWhite_of_mem_word {s word : Text} (h : word ∈ words s) :
    ∀ c ∈ word, isWhite c = false :=
  eq_false_of_mem_splitAt (List.mem_filter.1 h).1

end Text

namespace Delimiters

/-- Neither mark holds white space. -/
def Solid (d : Delimiters) : Prop :=
  (∀ c ∈ d.opening, Text.isWhite c = false) ∧ ∀ c ∈ d.closing, Text.isWhite c = false

theorem solid_braces : braces.Solid := by
  have hopening : Text.isWhite '{' = false := by decide
  have hclosing : Text.isWhite '}' = false := by decide
  exact ⟨by simpa [braces] using hopening, by simpa [braces] using hclosing⟩

theorem solid_of_ofContent? {content : Text} {d : Delimiters} (h : ofContent? content = some d) :
    d.Solid := by
  unfold ofContent? at h
  split at h
  · next opening closing hwords =>
    split at h
    · cases h
    · cases h
      exact ⟨Text.isWhite_of_mem_word (s := content) (by simp [hwords]),
        Text.isWhite_of_mem_word (s := content) (by simp [hwords])⟩
  · cases h

theorem Solid.startsSolid_opening {d : Delimiters} (h : d.Solid) : d.opening.StartsSolid :=
  .of_solid d.opening_ne_nil h.1

theorem Solid.endsSolid_closing {d : Delimiters} (h : d.Solid) : d.closing.EndsSolid :=
  .of_solid d.closing_ne_nil h.2

end Delimiters

namespace Token

/-! ### One tag -/

theorem Kind.ofSigil?_ne_text {c : Char} {kind : Kind} {guard : Text}
    (h : Kind.ofSigil? c = some (kind, guard)) : kind ≠ .text := by
  unfold Kind.ofSigil? at h
  split at h <;> simp at h <;> simp [← h.1]

theorem Head.kind_ne_text (body : Text) : (Head.read body).1.kind ≠ .text := by
  cases body with
  | nil => simp [Head.read]
  | cons c s =>
    rw [Head.read]
    split
    · next h => exact Kind.ofSigil?_ne_text h
    · simp

theorem solid_of_judge {d d' : Delimiters} {kind : Kind} {content name : Text} (hd : d.Solid)
    (h : judge d kind content = .ok (name, d')) : d'.Solid := by
  unfold judge at h
  split at h
  · cases h
    exact hd
  · split at h
    · next hd' =>
      cases h
      exact Delimiters.solid_of_ofContent? hd'
    · cases h
  · split at h
    · cases h
    · cases h
      exact hd

/-- What a tag is that was read off a template with the delimiters `d` in force. -/
structure IsTagOf (d : Delimiters) (pos : Position) (rest : Text) (t : Token) : Prop where
  kind_ne_text : t.kind ≠ .text
  startsSolid : t.lexeme.StartsSolid
  endsSolid : t.lexeme.EndsSolid
  pos_eq : t.pos = pos
  behind_eq : t.behind = rest
  indent_eq : t.indent = none

theorem isTagOf_of_scanTag {d d' : Delimiters} {pos : Position} {body rest : Text} {t : Token}
    (hd : d.Solid) (h : scanTag d pos body = .ok (t, d', rest)) :
    t.IsTagOf d pos rest ∧ d'.Solid := by
  unfold scanTag at h
  dsimp only at h
  split at h
  · cases h
  · split at h
    · cases h
    · next hjudge =>
      cases h
      refine ⟨⟨Head.kind_ne_text body, hd.startsSolid_opening.append _, ?_, rfl, rfl, rfl⟩,
        solid_of_judge hd hjudge⟩
      simp only [← List.append_assoc]
      exact hd.endsSolid_closing.append _

/-! ### All tokens -/

/-- The tokens lie side by side behind `front` and take up all of `rest`. -/
inductive Tiled : (front : Text) → List Token → (rest : Text) → Prop
  | nil {front} : Tiled front [] []
  | run {front t ts} {rest : Text} : t.kind = .text → t.content = t.lexeme → t.lexeme ≠ [] →
    (rest = [] ∨ rest.StartsSolid) → (∀ u ∈ ts.head?, u.kind ≠ .text) →
    t.pos = Position.start.advance front → t.behind = rest → t.indent = none →
    Tiled (front ++ t.lexeme) ts rest → Tiled front (t :: ts) (t.lexeme ++ rest)
  | tag {front t ts} {rest : Text} : t.kind ≠ .text → t.lexeme.StartsSolid → t.lexeme.EndsSolid →
    t.pos = Position.start.advance front → t.behind = rest → t.indent = none →
    Tiled (front ++ t.lexeme) ts rest → Tiled front (t :: ts) (t.lexeme ++ rest)

/-- Where the delimiter in force stands, the next token is a tag. -/
theorem head_ne_text_of_scanFrom {d : Delimiters} {pos : Position} {body : Text} {ts : List Token}
    (hd : d.Solid) (h : scanFrom d pos (d.opening ++ body) = .ok ts) :
    ∀ u ∈ ts.head?, u.kind ≠ .text := by
  intro u hu
  unfold scanFrom at h
  split at h
  · cases h
    cases hu
  · next c s hsource =>
    split at h
    · next hnone =>
      rw [← hsource, Text.dropPrefix?_append] at hnone
      cases hnone
    · split at h
      · cases h
      · next hscan =>
        obtain ⟨us, -, rfl⟩ := exists_ok_of_map_eq_ok h
        cases hu
        exact (isTagOf_of_scanTag hd hscan).1.kind_ne_text

theorem tiled_of_scanFrom {d : Delimiters} {front rest : Text} {ts : List Token} (hd : d.Solid)
    (h : scanFrom d (Position.start.advance front) rest = .ok ts) : Tiled front ts rest := by
  generalize hpos : Position.start.advance front = pos at h
  fun_induction scanFrom d pos rest generalizing front ts with
  | case1 =>
    cases h
    exact .nil
  | case2 d pos c s hnone run =>
    rename_i ih
    obtain ⟨us, hus, rfl⟩ := exists_ok_of_map_eq_ok h
    have htiled := ih hd (by rw [Position.advance_append, hpos]) hus
    rw [← Text.spanUntil_append d.opening (c :: s)]
    rcases Text.spanUntil_snd d.opening (c :: s) with hend | ⟨body, hbody⟩
    · have hrest : run.2 = [] := hend
      refine .run rfl rfl (Text.spanUntil_fst_ne_nil hnone) (.inl hend) ?_ hpos.symm rfl rfl htiled
      rw [hrest, scanFrom] at hus
      cases hus
      simp
    · have hrest : run.2 = d.opening ++ body := hbody
      refine .run rfl rfl (Text.spanUntil_fst_ne_nil hnone) (.inr ?_) ?_ hpos.symm rfl rfl htiled
      · exact hbody ▸ hd.startsSolid_opening.append body
      · exact head_ne_text_of_scanFrom hd (hrest ▸ hus)
  | case3 => cases h
  | case4 d pos c s body hopening t d' rest hscan ih =>
    obtain ⟨us, hus, rfl⟩ := exists_ok_of_map_eq_ok h
    obtain ⟨htag, hd'⟩ := isTagOf_of_scanTag hd hscan
    have hlexeme := lexeme_append_of_scanTag hscan
    rw [Text.dropPrefix?_eq_some_iff.1 hopening] at hlexeme
    rw [← hlexeme]
    exact .tag htag.kind_ne_text htag.startsSolid htag.endsSolid (htag.pos_eq.trans hpos.symm)
      htag.behind_eq htag.indent_eq (ih hd' (by rw [Position.advance_append, hpos]) hus)

/-- The tokens of a template take up all of it. -/
theorem tiled_of_scan {source : Text} {ts : List Token} (h : scan source = .ok ts) :
    Tiled [] ts source :=
  tiled_of_scanFrom Delimiters.solid_braces h

theorem Tiled.flatMap_lexeme {front rest : Text} {ts : List Token} (h : Tiled front ts rest) :
    ts.flatMap lexeme = rest := by
  induction h with
  | nil => rfl
  | run _ _ _ _ _ _ _ _ _ ih | tag _ _ _ _ _ _ _ ih => rw [List.flatMap_cons, ih]

end Token

end Mustache

import Mustache.Proofs.Text.Words
import Mustache.Proofs.Token.Written

/-!
# Templates that set no delimiters

In a template that sets no delimiters every token is a text run that no opening brace mark stands in
or a tag between braces: `Token.Spelled` says so of the tokens of such a template
(`Token.spelled_of_scan`).
-/

namespace Mustache

namespace Text

/-! ### Runs that hold no mark -/

/-- An opening mark stands in the text. -/
def Marked (s : Text) : Prop := ['{', '{'] <:+: s

theorem dropPrefix?_braces_eq_none {c : Char} {s rest : Text} (h : ¬ Marked (c :: s))
    (hlast : rest = [] ∨ (c :: s).getLast? ≠ some '{') :
    (dropPrefix? ['{', '{'] (c :: (s ++ rest))).isSome = false := by
  cases hmark : dropPrefix? ['{', '{'] (c :: (s ++ rest)) with
  | none => rfl
  | some body =>
    have heq := dropPrefix?_eq_some_iff.1 hmark
    cases s with
    | nil =>
      rcases hlast with rfl | hlast
      · cases heq
      · have hc : c = '{' := (List.cons.inj heq).1.symm
        simp [hc] at hlast
    | cons d s =>
      refine absurd ⟨[], s, ?_⟩ h
      simp only [List.cons_append, List.nil_append, List.cons.injEq] at heq ⊢
      exact ⟨heq.1, heq.2.1, trivial⟩

/-- A text that no mark stands in, and that no mark begins at the end of. -/
theorem Clear.of_not_marked {s rest : Text} (h : ¬ Marked s)
    (hlast : rest = [] ∨ s.getLast? ≠ some '{') : Clear s rest := by
  induction s with
  | nil => exact .nil rest
  | cons c s ih =>
    have htail : ¬ Marked s := fun hs => h (hs.trans (List.suffix_cons c s).isInfix)
    have hlast' : rest = [] ∨ s.getLast? ≠ some '{' := by
      refine hlast.imp_right fun hlast => ?_
      cases s with
      | nil => simp
      | cons d s => rwa [List.getLast?_cons_cons] at hlast
    rw [Clear, List.cons_append, spanUntil_cons_of_not_isSome (dropPrefix?_braces_eq_none h hlast),
      ih htail hlast', List.cons_append]

theorem not_marked_of_spanUntil {s rest : Text} (h : (spanUntil ['{', '{'] (s ++ rest)).1 = s) :
    ¬ Marked s := by
  rintro ⟨x, y, rfl⟩
  have hlength := length_spanUntil_append_le ['{', '{'] x (y ++ rest)
  simp only [List.append_assoc] at h
  rw [h] at hlength
  simp only [List.length_append, List.length_cons] at hlength
  omega

theorem getLast?_ne_of_spanUntil {s body : Text}
    (h : (spanUntil ['{', '{'] (s ++ (['{', '{'] ++ body))).1 = s) : s.getLast? ≠ some '{' := by
  intro hlast
  obtain ⟨x, rfl⟩ := List.getLast?_eq_some_iff.1 hlast
  have hlength := length_spanUntil_append_le ['{', '{'] x ('{' :: body)
  have hsource : x ++ (['{', '{'] ++ '{' :: body) = x ++ ['{'] ++ (['{', '{'] ++ body) := by simp
  rw [hsource, h, List.length_append, List.length_singleton] at hlength
  omega

end Text

namespace Token

/-- A text run that no mark stands in. -/
structure ReadsAsRun (t : Token) : Prop where
  kind_eq : t.kind = .text
  content_eq : t.content = t.lexeme
  lexeme_ne_nil : t.lexeme ≠ []
  indent_eq : t.indent = none
  not_marked : ¬ Text.Marked t.lexeme

/-- A tag between braces. -/
structure ReadsAsTag (t : Token) : Prop where
  kind_ne_text : t.kind ≠ .text
  indent_eq : t.indent = none
  fits : Fits .braces t

/-- The tokens of a template that sets no delimiters. -/
inductive Spelled : List Token → Prop
  | nil : Spelled []
  | run {t ts} : t.ReadsAsRun → (ts = [] ∨ t.lexeme.getLast? ≠ some '{') →
    (∀ u ∈ ts.head?, u.kind ≠ .text) → Spelled ts → Spelled (t :: ts)
  | tag {t ts} : t.ReadsAsTag → Spelled ts → Spelled (t :: ts)

/-! ### The tokens of such a template -/

theorem readsAsTag_of_scanTag {pos : Position} {body rest : Text} {t : Token}
    (h : scanTag .braces pos body = .ok (t, .braces, rest)) : t.ReadsAsTag := by
  obtain ⟨hnext, hkind, -⟩ := scanTag_eq_ok_iff.1 h
  exact ⟨hkind, hnext.indent_eq, hnext.fits⟩

theorem spelled_of_scanFrom {d : Delimiters} {pos : Position} {source : Text} {ts : List Token}
    (hd : d = .braces) (h : scanFrom d pos source = .ok ts)
    (hkeeps : ∀ t ∈ ts, t.kind ≠ .delimiters) : Spelled ts := by
  fun_induction scanFrom d pos source generalizing ts with
  | case1 =>
    cases h
    exact .nil
  | case2 d pos c s hnone run =>
    rename_i ih
    subst hd
    obtain ⟨us, hus, rfl⟩ := exists_ok_of_map_eq_ok h
    have hspan : (Text.spanUntil ['{', '{'] (run.1 ++ run.2)).1 = run.1 := by
      rw [Text.spanUntil_append]
      rfl
    have hspelled := ih rfl hus fun t ht => hkeeps t (List.mem_cons_of_mem _ ht)
    have hrun : ReadsAsRun ⟨.text, run.1, run.1, pos, run.2, none⟩ :=
      ⟨rfl, rfl, Text.spanUntil_fst_ne_nil hnone, rfl, Text.not_marked_of_spanUntil hspan⟩
    rcases Text.spanUntil_snd ['{', '{'] (c :: s) with hend | ⟨body, hbody⟩
    · have hempty := isEmpty_of_scanFrom hus
      rw [show run.2 = [] from hend, List.isEmpty_nil, List.isEmpty_iff] at hempty
      exact .run hrun (.inl hempty) (by simp [hempty]) hspelled
    · have hrest : run.2 = ['{', '{'] ++ body := hbody
      rw [hrest] at hspan hus
      exact .run hrun (.inr (Text.getLast?_ne_of_spanUntil hspan))
        (head_ne_text_of_scanFrom Delimiters.solid_braces hus) hspelled
  | case3 => cases h
  | case4 d pos c s body hopening t d' rest hscan ih =>
    subst hd
    obtain ⟨us, hus, rfl⟩ := exists_ok_of_map_eq_ok h
    obtain rfl := delimiters_of_scanTag hscan (hkeeps t List.mem_cons_self)
    exact .tag (readsAsTag_of_scanTag hscan)
      (ih rfl hus fun t ht => hkeeps t (List.mem_cons_of_mem _ ht))

theorem spelled_of_scan {source : Text} {ts : List Token} (h : scan source = .ok ts)
    (hkeeps : ∀ t ∈ ts, t.kind ≠ .delimiters) : Spelled ts :=
  spelled_of_scanFrom rfl h hkeeps

end Token

end Mustache

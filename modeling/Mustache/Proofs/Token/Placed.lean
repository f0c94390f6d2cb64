import Mustache.Proofs.Token.Split

/-!
# Tokens at another place

The text that some tokens of a template take up is scanned into the same tokens, wherever it stands,
by the delimiters in force where it stood (`Token.IsSplit.scanFrom_placed`).
-/

namespace Mustache.Token

/-- The tokens, side by side, with the first of them at `pos` and `back` behind the last. -/
def placed (back : Text) (pos : Position) : List Token → List Token
  | [] => []
  | t :: ts =>
    { t with pos, behind := ts.flatMap lexeme ++ back } :: placed back (pos.advance t.lexeme) ts

variable {back source rest : Text} {pos : Position} {d d₀ : Delimiters} {ts us vs : List Token}

theorem length_placed (back : Text) (pos : Position) (ts : List Token) :
    (placed back pos ts).length = ts.length := by
  induction ts generalizing pos with
  | nil => rfl
  | cons t ts ih => rw [placed, List.length_cons, List.length_cons, ih]

theorem placed_append (back : Text) (pos : Position) (ts us : List Token) :
    placed back pos (ts ++ us) =
      placed (us.flatMap lexeme ++ back) pos ts ++
        placed back (pos.advance (ts.flatMap lexeme)) us := by
  induction ts generalizing pos with
  | nil => rfl
  | cons t ts ih =>
    rw [List.cons_append, placed, placed, ih, List.flatMap_append, List.append_assoc,
      List.flatMap_cons, Position.advance_append, List.cons_append]

/-- The tokens of a template are placed, and so is every part of them. -/
theorem placed_eq_of_append (h : placed back pos (ts ++ us) = ts ++ us) :
    placed (us.flatMap lexeme ++ back) pos ts = ts ∧
      placed back (pos.advance (ts.flatMap lexeme)) us = us := by
  rw [placed_append] at h
  exact List.append_inj h (length_placed _ _ _)

theorem placed_of_cons {t : Token} (h : placed back pos (t :: ts) = t :: ts) :
    t.pos = pos ∧ t.behind = ts.flatMap lexeme ++ back ∧
      placed back (pos.advance t.lexeme) ts = ts := by
  rw [placed, List.cons.injEq] at h
  exact ⟨(congrArg Token.pos h.1).symm, (congrArg Token.behind h.1).symm, h.2⟩

/-- The text between two tokens is that of the tokens between them. -/
theorem textUpTo?_of_placed {t u : Token} (h : placed back pos (t :: (ts ++ u :: us)) =
    t :: (ts ++ u :: us)) : t.textUpTo? u.pos.offset = some (ts.flatMap lexeme) := by
  obtain ⟨hpos, hbehind, hrest⟩ := placed_of_cons h
  obtain ⟨hpos', -, -⟩ := placed_of_cons (placed_eq_of_append hrest).2
  rw [List.flatMap_append, List.append_assoc] at hbehind
  rw [← textUpTo?_eq_some hbehind, stop, hpos', hpos]
  simp only [Position.offset_advance]

/-- Behind a text run a delimiter stands. -/
theorem IsSplit.exists_lexeme_eq {t u : Token} {after : List Token}
    (h : IsSplit d₀ source (ts ++ t :: u :: after) rest) (hforce : InForce d₀ ts d)
    (hkind : t.kind = .text) : ∃ inner, u.lexeme = d.opening ++ inner := by
  obtain ⟨d', hforce', hnext⟩ := h.isNext (ts ++ [t]) u after (by simp)
  obtain rfl := ((inForce_concat_of_ne (by simp [hkind])).1 hforce').unique hforce
  exact hnext.fits.exists_lexeme_eq (h.kind_ne_text hkind)

/-- The text of a part of the tokens is scanned into them at any place. -/
theorem IsSplit.scanFrom_placed (h : IsSplit d₀ source (ts ++ (us ++ vs)) rest)
    (hforce : InForce d₀ ts d) (pos : Position) :
    scanFrom d pos (us.flatMap lexeme) = .ok (placed [] pos us) := by
  induction us generalizing ts d pos with
  | nil => rw [List.flatMap_nil, scanFrom, placed]
  | cons u us ih =>
    obtain ⟨d', hforce', hnext⟩ := h.isNext ts u (us ++ vs) rfl
    obtain rfl := hforce'.unique hforce
    obtain ⟨d, hforce⟩ := hnext.fits.exists_inForce
    have hrest := ih (by simpa using h) (hforce'.append hforce) (pos.advance u.lexeme)
    have hkept : u.kind = .text → us.flatMap lexeme = [] ∨ d'.opening <+: us.flatMap lexeme := by
      intro hkind
      cases us with
      | nil => exact .inl rfl
      | cons w us =>
        obtain ⟨inner, hlexeme⟩ := h.exists_lexeme_eq hforce' hkind
        rw [List.flatMap_cons, hlexeme, List.append_assoc]
        exact .inr (List.prefix_append _ _)
    have hbehind : u.behind = us.flatMap lexeme ++ (vs.flatMap lexeme ++ rest) := by
      rw [hnext.behind_eq, List.flatMap_append, List.append_assoc]
    have hplaced : IsNext d' pos (us.flatMap lexeme) { u with pos, behind := us.flatMap lexeme } :=
      ⟨hnext.fits.of_append hbehind hkept pos, rfl, rfl, hnext.indent_eq⟩
    have hforce : InForce d' [{ u with pos, behind := us.flatMap lexeme }] d := by
      rwa [inForce_singleton_iff] at hforce ⊢
    rw [List.flatMap_cons, placed, hplaced.scanFrom_eq hforce, hrest, List.append_nil]
    rfl

theorem placed_of_scan (h : scan source = .ok ts) : placed [] .start ts = ts := by
  have hsplit := isSplit_of_scan h
  have hparts : IsSplit .braces source ([] ++ (ts ++ [])) [] := by simpa using hsplit
  have hscan := hparts.scanFrom_placed (inForce_nil_iff.2 rfl) .start
  have hsource := hsplit.source_eq
  rw [List.append_nil] at hsource
  rw [hsource] at hscan
  exact Except.ok.inj (hscan.symm.trans h)

end Mustache.Token

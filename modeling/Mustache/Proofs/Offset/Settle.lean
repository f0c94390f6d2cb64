import Mustache.Proofs.Offset.Margins
import Mustache.Proofs.Token.Margins

/-!
# Settling lines by byte offsets

A second walk over the tokens cuts each text run between what the tags beside it take. A run cannot
be cut when they take more of it than it holds. For the tokens of a template this does not happen,
since a line feed stands between what two tags take (`Offset.exists_cut?_eq`), and what is left is
what `Token.settle` leaves (`Offset.settle?_eq`).
-/

namespace Mustache

namespace Offset

/-- What is left of the token at this index, if anything. -/
def keep? (m : Margins) (i : Nat) (t : Spanned) : Option (Option Spanned) := do
  if t.kind = .text then
    let start ← m.starts[i]?
    let n ← m.ends[i]?
    let stop ← t.content.byteLength.psub n
    let content ← t.content.cut? start stop
    return if content.isEmpty then none else some { t with content }
  else
    let indent ← m.indents[i]?
    return if t.kind.isSilent then none else some { t with indent }

/-- What is left of the tokens from this index on. -/
def keepFrom? (m : Margins) (i : Nat) : List Spanned → Option (List Spanned)
  | [] => some []
  | t :: ts => do
    let kept ← keep? m i t
    let rest ← keepFrom? m (i + 1) ts
    return kept.toList ++ rest

/-- Takes the lines of the tags that are alone on theirs out of a template's tokens. -/
def settle? (tokens : List Spanned) : Option (List Spanned) := do
  let m ← margins? tokens
  keepFrom? m 0 tokens

/-! ### What is left of a run -/

/-- The blanks at the end of a run, when nothing else stands on its last line. -/
theorem dropTrailingBlanks_eq {front run kept lead : Text}
    (h : (front ++ run).lead? = some lead) (hrun : run = kept ++ lead) :
    run.dropTrailingBlanks = kept := by
  obtain ⟨hblank, q, hq, hend⟩ := Text.lead?_eq_some_iff.1 h
  have hkept : front ++ kept = q := by
    rw [hrun, ← List.append_assoc] at hq
    exact List.append_cancel_right hq
  rw [hrun]
  refine Text.dropTrailingBlanks_append hblank ?_
  rcases List.eq_nil_or_concat kept with rfl | ⟨kept, c, rfl⟩
  · exact .inl rfl
  · rcases hend with rfl | ⟨s, rfl⟩
    · simp at hkept
    · have hc : c = '\n' := by simpa using congrArg List.getLast? hkept
      exact .inr ⟨kept, by simp [hc]⟩

/-- What the tags beside a run take of it leaves a part of it: they take no byte twice. -/
theorem exists_cut?_eq {front rest run : Text} {ts : List Token} {passed : Option Text} {cut : Bool}
    (h : Token.Tiled (front ++ run) ts rest) (hfront : front = [] ∨ front.EndsSolid)
    (hrest : Text.EndsRun rest) (hpassed : Text.Passed (front ++ run) passed)
    (hcut : cut → ∃ trail, (run ++ rest).trail? = some trail) :
    ∃ stop,
      run.byteLength.psub (if Token.headIsAlone passed ts then blanksLength run else 0) = some stop ∧
      run.cut? (if cut then lineEndLength run else 0) stop =
        some (Token.cutRun run cut (Token.headIsAlone passed ts)) := by
  obtain ⟨trail, htrail, hnil, hrun⟩ := h.exists_cutRun hfront hrest hpassed hcut
  have halone := h.headIsAlone_eq hpassed
  generalize Token.cutRun run cut (Token.headIsAlone passed ts) = kept at hrun ⊢
  have hstart : (if cut then lineEndLength run else 0) = trail.byteLength := by
    cases cut with
    | false =>
      rw [hnil rfl]
      rfl
    | true =>
      rw [if_pos rfl, lineEndLength_eq rfl (Text.eq_append_dropLineEnd hrest (htrail rfl)).1]
  have hend : (if Token.headIsAlone passed ts then blanksLength run else 0) =
      (Token.headLead (front ++ run ++ rest) ts).byteLength := by
    rw [Token.headLead] at hrun ⊢
    rw [halone]
    cases hmargins : Token.headMargins? (front ++ run ++ rest) ts with
    | none => rfl
    | some margins =>
      obtain ⟨u, hu, hu'⟩ := Option.bind_eq_some_iff.1 hmargins
      obtain ⟨back, hlies⟩ := h.lies_head hu
      have hlead := (hlies.margins?_eq_some_iff.1 hu').2.1
      rw [hmargins, ← List.append_assoc] at hrun
      exact blanksLength_eq (dropTrailingBlanks_eq hlead hrun) hrun
  refine ⟨(trail ++ kept).byteLength, Nat.psub_eq_some.2 ?_, ?_⟩
  · rw [hend, ← Text.byteLength_append, List.append_assoc, ← hrun]
  · rw [hstart]
    conv => lhs; rw [hrun]
    exact Text.cut?_append trail kept _

/-! ### What is left of a token -/

variable {tokens ts : List Token} {i : Nat} {t : Token}

/-- A run is cut between what the tags beside it take. -/
theorem keep?_text (ht : tokens[i]? = some t) (hkind : t.kind = .text) {stop : Nat}
    (hstop : t.content.byteLength.psub
      (if aloneAt tokens (i + 1) then blanksLength t.content else 0) = some stop)
    (hcut : t.content.cut? (if cutAt tokens i then lineEndLength t.content else 0) stop =
      some (Token.cutRun t.content (cutAt tokens i) (aloneAt tokens (i + 1)))) :
    (keep? (marginsOf tokens) i t.spanned).map Option.toList =
      some ((Token.settledRun (cutAt tokens i) (passedAt tokens (i + 1)) t
        (tokens.drop (i + 1))).map Token.spanned) := by
  have hi := (List.getElem?_eq_some_iff.1 ht).1
  rw [keep?, Token.spanned_kind, if_pos hkind, getElem?_starts hi, getElem?_ends hi,
    contentAt_eq ht]
  simp only [Token.spanned_content, hstop, hcut, Option.bind_eq_bind, Option.bind_some]
  rw [Token.settledRun, ← aloneAt]
  cases (Token.cutRun t.content (cutAt tokens i) (aloneAt tokens (i + 1))).isEmpty <;> rfl

/-- A tag is given its indent, or goes away. -/
theorem keep?_tag (hapart : Apart tokens) (ht : tokens[i]? = some t) (hkind : t.kind ≠ .text)
    (hindent : t.indent = none) :
    (keep? (marginsOf tokens) i t.spanned).map Option.toList =
      some ((Token.settledTag (passedAt tokens i) (aloneAt tokens i) t).map Token.spanned) := by
  rw [keep?, Token.spanned_kind, if_neg hkind, getElem?_indents (List.getElem?_eq_some_iff.1 ht).1,
    indentedAt_eq ht, Option.bind_eq_bind, Option.bind_some, Token.settledTag]
  cases t.kind.isSilent with
  | true => rfl
  | false =>
    cases halone : aloneAt tokens i with
    | false => simp [Token.spanned, hindent]
    | true =>
      rw [passedAt_of_aloneAt hapart halone]
      by_cases hinclusion : t.kind = .inclusion
      · simp [Token.spanned, Token.stop, hinclusion]
      · simp [Token.spanned, hinclusion, hindent]

/-! ### All tokens -/

theorem keepFrom?_cons {m : Margins} {s : Spanned} {us kept rest : List Spanned}
    (hkept : (keep? m i s).map Option.toList = some kept)
    (hrest : keepFrom? m (i + 1) us = some rest) :
    keepFrom? m i (s :: us) = some (kept ++ rest) := by
  obtain ⟨u, hu, rfl⟩ := Option.map_eq_some_iff.1 hkept
  rw [keepFrom?, hu, hrest]
  rfl

theorem of_drop_eq_cons (h : tokens.drop i = t :: ts) :
    tokens[i]? = some t ∧ tokens.drop (i + 1) = ts := by
  have ht : tokens[i]? = some t := by
    rw [← List.head?_drop, h]
    rfl
  rw [drop_of_getElem? ht] at h
  exact ⟨ht, (List.cons.inj h).2⟩

theorem keepFrom?_eq {front rest : Text} (hapart : Apart tokens) (h : Token.Tiled front ts rest)
    (hts : tokens.drop i = ts) (hpassed : Text.Passed front (passedAt tokens i))
    (hfront : (front = [] ∨ front.EndsSolid) ∨ ∀ u ∈ ts.head?, u.kind ≠ .text)
    (hcut : cutAt tokens i → ∃ trail, rest.trail? = some trail) :
    keepFrom? (marginsOf tokens) i (ts.map Token.spanned) =
      some ((Token.settleFrom (passedAt tokens i) (cutAt tokens i) ts).map Token.spanned) := by
  induction h generalizing i with
  | nil => rfl
  | @run front t ts rest hkind hcontent _ hends hhead _ _ _ htiled ih =>
    obtain ⟨ht, hts⟩ := of_drop_eq_cons hts
    have hline : passedAt tokens (i + 1) = Token.extendLine (passedAt tokens i) t.content := by
      rw [passedAt_succ ht, if_pos hkind]
    have hpassed' : Text.Passed (front ++ t.lexeme) (passedAt tokens (i + 1)) := by
      rw [hline, hcontent]
      exact hpassed.extendLine t.lexeme
    have hcut' : cutAt tokens (i + 1) = false := by
      rw [cutAt, aloneAt_eq ht, Token.isAlone, hkind]
      rfl
    obtain ⟨stop, hstop, hkept⟩ :=
      exists_cut?_eq htiled (hfront.resolve_right fun h => h t rfl hkind) hends hpassed' hcut
    rw [← hts, ← aloneAt, ← hcontent] at hstop hkept
    have hrest := ih hts hpassed' (.inr hhead) fun h => absurd h (by simp [hcut'])
    rw [Token.settleFrom_text hkind, List.map_append, List.map_cons, ← hline, ← hcut', ← hts]
    rw [← hts] at hrest
    exact keepFrom?_cons (keep?_text ht hkind hstop hkept) hrest
  | @tag front t ts rest hkind _ htagEnds hpos _ hindent htiled ih =>
    obtain ⟨ht, hts⟩ := of_drop_eq_cons hts
    have hlies : Token.Lies (front ++ (t.lexeme ++ rest)) front t rest := ⟨rfl, hpos⟩
    have hline : passedAt tokens (i + 1) = none := by rw [passedAt_succ ht, if_neg hkind]
    have hpassed' : Text.Passed (front ++ t.lexeme) (passedAt tokens (i + 1)) := by
      rw [hline]
      exact Text.lead?_eq_none_of_endsSolid (htagEnds.append _)
    have halone : cutAt tokens (i + 1) = Token.isAlone (passedAt tokens i) t ts := by
      rw [cutAt, aloneAt_eq ht, hts]
    have hcut' : cutAt tokens (i + 1) → ∃ trail, rest.trail? = some trail := by
      rw [halone, htiled.isAlone_eq hlies hpassed, Option.isSome_iff_exists]
      rintro ⟨⟨lead, trail⟩, hmargins⟩
      exact ⟨trail, (hlies.margins?_eq_some_iff.1 hmargins).2.2⟩
    have hrest := ih hts hpassed' (.inl (.inr (htagEnds.append _))) hcut'
    rw [Token.settleFrom_tag hkind, List.map_append, List.map_cons, ← halone, ← hline]
    exact keepFrom?_cons (keep?_tag hapart ht hkind hindent) hrest

/-- Settling by offsets always has an answer for the tokens of a template. -/
theorem settle?_eq {source : Text} (h : Token.Tiled [] tokens source) :
    settle? (tokens.map Token.spanned) = some ((Token.settle tokens).map Token.spanned) := by
  have hapart := apart_of_tiled h
  have hkeep := keepFrom?_eq hapart h List.drop_zero rfl (.inl (.inl rfl)) nofun
  rw [settle?, margins?_eq hapart, Option.bind_eq_bind, Option.bind_some]
  exact hkeep

end Offset

end Mustache

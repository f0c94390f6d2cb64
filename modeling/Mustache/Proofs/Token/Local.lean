import Mathlib.Data.List.Forall2
import Mustache.Proofs.Token.Margins
import Mustache.Proofs.Token.Placed

/-!
# A part of a template by itself

The tokens between two tags of a template are the tokens of the text between the tags, at other
places. Whether a tag among them is alone on its line can still depend on what surrounds the part.
It does not when the part begins and ends with a text run and these runs hold a character that is no
blank beside the surrounding tags (`Token.moved_settle`).
-/

namespace Mustache

namespace Text

/-- A blank of a line, or a carriage return. -/
def isRowBlank (c : Char) : Bool := c == ' ' || c == '\t' || c == '\r'

/-- Something is written before the first line feed. -/
def SolidStart (s : Text) : Prop := ∃ c ∈ s.takeWhile (· != '\n'), isRowBlank c = false

/-- Something is written after the last line feed. -/
def SolidEnd (s : Text) : Prop := ∃ c ∈ lastLine s, isRowBlank c = false

instance (s : Text) : Decidable s.SolidStart :=
  inferInstanceAs (Decidable (∃ c ∈ s.takeWhile (· != '\n'), isRowBlank c = false))

instance (s : Text) : Decidable s.SolidEnd :=
  inferInstanceAs (Decidable (∃ c ∈ lastLine s, isRowBlank c = false))

theorem all_isLineBlank_eq_false {s : Text} {c : Char} (hmem : c ∈ s) (h : isRowBlank c = false) :
    s.all isLineBlank = false := by
  simp only [isRowBlank, Bool.or_eq_false_iff] at h
  rw [List.all_eq_false]
  exact ⟨c, hmem, by simp [isLineBlank, h.1.1, h.1.2]⟩

theorem mem_of_mem_lastLine {s : Text} {c : Char} (h : c ∈ lastLine s) : c ∈ s := by
  obtain ⟨q, hq, -⟩ := exists_append_lastLine s
  rw [hq]
  exact List.mem_append_right q h

theorem SolidEnd.not_blank {s : Text} (h : s.SolidEnd) (passed : Option Text) :
    (Token.extendLine passed s).any (·.all isLineBlank) = false := by
  obtain ⟨c, hmem, hc⟩ := h
  unfold Token.extendLine
  rw [lastLine?_eq]
  by_cases hs : '\n' ∈ s
  · simpa [hs] using all_isLineBlank_eq_false hmem hc
  · cases passed with
    | none => simp [hs]
    | some line =>
      have hmem := List.mem_append_right line (mem_of_mem_lastLine hmem)
      simp only [List.contains_eq_mem, hs, decide_false]
      exact all_isLineBlank_eq_false hmem hc

theorem SolidEnd.endsLine_eq {s : Text} (h : s.SolidEnd) (atEnd : Bool) :
    s.endsLine atEnd = s.endsLine false := by
  unfold endsLine
  split
  · next hnil =>
    obtain ⟨c, hmem, hc⟩ := h
    have hblank := all_isLineBlank_eq_false (mem_of_mem_lastLine hmem) hc
    have hs := List.takeWhile_append_dropWhile (p := isLineBlank) (l := s)
    rw [hnil, List.append_nil] at hs
    rw [← hs, List.all_takeWhile] at hblank
    cases hblank
  all_goals rfl

theorem SolidStart.endsLine_eq_false {s : Text} (h : s.SolidStart) (atEnd : Bool) :
    s.endsLine atEnd = false := by
  obtain ⟨c, hmem, hc⟩ := h
  have hs := List.takeWhile_append_dropWhile (p := isLineBlank) (l := s)
  have hblank : ∀ d ∈ s.takeWhile isLineBlank, isLineBlank d = true :=
    List.all_eq_true.1 List.all_takeWhile
  have hfront : ∀ d ∈ s.takeWhile isLineBlank, (d != '\n') = true :=
    fun d hd => bne_iff_ne.2 (ne_of_isLineBlank (hblank d hd)).1
  have hsolid : ∀ d, isLineBlank d = true → d ≠ c := by
    rintro d hd rfl
    have hblank := all_isLineBlank_eq_false (s := [d]) List.mem_cons_self hc
    simp [hd] at hblank
  unfold endsLine
  split
  · next hnil =>
    rw [hnil, List.append_nil] at hs
    have hmem := List.takeWhile_subset _ hmem
    rw [← hs] at hmem
    exact absurd rfl (hsolid c (hblank c hmem))
  · next rest heq =>
    rw [← hs, heq, List.takeWhile_append_of_pos hfront] at hmem
    simp only [List.takeWhile_cons, bne_self_eq_false, Bool.false_eq_true, if_false,
      List.append_nil] at hmem
    exact absurd rfl (hsolid c (hblank c hmem))
  · next rest heq =>
    rw [← hs, heq, List.takeWhile_append_of_pos hfront] at hmem
    have hmem : c ∈ s.takeWhile isLineBlank ∨ c = '\r' := by simpa using hmem
    rcases hmem with hmem | rfl
    · exact absurd rfl (hsolid c (hblank c hmem))
    · cases hc
  · rfl

end Text

namespace Token

/-- Tags behind these parts of a line are alone on it, or not, alike. -/
def SameLine (passed passed' : Option Text) : Prop :=
  passed = passed' ∨ passed = none ∧ passed'.any (·.all Text.isLineBlank) = false

theorem SameLine.any_eq {passed passed' : Option Text} (h : SameLine passed passed') :
    passed.any (·.all Text.isLineBlank) = passed'.any (·.all Text.isLineBlank) := by
  rcases h with rfl | ⟨rfl, h⟩
  · rfl
  · exact h.symm

theorem extendLine_of_mem {run : Text} (h : '\n' ∈ run) (passed : Option Text) :
    extendLine passed run = some (Text.lastLine run) := by
  simp [extendLine, Text.lastLine?_eq, h]

theorem extendLine_of_not_mem {run : Text} (h : '\n' ∉ run) (passed : Option Text) :
    extendLine passed run = passed.map (· ++ run) := by
  simp [extendLine, Text.lastLine?_eq, h]

theorem SameLine.extendLine {passed passed' : Option Text} (h : SameLine passed passed')
    (run : Text) : SameLine (extendLine passed run) (extendLine passed' run) := by
  rcases h with rfl | ⟨rfl, h⟩
  · exact .inl rfl
  · by_cases hrun : '\n' ∈ run
    · rw [extendLine_of_mem hrun, extendLine_of_mem hrun]
      exact .inl rfl
    · rw [extendLine_of_not_mem hrun, extendLine_of_not_mem hrun]
      refine .inr ⟨rfl, ?_⟩
      cases passed' with
      | none => rfl
      | some line =>
        have h : line.all Text.isLineBlank = false := h
        simp [h]

/-- Where nothing else has been passed, a solid start of a run is passed all the same. -/
theorem sameLine_of_solidStart {run : Text} (h : run.SolidStart) :
    SameLine (extendLine none run) (extendLine (some []) run) := by
  obtain ⟨c, hmem, hc⟩ := h
  by_cases hrun : '\n' ∈ run
  · rw [extendLine_of_mem hrun, extendLine_of_mem hrun]
    exact .inl rfl
  · rw [extendLine_of_not_mem hrun, extendLine_of_not_mem hrun]
    have hblank := Text.all_isLineBlank_eq_false (List.takeWhile_subset _ hmem) hc
    exact .inr ⟨rfl, hblank⟩

/-! ### The walk over a part -/

/-- What the walk over `ts`, with `behind` behind them, leaves of `ts`. -/
def settledPart (passed : Option Text) (cut : Bool) : (ts behind : List Token) → List Token
  | [], _ => []
  | t :: ts, behind =>
    if t.kind = .text then
      settledRun cut (extendLine passed t.content) t (ts ++ behind) ++
        settledPart (extendLine passed t.content) false ts behind
    else
      settledTag passed (isAlone passed t (ts ++ behind)) t ++
        settledPart none (isAlone passed t (ts ++ behind)) ts behind

theorem settledPart_nil (passed : Option Text) (cut : Bool) (ts : List Token) :
    settledPart passed cut ts [] = settleFrom passed cut ts := by
  induction ts generalizing passed cut with
  | nil => rfl
  | cons t ts ih =>
    rw [settledPart, List.append_nil, ih, ih]
    split
    · next hkind => rw [settleFrom_text hkind]
    · next hkind => rw [settleFrom_tag hkind]

theorem settledRun_cases (cut : Bool) (line : Option Text) (t : Token) (ts : List Token) :
    settledRun cut line t ts = [] ∨ ∃ u, settledRun cut line t ts = [u] ∧ u.kind = t.kind := by
  rw [settledRun]
  split
  · exact .inl rfl
  · exact .inr ⟨_, rfl, rfl⟩

theorem settledTag_cases (passed : Option Text) (alone : Bool) (t : Token) :
    settledTag passed alone t = [] ∨ ∃ u, settledTag passed alone t = [u] ∧ u.kind = t.kind := by
  rw [settledTag]
  split
  · exact .inl rfl
  · split
    · exact .inr ⟨_, rfl, rfl⟩
    · exact .inr ⟨_, rfl, rfl⟩

theorem cons_eq_append_cons {α : Type} {out rest front behind : List α} {v : α}
    (hout : out = [] ∨ ∃ u, out = [u]) (h : out ++ rest = front ++ v :: behind) :
    out = [v] ∧ front = [] ∧ rest = behind ∨
      ∃ front', front = out ++ front' ∧ rest = front' ++ v :: behind := by
  rcases hout with rfl | ⟨u, rfl⟩
  · exact .inr ⟨front, rfl, h⟩
  · cases front with
    | nil =>
      cases h
      exact .inl ⟨rfl, rfl, rfl⟩
    | cons u' front =>
      cases h
      exact .inr ⟨front, rfl, rfl⟩

/-- A section tag is left as it is; what the walk leaves in front of it is left of the tokens in
front of it. -/
theorem exists_of_settleFrom_eq {passed : Option Text} {cut : Bool} {ts front behind : List Token}
    {v : Token} (hv : (∃ inverted, v.kind = .opening inverted) ∨ v.kind = .closing)
    (h : settleFrom passed cut ts = front ++ v :: behind) :
    ∃ us vs line, ts = us ++ v :: vs ∧ front = settledPart passed cut us (v :: vs) ∧
      behind = settleFrom none (isAlone line v vs) vs := by
  induction ts generalizing passed cut front with
  | nil => simp [settleFrom] at h
  | cons t ts ih =>
    by_cases hkind : t.kind = .text
    · rw [settleFrom_text hkind] at h
      have hout := settledRun_cases cut (extendLine passed t.content) t ts
      rcases cons_eq_append_cons (hout.imp_right (Exists.imp fun _ hu => hu.1)) h with
        ⟨hrun, -⟩ | ⟨front', rfl, hrest⟩
      · rcases hout with hnil | ⟨u, hu, hkind'⟩
        · simp [hnil] at hrun
        · rw [hrun, List.cons.injEq] at hu
          rw [← hu.1, hkind] at hkind'
          rcases hv with ⟨inverted, hv⟩ | hv <;> simp [hkind'] at hv
      · obtain ⟨us, vs, line, rfl, rfl, hbehind⟩ := ih hrest
        refine ⟨t :: us, vs, line, rfl, ?_, hbehind⟩
        rw [settledPart, if_pos hkind]
    · rw [settleFrom_tag hkind] at h
      have hout := settledTag_cases passed (isAlone passed t ts) t
      rcases cons_eq_append_cons (hout.imp_right (Exists.imp fun _ hu => hu.1)) h with
        ⟨htag, rfl, hrest⟩ | ⟨front', rfl, hrest⟩
      · rcases hout with hnil | ⟨u, hu, hkind'⟩
        · simp [hnil] at htag
        · rw [htag, List.cons.injEq] at hu
          rw [← hu.1] at hkind'
          rw [settledTag_of_section (by rwa [← hkind']), List.cons.injEq] at htag
          obtain ⟨rfl, -⟩ := htag
          exact ⟨[], ts, passed, rfl, rfl, hrest.symm⟩
      · obtain ⟨us, vs, line, rfl, rfl, hbehind⟩ := ih hrest
        refine ⟨t :: us, vs, line, rfl, ?_, hbehind⟩
        rw [settledPart, if_neg hkind]

/-- A token of a part and the same token of the part by itself, which starts `k` bytes further on
and has `back` behind it. -/
structure Moved (k : Nat) (back : Text) (t t' : Token) : Prop where
  kind_eq : t.kind = t'.kind
  content_eq : t.content = t'.content
  lexeme_eq : t.lexeme = t'.lexeme
  indent_eq : t.indent = t'.indent
  offset_eq : t.pos.offset = k + t'.pos.offset
  behind_eq : t.behind = t'.behind ++ back

theorem moved_placed (back : Text) {pos pos' : Position} {k : Nat}
    (hpos : pos.offset = k + pos'.offset) (ts : List Token) :
    List.Forall₂ (Moved k back) (placed back pos ts) (placed [] pos' ts) := by
  induction ts generalizing pos pos' with
  | nil => exact .nil
  | cons t ts ih =>
    refine .cons ⟨rfl, rfl, rfl, rfl, hpos, ?_⟩ (ih ?_)
    · rw [List.append_nil]
    · rw [Position.offset_advance, Position.offset_advance, hpos, Nat.add_assoc]

section
variable {k : Nat} {back : Text} {t t' : Token} {ts ts' behind : List Token}
  {passed passed' : Option Text} {cut : Bool}

theorem Moved.settledRun (h : Moved k back t t') {line line' : Option Text}
    (halone : headIsAlone line (ts ++ behind) = headIsAlone line' ts') :
    List.Forall₂ (Moved k back) (settledRun cut line t (ts ++ behind))
      (settledRun cut line' t' ts') := by
  rw [Token.settledRun, Token.settledRun, halone, h.content_eq]
  split
  · exact .nil
  · exact .cons ⟨h.kind_eq, rfl, h.lexeme_eq, h.indent_eq, h.offset_eq, h.behind_eq⟩ .nil

theorem Moved.settledTag (h : Moved k back t t') (hline : SameLine passed passed') {alone : Bool}
    (halone : alone = true → passed.any (·.all Text.isLineBlank)) :
    List.Forall₂ (Moved k back) (settledTag passed alone t) (settledTag passed' alone t') := by
  rw [Token.settledTag, Token.settledTag, h.kind_eq]
  split
  · exact .nil
  · split
    · next hcond =>
      have hpassed : passed = passed' := by
        refine hline.resolve_right ?_
        rintro ⟨rfl, -⟩
        rw [Bool.and_eq_true] at hcond
        cases halone hcond.1
      exact .cons ⟨rfl, h.content_eq, h.lexeme_eq, hpassed, h.offset_eq, h.behind_eq⟩ .nil
    · exact .cons h .nil

/-- If there are tokens, the last one is a run that ends with something written. -/
def EndsInText (ts : List Token) : Prop :=
  ∀ t ∈ ts.getLast?, t.kind = .text ∧ t.content.SolidEnd

instance (ts : List Token) : Decidable (EndsInText ts) :=
  inferInstanceAs (Decidable (∀ t ∈ ts.getLast?, t.kind = .text ∧ t.content.SolidEnd))

theorem lineEndsBefore_moved (h : List.Forall₂ (Moved k back) ts ts') (hne : ts ≠ [])
    (hends : EndsInText ts) : lineEndsBefore (ts ++ behind) = lineEndsBefore ts' := by
  cases h with
  | nil => exact absurd rfl hne
  | @cons t t' ts ts' ht hts =>
    rw [List.cons_append, lineEndsBefore, lineEndsBefore, ht.kind_eq, ht.content_eq]
    cases hts with
    | nil =>
      obtain ⟨-, hsolid⟩ := hends t rfl
      rw [ht.content_eq] at hsolid
      rw [List.nil_append, hsolid.endsLine_eq, hsolid.endsLine_eq ([] : List Token).isEmpty]
    | cons => rfl

theorem isAlone_moved (ht : Moved k back t t') (h : List.Forall₂ (Moved k back) ts ts')
    (hne : ts ≠ []) (hends : EndsInText ts) (hline : SameLine passed passed') :
    isAlone passed t (ts ++ behind) = isAlone passed' t' ts' := by
  rw [isAlone, isAlone, lineEndsBefore_moved h hne hends, hline.any_eq, ht.kind_eq]

theorem EndsInText.tail (h : EndsInText (t :: ts)) : EndsInText ts := by
  cases ts with
  | nil => nofun
  | cons u us => exact h

theorem EndsInText.of_moved (hends : EndsInText ts') (h : List.Forall₂ (Moved k back) ts ts') :
    EndsInText ts := by
  induction h with
  | nil => exact hends
  | cons ht hts ih =>
    cases hts with
    | nil =>
      rintro u hu
      obtain rfl := List.mem_singleton.1 (List.mem_of_mem_getLast? hu)
      rw [ht.kind_eq, ht.content_eq]
      exact hends _ rfl
    | cons hu hus => exact ih hends.tail

theorem headIsAlone_moved (h : List.Forall₂ (Moved k back) ts ts') (hne : ts ≠ [])
    (hends : EndsInText ts) (hline : SameLine passed passed') :
    headIsAlone passed (ts ++ behind) = headIsAlone passed' ts' := by
  cases h with
  | nil => exact absurd rfl hne
  | @cons t t' ts ts' ht hts =>
    rw [List.cons_append, headIsAlone, headIsAlone]
    cases hts with
    | nil =>
      have htext := (hends t rfl).1
      rw [isAlone, isAlone, ← ht.kind_eq, htext]
      rfl
    | cons hu hus =>
      exact isAlone_moved ht (.cons hu hus) (List.cons_ne_nil _ _) hends.tail hline

/-- A run is cut alike. -/
theorem headIsAlone_extendLine_moved (h : List.Forall₂ (Moved k back) ts ts')
    (hends : EndsInText (t :: ts))
    (hline : SameLine (extendLine passed t.content) (extendLine passed' t.content)) :
    headIsAlone (extendLine passed t.content) (ts ++ behind) =
      headIsAlone (extendLine passed' t.content) ts' := by
  by_cases hne : ts = []
  · subst hne
    cases h
    have hsolid := (hends t rfl).2.not_blank passed
    cases behind with
    | nil => rfl
    | cons w ws => simp [headIsAlone, isAlone, hsolid]
  · exact headIsAlone_moved h hne hends.tail hline

theorem moved_settledPart (h : List.Forall₂ (Moved k back) ts ts') (hends : EndsInText ts)
    (hline : SameLine passed passed') :
    List.Forall₂ (Moved k back) (settledPart passed cut ts behind)
      (settledPart passed' cut ts' []) := by
  induction h generalizing passed passed' cut with
  | nil => exact .nil
  | @cons t t' ts ts' ht hts ih =>
    rw [settledPart, settledPart, List.append_nil, ← ht.kind_eq]
    split
    · next hkind =>
      have hline' := hline.extendLine t.content
      rw [← ht.content_eq]
      exact List.rel_append (ht.settledRun (headIsAlone_extendLine_moved hts hends hline'))
        (ih hends.tail hline')
    · next hkind =>
      have hne : ts ≠ [] := by
        rintro rfl
        exact hkind (hends t rfl).1
      have halone : isAlone passed t (ts ++ behind) = isAlone passed' t' ts' :=
        isAlone_moved ht hts hne hends.tail hline
      rw [halone]
      refine List.rel_append (ht.settledTag hline fun h => ?_) (ih hends.tail (.inl rfl))
      rw [← halone, isAlone, Bool.and_eq_true, Bool.and_eq_true] at h
      exact h.1.2

/-- **A part by itself.** What the walk leaves of a part behind a tag is what it leaves of the part
by itself, when both ends of the part are runs in which something is written beside the tags. -/
theorem moved_settle (ht : Moved k back t t') (h : List.Forall₂ (Moved k back) ts ts')
    (hkind : t.kind = .text) (hstart : t.content.SolidStart) (hends : EndsInText (t :: ts)) :
    List.Forall₂ (Moved k back) (settledPart none false (t :: ts) behind) (settle (t' :: ts')) := by
  have hline := sameLine_of_solidStart hstart
  rw [settle, ← settledPart_nil, settledPart, settledPart, List.append_nil, ← ht.kind_eq,
    if_pos hkind, if_pos hkind, ← ht.content_eq]
  exact List.rel_append (ht.settledRun (headIsAlone_extendLine_moved h hends hline))
    (moved_settledPart h hends.tail hline)

end

end Token

end Mustache

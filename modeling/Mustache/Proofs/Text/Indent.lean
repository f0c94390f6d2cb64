import Mustache.Node.Indent
import Mustache.Proofs.Text.Line

/-!
# Indented texts

`Text.indented s w` has `w` in front of every line of `s`. `Node.indentText`, which goes over the
text one character at a time and can stop in the middle of a line, writes the same
(`indented_eq_indentText`). Blanks at the start of a line make no new place for a mark of braces
(`spanUntil_indentText`).
-/

namespace Mustache

open Node (indentText)

namespace Text

/-- The lines of a text, each with its line feed. -/
def lines : Text → List Text
  | [] => []
  | c :: s =>
    if c = '\n' then [c] :: lines s
    else
      match lines s with
      | [] => [[c]]
      | line :: more => (c :: line) :: more

/-- The text with `w` in front of every line. -/
def indented (s w : Text) : Text := (lines s).flatMap (w ++ ·)

/-- Whether the next character starts a line, given whether the first one does. -/
def freshAfter (fresh : Bool) (s : Text) : Bool := s.foldl (fun _ c => c == '\n') fresh

theorem freshAfter_cons (fresh : Bool) (c : Char) (s : Text) :
    freshAfter fresh (c :: s) = freshAfter (c == '\n') s := rfl

theorem freshAfter_append (fresh : Bool) (s t : Text) :
    freshAfter fresh (s ++ t) = freshAfter (freshAfter fresh s) t := List.foldl_append

/-- Behind a text that is not empty, a line starts just after a line feed. -/
theorem freshAfter_concat (fresh : Bool) (s : Text) (c : Char) :
    freshAfter fresh (s ++ [c]) = (c == '\n') := by
  rw [freshAfter_append]
  rfl

theorem freshAfter_of_ne_nil {s : Text} (h : s ≠ []) (fresh fresh' : Bool) :
    freshAfter fresh s = freshAfter fresh' s := by
  cases s with
  | nil => exact absurd rfl h
  | cons c s => rfl

theorem freshAfter_of_not_mem {s : Text} (hne : s ≠ []) (h : '\n' ∉ s) (fresh : Bool) :
    freshAfter fresh s = false := by
  obtain ⟨front, c, rfl⟩ := (List.eq_nil_or_concat s).resolve_left hne
  rw [List.concat_eq_append] at h ⊢
  rw [freshAfter_concat, beq_eq_false_iff_ne]
  rintro rfl
  exact h (by simp)

/-- The end of a line, or nothing at its start. -/
theorem eq_nil_or_of_freshAfter {fresh : Bool} {s : Text} (h : freshAfter fresh s = true) :
    s = [] ∧ fresh = true ∨ ∃ front, s = front ++ ['\n'] := by
  rcases List.eq_nil_or_concat s with rfl | ⟨front, c, rfl⟩
  · exact .inl ⟨rfl, h⟩
  · rw [List.concat_eq_append] at h ⊢
    rw [freshAfter_concat, beq_iff_eq] at h
    exact .inr ⟨front, by rw [h]⟩

/-! ### One character after the other -/

variable {w : Text}

theorem indentText_cons (w : Text) (fresh : Bool) (c : Char) (s : Text) :
    indentText w fresh (c :: s) =
      ((if fresh then w else []) ++ c :: (indentText w (c == '\n') s).1,
        (indentText w (c == '\n') s).2) := by
  cases fresh <;> rfl

theorem indentText_snd (w : Text) (fresh : Bool) (s : Text) :
    (indentText w fresh s).2 = freshAfter fresh s := by
  induction s generalizing fresh with
  | nil => rfl
  | cons c s ih => rw [indentText_cons, freshAfter_cons, ih]

theorem indentText_append (w : Text) (fresh : Bool) (s t : Text) :
    (indentText w fresh (s ++ t)).1 =
      (indentText w fresh s).1 ++ (indentText w (freshAfter fresh s) t).1 := by
  induction s generalizing fresh with
  | nil => rfl
  | cons c s ih =>
    rw [List.cons_append, indentText_cons, indentText_cons, freshAfter_cons, ih, List.append_assoc,
      List.cons_append]

/-- A line that has started gets nothing in front of it. -/
theorem indentText_of_not_mem {s : Text} (h : '\n' ∉ s) : (indentText w false s).1 = s := by
  induction s with
  | nil => rfl
  | cons c s ih =>
    have hc : (c == '\n') = false := by
      rw [beq_eq_false_iff_ne]
      rintro rfl
      exact h List.mem_cons_self
    rw [indentText_cons, hc, ih fun hs => h (List.mem_cons_of_mem _ hs)]
    rfl

theorem indentText_true {s : Text} (h : s ≠ []) :
    (indentText w true s).1 = w ++ (indentText w false s).1 := by
  cases s with
  | nil => exact absurd rfl h
  | cons c s => rfl

theorem indentText_eq_nil {fresh : Bool} {s : Text} : (indentText w fresh s).1 = [] ↔ s = [] := by
  cases s with
  | nil => simp [indentText]
  | cons c s => simp [indentText_cons]

theorem head?_indentText (s : Text) : (indentText w false s).1.head? = s.head? := by
  cases s <;> rfl

theorem indentText_nil (fresh : Bool) (s : Text) : (indentText [] fresh s).1 = s := by
  induction s generalizing fresh with
  | nil => rfl
  | cons c s ih => simp [indentText_cons, ih]

/-- Behind the first line, which has started, every line has `w` in front of it. -/
theorem indentText_false_eq (w s : Text) :
    (indentText w false s).1 =
      match lines s with
      | [] => []
      | line :: more => line ++ more.flatMap (w ++ ·) := by
  induction s with
  | nil => rfl
  | cons c s ih =>
    rw [indentText_cons, lines]
    by_cases hc : c = '\n'
    · cases s with
      | nil => simp [hc, indentText, lines]
      | cons d s =>
        simp only [hc, beq_self_eq_true, if_true, indentText_true (List.cons_ne_nil d s), ih,
          Bool.false_eq_true, if_false, List.nil_append]
        cases hlines : lines (d :: s) with
        | nil =>
          rw [lines] at hlines
          split at hlines
          · cases hlines
          · split at hlines <;> cases hlines
        | cons line more => simp
    · simp only [beq_eq_false_iff_ne.2 hc, ih, if_neg hc, Bool.false_eq_true, if_false,
        List.nil_append]
      cases lines s <;> simp

theorem indented_eq_indentText (w s : Text) : s.indented w = (indentText w true s).1 := by
  cases s with
  | nil => rfl
  | cons c s =>
    rw [indentText_true (List.cons_ne_nil c s), indentText_false_eq, indented]
    cases hlines : lines (c :: s) with
    | nil =>
      rw [lines] at hlines
      split at hlines
      · cases hlines
      · split at hlines <;> cases hlines
    | cons line more => simp

/-! ### The places of tags -/

theorem isSome_dropPrefix?_braces (c : Char) (s : Text) :
    (dropPrefix? ['{', '{'] (c :: s)).isSome = (c == '{' && s.head? == some '{') := by
  cases s with
  | nil => by_cases hc : '{' = c <;> simp [dropPrefix?, hc]
  | cons d s =>
    by_cases hc : '{' = c
    · by_cases hd : '{' = d
      · simp [dropPrefix?, hc.symm, hd.symm]
      · simp [dropPrefix?, hc.symm, hd, Ne.symm hd]
    · simp [dropPrefix?, hc, Ne.symm hc]

theorem spanUntil_cons_of_isSome {mark : Text} {c : Char} {s : Text}
    (h : (dropPrefix? mark (c :: s)).isSome = true) :
    spanUntil mark (c :: s) = ([], c :: s) := by
  rw [spanUntil, if_pos h]

theorem spanUntil_cons_of_not_isSome {mark : Text} {c : Char} {s : Text}
    (h : (dropPrefix? mark (c :: s)).isSome = false) :
    spanUntil mark (c :: s) = (c :: (spanUntil mark s).1, (spanUntil mark s).2) := by
  rw [spanUntil, h, if_neg Bool.false_ne_true]

theorem ne_brace_of_isLineBlank {c : Char} (h : isLineBlank c) : c ≠ '{' := by
  rintro rfl
  revert h
  decide

theorem spanUntil_braces_of_blank (hw : w.all isLineBlank) (s : Text) :
    spanUntil ['{', '{'] (w ++ s) =
      (w ++ (spanUntil ['{', '{'] s).1, (spanUntil ['{', '{'] s).2) := by
  induction w with
  | nil => rfl
  | cons c w ih =>
    rw [List.all_cons, Bool.and_eq_true] at hw
    have hc : (dropPrefix? ['{', '{'] (c :: (w ++ s))).isSome = false := by
      rw [isSome_dropPrefix?_braces, beq_eq_false_iff_ne.2 (ne_brace_of_isLineBlank hw.1)]
      rfl
    rw [List.cons_append, spanUntil_cons_of_not_isSome hc, ih hw.2]
    rfl

/-- Blanks that are put in front of lines leave the first mark where it is. Those of its own line
belong to the text in front of it. -/
theorem spanUntil_indentText (hw : w.all isLineBlank) (fresh : Bool) (s : Text) :
    spanUntil ['{', '{'] (indentText w fresh s).1 =
      ((indentText w fresh (spanUntil ['{', '{'] s).1).1 ++
        (if (spanUntil ['{', '{'] s).2 = [] then []
          else if freshAfter fresh (spanUntil ['{', '{'] s).1 then w else []),
        (indentText w false (spanUntil ['{', '{'] s).2).1) := by
  have hlead : (if fresh then w else []).all isLineBlank := by
    cases fresh
    · rfl
    · exact hw
  induction s generalizing fresh with
  | nil => rfl
  | cons c s ih =>
    rw [indentText_cons, spanUntil_braces_of_blank hlead]
    cases hmark : (dropPrefix? ['{', '{'] (c :: s)).isSome with
    | true =>
      have hboth := hmark
      rw [isSome_dropPrefix?_braces, Bool.and_eq_true, beq_iff_eq] at hboth
      have hc : (c == '\n') = false := by rw [hboth.1]; rfl
      have hmark' : (dropPrefix? ['{', '{'] (c :: (indentText w (c == '\n') s).1)).isSome = true := by
        rw [hc, isSome_dropPrefix?_braces, head?_indentText, hboth.1, hboth.2]
        rfl
      rw [spanUntil_cons_of_isSome hmark, spanUntil_cons_of_isSome hmark']
      simp [indentText, freshAfter]
      rfl
    | false =>
      have hmark' : (dropPrefix? ['{', '{'] (c :: (indentText w (c == '\n') s).1)).isSome = false := by
        rw [isSome_dropPrefix?_braces] at hmark ⊢
        by_cases hc : c = '{'
        · have hnewline : (c == '\n') = false := by rw [hc]; rfl
          rw [hnewline, head?_indentText]
          exact hmark
        · rw [beq_eq_false_iff_ne.2 hc]
          rfl
      have hlead' : (if (c == '\n') then w else []).all isLineBlank := by
        split
        · exact hw
        · rfl
      rw [spanUntil_cons_of_not_isSome hmark, spanUntil_cons_of_not_isSome hmark', ih _ hlead']
      simp [indentText_cons, freshAfter_cons]
      rfl

/-! ### Cuts of an indented run

A run of an indented text is the run with `w` in front of the lines that start in it. When a tag
starts the next line, the run ends with the `w` of that line. -/

/-- What an indented run has behind it when a tag follows. -/
def hang (w : Text) (fresh : Bool) (s : Text) : Text := if freshAfter fresh s then w else []

theorem newline_not_mem_of_blank (hw : w.all isLineBlank) : '\n' ∉ w := fun h =>
  (ne_of_isLineBlank (List.all_eq_true.1 hw _ h)).1 rfl

/-- The start of a line that goes on behind the run. -/
theorem indentText_append_hang {s : Text} (h : '\n' ∉ s) :
    (indentText w true s).1 ++ hang w true s = w ++ s := by
  by_cases hne : s = []
  · subst hne
    simp [indentText, hang, freshAfter]
  · rw [indentText_true hne, indentText_of_not_mem h, hang, freshAfter_of_not_mem hne h,
      if_neg Bool.false_ne_true, List.append_nil]

theorem hang_append (fresh : Bool) (s t : Text) :
    hang w fresh (s ++ t) = hang w (freshAfter fresh s) t := by
  rw [hang, hang, freshAfter_append]

/-- Behind a line feed, or at the start of a line, the indented text ends where a line starts. -/
theorem indentText_eq_nil_or_concat {fresh : Bool} {s : Text} (h : freshAfter fresh s = true) :
    (indentText w fresh s).1 = [] ∨ ∃ front, (indentText w fresh s).1 = front ++ ['\n'] := by
  rcases eq_nil_or_of_freshAfter h with ⟨rfl, -⟩ | ⟨front, rfl⟩
  · exact .inl rfl
  · refine .inr ⟨(indentText w fresh front).1 ++ if freshAfter fresh front then w else [], ?_⟩
    rw [indentText_append, indentText_cons, List.append_assoc]
    rfl

/-- The last line gets its indent. -/
theorem lastLine_indentText (hw : w.all isLineBlank) (fresh : Bool) {s : Text} (h : '\n' ∈ s) :
    lastLine ((indentText w fresh s).1 ++ hang w fresh s) = w ++ lastLine s := by
  have hline := newline_not_mem_lastLine s
  obtain ⟨q, hs, hq⟩ := exists_append_lastLine s
  rcases hq with rfl | ⟨q, rfl⟩
  · rw [hs] at h
    exact absurd h hline
  · have hfresh : freshAfter fresh (q ++ ['\n']) = true := freshAfter_concat fresh q '\n'
    have hwline : '\n' ∉ w ++ lastLine s := by
      rw [List.mem_append, not_or]
      exact ⟨newline_not_mem_of_blank hw, hline⟩
    have heq : (indentText w fresh s).1 ++ hang w fresh s =
        (indentText w fresh (q ++ ['\n'])).1 ++ (w ++ lastLine s) := by
      rw [hs, indentText_append, hang_append, hfresh, List.append_assoc, ← hs,
        indentText_append_hang hline]
    rw [heq, lastLine_append_of_not_mem hwline]
    rcases indentText_eq_nil_or_concat (w := w) hfresh with hnil | ⟨front, hfront⟩
    · rw [hnil]
      rfl
    · rw [hfront, lastLine_append_newline, List.nil_append]

theorem endsLine_cons_of_blank {c : Char} (h : isLineBlank c) (s : Text) (atEnd : Bool) :
    endsLine (c :: s) atEnd = endsLine s atEnd := by
  rw [endsLine, endsLine, List.dropWhile_cons_of_pos h]

theorem endsLine_cons_of_not_blank {c : Char} (h : isLineBlank c = false) (s : Text)
    (atEnd : Bool) :
    endsLine (c :: s) atEnd = (c == '\n' || (c == '\r' && s.head? == some '\n')) := by
  rw [endsLine, List.dropWhile_cons_of_neg (Bool.not_eq_true _ ▸ h)]
  by_cases hnewline : c = '\n'
  · subst hnewline
    rfl
  · by_cases hreturn : c = '\r'
    · subst hreturn
      cases s with
      | nil => rfl
      | cons d s =>
        by_cases hd : d = '\n'
        · subst hd
          rfl
        · split <;> simp_all
    · split <;> simp_all

/-- Whether a line that has started ends in the run. -/
theorem endsLine_indentText (s : Text) (atEnd : Bool) (tail : Text)
    (htail : tail = [] ∨ tail = hang w false s) :
    endsLine ((indentText w false s).1 ++ tail) atEnd = endsLine s atEnd := by
  induction s with
  | nil =>
    have hnil : tail = [] := by
      rcases htail with h | h
      · exact h
      · rw [h]
        rfl
    rw [hnil]
    rfl
  | cons c s ih =>
    rw [indentText_cons, if_neg Bool.false_ne_true, List.nil_append, List.cons_append]
    by_cases hblank : isLineBlank c = true
    · have hc : (c == '\n') = false := beq_eq_false_iff_ne.2 (ne_of_isLineBlank hblank).1
      rw [endsLine_cons_of_blank hblank, endsLine_cons_of_blank hblank, hc]
      refine ih (htail.imp_right fun h => ?_)
      rw [h, hang, freshAfter_cons, hc]
      rfl
    · rw [Bool.not_eq_true] at hblank
      rw [endsLine_cons_of_not_blank hblank, endsLine_cons_of_not_blank hblank]
      by_cases hc : c = '\n'
      · rw [hc]
        rfl
      · have hc' : (c == '\n') = false := beq_eq_false_iff_ne.2 hc
        rw [hc', Bool.false_or, Bool.false_or]
        cases s with
        | nil =>
          have hnil : tail = [] := by
            rcases htail with h | h
            · exact h
            · rw [h, hang, freshAfter_cons, hc']
              rfl
          rw [hnil]
          rfl
        | cons d s => rfl

/-- A line ending with the blanks in front of it. -/
theorem exists_of_endsLine {s : Text} (h : endsLine s false = true) :
    ∃ trail, '\n' ∉ trail ∧ s = trail ++ '\n' :: dropLineEnd s ∧
      ∀ rest, dropLineEnd (trail ++ '\n' :: rest) = rest := by
  have hs := List.takeWhile_append_dropWhile (p := isLineBlank) (l := s)
  have hblank : ∀ c ∈ s.takeWhile isLineBlank, isLineBlank c = true :=
    List.all_eq_true.1 List.all_takeWhile
  have hnewline := newline_not_mem_of_blank (w := s.takeWhile isLineBlank) List.all_takeWhile
  unfold endsLine at h
  split at h
  · cases h
  · next rest hdrop =>
    rw [hdrop] at hs
    refine ⟨s.takeWhile isLineBlank, hnewline, ?_, fun rest => ?_⟩
    · rw [dropLineEnd, hdrop]
      exact hs.symm
    · rw [dropLineEnd, List.dropWhile_append_of_pos hblank]
      rfl
  · next rest hdrop =>
    rw [hdrop] at hs
    refine ⟨s.takeWhile isLineBlank ++ ['\r'], by simp [hnewline], ?_, fun rest => ?_⟩
    · rw [dropLineEnd, hdrop]
      simpa using hs.symm
    · rw [dropLineEnd, List.append_assoc, List.dropWhile_append_of_pos hblank]
      rfl
  · cases h

/-- A run of blanks at the end of the template. -/
theorem blank_of_endsLine {s : Text} (h : endsLine s true = true) (h' : endsLine s false = false) :
    s.all isLineBlank ∧ dropLineEnd s = [] := by
  have hs := List.takeWhile_append_dropWhile (p := isLineBlank) (l := s)
  have hblank := List.all_takeWhile (p := isLineBlank) (l := s)
  unfold endsLine at h h'
  split at h
  · next hdrop =>
    rw [hdrop, List.append_nil] at hs
    rw [hs] at hblank
    refine ⟨hblank, ?_⟩
    rw [dropLineEnd, hdrop]
  · next hdrop =>
    rw [hdrop] at h'
    cases h'
  · next hdrop =>
    rw [hdrop] at h'
    cases h'
  · cases h

/-! ### The run behind a tag

With `cut` the tag in front of the run takes the rest of its line. -/

/-- What is left of a run behind a tag. -/
def runBehind (cut : Bool) (s : Text) : Text := if cut then dropLineEnd s else s

theorem freshAfter_runBehind {fresh cut : Bool} {s : Text}
    (hcut : cut = true → fresh = false ∧ endsLine s false = true) :
    freshAfter (fresh || cut) (runBehind cut s) = freshAfter fresh s := by
  cases cut with
  | false => rw [Bool.or_false]; rfl
  | true =>
    obtain ⟨rfl, hends⟩ := hcut rfl
    obtain ⟨trail, -, hs, -⟩ := exists_of_endsLine hends
    have heq : freshAfter false s = freshAfter true (dropLineEnd s) := by
      conv => lhs; rw [hs]
      rw [freshAfter_append]
      rfl
    rw [heq]
    rfl

theorem runBehind_indentText {fresh cut : Bool} {s : Text}
    (hcut : cut = true → fresh = false ∧ endsLine s false = true) (rest : Text) :
    runBehind cut ((indentText w fresh s).1 ++ rest) =
      (indentText w (fresh || cut) (runBehind cut s)).1 ++ rest := by
  cases cut with
  | false => rw [Bool.or_false]; rfl
  | true =>
    obtain ⟨rfl, hends⟩ := hcut rfl
    obtain ⟨trail, htrail, hs, hdrop⟩ := exists_of_endsLine hends
    have hfirst : (indentText w false s).1 =
        trail ++ '\n' :: (indentText w true (dropLineEnd s)).1 := by
      conv => lhs; rw [hs]
      rw [indentText_append, indentText_of_not_mem htrail, indentText_cons]
      rcases trail with _ | ⟨c, trail⟩
      · rfl
      · rw [freshAfter_of_not_mem (List.cons_ne_nil c trail) htrail]
        rfl
    rw [hfirst, List.append_assoc, List.cons_append, runBehind, if_pos rfl, hdrop]
    rfl

/-- What has been passed of the line when the run starts. -/
def passedBefore (fresh : Bool) : Option Text := if fresh then some [] else none

theorem extendLine_indentText (hw : w.all isLineBlank) {fresh : Bool} {s : Text} (hne : s ≠ []) :
    Token.extendLine (passedBefore fresh) ((indentText w fresh s).1 ++ hang w fresh s) =
      (Token.extendLine (passedBefore fresh) s).map (w ++ ·) := by
  by_cases hs : '\n' ∈ s
  · have hmem : '\n' ∈ (indentText w fresh s).1 ++ hang w fresh s := by
      obtain ⟨q, r, rfl⟩ := List.append_of_mem hs
      simp [indentText_append, indentText_cons]
    simp only [Token.extendLine, lastLine?_eq, List.contains_eq_mem, hs, hmem, decide_true, if_true,
      lastLine_indentText hw fresh hs, Option.map_some]
  · have hhang : hang w fresh s = [] := by
      rw [hang, freshAfter_of_not_mem hne hs, if_neg Bool.false_ne_true]
    rw [hhang, List.append_nil]
    cases fresh with
    | false => rw [indentText_of_not_mem hs]; simp [Token.extendLine, lastLine?_eq, hs, passedBefore]
    | true =>
      have hws : '\n' ∉ w ++ s := by
        rw [List.mem_append, not_or]
        exact ⟨newline_not_mem_of_blank hw, hs⟩
      rw [indentText_true hne, indentText_of_not_mem hs]
      simp [Token.extendLine, lastLine?_eq, hs, hws, passedBefore]

/-- The part of the line that has been passed is the end of what is left of the run, and a line
starts in front of it. -/
theorem exists_append_passed {fresh cut : Bool} {s line : Text}
    (hcut : cut = true → fresh = false ∧ endsLine s false = true)
    (hline : Token.extendLine (passedBefore fresh) s = some line) :
    ∃ front, runBehind cut s = front ++ line ∧ freshAfter (fresh || cut) front = true := by
  rw [Token.extendLine, lastLine?_eq] at hline
  by_cases hs : '\n' ∈ s
  · have hline : lastLine s = line := by simpa [hs] using hline
    cases cut with
    | false =>
      obtain ⟨q, hq, hend⟩ := exists_append_lastLine s
      rw [hline] at hq
      refine ⟨q, hq, ?_⟩
      rcases hend with rfl | ⟨q, rfl⟩
      · rw [List.nil_append] at hq
        exact absurd (hq ▸ hs) (hline ▸ newline_not_mem_lastLine s)
      · exact freshAfter_concat _ q '\n'
    | true =>
      obtain ⟨-, hends⟩ := hcut rfl
      obtain ⟨trail, -, hdrop, -⟩ := exists_of_endsLine hends
      have hsame : lastLine (dropLineEnd s) = line := by
        rw [← hline]
        conv => rhs; rw [hdrop]
        by_cases hmem : '\n' ∈ dropLineEnd s
        · rw [lastLine_append_of_mem (List.mem_cons_of_mem _ hmem), ← List.singleton_append,
            lastLine_append_of_mem hmem]
        · rw [← List.singleton_append, ← List.append_assoc, lastLine_append_of_not_mem hmem,
            lastLine_append_newline, List.nil_append]
          have := lastLine_append_of_not_mem (s := []) hmem
          simpa [lastLine] using this
      obtain ⟨q, hq, hend⟩ := exists_append_lastLine (dropLineEnd s)
      rw [hsame] at hq
      refine ⟨q, hq, ?_⟩
      rcases hend with rfl | ⟨q, rfl⟩
      · exact Bool.or_true _
      · exact freshAfter_concat _ q '\n'
  · cases cut with
    | true =>
      obtain ⟨trail, -, hdrop, -⟩ := exists_of_endsLine (hcut rfl).2
      rw [hdrop] at hs
      simp at hs
    | false =>
      cases fresh with
      | false => simp [hs, passedBefore] at hline
      | true =>
        have hline : s = line := by simpa [hs, passedBefore] using hline
        exact ⟨[], hline, rfl⟩

end Text

end Mustache

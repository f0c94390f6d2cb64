import Mustache.Proofs.Token.Tiling
import Mustache.Token.Line

/-!
# The line around a place in a text

A place cuts a text into what stands in front of it and what stands behind it. `Text.lead?` gives
the line blanks between the start of the line and the place, `Text.trail?` those between the place
and the end of the line, with the line ending. Neither has an answer when something else stands
there. The cuts that take a tag's line out of the runs beside it are these two.
-/

namespace Mustache

namespace Text

/-! ### Line blanks, line endings and solid characters -/

-- For characters there are instances that decide such statements by going through all of them.
instance (c? : Option Char) (p : Char → Prop) [DecidablePred p] : Decidable (∀ c ∈ c?, p c) :=
  c?.decidableForallMem

instance (s : Text) (p : Char → Prop) [DecidablePred p] : Decidable (∃ c ∈ s, p c) :=
  List.decidableBEx p s

theorem ne_of_isWhite_eq_false {c : Char} (h : isWhite c = false) :
    isLineBlank c = false ∧ c ≠ '\n' ∧ c ≠ '\r' := by
  refine ⟨?_, ?_, ?_⟩
  · rw [← Bool.not_eq_true]
    intro hc
    simp only [isLineBlank, Bool.or_eq_true, beq_iff_eq] at hc
    rcases hc with rfl | rfl <;> revert h <;> decide
  · rintro rfl
    revert h
    decide
  · rintro rfl
    revert h
    decide

theorem ne_of_isLineBlank {c : Char} (h : isLineBlank c) : c ≠ '\n' ∧ c ≠ '\r' := by
  simp only [isLineBlank, Bool.or_eq_true, beq_iff_eq] at h
  rcases h with rfl | rfl <;> decide

theorem not_endsSolid_of_blank {s : Text} (h : s.all isLineBlank) : ¬ s.EndsSolid := by
  rintro ⟨front, c, rfl, hc⟩
  simp [(ne_of_isWhite_eq_false hc).1] at h

/-! ### The front of a line -/

/-- What follows the last line feed, or all of the text when there is none. -/
def lastLine (s : Text) : Text := (s.reverse.takeWhile (· != '\n')).reverse

/-- The line blanks between the start of the last line and the end of the text. There is no answer
when something else stands on that line. -/
def lead? (front : Text) : Option Text :=
  if (lastLine front).all isLineBlank then some (lastLine front) else none

theorem lastLine?_eq {s : Text} :
    lastLine? s = if s.contains '\n' then some (lastLine s) else none := rfl

theorem newline_not_mem_lastLine (s : Text) : '\n' ∉ lastLine s := by
  intro h
  have := List.all_takeWhile (p := (· != '\n')) (l := s.reverse)
  rw [List.all_eq_true] at this
  simpa using this '\n' (List.mem_reverse.1 h)

theorem exists_append_lastLine (s : Text) :
    ∃ q, s = q ++ lastLine s ∧ (q = [] ∨ ∃ q', q = q' ++ ['\n']) := by
  refine ⟨(s.reverse.dropWhile (· != '\n')).reverse, ?_, ?_⟩
  · rw [lastLine, ← List.reverse_append, List.takeWhile_append_dropWhile, List.reverse_reverse]
  · cases h : s.reverse.dropWhile (· != '\n') with
    | nil => exact .inl rfl
    | cons c t =>
      have hc := List.head?_dropWhile_not (· != '\n') s.reverse
      simp only [h, List.head?_cons] at hc
      have hc : c = '\n' := by simpa using hc
      exact .inr ⟨t.reverse, by simp [hc]⟩

theorem lastLine_append_of_not_mem {s line : Text} (h : '\n' ∉ line) :
    lastLine (s ++ line) = lastLine s ++ line := by
  have hline : line.reverse.takeWhile (· != '\n') = line.reverse := by
    have hall : ∀ c ∈ line.reverse, (c != '\n') = true := by
      rintro c hc
      rw [bne_iff_ne]
      rintro rfl
      exact h (List.mem_reverse.1 hc)
    rw [← List.append_nil line.reverse, List.takeWhile_append_of_pos hall]
    rfl
  simp [lastLine, List.takeWhile_append, hline]

theorem lastLine_append_newline (s : Text) : lastLine (s ++ ['\n']) = [] := by
  simp [lastLine]

theorem lastLine_append_of_mem {s line : Text} (h : '\n' ∈ line) :
    lastLine (s ++ line) = lastLine line := by
  obtain ⟨q, hq, hend⟩ := exists_append_lastLine line
  have hnot := newline_not_mem_lastLine line
  rcases hend with rfl | ⟨q', rfl⟩
  · rw [List.nil_append] at hq
    rw [hq] at h
    exact absurd h hnot
  · calc lastLine (s ++ line)
        = lastLine ((s ++ q' ++ ['\n']) ++ lastLine line) := by
          rw [List.append_assoc, List.append_assoc, ← List.append_assoc q', ← hq]
      _ = lastLine line := by
          rw [lastLine_append_of_not_mem hnot, lastLine_append_newline, List.nil_append]

/-- The blanks in front of a place: they reach back to the start of the line. -/
theorem lead?_eq_some_iff {front lead : Text} :
    lead? front = some lead ↔
      lead.all isLineBlank ∧ ∃ q, front = q ++ lead ∧ (q = [] ∨ ∃ q', q = q' ++ ['\n']) := by
  constructor
  · intro h
    unfold lead? at h
    split at h
    · next hblank =>
      cases h
      exact ⟨hblank, exists_append_lastLine front⟩
    · cases h
  · rintro ⟨hblank, q, rfl, hq⟩
    have hnot : '\n' ∉ lead := fun h =>
      (ne_of_isLineBlank (List.all_eq_true.1 hblank _ h)).1 rfl
    have hnil : lastLine q = [] := by
      rcases hq with rfl | ⟨q', rfl⟩
      · rfl
      · exact lastLine_append_newline q'
    rw [lead?, lastLine_append_of_not_mem hnot, hnil, List.nil_append, if_pos hblank]

theorem lead?_eq_none_of_endsSolid {front : Text} (h : front.EndsSolid) : lead? front = none := by
  rw [Option.eq_none_iff_forall_not_mem]
  intro lead hlead
  obtain ⟨hblank, q, rfl, hq⟩ := lead?_eq_some_iff.1 hlead
  obtain ⟨s, c, hs, hc⟩ := h
  rcases List.eq_nil_or_concat lead with rfl | ⟨lead, d, rfl⟩
  · rcases hq with rfl | ⟨q', rfl⟩
    · simp at hs
    · have hd : '\n' = c := by simpa using congrArg List.getLast? hs
      exact (ne_of_isWhite_eq_false hc).2.1 hd.symm
  · have hd : d = c := by simpa using congrArg List.getLast? hs
    exact not_endsSolid_of_blank hblank ⟨lead, d, List.concat_eq_append, hd ▸ hc⟩

/-- Blanks behind a solid character do not reach over it. -/
theorem exists_of_append_eq_append_blank {front mid q lead : Text}
    (hfront : front = [] ∨ front.EndsSolid) (h : front ++ mid = q ++ lead)
    (hblank : lead.all isLineBlank) : ∃ m, mid = m ++ lead := by
  rcases List.append_eq_append_iff.1 h with ⟨m, -, hm⟩ | ⟨m, hm, hlead⟩
  · exact ⟨m, hm⟩
  · rcases List.eq_nil_or_concat m with rfl | ⟨m, c, rfl⟩
    · exact ⟨[], by simpa using hlead.symm⟩
    · rcases hfront with rfl | ⟨s, d, rfl, hd⟩
      · simp at hm
      · have hcd : d = c := by simpa using congrArg List.getLast? hm
        simp [hlead, ← hcd, (ne_of_isWhite_eq_false hd).1] at hblank

/-- The blanks in front of a place are the end of the run in front of it, and of what is left of
that run behind a line feed. -/
theorem exists_append_lead {front trail run lead : Text} (hfront : front = [] ∨ front.EndsSolid)
    (htrail : trail = [] ∨ ∃ s, trail = s ++ ['\n'])
    (h : lead? (front ++ (trail ++ run)) = some lead) :
    ∃ mid, run = mid ++ lead ∧ (mid = [] ∨ ∃ s, mid = s ++ ['\n']) := by
  obtain ⟨hblank, q, hq, hend⟩ := lead?_eq_some_iff.1 h
  obtain ⟨m, hm⟩ := exists_of_append_eq_append_blank hfront hq hblank
  obtain ⟨mid, rfl⟩ : ∃ mid, run = mid ++ lead := by
    rcases List.append_eq_append_iff.1 hm with ⟨mid, -, hmid⟩ | ⟨tail, htail, hlead⟩
    · exact ⟨mid, hmid⟩
    · rcases List.eq_nil_or_concat tail with rfl | ⟨tail, c, rfl⟩
      · exact ⟨[], by simpa using hlead.symm⟩
      · rcases htrail with rfl | ⟨s, rfl⟩
        · simp at htail
        · have hc : '\n' = c := by simpa using congrArg List.getLast? htail
          simp [hlead, ← hc, isLineBlank] at hblank
  refine ⟨mid, rfl, ?_⟩
  have hq : front ++ (trail ++ mid) = q := by
    simp only [← List.append_assoc] at hq
    exact List.append_cancel_right hq |>.symm ▸ by simp
  rcases List.eq_nil_or_concat mid with rfl | ⟨mid, c, rfl⟩
  · exact .inl rfl
  · rcases hend with rfl | ⟨q', rfl⟩
    · simp at hq
    · have hc : c = '\n' := by simpa using congrArg List.getLast? hq
      exact .inr ⟨mid, by simp [hc]⟩

/-! ### The rest of a line -/

/-- The line blanks in front of the first line ending, with that ending. There is no answer when
something else stands in front of it. The end of the text ends a line too. -/
def trail? (back : Text) : Option Text :=
  let blanks := back.takeWhile isLineBlank
  match back.dropWhile isLineBlank with
  | [] => some blanks
  | '\n' :: _ => some (blanks ++ ['\n'])
  | '\r' :: '\n' :: _ => some (blanks ++ ['\r', '\n'])
  | _ => none

/-- The blanks behind a place: they reach up to a line feed, to a carriage return with a line feed,
or to the end of the text. -/
theorem trail?_eq_some_iff {back trail : Text} :
    trail? back = some trail ↔
      ∃ blanks ending rest, blanks.all isLineBlank ∧ trail = blanks ++ ending ∧
        back = trail ++ rest ∧
        (ending = [] ∧ rest = [] ∨ ending = ['\n'] ∨ ending = ['\r', '\n']) := by
  constructor
  · intro h
    have hblank : (back.takeWhile isLineBlank).all isLineBlank := List.all_takeWhile
    have hback := List.takeWhile_append_dropWhile (p := isLineBlank) (l := back)
    unfold trail? at h
    dsimp only at h
    split at h
    · next hd =>
      cases h
      exact ⟨_, [], [], hblank, by simp, by simpa [hd] using hback.symm, .inl ⟨rfl, rfl⟩⟩
    · next rest hd =>
      cases h
      exact ⟨_, ['\n'], rest, hblank, rfl, by simpa [hd] using hback.symm, .inr (.inl rfl)⟩
    · next rest hd =>
      cases h
      exact ⟨_, ['\r', '\n'], rest, hblank, rfl, by simpa [hd] using hback.symm, .inr (.inr rfl)⟩
    · cases h
  · rintro ⟨blanks, ending, rest, hblank, rfl, rfl, hending⟩
    have hblank := List.all_eq_true.1 hblank
    have hbreak : ∀ s, (∀ c ∈ s.head?, isLineBlank c = false) →
        (blanks ++ s).takeWhile isLineBlank = blanks ∧
          (blanks ++ s).dropWhile isLineBlank = s := by
      intro s hs
      rw [List.takeWhile_append_of_pos hblank, List.dropWhile_append_of_pos hblank]
      cases s with
      | nil => simp
      | cons c s => simp [hs c rfl]
    rw [trail?, List.append_assoc]
    rcases hending with ⟨rfl, rfl⟩ | rfl | rfl
    · obtain ⟨htake, hdrop⟩ := hbreak [] (by simp)
      simp only [List.append_nil] at htake hdrop ⊢
      rw [htake, hdrop]
    · obtain ⟨htake, hdrop⟩ := hbreak ('\n' :: rest) (by simp [isLineBlank])
      simp only [List.cons_append, List.nil_append]
      rw [htake, hdrop]
      rfl
    · obtain ⟨htake, hdrop⟩ := hbreak ('\r' :: '\n' :: rest) (by simp [isLineBlank])
      simp only [List.cons_append, List.nil_append]
      rw [htake, hdrop]
      rfl

theorem trail?_eq_none_of_startsSolid {back : Text} (h : back.StartsSolid) : trail? back = none := by
  obtain ⟨c, rest, rfl, hc⟩ := h
  obtain ⟨hblank, hnewline, hreturn⟩ := ne_of_isWhite_eq_false hc
  simp only [trail?, List.dropWhile_cons, hblank]
  split <;> simp_all

/-! ### Cuts of a run -/

/-- A run is followed by nothing, or by a tag. -/
def EndsRun (rest : Text) : Prop := rest = [] ∨ rest.StartsSolid

theorem dropWhile_isLineBlank_append {run rest : Text} (h : EndsRun rest) :
    (run ++ rest).dropWhile isLineBlank = run.dropWhile isLineBlank ++ rest := by
  rw [List.dropWhile_append]
  split
  · next hrun =>
    rw [List.isEmpty_iff.1 hrun, List.nil_append]
    rcases h with rfl | ⟨c, rest, rfl, hc⟩
    · rfl
    · simp [(ne_of_isWhite_eq_false hc).1]
  · rfl

theorem takeWhile_isLineBlank_append {run rest : Text} (h : EndsRun rest) :
    (run ++ rest).takeWhile isLineBlank = run.takeWhile isLineBlank := by
  rw [List.takeWhile_append]
  split
  · next hrun =>
    have hrest : rest.takeWhile isLineBlank = [] := by
      rcases h with rfl | ⟨c, rest, rfl, hc⟩
      · rfl
      · simp [(ne_of_isWhite_eq_false hc).1]
    rw [hrest, List.append_nil]
    exact ((List.takeWhile_sublist _).eq_of_length hrun).symm
  · rfl

/-- Whether the line ends in a run can be seen on all that follows. -/
theorem endsLine_eq_isSome_trail? {run rest : Text} (h : EndsRun rest) :
    endsLine run rest.isEmpty = (trail? (run ++ rest)).isSome := by
  unfold endsLine trail?
  rw [dropWhile_isLineBlank_append h]
  have hsolid : ∀ c t, rest = c :: t → c ≠ '\n' ∧ c ≠ '\r' := by
    rintro c t rfl
    rcases h with h | ⟨d, t', h, hd⟩
    · cases h
    · cases h
      exact (ne_of_isWhite_eq_false hd).2
  match run.dropWhile isLineBlank with
  | [] =>
    match rest, hsolid with
    | [], _ => rfl
    | c :: t, hsolid =>
      obtain ⟨hnewline, hreturn⟩ := hsolid c t rfl
      simp only [List.nil_append, List.isEmpty_cons]
      split <;> simp_all
  | ['\r'] =>
    match rest, hsolid with
    | [], _ => rfl
    | c :: t, hsolid =>
      obtain ⟨hnewline, hreturn⟩ := hsolid c t rfl
      simp only [List.cons_append, List.nil_append]
      split <;> simp_all
  | a :: b :: s =>
    simp only [List.cons_append]
    split <;> split <;> simp_all
  | [a] =>
    simp only [List.cons_append, List.nil_append]
    split <;> split <;> simp_all

/-- The blanks and the line ending behind a tag are the front of the run behind it. Unless the
template ends there, a line feed closes them. -/
theorem eq_append_dropLineEnd {run rest trail : Text} (hrest : EndsRun rest)
    (h : trail? (run ++ rest) = some trail) :
    run = trail ++ dropLineEnd run ∧ (rest = [] ∨ ∃ s, trail = s ++ ['\n']) := by
  have hends : endsLine run rest.isEmpty := by rw [endsLine_eq_isSome_trail? hrest, h]; rfl
  have hrun := List.takeWhile_append_dropWhile (p := isLineBlank) (l := run)
  unfold trail? at h
  rw [dropWhile_isLineBlank_append hrest, takeWhile_isLineBlank_append hrest] at h
  unfold dropLineEnd
  split
  · next s hs =>
    rw [hs] at h hrun
    cases h
    exact ⟨by simpa using hrun.symm, .inr ⟨run.takeWhile isLineBlank ++ ['\r'], by simp⟩⟩
  · next s hs =>
    rw [hs] at h hrun
    cases h
    exact ⟨by simpa using hrun.symm, .inr ⟨_, rfl⟩⟩
  · next hnot1 hnot2 =>
    unfold endsLine at hends
    split at hends
    · next hnil =>
      obtain rfl := List.isEmpty_iff.1 hends
      rw [hnil] at h hrun
      cases h
      exact ⟨by rw [hnil]; exact hrun.symm, .inl rfl⟩
    · next s hs => exact absurd hs (hnot2 s)
    · next s hs => exact absurd hs (hnot1 s)
    · cases hends

theorem exists_append_dropLineEnd (s : Text) : ∃ front, s = front ++ dropLineEnd s := by
  have hs := List.takeWhile_append_dropWhile (p := isLineBlank) (l := s)
  unfold dropLineEnd
  split
  · next rest heq => exact ⟨s.takeWhile isLineBlank ++ ['\r', '\n'], by simpa [heq] using hs.symm⟩
  · next rest heq => exact ⟨s.takeWhile isLineBlank ++ ['\n'], by simpa [heq] using hs.symm⟩
  · exact ⟨s.takeWhile isLineBlank, hs.symm⟩

theorem isSuffix_dropLineEnd (s : Text) : dropLineEnd s <:+ s := by
  obtain ⟨front, hs⟩ := exists_append_dropLineEnd s
  exact ⟨front, hs.symm⟩

theorem isPrefix_dropTrailingBlanks (s : Text) : dropTrailingBlanks s <+: s := by
  rw [dropTrailingBlanks, ← List.reverse_suffix, List.reverse_reverse]
  exact List.dropWhile_suffix _

/-- The blanks in front of a tag are the end of the run in front of it. -/
theorem dropTrailingBlanks_append {run lead : Text} (hblank : lead.all isLineBlank)
    (hrun : run = [] ∨ ∃ s, run = s ++ ['\n']) : dropTrailingBlanks (run ++ lead) = run := by
  have hblank := List.all_eq_true.1 hblank
  rw [dropTrailingBlanks, List.reverse_append, List.dropWhile_append_of_pos (by simpa using hblank)]
  rcases hrun with rfl | ⟨s, rfl⟩
  · rfl
  · simp [isLineBlank]

/-! ### The part of a line that has been passed -/

/-- What has been passed of the line behind `front`: all of it, or too much for a tag to be alone
on that line. -/
def Passed (front : Text) : Option Text → Prop
  | some line => lastLine front = line
  | none => lead? front = none

theorem Passed.extendLine {front : Text} {passed : Option Text} (h : Passed front passed)
    (run : Text) : Passed (front ++ run) (Token.extendLine passed run) := by
  unfold Token.extendLine
  rw [lastLine?_eq]
  by_cases hrun : '\n' ∈ run
  · simp [hrun, Passed, lastLine_append_of_mem hrun]
  · cases passed with
    | some line =>
      have hline : lastLine front = line := h
      simp [hrun, Passed, lastLine_append_of_not_mem hrun, hline]
    | none =>
      have hline : ¬ (lastLine front).all isLineBlank := by simpa [Passed, lead?] using h
      simp only [List.contains_eq_mem, hrun, decide_false, Bool.false_eq_true, if_false,
        Option.map_none, Passed, lead?, lastLine_append_of_not_mem hrun, List.all_append,
        Bool.and_eq_true]
      exact if_neg fun hboth => hline hboth.1

theorem Passed.lead?_eq {front : Text} {passed : Option Text} (h : Passed front passed) :
    lead? front = passed.filter (·.all isLineBlank) := by
  cases passed with
  | none => exact h
  | some line =>
    have hline : lastLine front = line := h
    simp [lead?, hline, Option.filter]

end Text

end Mustache

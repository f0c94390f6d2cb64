import Mustache.Proofs.Token.Indent

/-!
# Tags that are written with braces

`Token.written` is a tag with a name between braces. It is read back as it was written, whatever
stands behind it (`Token.scanFrom_written`). A text run in front of it is read as one run if no
mark begins inside the run (`Text.Clear`).
-/

namespace Mustache

namespace Text

/-! ### Texts in which no mark begins -/

/-- No opening mark begins in `s` when `rest` stands behind it. -/
def Clear (s rest : Text) : Prop :=
  spanUntil ['{', '{'] (s ++ rest) =
    (s ++ (spanUntil ['{', '{'] rest).1, (spanUntil ['{', '{'] rest).2)

theorem spanUntil_append_of_not_mem {m : Char} {mark s : Text} (h : m ∉ s) (rest : Text) :
    spanUntil (m :: mark) (s ++ rest) =
      (s ++ (spanUntil (m :: mark) rest).1, (spanUntil (m :: mark) rest).2) := by
  induction s with
  | nil => rfl
  | cons c s ih =>
    have hc : m ≠ c := fun heq => h (heq ▸ List.mem_cons_self)
    have hmark : (dropPrefix? (m :: mark) (c :: (s ++ rest))).isSome = false := by
      rw [dropPrefix?, if_neg hc]
      rfl
    rw [List.cons_append, spanUntil_cons_of_not_isSome hmark,
      ih fun hs => h (List.mem_cons_of_mem _ hs), List.cons_append]

theorem Clear.nil (rest : Text) : Clear [] rest := rfl

theorem Clear.of_not_mem {s : Text} (h : '{' ∉ s) (rest : Text) : Clear s rest :=
  spanUntil_append_of_not_mem h rest

theorem Clear.of_blank {w : Text} (h : w.all isLineBlank) (rest : Text) : Clear w rest := by
  refine .of_not_mem (fun hmem => ?_) rest
  have hblank := List.all_eq_true.1 h _ hmem
  revert hblank
  decide

theorem Clear.append {s t rest : Text} (hs : Clear s (t ++ rest)) (ht : Clear t rest) :
    Clear (s ++ t) rest := by
  unfold Clear at *
  rw [List.append_assoc, hs, ht, List.append_assoc]

/-- A run ends where a mark stands, or at the end. -/
theorem Clear.spanUntil_eq {s rest : Text} (h : Clear s rest)
    (hrest : rest = [] ∨ ∃ body, rest = ['{', '{'] ++ body) :
    spanUntil ['{', '{'] (s ++ rest) = (s, rest) := by
  have hspan : spanUntil ['{', '{'] rest = ([], rest) := by
    rcases hrest with rfl | ⟨body, rfl⟩
    · rfl
    · exact spanUntil_mark _ body
  rw [h, hspan, List.append_nil]

/-! ### The start of a line -/

/-- A line starts behind the text. -/
def AtLineStart (front : Text) : Prop := front = [] ∨ ∃ q, front = q ++ ['\n']

instance (front : Text) : Decidable front.AtLineStart :=
  decidable_of_iff (∀ c ∈ front.getLast?, c = '\n') <| by
    rw [AtLineStart]
    rcases List.eq_nil_or_concat front with rfl | ⟨q, c, rfl⟩ <;> simp

theorem lead?_append_of_atLineStart {front w : Text} (h : front.AtLineStart)
    (hw : w.all isLineBlank) : lead? (front ++ w) = some w :=
  lead?_eq_some_iff.2 ⟨hw, front, rfl, h⟩

theorem atLineStart_of_lead? {front : Text} (h : lead? front = some []) : front.AtLineStart := by
  obtain ⟨-, q, hq, hstart⟩ := lead?_eq_some_iff.1 h
  rw [List.append_nil] at hq
  exact hq ▸ hstart

theorem AtLineStart.of_append {front s : Text} (h : (front ++ s).AtLineStart) :
    s.AtLineStart := by
  rcases List.eq_nil_or_concat s with rfl | ⟨q, c, rfl⟩
  · exact .inl rfl
  · rcases h with h | ⟨q', h⟩
    · simp at h
    · have hc : c = '\n' := by simpa using congrArg List.getLast? h
      exact .inr ⟨q, by simp [hc]⟩

theorem eq_nil_of_trail? {back : Text} (h : trail? back = some []) : back = [] := by
  obtain ⟨blanks, ending, rest, -, hnil, hback, hending⟩ := trail?_eq_some_iff.1 h
  rcases hending with ⟨-, rfl⟩ | rfl | rfl
  · simpa using hback
  · simp at hnil
  · simp at hnil

end Text

namespace Token

/-! ### Written tags -/

/-- The character that chooses a kind. -/
def Kind.sigil : Kind → Text
  | .raw => ['{']
  | .opening inverted => [if inverted then '^' else '#']
  | .closing => ['/']
  | .inclusion => ['>']
  | _ => []

/-- What stands behind the name for symmetry. -/
def Kind.guard : Kind → Text
  | .raw => ['}']
  | _ => []

/-- A tag with a name between braces. -/
def written (kind : Kind) (name : Text) : Text :=
  ['{', '{'] ++ (kind.sigil ++ (name ++ (kind.guard ++ ['}', '}'])))

/-- A name that can be written in a tag of this kind. -/
structure Writable (kind : Kind) (name : Text) : Prop where
  ne_text : kind ≠ .text
  not_silent : kind.isSilent = false
  ne_nil : name ≠ []
  trim_eq : name.trim = name
  brace_not_mem : '}' ∉ name
  /-- The name does not choose another kind. -/
  ofSigil?_head : kind = .escaped → ∀ c ∈ name.head?, Kind.ofSigil? c = none

variable {kind : Kind} {name : Text}

theorem Writable.read_append (h : Writable kind name) (rest : Text) :
    Head.read (kind.sigil ++ (name ++ rest)) = (⟨kind, kind.sigil, kind.guard⟩, name ++ rest) := by
  cases hkind : kind with
  | text => exact absurd hkind h.ne_text
  | comment | delimiters => simpa [hkind, Kind.isSilent] using h.not_silent
  | raw | closing | inclusion => rfl
  | opening inverted => cases inverted <;> rfl
  | escaped =>
    obtain ⟨c, s, rfl⟩ := List.exists_cons_of_ne_nil h.ne_nil
    have hc := h.ofSigil?_head hkind c rfl
    simp [Kind.sigil, Kind.guard, Head.read, hc]

theorem Writable.judge_eq (h : Writable kind name) (d : Delimiters) :
    judge d kind name = .ok (name, d) := by
  have hsilent := h.not_silent
  have hempty : name.isEmpty = false := by simpa using h.ne_nil
  cases kind with
  | comment | delimiters => cases hsilent
  | text | escaped | raw | opening | closing | inclusion =>
    simp only [judge, h.trim_eq, hempty]
    rfl

/-- A written tag is read back, whatever stands behind it. -/
theorem Writable.scanTag_eq (h : Writable kind name) (pos : Position) (rest : Text) :
    scanTag .braces pos (kind.sigil ++ (name ++ (kind.guard ++ ['}', '}'])) ++ rest) =
      .ok (⟨kind, name, written kind name, pos, rest, none⟩, .braces, rest) := by
  have hbody : kind.sigil ++ (name ++ (kind.guard ++ ['}', '}'])) ++ rest =
      kind.sigil ++ (name ++ (kind.guard ++ ['}', '}'] ++ rest)) := by simp
  have hmark : ∃ mark, kind.guard ++ ['}', '}'] = '}' :: mark := by
    cases kind <;> exact ⟨_, rfl⟩
  have hcut : Text.cutAt? (kind.guard ++ ['}', '}']) (name ++ (kind.guard ++ ['}', '}'] ++ rest)) =
      some (name, rest) := by
    obtain ⟨mark, hmark⟩ := hmark
    rw [hmark, Text.cutAt?, Text.spanUntil_append_of_not_mem h.brace_not_mem, Text.spanUntil_mark,
      Text.dropPrefix?_append, List.append_nil]
    rfl
  rw [hbody, scanTag, h.read_append]
  dsimp only
  rw [show Delimiters.braces.closing = ['}', '}'] from rfl, hcut]
  dsimp only
  rw [h.judge_eq]
  rfl

theorem Writable.scanFrom_eq (h : Writable kind name) {pos : Position} {rest : Text}
    {ts : List Token}
    (hrest : scanFrom .braces (pos.advance (written kind name)) rest = .ok ts) :
    scanFrom .braces pos (written kind name ++ rest) =
      .ok (⟨kind, name, written kind name, pos, rest, none⟩ :: ts) := by
  have htag := scanFrom_tag (h.scanTag_eq pos rest) hrest
  rw [← List.append_assoc] at htag
  exact htag

theorem endsSolid_written (kind : Kind) (name : Text) : (written kind name).EndsSolid := by
  refine ⟨['{', '{'] ++ (kind.sigil ++ (name ++ (kind.guard ++ ['}']))), '}', ?_, by decide⟩
  simp [written]

/-- The text between two tags, from the places that they stand at. -/
theorem textUpTo?_advance {t : Token} {front body rest : Text}
    (hpos : t.pos = Position.start.advance front) (hbehind : t.behind = body ++ rest) :
    t.textUpTo? (Position.start.advance (front ++ t.lexeme ++ body)).offset = some body := by
  rw [← textUpTo?_eq_some hbehind, stop, hpos]
  simp [Nat.add_assoc]

/-! ### Runs that may be empty -/

/-- A text run, if it is not empty. -/
def runFrom (pos : Position) (run behind : Text) : List Token :=
  if run.isEmpty then [] else [⟨.text, run, run, pos, behind, none⟩]

theorem scanFrom_runFrom {pos : Position} {run rest : Text} {ts : List Token}
    (hrun : Text.spanUntil ['{', '{'] (run ++ rest) = (run, rest))
    (hrest : scanFrom .braces (pos.advance run) rest = .ok ts) :
    scanFrom .braces pos (run ++ rest) = .ok (runFrom pos run rest ++ ts) := by
  cases hempty : run.isEmpty with
  | true =>
    obtain rfl := List.isEmpty_iff.1 hempty
    exact hrest
  | false =>
    rw [runFrom, hempty]
    exact scanFrom_run (List.isEmpty_eq_false_iff.1 hempty) hrun hrest

theorem settleFrom_runFrom {passed : Option Text} {cut : Bool} {pos : Position} {run behind : Text}
    {ts : List Token} :
    settleFrom passed cut (runFrom pos run behind ++ ts) =
      settledRun cut (extendLine passed run) ⟨.text, run, run, pos, behind, none⟩ ts ++
        settleFrom (extendLine passed run) (cut && run.isEmpty) ts := by
  cases run with
  | nil =>
    have hline : extendLine passed [] = passed := by
      cases passed <;> simp [extendLine, Text.lastLine?]
    have hcut : ∀ alone, cutRun [] cut alone = [] := by
      intro alone
      cases cut <;> cases alone <;> rfl
    simp [runFrom, settledRun, hline, hcut]
  | cons c s =>
    rw [runFrom, List.isEmpty_cons, Bool.and_false, if_neg (by decide), List.singleton_append,
      settleFrom_text rfl]

/-- A text run, or nothing if the text is empty. -/
inductive IsRun (s : Text) : List Token → Prop
  | nil : s = [] → IsRun s []
  | run {t} : t.kind = .text → t.content = s → s ≠ [] → IsRun s [t]

theorem isRun_settledRun {cut : Bool} {line : Option Text} {t : Token} {s : Text} (ts : List Token)
    (h : t.kind = .text) (hrun : cutRun t.content cut (headIsAlone line ts) = s) :
    IsRun s (settledRun cut line t ts) := by
  rw [settledRun, hrun]
  cases hempty : s.isEmpty with
  | true => exact .nil (List.isEmpty_iff.1 hempty)
  | false => exact .run h rfl (List.isEmpty_eq_false_iff.1 hempty)

/-- The line feed of the tag in front and the blanks of the tag behind are taken out of a run. -/
theorem cutRun_eq (cut : Bool) {alone : Bool} {s w : Text} (hw : w.all Text.isLineBlank)
    (halone : alone = true → s.AtLineStart) (hshared : alone = false → w = []) :
    cutRun ((if cut then ['\n'] else []) ++ (s ++ w)) cut alone = s := by
  have hdrop : (if cut then Text.dropLineEnd ((if cut then ['\n'] else []) ++ (s ++ w))
      else (if cut then ['\n'] else []) ++ (s ++ w)) = s ++ w := by
    cases cut <;> rfl
  rw [cutRun, hdrop]
  cases alone with
  | true => exact Text.dropTrailingBlanks_append hw (halone rfl)
  | false => rw [hshared rfl, List.append_nil]; rfl

/-- Whether a tag is alone on its line can be seen on the texts in front of it and behind it. -/
theorem isAlone_eq_of_tiled {front front' rest : Text} {passed : Option Text} {t : Token}
    {ts : List Token} (h : Tiled front' ts rest) (hpassed : Text.Passed front passed) :
    isAlone passed t ts =
      (t.kind.standsAlone && front.lead?.isSome && rest.trail?.isSome) := by
  rw [isAlone, h.lineEndsBefore_eq, hpassed.lead?_eq]
  cases passed with
  | none => rfl
  | some line => cases hline : line.all Text.isLineBlank <;> simp [Option.filter, hline]

/-- A tag that leaves a node is left as it is, but for the indent of a reference. -/
theorem settledTag_of_not_silent {passed : Option Text} {alone : Bool} {t : Token}
    (h : t.kind.isSilent = false) (hindent : t.indent = none) :
    settledTag passed alone t =
      [{ t with indent := if alone && t.kind == .inclusion then passed else none }] := by
  rw [settledTag, h]
  obtain ⟨kind, content, lexeme, pos, behind, indent⟩ := t
  cases hindent
  cases alone && kind == .inclusion <;> simp

end Token

end Mustache

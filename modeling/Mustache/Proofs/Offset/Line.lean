import Mathlib.Data.Nat.PSub
import Mustache.Proofs.Offset.Scan
import Mustache.Proofs.Token.Tiling
import Mustache.Proofs.Text.Line

/-!
# Lines by byte offsets

The tokens are looked up by their index, and what stands beside a tag is cut out of the runs in front
of it and behind it. `Offset.isAlone?` finds the tags that are alone on their line this way, and
`Offset.trailingBlanks?` and `Offset.leadingLineEnd?` count the bytes that go away with them. Each of
them always has an answer for the tokens of a template (`Offset.isAlone?_eq`).
-/

namespace Mustache

namespace Offset

open Text (isLineBlank findLast? dropPrefix?)

/-! ### Reading a line -/

/-- Whether only line blanks stand in front of the token at this index. -/
def startsLine? (tokens : List Spanned) : Nat → Option Bool
  | 0 => some true
  | i + 1 => do
    let prev ← tokens[i]?
    if prev.kind = .text then
      match findLast? '\n' prev.content with
      | some n =>
        let line ← prev.content.dropBytes? (n + 1)
        return line.all isLineBlank
      | none => return i == 0 && prev.content.all isLineBlank
    else return false

/-- Whether only line blanks stand between the token at this index and the end of the line. -/
def endsLine (tokens : List Spanned) (i : Nat) : Bool :=
  match tokens[i + 1]? with
  | none => true
  | some next => next.kind == .text && next.content.endsLine (i + 2 == tokens.length)

/-- Whether the token at this index is alone on its line. -/
def isAlone? (tokens : List Spanned) (i : Nat) : Option Bool := do
  let t ← tokens[i]?
  if t.kind.standsAlone then
    if ← startsLine? tokens i then return endsLine tokens i else return false
  else return false

/-- The number of bytes of the line blanks at the end of a text. -/
def trailingBlanks? (s : Text) : Option Nat := s.byteLength.psub s.dropTrailingBlanks.byteLength

/-- The number of bytes of the line blanks at the front of a text and of one line ending. -/
def leadingLineEnd? (s : Text) : Option Nat := do
  let n ← s.byteLength.psub (Text.byteLength (s.dropWhile isLineBlank))
  let rest ← s.dropBytes? n
  if (dropPrefix? ['\r', '\n'] rest).isSome then return n + 2
  else if (dropPrefix? ['\n'] rest).isSome then return n + 1
  else return n

/-! ### Blanks of a text -/

/-- The number of bytes that `Text.dropTrailingBlanks` drops. -/
def blanksLength (s : Text) : Nat := s.byteLength - s.dropTrailingBlanks.byteLength

/-- The number of bytes that `Text.dropLineEnd` drops. -/
def lineEndLength (s : Text) : Nat := s.byteLength - s.dropLineEnd.byteLength

theorem blanksLength_eq {s kept blanks : Text} (hkept : s.dropTrailingBlanks = kept)
    (hs : s = kept ++ blanks) : blanksLength s = blanks.byteLength := by
  rw [blanksLength, hkept, hs, Text.byteLength_append, Nat.add_sub_cancel_left]

theorem lineEndLength_eq {s front kept : Text} (hkept : s.dropLineEnd = kept)
    (hs : s = front ++ kept) : lineEndLength s = front.byteLength := by
  rw [lineEndLength, hkept, hs, Text.byteLength_append, Nat.add_sub_cancel]

theorem trailingBlanks?_eq (s : Text) : trailingBlanks? s = some (blanksLength s) := by
  obtain ⟨blanks, hs⟩ := Text.isPrefix_dropTrailingBlanks s
  rw [blanksLength_eq rfl hs.symm]
  refine Nat.psub_eq_some.2 ?_
  rw [Nat.add_comm, ← Text.byteLength_append, hs]

/-- The blanks at the end of a text can be cut off. -/
theorem dropBytes?_blanksLength (s : Text) :
    ∃ stop, s.byteLength.psub (blanksLength s) = some stop ∧
      s.dropBytes? stop = some (s.drop s.dropTrailingBlanks.length) := by
  have hs := (List.prefix_iff_eq_append.1 (Text.isPrefix_dropTrailingBlanks s)).symm
  refine ⟨s.dropTrailingBlanks.byteLength, Nat.psub_eq_some.2 ?_, ?_⟩
  · rw [blanksLength_eq rfl hs, ← Text.byteLength_append, ← hs]
  · exact Text.dropBytes?_eq_some_iff.2 ⟨_, hs, rfl⟩

theorem dropLineEnd_of_none {s : Text}
    (hreturn : dropPrefix? ['\r', '\n'] (s.dropWhile isLineBlank) = none)
    (hfeed : dropPrefix? ['\n'] (s.dropWhile isLineBlank) = none) :
    s.dropLineEnd = s.dropWhile isLineBlank := by
  rw [Text.dropLineEnd]
  split
  · next rest hrest =>
    rw [hrest] at hreturn
    exact absurd hreturn (by simp [dropPrefix?])
  · next rest hrest =>
    rw [hrest] at hfeed
    exact absurd hfeed (by simp [dropPrefix?])
  · rfl

theorem leadingLineEnd?_eq (s : Text) : leadingLineEnd? s = some (lineEndLength s) := by
  have hs := (List.takeWhile_append_dropWhile (p := isLineBlank) (l := s)).symm
  have hnone := dropLineEnd_of_none (s := s)
  have hkept : ∀ ending kept : Text, (ending = ['\r', '\n'] ∨ ending = ['\n']) →
      s.dropWhile isLineBlank = ending ++ kept → s.dropLineEnd = kept := by
    rintro ending kept (rfl | rfl) hrest <;> rw [Text.dropLineEnd, hrest] <;> rfl
  rw [leadingLineEnd?]
  generalize s.takeWhile isLineBlank = blanks at hs
  generalize s.dropWhile isLineBlank = rest at hs hnone hkept ⊢
  have hlength : ∀ ending kept : Text, s.dropLineEnd = kept → rest = ending ++ kept →
      lineEndLength s = Text.byteLength blanks + ending.byteLength := by
    intro ending kept hkept hrest
    rw [hrest, ← List.append_assoc] at hs
    rw [lineEndLength_eq hkept hs, Text.byteLength_append]
  have hpsub : s.byteLength.psub (Text.byteLength rest) = some (Text.byteLength blanks) :=
    Nat.psub_eq_some.2 (by rw [hs, Text.byteLength_append])
  have hdrop : s.dropBytes? (Text.byteLength blanks) = some rest :=
    Text.dropBytes?_eq_some_iff.2 ⟨blanks, hs, rfl⟩
  simp only [hpsub, hdrop, Option.bind_eq_bind, Option.bind_some]
  cases hreturn : dropPrefix? ['\r', '\n'] rest with
  | some kept =>
    have hrest := (Text.dropPrefix?_eq_some_iff.1 hreturn).symm
    rw [hlength _ kept (hkept _ kept (.inl rfl) hrest) hrest]
    rfl
  | none =>
    cases hfeed : dropPrefix? ['\n'] rest with
    | some kept =>
      have hrest := (Text.dropPrefix?_eq_some_iff.1 hfeed).symm
      rw [hlength _ kept (hkept _ kept (.inr rfl) hrest) hrest]
      rfl
    | none =>
      rw [hlength [] rest (hnone hreturn hfeed) rfl]
      rfl

/-- The last line of a text can be cut off. -/
theorem dropBytes?_findLast? {s : Text} (h : '\n' ∈ s) :
    ∃ n, findLast? '\n' s = some n ∧ s.dropBytes? (n + 1) = some s.lastLine := by
  obtain ⟨q, hq, hend⟩ := Text.exists_append_lastLine s
  have hnot := Text.newline_not_mem_lastLine s
  rcases hend with rfl | ⟨front, rfl⟩
  · rw [hq] at h
    exact absurd h hnot
  · refine ⟨front.byteLength, ?_, Text.dropBytes?_eq_some_iff.2 ⟨front ++ ['\n'], hq, ?_⟩⟩
    · rw [List.append_assoc, List.singleton_append] at hq
      conv => lhs; rw [hq]
      exact Text.findLast?_append front hnot
    · rw [Text.byteLength_append]
      rfl

/-! ### Tokens by their index -/

variable {tokens : List Token} {i : Nat} {t : Token}

theorem exists_getElem? (h : i < tokens.length) : ∃ t, tokens[i]? = some t :=
  ⟨_, List.getElem?_eq_getElem h⟩

theorem drop_of_getElem? (h : tokens[i]? = some t) : tokens.drop i = t :: tokens.drop (i + 1) := by
  obtain ⟨hi, rfl⟩ := List.getElem?_eq_some_iff.1 h
  exact List.drop_eq_getElem_cons hi

theorem getElem?_map_spanned (h : tokens[i]? = some t) :
    (tokens.map Token.spanned)[i]? = some t.spanned := by
  rw [List.getElem?_map, h]
  rfl

/-- The part of the line that has been passed in front of the token at this index. -/
def passedAt (tokens : List Token) (i : Nat) : Option Text :=
  (tokens.take i).foldl
    (fun passed t => if t.kind = .text then Token.extendLine passed t.content else none) (some [])

/-- Whether the token at this index is alone on its line. -/
def aloneAt (tokens : List Token) (i : Nat) : Bool :=
  Token.headIsAlone (passedAt tokens i) (tokens.drop i)

/-- No text run stands beside another one. -/
def Apart (tokens : List Token) : Prop :=
  ∀ (i : Nat) (t u : Token), tokens[i]? = some t → tokens[i + 1]? = some u → t.kind = .text →
    u.kind ≠ .text

theorem apart_of_tiled {front rest : Text} (h : Token.Tiled front tokens rest) : Apart tokens := by
  induction h with
  | nil => nofun
  | run _ _ _ _ hhead _ _ _ _ ih =>
    intro i t u ht hu hkind
    cases i with
    | zero => exact hhead u (by rwa [List.head?_eq_getElem?])
    | succ i => exact ih i t u ht hu hkind
  | tag hkind _ _ _ _ _ _ ih =>
    intro i t u ht hu hkind'
    cases i with
    | zero =>
      cases ht
      exact absurd hkind' hkind
    | succ i => exact ih i t u ht hu hkind'

theorem passedAt_succ (h : tokens[i]? = some t) :
    passedAt tokens (i + 1) =
      if t.kind = .text then Token.extendLine (passedAt tokens i) t.content else none := by
  simp [passedAt, List.take_add_one, h]

theorem aloneAt_eq (h : tokens[i]? = some t) :
    aloneAt tokens i = Token.isAlone (passedAt tokens i) t (tokens.drop (i + 1)) := by
  rw [aloneAt, drop_of_getElem? h, Token.headIsAlone]

/-- In front of a text run a tag stands, unless it is the first token. -/
theorem passedAt_of_text (hapart : Apart tokens) (h : tokens[i]? = some t) (hkind : t.kind = .text) :
    passedAt tokens i = if i = 0 then some [] else none := by
  cases i with
  | zero => rfl
  | succ i =>
    obtain ⟨p, hp⟩ := exists_getElem? (Nat.lt_of_succ_lt (List.getElem?_eq_some_iff.1 h).1)
    have hp' : p.kind ≠ .text := fun hp' => hapart i p t hp h hp' hkind
    rw [passedAt_succ hp, if_neg hp', if_neg (Nat.succ_ne_zero i)]

theorem exists_of_aloneAt (h : aloneAt tokens i) :
    ∃ t line, tokens[i]? = some t ∧ passedAt tokens i = some line ∧ line.all isLineBlank := by
  cases ht : tokens[i]? with
  | none =>
    rw [aloneAt, List.drop_eq_nil_of_le (List.getElem?_eq_none_iff.1 ht)] at h
    cases h
  | some t =>
    rw [aloneAt_eq ht, Token.isAlone, Bool.and_eq_true, Bool.and_eq_true, Option.any_eq_true] at h
    obtain ⟨⟨-, line, hline, hblank⟩, -⟩ := h
    exact ⟨t, line, rfl, hline, hblank⟩

/-! ### Tags that are alone on their line -/

theorem startsLine?_eq (hapart : Apart tokens) (hi : i ≤ tokens.length) :
    startsLine? (tokens.map Token.spanned) i =
      some ((passedAt tokens i).any (·.all isLineBlank)) := by
  cases i with
  | zero => rfl
  | succ i =>
    obtain ⟨p, hp⟩ := exists_getElem? hi
    rw [startsLine?, getElem?_map_spanned hp, Option.bind_eq_bind, Option.bind_some,
      passedAt_succ hp, Token.spanned_kind, Token.spanned_content]
    by_cases hkind : p.kind = .text
    · rw [if_pos hkind, if_pos hkind, passedAt_of_text hapart hp hkind, Token.extendLine,
        Text.lastLine?_eq]
      by_cases hnewline : '\n' ∈ p.content
      · obtain ⟨n, hfind, hline⟩ := dropBytes?_findLast? hnewline
        rw [hfind, if_pos (by simpa using hnewline)]
        simp only [hline, Option.bind_eq_bind, Option.bind_some, Option.any_some]
        rfl
      · rw [Text.findLast?_eq_none hnewline, if_neg (by simpa using hnewline)]
        cases i <;> rfl
    · rw [if_neg hkind, if_neg hkind]
      rfl

theorem endsLine_eq (tokens : List Token) (i : Nat) :
    endsLine (tokens.map Token.spanned) i = Token.lineEndsBefore (tokens.drop (i + 1)) := by
  cases hnext : tokens[i + 1]? with
  | none =>
    rw [endsLine, List.getElem?_map, hnext,
      List.drop_eq_nil_of_le (List.getElem?_eq_none_iff.1 hnext)]
    rfl
  | some u =>
    have hi := (List.getElem?_eq_some_iff.1 hnext).1
    have hlast : (i + 2 == (tokens.map Token.spanned).length) = (tokens.drop (i + 2)).isEmpty := by
      rw [List.length_map, Bool.eq_iff_iff, beq_iff_eq, List.isEmpty_iff, List.drop_eq_nil_iff]
      omega
    rw [endsLine, getElem?_map_spanned hnext, drop_of_getElem? hnext, hlast]
    rfl

/-- Reading the line around a token always has an answer. -/
theorem isAlone?_eq (hapart : Apart tokens) (h : tokens[i]? = some t) :
    isAlone? (tokens.map Token.spanned) i = some (aloneAt tokens i) := by
  have hi := Nat.le_of_lt (List.getElem?_eq_some_iff.1 h).1
  rw [isAlone?, getElem?_map_spanned h, Option.bind_eq_bind, Option.bind_some, Token.spanned_kind,
    startsLine?_eq hapart hi, endsLine_eq, aloneAt_eq h, Token.isAlone]
  cases t.kind.standsAlone with
  | false => rfl
  | true => cases (passedAt tokens i).any (·.all isLineBlank) <;> rfl

/-- The line blanks at the end of the text run in front of this index. -/
def indentAt (tokens : List Token) : Nat → Text
  | 0 => []
  | i + 1 =>
    match tokens[i]? with
    | some prev => prev.content.drop prev.content.dropTrailingBlanks.length
    | none => []

/-- In front of a tag that is alone on its line, nothing but its indent has been passed. -/
theorem passedAt_of_aloneAt (hapart : Apart tokens) (h : aloneAt tokens i) :
    passedAt tokens i = some (indentAt tokens i) := by
  obtain ⟨t, line, ht, hline, hblank⟩ := exists_of_aloneAt h
  cases i with
  | zero => rfl
  | succ i =>
    obtain ⟨p, hp⟩ := exists_getElem? (Nat.lt_of_succ_lt (List.getElem?_eq_some_iff.1 ht).1)
    -- The part passed is the end of the run in front, behind a line feed or from its start.
    obtain ⟨q, hq, hend⟩ : ∃ q, p.content = q ++ line ∧ (q = [] ∨ ∃ s, q = s ++ ['\n']) := by
      rw [passedAt_succ hp] at hline
      split at hline
      · next hkind =>
        rw [passedAt_of_text hapart hp hkind, Token.extendLine, Text.lastLine?_eq] at hline
        by_cases hnewline : '\n' ∈ p.content
        · rw [if_pos (by simpa using hnewline)] at hline
          cases hline
          exact Text.exists_append_lastLine p.content
        · rw [if_neg (by simpa using hnewline)] at hline
          cases i with
          | zero =>
            cases hline
            exact ⟨[], rfl, .inl rfl⟩
          | succ i => cases hline
      · cases hline
    rw [hline, indentAt, hp]
    dsimp only
    rw [hq, Text.dropTrailingBlanks_append hblank hend, List.drop_left]

end Offset

end Mustache

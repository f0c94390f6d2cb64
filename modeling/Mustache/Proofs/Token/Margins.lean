import Mustache.Proofs.Text.Bytes
import Mustache.Proofs.Text.Line

/-!
# Tags that are alone on their line

`Token.margins?` reads off a template whether a tag is alone on its line, and what goes away with
it. It looks at the template and at the place of the tag only. `Token.settle`, which walks over the
tokens and never sees the template, finds the same tags (`Tiled.isAlone_iff`), cuts their margins
out of the text runs (`Tiled.runsOf_settle`) and hands the blanks in front of a reference to it
(`Tiled.inclusionsOf_settle`).
-/

namespace Mustache.Token

/-! ### One step of the walk over the tokens -/

/-- What a text run leaves behind, if anything. -/
def settledRun (cut : Bool) (line : Option Text) (t : Token) (ts : List Token) : List Token :=
  let run := cutRun t.content cut (headIsAlone line ts)
  if run.isEmpty then [] else [{ t with content := run }]

/-- What a tag leaves behind, if anything. -/
def settledTag (passed : Option Text) (alone : Bool) (t : Token) : List Token :=
  if t.kind.isSilent then []
  else if alone && t.kind == .inclusion then [{ t with indent := passed }]
  else [t]

/-- A section tag stays as it is. -/
theorem settledTag_of_section {passed : Option Text} {alone : Bool} {t : Token}
    (h : (∃ inverted, t.kind = .opening inverted) ∨ t.kind = .closing) :
    settledTag passed alone t = [t] := by
  rw [settledTag]
  rcases h with ⟨inverted, h⟩ | h <;> simp [h, Kind.isSilent]

/-- A tag that writes a value stays as it is. -/
theorem settledTag_of_value {passed : Option Text} {alone : Bool} {t : Token}
    (h : t.kind = .escaped ∨ t.kind = .raw) : settledTag passed alone t = [t] := by
  rw [settledTag]
  rcases h with h | h <;> simp [h, Kind.isSilent]

/-- A reference is given its indent. -/
theorem settledTag_of_inclusion {passed : Option Text} {alone : Bool} {t : Token}
    (h : t.kind = .inclusion) (hindent : t.indent = none) :
    settledTag passed alone t = [{ t with indent := if alone then passed else none }] := by
  obtain ⟨kind, content, lexeme, pos, behind, indent⟩ := t
  cases h
  cases hindent
  cases alone <;> rfl

theorem settleFrom_text {passed : Option Text} {cut : Bool} {t : Token} {ts : List Token}
    (h : t.kind = .text) :
    settleFrom passed cut (t :: ts) =
      settledRun cut (extendLine passed t.content) t ts ++
        settleFrom (extendLine passed t.content) false ts := by
  rw [settleFrom, settledRun]
  simp only [h]
  split <;> rfl

theorem settleFrom_tag {passed : Option Text} {cut : Bool} {t : Token} {ts : List Token}
    (h : t.kind ≠ .text) :
    settleFrom passed cut (t :: ts) =
      settledTag passed (isAlone passed t ts) t ++ settleFrom none (isAlone passed t ts) ts := by
  rw [settleFrom, settledTag]
  split
  · next hkind => exact absurd hkind h
  · by_cases halone : (isAlone passed t ts && t.kind == .inclusion) = true <;>
      split <;> simp [halone]

/-! ### Margins -/

/-- The line blanks in front of a tag and the rest of the line behind it, with its ending. There is
no answer when the tag is not alone on its line, or is one that writes a value. -/
def margins? (source : Text) (t : Token) : Option (Text × Text) :=
  if t.kind.standsAlone then
    match (source.before t.pos.offset).lead?, (source.behind t.stop).trail? with
    | some lead, some trail => some (lead, trail)
    | _, _ => none
  else none

/-- Whether the byte at the offset `n` goes away with a tag: it is part of the tag, or of its
margins. -/
def takes (source : Text) (t : Token) (n : Nat) : Bool :=
  match t.margins? source with
  | some (lead, trail) => t.pos.offset ≤ n + lead.byteLength && n < t.stop + trail.byteLength
  | none => t.pos.offset ≤ n && n < t.stop

/-- Whether the byte at the offset `n` goes away with one of the tags among the tokens. -/
def takesAny (source : Text) (ts : List Token) (n : Nat) : Bool :=
  ts.any fun t => t.kind != .text && t.takes source n

/-- The text runs among the tokens, put together. -/
def runsOf (ts : List Token) : Text := ts.flatMap fun t => if t.kind = .text then t.content else []

/-- The references to partials among the tokens: their names, indents and places. -/
def inclusionsOf (ts : List Token) : List (Text × Option Text × Position) :=
  ts.filterMap fun t => if t.kind = .inclusion then some (t.content, t.indent, t.pos) else none

/-- The references to partials among the tokens, each with the blanks in front of it if it is alone
on its line in the template. -/
def inclusionsIn (source : Text) (ts : List Token) : List (Text × Option Text × Position) :=
  ts.filterMap fun t =>
    if t.kind = .inclusion then some (t.content, (t.margins? source).map Prod.fst, t.pos) else none

@[simp] theorem runsOf_append (ts us : List Token) : runsOf (ts ++ us) = runsOf ts ++ runsOf us :=
  List.flatMap_append

@[simp] theorem inclusionsOf_append (ts us : List Token) :
    inclusionsOf (ts ++ us) = inclusionsOf ts ++ inclusionsOf us :=
  List.filterMap_append

theorem runsOf_settledRun (cut : Bool) (line : Option Text) {t : Token} (h : t.kind = .text)
    (ts : List Token) :
    runsOf (settledRun cut line t ts) = cutRun t.content cut (headIsAlone line ts) := by
  rw [settledRun]
  split
  · next hempty => exact (List.isEmpty_iff.1 hempty).symm
  · simp [runsOf, h]

theorem runsOf_settledTag (passed : Option Text) (alone : Bool) {t : Token} (h : t.kind ≠ .text) :
    runsOf (settledTag passed alone t) = [] := by
  rw [settledTag]
  split
  · rfl
  · split <;> simp [runsOf, h]

/-- A token stands between two parts of a template. -/
structure Lies (source front : Text) (t : Token) (back : Text) : Prop where
  source_eq : source = front ++ (t.lexeme ++ back)
  pos_eq : t.pos = Position.start.advance front

namespace Lies

variable {source front back : Text} {t : Token}

theorem offset_eq (h : Lies source front t back) : t.pos.offset = front.byteLength := by
  rw [h.pos_eq, Position.offset_advance]
  exact Nat.zero_add _

theorem stop_eq (h : Lies source front t back) : t.stop = (front ++ t.lexeme).byteLength := by
  rw [stop, h.offset_eq, Text.byteLength_append]

theorem margins?_eq_some_iff (h : Lies source front t back) {lead trail : Text} :
    t.margins? source = some (lead, trail) ↔
      t.kind.standsAlone ∧ front.lead? = some lead ∧ back.trail? = some trail := by
  have hback : source.behind t.stop = back := by
    rw [h.source_eq, ← List.append_assoc, h.stop_eq, Text.behind_append]
  rw [margins?, hback, h.offset_eq, h.source_eq, Text.before_append]
  cases t.kind.standsAlone <;> cases front.lead? <;> cases back.trail? <;> simp

/-- A tag takes no byte before the last solid character in front of it. -/
theorem le_of_takes {mid : Text} (h : Lies source (front ++ mid) t back)
    (hfront : front = [] ∨ front.EndsSolid) {n : Nat} (hn : t.takes source n) :
    front.byteLength ≤ n := by
  have hoffset := h.offset_eq
  rw [Text.byteLength_append] at hoffset
  unfold takes at hn
  split at hn
  · next lead trail hmargins =>
    obtain ⟨-, hlead, -⟩ := h.margins?_eq_some_iff.1 hmargins
    obtain ⟨hblank, q, hq, -⟩ := Text.lead?_eq_some_iff.1 hlead
    obtain ⟨m, rfl⟩ := Text.exists_of_append_eq_append_blank hfront hq hblank
    rw [Text.byteLength_append] at hoffset
    simp only [Bool.and_eq_true, decide_eq_true_eq] at hn
    omega
  · simp only [Bool.and_eq_true, decide_eq_true_eq] at hn
    omega

/-- A tag takes all of its own bytes. -/
theorem takes_within (h : Lies source front t back) {n : Nat} (hle : front.byteLength ≤ n)
    (hlt : n < (front ++ t.lexeme).byteLength) : t.takes source n := by
  have hoffset := h.offset_eq
  have hstop := h.stop_eq
  unfold takes
  split <;> simp only [Bool.and_eq_true, decide_eq_true_eq] <;> omega

/-- Behind itself a tag that is alone on its line takes the rest of the line. -/
theorem takes_behind (h : Lies source front t back) {n : Nat}
    (hle : (front ++ t.lexeme).byteLength ≤ n) :
    t.takes source n = ((t.margins? source).isSome &&
      decide (n < (front ++ t.lexeme).byteLength + (back.trail?.getD []).byteLength)) := by
  have hoffset := h.offset_eq
  have hstop := h.stop_eq
  have hlength := Text.byteLength_append front t.lexeme
  unfold takes
  split
  · next lead trail hmargins =>
    rw [hmargins, (h.margins?_eq_some_iff.1 hmargins).2.2, decide_eq_true (by omega), hstop]
    rfl
  · next hmargins =>
    rw [hmargins, decide_eq_false (p := n < t.stop) (by omega), Bool.and_false]
    rfl

end Lies

/-! ### Tokens that lie side by side -/

namespace Tiled

variable {front rest : Text} {t : Token} {ts : List Token}

theorem exists_lies (h : Tiled front ts rest) (ht : t ∈ ts) :
    ∃ mid back, Lies (front ++ rest) (front ++ mid) t back := by
  induction h with
  | nil => cases ht
  | @run front u us rest _ _ _ _ _ hpos _ _ _ ih | @tag front u us rest _ _ _ hpos _ _ _ ih =>
    rcases List.mem_cons.1 ht with rfl | ht
    · exact ⟨[], rest, by simp, by simpa using hpos⟩
    · obtain ⟨mid, back, hsource, hpos⟩ := ih ht
      exact ⟨u.lexeme ++ mid, back, by simpa using hsource, by simpa using hpos⟩

/-- The tags behind a solid character take no byte in front of it. -/
theorem takesAny_eq_false (h : Tiled front ts rest) (hfront : front = [] ∨ front.EndsSolid)
    {n : Nat} (hn : n < front.byteLength) : takesAny (front ++ rest) ts n = false := by
  rw [takesAny, List.any_eq_false]
  intro t ht
  obtain ⟨mid, back, hlies⟩ := h.exists_lies ht
  simp only [Bool.and_eq_true, not_and, Bool.not_eq_true]
  intro _
  by_cases htakes : t.takes (front ++ rest) n = true
  · have := hlies.le_of_takes hfront htakes
    omega
  · simpa using htakes

theorem isEmpty_eq (h : Tiled front ts rest) : ts.isEmpty = rest.isEmpty := by
  cases h with
  | nil => rfl
  | run _ _ hne => simp [hne]
  | tag _ hstarts =>
    obtain ⟨c, s, hc, -⟩ := hstarts
    simp [hc]

/-- Whether the line ends in front of the next tag can be seen on the template. -/
theorem lineEndsBefore_eq (h : Tiled front ts rest) :
    lineEndsBefore ts = rest.trail?.isSome := by
  cases h with
  | nil => rfl
  | run hkind hcontent _ hends _ _ _ _ htiled =>
    rw [lineEndsBefore, hkind, hcontent, htiled.isEmpty_eq, Text.endsLine_eq_isSome_trail? hends]
    rfl
  | tag hkind hstarts =>
    rw [Text.trail?_eq_none_of_startsSolid (hstarts.append _), lineEndsBefore]
    simp [hkind]

/-- The walk over the tokens finds the tags that are alone on their line. -/
theorem isAlone_eq {source back : Text} {passed : Option Text} (h : Tiled (front ++ t.lexeme) ts back)
    (hlies : Lies source front t back) (hpassed : Text.Passed front passed) :
    isAlone passed t ts = (t.margins? source).isSome := by
  have hiff : isAlone passed t ts ↔ ∃ lead trail, t.margins? source = some (lead, trail) := by
    simp only [hlies.margins?_eq_some_iff, isAlone, h.lineEndsBefore_eq, hpassed.lead?_eq,
      Bool.and_eq_true, Option.isSome_iff_exists, Option.any_eq_true, Option.filter_eq_some_iff]
    constructor
    · rintro ⟨⟨hkind, lead, hlead, hblank⟩, trail, htrail⟩
      exact ⟨lead, trail, hkind, ⟨hlead, hblank⟩, htrail⟩
    · rintro ⟨lead, trail, hkind, ⟨hlead, hblank⟩, htrail⟩
      exact ⟨⟨hkind, lead, hlead, hblank⟩, trail, htrail⟩
  rw [Bool.eq_iff_iff, hiff, Option.isSome_iff_exists, Prod.exists]

end Tiled

theorem Lies.passed_eq {source front back lead trail : Text} {t : Token} {passed : Option Text}
    (h : Lies source front t back) (hmargins : t.margins? source = some (lead, trail))
    (hpassed : Text.Passed front passed) : passed = some lead := by
  have hlead := (h.margins?_eq_some_iff.1 hmargins).2.1
  rw [hpassed.lead?_eq, Option.filter_eq_some_iff] at hlead
  exact hlead.1

/-! ### What is left of the text runs -/

/-- The margins of the first token. -/
def headMargins? (source : Text) (ts : List Token) : Option (Text × Text) :=
  ts.head?.bind (margins? source)

/-- The blanks that the first token takes in front of it. -/
def headLead (source : Text) (ts : List Token) : Text :=
  ((headMargins? source ts).map Prod.fst).getD []

namespace Tiled

variable {front rest : Text} {t : Token} {ts : List Token}

theorem headIsAlone_eq {passed : Option Text} (h : Tiled front ts rest)
    (hpassed : Text.Passed front passed) :
    headIsAlone passed ts = (headMargins? (front ++ rest) ts).isSome := by
  cases h with
  | nil => rfl
  | run _ _ _ _ _ hpos _ _ htiled => exact isAlone_eq htiled ⟨by simp, hpos⟩ hpassed
  | tag _ _ _ hpos _ _ htiled => exact isAlone_eq htiled ⟨by simp, hpos⟩ hpassed

/-- What the tags take in front of the first of them are the blanks in front of it. -/
theorem takesAny_before (h : Tiled front ts rest) (hhead : ∀ u ∈ ts.head?, u.kind ≠ .text) {n : Nat}
    (hn : n < front.byteLength) :
    takesAny (front ++ rest) ts n =
      decide (front.byteLength ≤ n + (headLead (front ++ rest) ts).byteLength) := by
  cases h with
  | nil => simpa [takesAny, headLead, headMargins?] using hn
  | run hkind => exact absurd hkind (hhead _ rfl)
  | @tag _ t ts rest hkind _ hends hpos _ _ htiled =>
    have hlies : Lies (front ++ (t.lexeme ++ rest)) front t rest := ⟨rfl, hpos⟩
    have hbehind : takesAny (front ++ (t.lexeme ++ rest)) ts n = false := by
      rw [← List.append_assoc]
      refine htiled.takesAny_eq_false (.inr (hends.append _)) ?_
      rw [Text.byteLength_append]
      omega
    have hkind : (t.kind != .text) = true := by simpa using hkind
    have hstop : n < t.stop := by
      rw [hlies.stop_eq, Text.byteLength_append]
      omega
    rw [takesAny] at hbehind
    rw [takesAny, List.any_cons, hbehind, hkind, Bool.true_and, Bool.or_false, takes, headLead,
      headMargins?, List.head?_cons, Option.bind_some, hlies.offset_eq]
    cases hmargins : t.margins? (front ++ (t.lexeme ++ rest)) with
    | none =>
      simp only [hstop, decide_true, Bool.and_true]
      rfl
    | some margins =>
      have hstop : n < t.stop + margins.2.byteLength := by omega
      simp [hstop]

theorem lies_head (h : Tiled front ts rest) (ht : t ∈ ts.head?) :
    ∃ back, Lies (front ++ rest) front t back := by
  cases h with
  | nil => cases ht
  | run _ _ _ _ _ hpos =>
    cases ht
    exact ⟨_, rfl, hpos⟩
  | tag _ _ _ hpos =>
    cases ht
    exact ⟨_, rfl, hpos⟩

/-- A run between two tags is what they take of it and what is left. -/
theorem exists_cutRun {passed : Option Text} {run : Text} {cut : Bool}
    (h : Tiled (front ++ run) ts rest) (hfront : front = [] ∨ front.EndsSolid)
    (hrest : Text.EndsRun rest) (hpassed : Text.Passed (front ++ run) passed)
    (hcut : cut → ∃ trail, (run ++ rest).trail? = some trail) :
    ∃ trail, (cut → (run ++ rest).trail? = some trail) ∧ (cut = false → trail = []) ∧
      run = trail ++ (cutRun run cut (headIsAlone passed ts) ++
        headLead (front ++ run ++ rest) ts) := by
  -- First the end of the line of the tag in front, then the start of the line of the tag behind.
  obtain ⟨trail, run', htrail, hnil, hrun, hdrop, hends⟩ : ∃ trail run',
      (cut → (run ++ rest).trail? = some trail) ∧ (cut = false → trail = []) ∧
      run = trail ++ run' ∧ (if cut then run.dropLineEnd else run) = run' ∧
      (rest = [] ∨ trail = [] ∨ ∃ s, trail = s ++ ['\n']) := by
    cases cut with
    | false => exact ⟨[], run, by simp, by simp, rfl, rfl, .inr (.inl rfl)⟩
    | true =>
      obtain ⟨trail, htrail⟩ := hcut rfl
      obtain ⟨hrun, hends⟩ := Text.eq_append_dropLineEnd hrest htrail
      exact ⟨trail, _, fun _ => htrail, by simp, hrun, rfl, hends.imp_right .inr⟩
  refine ⟨trail, htrail, hnil, ?_⟩
  rw [cutRun, hdrop, h.headIsAlone_eq hpassed, headLead]
  cases hmargins : headMargins? (front ++ run ++ rest) ts with
  | none => simpa using hrun
  | some margins =>
    obtain ⟨lead, tail⟩ := margins
    obtain ⟨u, hu, hmargins⟩ := Option.bind_eq_some_iff.1 hmargins
    obtain ⟨back, hlies⟩ := h.lies_head hu
    have hlead := (hlies.margins?_eq_some_iff.1 hmargins).2.1
    have hne : rest ≠ [] := by
      rintro rfl
      have hempty := h.isEmpty_eq
      rw [List.isEmpty_iff.1 hempty] at hu
      cases hu
    rw [hrun] at hlead
    obtain ⟨mid, rfl, hmid⟩ := Text.exists_append_lead hfront (hends.resolve_left hne) hlead
    have hblank := (Text.lead?_eq_some_iff.1 hlead).1
    simpa [Text.dropTrailingBlanks_append hblank hmid] using hrun

/-- **What is left of the text runs.** The walk takes out of the runs the bytes that the tags take
in the template, and no others. -/
theorem runsOf_settleFrom {passed : Option Text} {cut : Bool} {gone : Nat → Bool}
    (h : Tiled front ts rest) (hpassed : Text.Passed front passed)
    (hfront : (front = [] ∨ front.EndsSolid) ∨ ∀ u ∈ ts.head?, u.kind ≠ .text)
    (hcut : cut → ∃ trail, rest.trail? = some trail)
    (hgone : ∀ n, front.byteLength ≤ n → gone n =
      (cut && decide (n < front.byteLength + (rest.trail?.getD []).byteLength) ||
        takesAny (front ++ rest) ts n)) :
    runsOf (settleFrom passed cut ts) = rest.keepFrom (fun n => !gone n) front.byteLength := by
  induction h generalizing passed cut gone with
  | nil => rfl
  | @run front t ts rest hkind hcontent hne hends hhead hpos _ _ htiled ih =>
    have hfront := hfront.resolve_right fun h => h t rfl hkind
    have hline := hpassed.extendLine t.lexeme
    obtain ⟨trail, htrail, hnil, hrun⟩ := htiled.exists_cutRun hfront hends hline hcut
    have hbytes := congrArg Text.byteLength hrun
    have hcutBytes : ∀ n, front.byteLength ≤ n →
        (cut && decide (n < front.byteLength + ((t.lexeme ++ rest).trail?.getD []).byteLength)) =
          decide (n < front.byteLength + trail.byteLength) := by
      intro n hn
      cases cut with
      | true => rw [htrail rfl]; rfl
      | false => simpa [hnil rfl] using hn
    have htakes : takesAny (front ++ (t.lexeme ++ rest)) (t :: ts) =
        takesAny (front ++ t.lexeme ++ rest) ts := by
      funext n
      simp [takesAny, hkind]
    rw [settleFrom_text hkind, runsOf_append, runsOf_settledRun cut _ hkind, hcontent,
      ih hline (.inr hhead) (by simp) (?_ : ∀ n, _ → gone n = _), Text.keepFrom_append, Text.byteLength_append]
    · congr 1
      conv => rhs; rw [hrun]
      symm
      apply Text.keepFrom_middle
      rw [← hrun]
      intro n hle hlt
      rw [hgone n hle, hcutBytes n hle, htakes,
        htiled.takesAny_before hhead (by rwa [Text.byteLength_append]), Text.byteLength_append]
      simp only [Bool.not_eq_true', Bool.or_eq_false_iff, decide_eq_false_iff_not]
      omega
    · intro n hle
      rw [Text.byteLength_append] at hle
      simp only [Text.byteLength_append] at hbytes
      rw [hgone n (by omega), hcutBytes n (by omega), htakes,
        decide_eq_false (by omega), Bool.false_and]
  | @tag front t ts rest hkind hstarts htagEnds hpos _ _ htiled ih =>
    have hlies : Lies (front ++ (t.lexeme ++ rest)) front t rest := ⟨rfl, hpos⟩
    have hnocut : cut = false := by
      cases cut with
      | false => rfl
      | true =>
        obtain ⟨trail, htrail⟩ := hcut rfl
        rw [Text.trail?_eq_none_of_startsSolid (hstarts.append _)] at htrail
        cases htrail
    have hnone : Text.Passed (front ++ t.lexeme) none :=
      Text.lead?_eq_none_of_endsSolid (htagEnds.append _)
    have halone := htiled.isAlone_eq hlies hpassed
    rw [settleFrom_tag hkind, runsOf_append, runsOf_settledTag _ _ hkind, List.nil_append,
      ih hnone (.inl (.inr (htagEnds.append _))) ?_ (?_ : ∀ n, _ → gone n = _), Text.keepFrom_append,
      Text.byteLength_append]
    · rw [Text.keepFrom_eq_nil (s := t.lexeme), List.nil_append]
      intro n hle hlt
      rw [← Text.byteLength_append] at hlt
      simp [hgone n hle, takesAny, hkind, hlies.takes_within hle hlt]
    · intro halone'
      rw [halone, Option.isSome_iff_exists] at halone'
      obtain ⟨⟨lead, trail⟩, hmargins⟩ := halone'
      exact ⟨trail, (hlies.margins?_eq_some_iff.1 hmargins).2.2⟩
    · intro n hle
      have hle' : front.byteLength ≤ n := by
        rw [Text.byteLength_append] at hle
        omega
      have hkind : (t.kind != .text) = true := by simpa using hkind
      rw [hgone n hle', hnocut, halone, takesAny, List.any_cons, hkind, Bool.true_and,
        hlies.takes_behind hle, List.append_assoc]
      rfl

/-- **The indents of references.** The walk hands to each reference the blanks that it takes in
front of it, and none to a reference that is not alone on its line. -/
theorem inclusionsOf_settleFrom {passed : Option Text} {cut : Bool} (h : Tiled front ts rest)
    (hpassed : Text.Passed front passed) :
    inclusionsOf (settleFrom passed cut ts) = inclusionsIn (front ++ rest) ts := by
  induction h generalizing passed cut with
  | nil => rfl
  | @run front t ts rest hkind hcontent _ _ _ _ _ _ _ ih =>
    have hline := hpassed.extendLine t.lexeme
    have hskip : inclusionsOf (settledRun cut (extendLine passed t.lexeme) t ts) = [] := by
      rw [settledRun]
      split <;> simp [inclusionsOf, hkind]
    rw [settleFrom_text hkind, hcontent, inclusionsOf_append, hskip, List.nil_append, ih hline,
      List.append_assoc]
    simp [inclusionsIn, hkind]
  | @tag front t ts rest hkind hstarts hends hpos _ hindent htiled ih =>
    have hlies : Lies (front ++ (t.lexeme ++ rest)) front t rest := ⟨rfl, hpos⟩
    have hnone : Text.Passed (front ++ t.lexeme) none :=
      Text.lead?_eq_none_of_endsSolid (hends.append _)
    rw [settleFrom_tag hkind, inclusionsOf_append, ih hnone, htiled.isAlone_eq hlies hpassed,
      List.append_assoc]
    by_cases hinclusion : t.kind = .inclusion
    · cases hmargins : t.margins? (front ++ (t.lexeme ++ rest)) with
      | none => simp [settledTag, inclusionsOf, inclusionsIn, hinclusion, Kind.isSilent, hmargins,
          hindent]
      | some margins =>
        have hlead := hlies.passed_eq hmargins hpassed
        simp [settledTag, inclusionsOf, inclusionsIn, hinclusion, Kind.isSilent, hmargins, hlead]
    · have hskip : inclusionsOf
          (settledTag passed (t.margins? (front ++ (t.lexeme ++ rest))).isSome t) = [] := by
        rw [settledTag]
        split
        · rfl
        · split <;> simp [inclusionsOf, hinclusion]
      rw [hskip]
      simp [inclusionsIn, hinclusion]

end Tiled

end Mustache.Token
